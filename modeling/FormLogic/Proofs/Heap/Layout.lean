import FormLogic.Proofs.Heap.Plain
import FormLogic.Proofs.Heap.RefTree

/-!
# `FormLogic.Proofs.Heap.Layout` — the values of plain trees

The value of a plain tree is laid out in new containers, the containers of a part before the one
that holds it. Parts of a row are laid out one behind the other, so they have no container in common,
and the value is a tree. What the tree shows of the plain tree is all there is in it: so the value has
the plain tree that it was made of, and nothing in it is lost when the tree is drawn again.

## Contents
- `RefTree.shape`, `RefTree.children`, `RefTree.node`: trees with references by their containers.
- `RefTree.Shows`: what such a tree shows; `Holds.plainWithin`, `Holds.plainThroughout`: its value.
- `Row`: a row of plain trees has been laid out; `Row.append`, `Row.alloc`: how rows grow.
- `ofPlain_laysOut`: the value of a plain tree; `plain_of_ofPlain`: drawing it again.
-/

namespace FormLogic

/-! ## Trees by their containers -/

namespace RefTree

/-- The shape of the container at the top. A leaf counts as a sequence of nothing. -/
def shape : RefTree → Shape
  | leaf _ => .sequence 0
  | mapping _ entries => .mapping (keysOf entries)
  | sequence _ items => .sequence items.length

/-- The trees right below the top. -/
def children : RefTree → List RefTree
  | leaf _ => []
  | mapping _ entries => entries.map Prod.snd
  | sequence _ items => items

/-- The tree of a container of the shape. -/
def node (r : Ref) : Shape → List RefTree → RefTree
  | .mapping keys, ts => mapping r (keys.zip ts)
  | .sequence _, ts => sequence r ts

variable {r : Ref} {shape : Shape} {ts : List RefTree}

theorem refsOfEntries_eq (entries : List (String × RefTree)) :
    refsOfEntries entries = refsOfItems (entries.map Prod.snd) := by
  induction entries with
  | nil => rfl
  | cons entry rest ih =>
    obtain ⟨key, t⟩ := entry
    rw [refsOfEntries, List.map_cons, refsOfItems, ih]

theorem value_node : (node r shape ts).value = .container r := by
  cases shape <;> rfl

theorem isContainer_node : (node r shape ts).isContainer = true := by
  cases shape <;> rfl

section

variable (length : shape.places.length = ts.length)

include length

theorem shape_node : (node r shape ts).shape = shape := by
  cases shape with
  | mapping keys =>
    rw [Shape.places, List.length_map] at length
    exact congrArg Shape.mapping (List.map_fst_zip length.le)
  | sequence n =>
    rw [Shape.places, List.length_map, List.length_range] at length
    exact congrArg Shape.sequence length.symm

theorem children_node : (node r shape ts).children = ts := by
  cases shape with
  | mapping keys =>
    rw [Shape.places, List.length_map] at length
    exact List.map_snd_zip length.ge
  | sequence n => rfl

theorem refs_node : (node r shape ts).refs = r :: refsOfItems ts := by
  have below := children_node (r := r) length
  cases shape with
  | mapping keys =>
    show r :: refsOfEntries (keys.zip ts) = _
    rw [refsOfEntries_eq]
    exact congrArg (fun ts => r :: refsOfItems ts) below
  | sequence n => rfl

end

/-- The tree shows the plain tree, with at most `depth` containers below each other. -/
def Shows : (depth : Nat) → RefTree → Json → Prop
  | _, leaf v, tree => v.isPlain = true ∧ .ofLeaf v = tree
  | 0, _, _ => False
  | depth + 1, t, tree =>
    ∃ trees, List.Forall₂ (Shows depth) t.children trees ∧ .ofShape t.shape trees = tree

variable {depth : Nat} {t : RefTree} {v : Value} {tree : Json}

theorem shows_leaf : Shows depth (leaf v) tree ↔ v.isPlain = true ∧ .ofLeaf v = tree := by
  cases depth <;> rfl

theorem shows_container (container : t.isContainer = true) : Shows (depth + 1) t tree ↔
    ∃ trees, List.Forall₂ (Shows depth) t.children trees ∧ .ofShape t.shape trees = tree := by
  cases t with
  | leaf v => cases container
  | _ => rfl

theorem not_shows_zero (container : t.isContainer = true) : ¬ Shows 0 t tree := by
  cases t with
  | leaf v => cases container
  | _ => exact id

theorem isKept_of_shows (shows : t.Shows depth tree) : Heap.isKept t.value = true := by
  cases t with
  | leaf v => exact Value.isKept_of_isPlain (shows_leaf.mp shows).1
  | _ => rfl

end RefTree

namespace Heap

open RefTree

variable {h k g : Heap} {v : Value} {t : RefTree} {r : Ref} {depth : Nat} {tree : Json}
  {trees : List Json} {ts : List RefTree}

/-- The value of a tree does not dangle. -/
theorem Holds.live (holds : h.Holds t) : h.Live t.value := by
  cases holds with
  | leaf scalar =>
    rintro r rfl
    cases scalar
  | mapping inside => exact live_container.mpr inside
  | sequence inside => exact live_container.mpr inside

/-- What a heap says of the container at the top of a tree. -/
theorem Holds.cell_eq (holds : h.Holds t) (top : t.value = .container r) :
    t.isContainer = true ∧ (h.cell r).shape = t.shape ∧
      (h.cell r).children = t.children.map value ∧ ∀ u ∈ t.children, h.Holds u := by
  cases holds with
  | leaf scalar =>
    cases top
    cases scalar
  | @mapping s fields entries inside cell shown below =>
    obtain rfl := Value.container.inj top
    rw [cell]
    refine ⟨rfl, ?_, ?_, ?_⟩
    · show Shape.mapping (keysOf fields.entries) = .mapping (keysOf entries)
      rw [shown, keysOf_valuesOf]
    · show fields.entries.map Prod.snd = (entries.map Prod.snd).map value
      rw [shown, valuesOf, List.map_map, List.map_map]
      rfl
    · intro u mem
      obtain ⟨entry, here, rfl⟩ := List.mem_map.mp (show u ∈ entries.map Prod.snd from mem)
      exact below entry here
  | @sequence s items inside cell below =>
    obtain rfl := Value.container.inj top
    rw [cell]
    refine ⟨rfl, ?_, rfl, below⟩
    show Shape.sequence (items.map value).toArray.size = .sequence items.length
    simp

/-- A container that holds the values of some trees is the top of a tree. -/
theorem Holds.node (inside : r < h.size) (children : (h.cell r).children = ts.map value)
    (holds : ∀ t ∈ ts, h.Holds t) : h.Holds (node r (h.cell r).shape ts) := by
  cases cell : h.cell r with
  | mapping fields =>
    rw [cell] at children
    refine .mapping inside cell ?_ fun entry mem => holds _ (List.of_mem_zip mem).2
    have zipped := List.zip_unzip fields.entries
    rw [List.unzip_fst, List.unzip_snd] at zipped
    have values : fields.entries.map Prod.snd = ts.map value := children
    rw [← zipped, values, List.zip_map_right]
    rfl
  | sequence items =>
    rw [cell] at children
    have values : items.toList = ts.map value := children
    refine .sequence inside ?_ holds
    rw [cell, ← values]

theorem plainWithin_of_shows_leaf (scalar : v.isContainer = false)
    (shows : Shows depth (.leaf v) tree) : h.plainWithin depth v = some tree := by
  obtain ⟨-, rfl⟩ := shows_leaf.mp shows
  exact plainWithin_of_leaf scalar h depth

/-- The value of a tree has the plain tree that is shown. -/
theorem Holds.plainWithin (holds : h.Holds t) (shows : t.Shows depth tree) :
    h.plainWithin depth t.value = some tree := by
  induction depth generalizing t tree with
  | zero =>
    cases holds with
    | leaf scalar => exact plainWithin_of_shows_leaf scalar shows
    | _ => exact absurd shows (not_shows_zero rfl)
  | succ depth ih =>
    rcases t.value.leaf_or_container with leaf | ⟨r, top⟩
    · cases holds with
      | leaf scalar => exact plainWithin_of_shows_leaf scalar shows
      | _ => cases leaf
    · obtain ⟨container, shape, children, below⟩ := holds.cell_eq top
      obtain ⟨trees, shown, rfl⟩ := (shows_container container).mp shows
      have kept : (h.cell r).kept = h.cell r := by
        refine Cell.kept_eq_self fun w held => ?_
        rw [children] at held
        obtain ⟨u, mem, rfl⟩ := List.mem_map.mp held
        obtain ⟨tree, shows⟩ := exists_forall₂_iff.mp ⟨trees, shown⟩ u mem
        exact isKept_of_shows shows
      rw [top, plainWithin_container_iff, kept, shape, children]
      refine ⟨trees, ?_, rfl⟩
      rw [List.forall₂_map_left_iff]
      exact ((List.forall₂_and_left _ _).mpr ⟨below, shown⟩).imp fun u tree here => ih here.1 here.2

/-- Below a tree that shows a plain tree, every tree shows one. -/
theorem Holds.child_shows (holds : h.Holds t) (shows : t.Shows depth tree)
    (top : t.value = .container r) (held : v ∈ (h.cell r).children) :
    ∃ u depth tree, h.Holds u ∧ u.Shows depth tree ∧ u.value = v := by
  obtain ⟨container, -, children, below⟩ := holds.cell_eq top
  rw [children] at held
  obtain ⟨u, mem, rfl⟩ := List.mem_map.mp held
  cases depth with
  | zero => exact absurd shows (not_shows_zero container)
  | succ depth =>
    obtain ⟨trees, shown, -⟩ := (shows_container container).mp shows
    obtain ⟨tree, shows⟩ := exists_forall₂_iff.mp ⟨trees, shown⟩ u mem
    exact ⟨u, depth, tree, below u mem, shows, rfl⟩

/-- A tree that shows a plain tree has nothing in it that the plain tree loses. -/
theorem Holds.plainThroughout (holds : h.Holds t) (shows : t.Shows depth tree) :
    h.PlainThroughout t.value := by
  intro w reached
  obtain ⟨u, depth, tree, -, shows, rfl⟩ :
      ∃ u depth tree, h.Holds u ∧ u.Shows depth tree ∧ u.value = w := by
    refine reached.within
      (P := fun w => ∃ u depth tree, h.Holds u ∧ u.Shows depth tree ∧ u.value = w) ?_ ?_
    · rintro _ rfl
      exact ⟨t, depth, tree, holds, shows, rfl⟩
    · rintro r ⟨u, depth, tree, holds, shows, top⟩ w held
      exact holds.child_shows shows top held
  cases u with
  | leaf v => exact (shows_leaf.mp shows).1
  | _ => rfl

/-! ## Rows -/

/-- From `k` to `g` the plain trees have been laid out in new containers, none of them shared. -/
structure Row (depth : Nat) (k g : Heap) (ts : List RefTree) (trees : List Json) : Prop where
  extended : k.Extends g
  closed : k.Closed → g.Closed
  holds : ∀ t ∈ ts, g.Holds t
  shows : List.Forall₂ (RefTree.Shows depth) ts trees
  nodup : (refsOfItems ts).Nodup
  new : ∀ r ∈ refsOfItems ts, k.size ≤ r ∧ r < g.size

namespace Row

variable {ts' : List RefTree} {trees' : List Json} {shape : Shape} {c : Cell}

theorem nil (depth : Nat) (k : Heap) : Row depth k k [] [] where
  extended := .refl k
  closed := id
  holds _ mem := nomatch mem
  shows := .nil
  nodup := List.nodup_nil
  new _ mem := nomatch mem

/-- A scalar is there already. -/
theorem leaf (scalar : v.isContainer = false) (plain : v.isPlain = true) (depth : Nat) (k : Heap) :
    Row depth k k [.leaf v] [.ofLeaf v] where
  extended := .refl k
  closed := id
  holds := List.forall_mem_singleton.mpr (.leaf scalar)
  shows := .cons (shows_leaf.mpr ⟨plain, rfl⟩) .nil
  nodup := List.nodup_nil
  new _ mem := nomatch mem

/-- What has been laid out stays as it is. -/
theorem still (row : Row depth k g ts trees) (extended : g.Extends h) : ∀ t ∈ ts, h.Holds t := by
  intro t mem
  refine (row.holds t mem).congr extended.grown fun r inside => extended.cells ?_
  exact (row.new r (mem_refsOfItems.mpr ⟨t, mem, inside⟩)).2

/-- One row is laid out behind the other. -/
theorem append (first : Row depth k g ts trees) (second : Row depth g h ts' trees') :
    Row depth k h (ts ++ ts') (trees ++ trees') where
  extended := first.extended.trans second.extended
  closed := second.closed ∘ first.closed
  holds t mem := by
    rcases List.mem_append.mp mem with here | there
    · exact first.still second.extended t here
    · exact second.holds t there
  shows := List.rel_append first.shows second.shows
  nodup := by
    rw [refsOfItems_append]
    refine List.nodup_append.mpr ⟨first.nodup, second.nodup, ?_⟩
    rintro r mem s mem' rfl
    exact absurd (first.new r mem).2 (Nat.not_lt.mpr (second.new r mem').1)
  new r mem := by
    rw [refsOfItems_append] at mem
    rcases List.mem_append.mp mem with here | there
    · obtain ⟨low, high⟩ := first.new r here
      exact ⟨low, Nat.lt_of_lt_of_le high second.extended.grown⟩
    · obtain ⟨low, high⟩ := second.new r there
      exact ⟨Nat.le_trans first.extended.grown low, high⟩

/-- A container is made behind what it holds. -/
theorem alloc (row : Row depth k g ts trees) (children : c.children = ts.map value) :
    Row (depth + 1) k (g.alloc c).2 [node g.size c.shape ts] [.ofShape c.shape trees] := by
  have length : c.shape.places.length = ts.length := by
    rw [Cell.length_places, children, List.length_map]
  have made : (g.alloc c).2.cell g.size = c := by rw [cell_alloc, if_pos rfl]
  have refs : refsOfItems [RefTree.node g.size c.shape ts] = g.size :: refsOfItems ts := by
    rw [refsOfItems, refs_node length]
    exact List.append_nil _
  have grown : g.Extends (g.alloc c).2 := .alloc g c
  refine ⟨row.extended.trans grown, fun closed => ?_, ?_, ?_, ?_, ?_⟩
  · intro r v held
    rw [cell_alloc] at held
    split at held
    · rw [children] at held
      obtain ⟨t, mem, rfl⟩ := List.mem_map.mp held
      exact (row.holds t mem).live.mono grown.grown
    · exact (row.closed closed r v held).mono grown.grown
  · have inside : g.size < (g.alloc c).2.size := by
      rw [size_alloc]
      exact Nat.lt_succ_self _
    have top := Holds.node inside ((congrArg Cell.children made).trans children) (row.still grown)
    rw [made] at top
    exact List.forall_mem_singleton.mpr top
  · refine .cons ((shows_container isContainer_node).mpr ⟨trees, ?_, ?_⟩) .nil
    · rw [children_node length]
      exact row.shows
    · rw [shape_node length]
  · rw [refs]
    refine List.nodup_cons.mpr ⟨fun old => ?_, row.nodup⟩
    exact absurd (row.new _ old).2 (Nat.lt_irrefl _)
  · rw [refs, size_alloc]
    refine List.forall_mem_cons.mpr ⟨⟨row.extended.grown, Nat.lt_succ_self _⟩, fun r old => ?_⟩
    exact ⟨(row.new r old).1, Nat.lt_succ_of_lt (row.new r old).2⟩

end Row

/-! ## The value of a plain tree -/

/-- The value of a leaf's tree is a leaf, has the same tree, and is kept by it. -/
theorem ofPlain_ofLeaf (leaf : v.isContainer = false) (k : Heap) :
    ∃ w, k.ofPlain (.ofLeaf v) = (w, k) ∧ w.isContainer = false ∧ w.isPlain = true ∧
      Json.ofLeaf w = .ofLeaf v := by
  cases v with
  | container r => cases leaf
  | number x =>
    have tree : Json.ofLeaf (.number x) = .ofFloat x := rfl
    rw [tree]
    rcases Json.ofFloat_cases x with ⟨n, -, small, same⟩ | ⟨finite, same⟩ | ⟨-, same⟩
    · rw [same]
      refine ⟨.number (Float.ofInt n), rfl, rfl, ?_, Json.ofFloat_ofInt small⟩
      exact Number.isFinite_of_integer? (Number.integer?_ofInt small)
    · rw [same]
      exact ⟨.number x, rfl, rfl, finite, same⟩
    · rw [same]
      exact ⟨.null, rfl, rfl, rfl, rfl⟩
  | bool b => exact ⟨.bool b, rfl, rfl, rfl, rfl⟩
  | string s => exact ⟨.string s, rfl, rfl, rfl, rfl⟩
  | undefined | null | foreign => exact ⟨.null, rfl, rfl, rfl, rfl⟩

/-- The plain tree is laid out as one tree wherever its value is made. -/
def LaysOut (depth : Nat) (tree : Json) : Prop :=
  ∀ k : Heap, ∃ t g, k.ofPlain tree = (t.value, g) ∧ Row depth k g [t] [tree]

theorem ofPlainItems_row (each : ∀ tree ∈ trees, LaysOut depth tree) (items : Array Value)
    (k : Heap) : ∃ ts g, k.ofPlainItems items trees = (items ++ (ts.map value).toArray, g) ∧
      Row depth k g ts trees := by
  induction trees generalizing items k with
  | nil => exact ⟨[], k, by simp [ofPlainItems], .nil depth k⟩
  | cons tree rest ih =>
    obtain ⟨t, g', first, row⟩ := each tree List.mem_cons_self k
    obtain ⟨ts, g, others, rows⟩ := ih (fun tree mem => each tree (List.mem_cons_of_mem _ mem))
      (items.push t.value) g'
    refine ⟨t :: ts, g, ?_, row.append rows⟩
    unfold ofPlainItems
    rw [first]
    dsimp only
    rw [others]
    simp

theorem ofPlainEntries_row {keys : List String} (each : ∀ tree ∈ trees, LaysOut depth tree)
    (length : keys.length = trees.length) (fields : Fields Value)
    (nodup : (fields.keys ++ keys).Nodup) (k : Heap) :
    ∃ ts g all, k.ofPlainEntries fields (keys.zip trees) = (all, g) ∧
      all.entries = fields.entries ++ keys.zip (ts.map value) ∧ Row depth k g ts trees := by
  induction trees generalizing keys fields k with
  | nil =>
    obtain rfl := List.length_eq_zero_iff.mp length
    exact ⟨[], k, fields, rfl, (List.append_nil _).symm, .nil depth k⟩
  | cons tree rest ih =>
    obtain ⟨key, keys, rfl⟩ := List.exists_cons_of_length_eq_add_one length
    have new : key ∉ fields.keys := by
      intro old
      exact (List.nodup_append.mp nodup).2.2 key old key List.mem_cons_self rfl
    obtain ⟨t, g', first, row⟩ := each tree List.mem_cons_self k
    have nodup' : ((fields.insert key t.value).keys ++ keys).Nodup := by
      rw [Fields.keys_insert, if_neg new, List.append_assoc]
      exact nodup
    obtain ⟨ts, g, all, others, entries, rows⟩ := ih
      (fun tree mem => each tree (List.mem_cons_of_mem _ mem)) (Nat.succ.inj length)
      (fields.insert key t.value) nodup' g'
    refine ⟨t :: ts, g, all, ?_, ?_, row.append rows⟩
    · rw [List.zip_cons_cons]
      unfold ofPlainEntries
      rw [first]
      exact others
    · rw [entries]
      show insertEntry key t.value fields.entries ++ _ = _
      rw [insertEntry_eq_append new, List.append_assoc]
      rfl

theorem laysOut_leaf (leaf : v.isContainer = false) : LaysOut depth (.ofLeaf v) := by
  intro k
  obtain ⟨w, ends, scalar, plain, same⟩ := ofPlain_ofLeaf leaf k
  exact ⟨.leaf w, k, ends, same ▸ Row.leaf scalar plain depth k⟩

theorem laysOut_container {shape : Shape} (each : ∀ tree ∈ trees, LaysOut depth tree)
    (length : shape.places.length = trees.length) (nodup : shape.places.Nodup) :
    LaysOut (depth + 1) (.ofShape shape trees) := by
  intro k
  cases shape with
  | sequence n =>
    obtain ⟨ts, g, made, row⟩ := ofPlainItems_row each #[] k
    refine ⟨_, _, ?_, row.alloc (c := .sequence (ts.map value).toArray) rfl⟩
    rw [value_node]
    show k.ofPlain (.array trees) = _
    unfold ofPlain
    rw [made]
    simp [alloc]
  | mapping keys =>
    have count : keys.length = trees.length := by rwa [Shape.places, List.length_map] at length
    obtain ⟨ts, g, fields, made, entries, row⟩ :=
      ofPlainEntries_row each count .empty (List.Nodup.of_map _ nodup) k
    have zipped : fields.entries = keys.zip (ts.map value) := entries
    have same : keys.length = (ts.map value).length := by
      rw [List.length_map, row.shows.length_eq, count]
    have shape : Cell.shape (.mapping fields) = .mapping keys := by
      show Shape.mapping (fields.entries.map Prod.fst) = _
      rw [zipped, List.map_fst_zip same.le]
    have children : Cell.children (.mapping fields) = ts.map value := by
      show fields.entries.map Prod.snd = _
      rw [zipped, List.map_snd_zip same.ge]
    refine ⟨_, _, ?_, shape ▸ row.alloc children⟩
    rw [value_node]
    show k.ofPlain (.object (keys.zip trees)) = _
    unfold ofPlain
    rw [made]
    rfl

/-- The plain tree of a value is laid out as a tree. -/
theorem ofPlain_laysOut (found : h.plainWithin depth v = some tree) : LaysOut depth tree := by
  induction depth generalizing v tree with
  | zero =>
    rcases v.leaf_or_container with leaf | ⟨r, rfl⟩
    · rw [plainWithin_of_leaf leaf] at found
      exact Option.some.inj found ▸ laysOut_leaf leaf
    · cases found
  | succ depth ih =>
    rcases v.leaf_or_container with leaf | ⟨r, rfl⟩
    · rw [plainWithin_of_leaf leaf] at found
      exact Option.some.inj found ▸ laysOut_leaf leaf
    · obtain ⟨trees, below, rfl⟩ := plainWithin_container_iff.mp found
      refine laysOut_container (fun tree mem => ?_) ?_ (Cell.nodup_places _)
      · obtain ⟨w, here⟩ := exists_forall₂_iff.mp ⟨_, below.flip⟩ tree mem
        exact ih here
      · rw [Cell.length_places, below.length_eq]

theorem plain_eq_ok_iff {maxDepth : Nat} :
    h.plain maxDepth v = .ok tree ↔ h.plainWithin maxDepth v = some tree := by
  unfold plain
  cases h.plainWithin maxDepth v <;> simp

/-- **Drawing a plain tree is a projection.** The value of a plain tree, wherever it is made, has no
mark of absence in it, no handle, and no number that is not finite; and under the same limit its plain
tree is the one it was made of. -/
theorem plain_of_ofPlain {maxDepth : Nat} (found : h.plain maxDepth v = .ok tree) (k : Heap) :
    (∀ w, (k.ofPlain tree).2.Reach {(k.ofPlain tree).1} w → w.isPlain = true) ∧
      (k.ofPlain tree).2.plain maxDepth (k.ofPlain tree).1 = .ok tree := by
  obtain ⟨t, g, made, row⟩ := ofPlain_laysOut (plain_eq_ok_iff.mp found) k
  have holds := row.holds t List.mem_cons_self
  obtain ⟨shows, -⟩ := List.forall₂_cons.mp row.shows
  rw [made]
  exact ⟨holds.plainThroughout shows, plain_eq_ok_iff.mpr (holds.plainWithin shows)⟩

/-- A mapping and a sequence with everything that plain trees lose, side by side. -/
theorem plain_of_ofPlain_lossy :
    let h : Heap := ⟨#[.mapping (.ofList [("due", .foreign "date"), ("note", .undefined),
        ("ratio", .number Number.nan), ("rows", .container 1)]),
      .sequence #[.foreign "date", .undefined, .number (-0), .number Number.infinity, .container 2],
      .mapping (.ofList [("half", .number (Float.ofBits 0x3FE0000000000000))])]⟩
    let tree : Json := .object [("ratio", .null), ("rows", .array [.null, .null, .int 0, .null,
      .object [("half", .float (Float.ofBits 0x3FE0000000000000))]])]
    h.plain 3 (.container 0) = .ok tree ∧
      (∀ w, (h.ofPlain tree).2.Reach {(h.ofPlain tree).1} w → w.isPlain = true) ∧
        (h.ofPlain tree).2.plain 3 (h.ofPlain tree).1 = .ok tree := by
  intro h tree
  have found : h.plain 3 (.container 0) = .ok tree := by
    have lossy : ∀ zero, Json.ofFloat (-0) = zero → h.plain 3 (.container 0) =
        .ok (.object [("ratio", .null), ("rows", .array [.null, .null, zero, .null,
          .object [("half", .float (Float.ofBits 0x3FE0000000000000))]])]) := by
      rintro _ rfl
      rfl
    exact lossy _ Json.ofFloat_neg_zero
  exact ⟨found, plain_of_ofPlain found h⟩

end Heap

end FormLogic
