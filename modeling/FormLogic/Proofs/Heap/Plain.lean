import FormLogic.Proofs.Heap.Equality
import FormLogic.Proofs.Heap.Reading
import FormLogic.Proofs.Number.Integer

/-!
# `FormLogic.Proofs.Heap.Plain` — the plain trees of values

The plain tree of a container is put together from those of the values that are kept, and it tells
the shape of the container. So a value has a plain tree if its containers do not nest too deep, that
is, if no way down from it is too long; and the tree is that of the unfolding, whatever is shared.
Marks of absence, handles and numbers that are not finite leave no trace. A value that leads to none
of these can be told from its tree, up to the sign of zero, which deep equality does not see either.

## Contents
- `Value.isPlain`, `Cell.kept`: what plain trees keep; `Json.ofLeaf`, `Json.ofShape`: their forms.
- `plainWithin_container`: the tree of a container; `exists_plainWithin_iff`: values with a tree.
- `Route`, `not_nestsWithin_iff`: ways down, on which containers may come twice.
- `plainWithin_of_alike`: the tree is that of the unfolding.
- `PlainThroughout`, `equal_of_plainWithin`: values that are equal because they have the same tree.
-/

namespace FormLogic

/-! ## Scalars and handles -/

/-- Whether a plain tree keeps the value: not the mark of absence, a handle, or a number that is not
finite. -/
def Value.isPlain : Value → Bool
  | .undefined | .foreign _ => false
  | .number x => x.isFinite
  | _ => true

/-- The plain tree of a scalar or handle. -/
def Json.ofLeaf : Value → Json
  | .bool b => .bool b
  | .number x => .ofFloat x
  | .string s => .string s
  | _ => .null

/-- The plain tree of a container of the shape, given those of its values. -/
def Json.ofShape : Shape → List Json → Json
  | .mapping keys, trees => .object (keys.zip trees)
  | .sequence _, trees => .array trees

/-- The container without the entries that plain trees leave out. -/
def Cell.kept : Cell → Cell
  | .mapping fields =>
    .mapping ⟨fields.entries.filter fun entry => Heap.isKept entry.2,
      fields.nodup.sublist (List.filter_sublist.map Prod.fst)⟩
  | .sequence items => .sequence items

theorem Value.isKept_of_isPlain {v : Value} (plain : v.isPlain = true) : Heap.isKept v = true := by
  cases v with
  | undefined | foreign => cases plain
  | _ => rfl

/-- What is left out is no container. -/
theorem Value.leaf_of_not_isKept {v : Value} (out : Heap.isKept v = false) :
    v.isContainer = false := by
  cases v with
  | container r => cases out
  | _ => rfl

theorem Json.ofFloat_of_isFinite {x : Float} (finite : x.isFinite = true) :
    (∃ n, ofFloat x = .int n) ∨ ofFloat x = .float x := by
  rcases ofFloat_cases x with ⟨n, -, -, tree⟩ | ⟨-, tree⟩ | ⟨infinite, -⟩
  · exact Or.inl ⟨n, tree⟩
  · exact Or.inr tree
  · rw [infinite] at finite
    cases finite

/-- Only numbers have the trees of finite numbers. -/
theorem Value.number_of_ofFloat_eq {x : Float} {v : Value} (finite : x.isFinite = true)
    (same : Json.ofFloat x = .ofLeaf v) : ∃ y, v = .number y := by
  cases v with
  | number y => exact ⟨y, rfl⟩
  | _ => rcases Json.ofFloat_of_isFinite finite with ⟨n, tree⟩ | tree <;> cases tree.symm.trans same

/-- Values that a plain tree keeps are identical if they have the same tree. -/
theorem Value.same_of_ofLeaf_eq {v w : Value} (leaf : v.isContainer = false)
    (plain : v.isPlain = true) (leaf' : w.isContainer = false) (plain' : w.isPlain = true)
    (same : Json.ofLeaf v = .ofLeaf w) : v.same w = true := by
  by_cases number : ∃ x, v = .number x
  · obtain ⟨x, rfl⟩ := number
    obtain ⟨y, rfl⟩ := number_of_ofFloat_eq plain same
    exact Json.beq_of_ofFloat_eq plain same
  · cases w with
    | number y =>
      exact absurd (number_of_ofFloat_eq plain' same.symm) number
    | container r => cases leaf'
    | undefined | foreign => cases plain'
    | null | bool | string =>
      cases v with
      | number x => exact absurd ⟨x, rfl⟩ number
      | container r => cases leaf
      | undefined | foreign => cases plain
      | _ => cases same <;> exact same_self rfl

/-! ## The plain tree of a container -/

/-- Reading a row of values succeeds if reading each of them does. -/
theorem mapM_eq_some_iff {α β : Type} {f : α → Option β} {as : List α} {bs : List β} :
    as.mapM f = some bs ↔ List.Forall₂ (fun a b => f a = some b) as bs := by
  induction as generalizing bs with
  | nil =>
    rw [List.mapM_nil, List.forall₂_nil_left_iff]
    exact Option.some_inj.trans eq_comm
  | cons a as ih =>
    simp only [List.mapM_cons, Option.bind_eq_bind, Option.bind_eq_some_iff, Option.pure_def,
      Option.some_inj, List.forall₂_cons_left_iff, ih, exists_and_left, eq_comm (b := bs)]

/-- Each value of a row has a partner if there is a row of partners. -/
theorem exists_forall₂_iff {α β : Type} {R : α → β → Prop} {as : List α} :
    (∃ bs, List.Forall₂ R as bs) ↔ ∀ a ∈ as, ∃ b, R a b := by
  induction as with
  | nil => simp
  | cons a as ih =>
    simp only [List.forall₂_cons_left_iff, List.forall_mem_cons, ← ih]
    constructor
    · rintro ⟨_, b, bs, first, rest, rfl⟩
      exact ⟨⟨b, first⟩, bs, rest⟩
    · rintro ⟨⟨b, first⟩, bs, rest⟩
      exact ⟨b :: bs, b, bs, first, rest, rfl⟩

theorem forall₂_trans {α β γ : Type} {R : α → β → Prop} {S : β → γ → Prop} {as : List α}
    {bs : List β} {cs : List γ} (first : List.Forall₂ R as bs) (second : List.Forall₂ S bs cs) :
    List.Forall₂ (fun a c => ∃ b, R a b ∧ S b c) as cs := by
  induction first generalizing cs with
  | nil =>
    cases second
    exact .nil
  | cons head _ ih =>
    cases second with
    | cons head' rest' => exact .cons ⟨_, head, head'⟩ (ih rest')

namespace Cell

variable {c : Cell} {v : Value}

/-- Values of containers of the same shape that are related in order are so at each place. -/
theorem related_at {c' : Cell} {w : Value} {place : Place} {R : Value → Value → Prop}
    (shape : c'.shape = c.shape) (related : List.Forall₂ R c.children c'.children)
    (held : c.at? place = some v) (held' : c'.at? place = some w) : R v w := by
  obtain ⟨i, here, child⟩ := at?_eq_some_iff.mp held
  obtain ⟨j, there, child'⟩ := at?_eq_some_iff.mp held'
  rw [shape] at there
  obtain ⟨inside, _⟩ := List.getElem?_eq_some_iff.mp here
  obtain rfl : i = j := (List.getElem?_inj inside c.nodup_places).mp (here.trans there.symm)
  obtain ⟨bound, rfl⟩ := List.getElem?_eq_some_iff.mp child
  obtain ⟨bound', rfl⟩ := List.getElem?_eq_some_iff.mp child'
  exact related.get bound bound'

theorem mem_children_of_kept (held : v ∈ c.kept.children) : v ∈ c.children := by
  cases c with
  | sequence items => exact held
  | mapping fields => exact (List.filter_sublist.map Prod.snd).subset held

/-- Only leaves are left out. -/
theorem kept_or_leaf (held : v ∈ c.children) : v ∈ c.kept.children ∨ v.isContainer = false := by
  cases c with
  | sequence items => exact Or.inl held
  | mapping fields =>
    obtain ⟨entry, mem, rfl⟩ := List.mem_map.mp held
    cases keeps : Heap.isKept entry.2 with
    | true => exact Or.inl (List.mem_map_of_mem (List.mem_filter.mpr ⟨mem, keeps⟩))
    | false => exact Or.inr (Value.leaf_of_not_isKept keeps)

/-- If all values are kept, the container is as it was. -/
theorem kept_eq_self (keeps : ∀ v ∈ c.children, Heap.isKept v = true) : c.kept = c := by
  cases c with
  | sequence items => rfl
  | mapping fields =>
    refine congrArg mapping (Fields.ext (List.filter_eq_self.mpr fun entry mem => ?_))
    exact keeps entry.2 (List.mem_map_of_mem mem)

end Cell

namespace Heap

variable {h k : Heap} {v w : Value} {r : Ref} {depth : Nat} {tree : Json} {trees : List Json}

theorem plainWithin_of_leaf (leaf : v.isContainer = false) (h : Heap) (depth : Nat) :
    h.plainWithin depth v = some (.ofLeaf v) := by
  cases v with
  | container r => cases leaf
  | _ => cases depth <;> rfl

/-- The trees of entries are those of their values, with the keys. -/
theorem mapM_entries {f : Value → Option Json} (entries : List (String × Value)) :
    entries.mapM (fun entry => (f entry.2).map fun tree => (entry.1, tree)) =
      ((entries.map Prod.snd).mapM f).map (keysOf entries).zip := by
  induction entries with
  | nil => rfl
  | cons entry rest ih =>
    obtain ⟨key, v⟩ := entry
    rw [List.mapM_cons, List.map_cons, List.mapM_cons, ih]
    cases f v with
    | none => rfl
    | some tree => cases (rest.map Prod.snd).mapM f <;> rfl

/-- The plain tree of a container is put together from those of the values that are kept. -/
theorem plainWithin_container (h : Heap) (depth : Nat) (r : Ref) :
    h.plainWithin (depth + 1) (.container r) =
      ((h.cell r).kept.children.mapM (h.plainWithin depth)).map
        (.ofShape (h.cell r).kept.shape) := by
  unfold plainWithin
  cases h.cell r with
  | sequence items => rfl
  | mapping fields =>
    dsimp only
    rw [mapM_entries, Option.map_map]
    rfl

theorem plainWithin_container_iff :
    h.plainWithin (depth + 1) (.container r) = some tree ↔
      ∃ trees, List.Forall₂ (fun v tree => h.plainWithin depth v = some tree)
        (h.cell r).kept.children trees ∧ .ofShape (h.cell r).kept.shape trees = tree := by
  rw [plainWithin_container, Option.map_eq_some_iff]
  exact exists_congr fun trees => and_congr_left' mapM_eq_some_iff

theorem NestsWithin.of_leaf (leaf : v.isContainer = false) : h.NestsWithin depth v := by
  have shallow : h.NestsWithin 0 v := leaf
  exact shallow.mono (Nat.zero_le depth)

theorem nestsWithin_container :
    h.NestsWithin (depth + 1) (.container r) ↔ ∀ w ∈ (h.cell r).children, h.NestsWithin depth w :=
  ⟨fun nests => nests r rfl, fun below _ same => Value.container.inj same ▸ below⟩

/-- **A value has a plain tree** if its containers do not nest deeper than the limit. -/
theorem exists_plainWithin_iff :
    (∃ tree, h.plainWithin depth v = some tree) ↔ h.NestsWithin depth v := by
  induction depth generalizing v with
  | zero =>
    rcases v.leaf_or_container with leaf | ⟨r, rfl⟩
    · exact iff_of_true ⟨_, plainWithin_of_leaf leaf h 0⟩ leaf
    · exact iff_of_false nofun nofun
  | succ depth ih =>
    rcases v.leaf_or_container with leaf | ⟨r, rfl⟩
    · exact iff_of_true ⟨_, plainWithin_of_leaf leaf h _⟩ (.of_leaf leaf)
    · rw [nestsWithin_container]
      constructor
      · rintro ⟨tree, found⟩ w held
        obtain ⟨trees, below, -⟩ := plainWithin_container_iff.mp found
        rcases Cell.kept_or_leaf held with kept | leaf
        · exact ih.mp (exists_forall₂_iff.mp ⟨trees, below⟩ w kept)
        · exact .of_leaf leaf
      · intro nests
        obtain ⟨trees, below⟩ := exists_forall₂_iff.mpr fun w kept =>
          ih.mpr (nests w (Cell.mem_children_of_kept kept))
        exact ⟨_, plainWithin_container_iff.mpr ⟨trees, below, rfl⟩⟩

/-! ## Ways down -/

/-- Containers below each other, whether or not they are different: the first is the value itself,
and each of the others is held by the one before it. -/
structure Route (h : Heap) (v : Value) (refs : List Ref) : Prop where
  start : refs.head?.map Value.container = some v
  held : refs.IsChain fun r s => .container s ∈ (h.cell r).children

namespace Route

variable {refs : List Ref}

theorem ne_nil (route : h.Route v refs) : refs ≠ [] := by
  rintro rfl
  cases route.start

/-- A way down can start one container earlier. -/
theorem cons (held : v ∈ (h.cell r).children) (route : h.Route v refs) :
    h.Route (.container r) (r :: refs) := by
  refine ⟨rfl, ?_⟩
  cases refs with
  | nil => exact .singleton r
  | cons s refs =>
    obtain rfl : .container s = v := Option.some.inj route.start
    exact .cons_cons held route.held

/-- Behind its first container, a way down goes on from one of the values there. -/
theorem tail {s : Ref} (route : h.Route v (r :: s :: refs)) :
    v = .container r ∧ .container s ∈ (h.cell r).children ∧ h.Route (.container s) (s :: refs) := by
  obtain ⟨next, rest⟩ := List.isChain_cons_cons.mp route.held
  exact ⟨(Option.some.inj route.start).symm, next, rfl, rest⟩

end Route

/-- Containers nest too deep if some way down is too long. -/
theorem not_nestsWithin_iff :
    ¬ h.NestsWithin depth v ↔ ∃ refs, h.Route v refs ∧ depth < refs.length := by
  induction depth generalizing v with
  | zero =>
    rcases v.leaf_or_container with leaf | ⟨r, rfl⟩
    · refine iff_of_false (not_not.mpr leaf) ?_
      rintro ⟨refs, route, -⟩
      cases refs with
      | nil => exact route.ne_nil rfl
      | cons r refs =>
        obtain rfl : .container r = v := Option.some.inj route.start
        cases leaf
    · exact iff_of_true nofun ⟨[r], ⟨rfl, .singleton r⟩, Nat.one_pos⟩
  | succ depth ih =>
    constructor
    · intro deep
      rcases v.leaf_or_container with leaf | ⟨r, rfl⟩
      · exact absurd (.of_leaf leaf) deep
      · rw [nestsWithin_container] at deep
        obtain ⟨w, held, deeper⟩ : ∃ w ∈ (h.cell r).children, ¬ h.NestsWithin depth w := by
          simpa using deep
        obtain ⟨refs, route, long⟩ := ih.mp deeper
        exact ⟨r :: refs, route.cons held, Nat.succ_lt_succ long⟩
    · rintro ⟨refs, route, long⟩ nests
      match refs with
      | [] | [_] => simp at long
      | r :: s :: refs =>
        obtain ⟨rfl, held, rest⟩ := route.tail
        exact ih.mpr ⟨_, rest, Nat.lt_of_succ_lt_succ long⟩ (nests r rfl _ held)

/-! ## Values that unfold alike -/

theorem Alike.isKept_eq (alike : h.Alike k v w) : isKept w = isKept v := by
  rcases v.leaf_or_container with leaf | ⟨r, rfl⟩
  · rw [alike.eq_of_leaf leaf]
  · obtain ⟨s, rfl⟩ := alike.exists_container
    rfl

/-- Of entries with the same keys and related values, related ones are kept. -/
theorem forall₂_kept {R : Value → Value → Prop} (keeps : ∀ v w, R v w → isKept w = isKept v)
    {entries entries' : List (String × Value)} (keys : keysOf entries' = keysOf entries)
    (values : List.Forall₂ R (entries.map Prod.snd) (entries'.map Prod.snd)) :
    keysOf (entries'.filter fun entry => isKept entry.2) =
        keysOf (entries.filter fun entry => isKept entry.2) ∧
      List.Forall₂ R ((entries.filter fun entry => isKept entry.2).map Prod.snd)
        ((entries'.filter fun entry => isKept entry.2).map Prod.snd) := by
  induction entries generalizing entries' with
  | nil =>
    obtain rfl := List.map_eq_nil_iff.mp keys
    exact ⟨rfl, .nil⟩
  | cons entry rest ih =>
    obtain ⟨entry', rest', rfl, key, keys⟩ := List.map_eq_cons_iff.mp keys
    obtain ⟨first, others⟩ := List.forall₂_cons.mp values
    obtain ⟨keys', values'⟩ := ih keys others
    have same := keeps _ _ first
    cases kept : isKept entry.2 with
    | true =>
      simp only [List.filter_cons, same, kept, if_true]
      exact ⟨congrArg₂ List.cons key keys', .cons first values'⟩
    | false =>
      simp only [List.filter_cons, same, kept, Bool.false_eq_true, if_false]
      exact ⟨keys', values'⟩

/-- Of containers that are alike, the parts that are kept are alike. -/
theorem Alike.kept {s : Ref} (alike : h.Alike k (.container r) (.container s)) :
    (k.cell s).kept.shape = (h.cell r).kept.shape ∧
      List.Forall₂ (h.Alike k) (h.cell r).kept.children (k.cell s).kept.children := by
  have shape := alike.shape_eq
  have children := Cell.forall₂_children shape fun _ _ _ => alike.at_place
  revert shape children
  cases h.cell r with
  | sequence items =>
    cases k.cell s with
    | mapping => exact nofun
    | sequence items' => exact fun shape children => ⟨shape, children⟩
  | mapping fields =>
    cases k.cell s with
    | sequence => exact nofun
    | mapping fields' =>
      intro shape children
      obtain ⟨keys, values⟩ :=
        forall₂_kept (fun _ _ => Alike.isKept_eq) (Shape.mapping.inj shape) children
      exact ⟨congrArg Shape.mapping keys, values⟩

/-- The plain tree of a value is that of its unfolding. -/
theorem plainWithin_of_alike (alike : h.Alike k v w) (depth : Nat) :
    k.plainWithin depth w = h.plainWithin depth v := by
  induction depth generalizing v w with
  | zero =>
    rcases v.leaf_or_container with leaf | ⟨r, rfl⟩
    · rw [alike.eq_of_leaf leaf]
      exact plainWithin_leaf leaf 0
    · obtain ⟨s, rfl⟩ := alike.exists_container
      rfl
  | succ depth ih =>
    rcases v.leaf_or_container with leaf | ⟨r, rfl⟩
    · rw [alike.eq_of_leaf leaf]
      exact plainWithin_leaf leaf _
    · obtain ⟨s, rfl⟩ := alike.exists_container
      obtain ⟨shape, children⟩ := alike.kept
      have trees : (h.cell r).kept.children.mapM (h.plainWithin depth) =
          (k.cell s).kept.children.mapM (k.plainWithin depth) :=
        mapM_eq_of_forall₂ (fun v w (same : h.Alike k v w) => (ih same).symm) children
      rw [plainWithin_container, plainWithin_container, shape, trees]

/-! ## Values with the same plain tree -/

/-- The value leads to nothing that its plain tree loses. -/
def PlainThroughout (h : Heap) (v : Value) : Prop :=
  ∀ w, h.Reach {v} w → w.isPlain = true

namespace PlainThroughout

theorem child (plain : h.PlainThroughout (.container r)) (held : v ∈ (h.cell r).children) :
    h.PlainThroughout v :=
  fun w reached => plain w (reached.of_child held)

/-- Nothing is left out of its containers. -/
theorem kept_eq (plain : h.PlainThroughout (.container r)) : (h.cell r).kept = h.cell r :=
  Cell.kept_eq_self fun v held => Value.isKept_of_isPlain (plain v (.child (.root rfl) held))

theorem of_alike (plain : h.PlainThroughout v) (alike : h.Alike k v w) : k.PlainThroughout w := by
  intro u reached
  obtain ⟨x, there, same⟩ := alike.exists_reach reached
  rcases u.leaf_or_container with leaf | ⟨r, rfl⟩
  · obtain rfl := same.symm.eq_of_leaf leaf
    exact plain x there
  · rfl

end PlainThroughout

/-- The tree of a container is not that of a leaf. -/
theorem ofShape_ne_ofLeaf {shape : Shape} {v : Value} : Json.ofShape shape trees ≠ .ofLeaf v := by
  intro same
  cases v with
  | number x =>
    have tree : Json.ofShape shape trees = .ofFloat x := same
    rcases Json.ofFloat_cases x with ⟨n, -, -, leaf⟩ | ⟨-, leaf⟩ | ⟨-, leaf⟩ <;>
      rw [leaf] at tree <;> cases shape <;> cases tree
  | _ => cases shape <;> cases same

/-- The tree of a container tells its shape and the trees of its values. -/
theorem ofShape_inj {shape shape' : Shape} {trees' : List Json}
    (length : shape.places.length = trees.length) (length' : shape'.places.length = trees'.length)
    (same : Json.ofShape shape trees = .ofShape shape' trees') :
    shape' = shape ∧ trees' = trees := by
  cases shape with
  | mapping keys =>
    cases shape' with
    | sequence n => cases same
    | mapping keys' =>
      have zips := Json.object.inj same
      simp only [Shape.places, List.length_map] at length length'
      have fst := congrArg (List.map Prod.fst) zips
      have snd := congrArg (List.map Prod.snd) zips
      rw [List.map_fst_zip length.le, List.map_fst_zip length'.le] at fst
      rw [List.map_snd_zip length.ge, List.map_snd_zip length'.ge] at snd
      exact ⟨congrArg Shape.mapping fst.symm, snd.symm⟩
  | sequence n =>
    cases shape' with
    | mapping keys' => cases same
    | sequence n' =>
      obtain rfl := Json.array.inj same
      simp only [Shape.places, List.length_map, List.length_range] at length length'
      exact ⟨by rw [length, length'], rfl⟩

theorem equalWithin_of_same (leaf : v.isContainer = false) (same : v.same w = true)
    (h : Heap) (depth : Nat) : h.equalWithin (depth + 1) v w = true := by
  cases v with
  | container r => cases leaf
  | _ => exact same

/-- What has the tree of a leaf is one. -/
theorem leaf_of_plainWithin (found : h.plainWithin depth w = some (.ofLeaf v)) :
    w.isContainer = false ∧ Json.ofLeaf w = .ofLeaf v := by
  rcases w.leaf_or_container with leaf | ⟨s, rfl⟩
  · rw [plainWithin_of_leaf leaf] at found
    exact ⟨leaf, Option.some.inj found⟩
  · cases depth with
    | zero => cases found
    | succ depth =>
      obtain ⟨trees, -, same⟩ := plainWithin_container_iff.mp found
      exact absurd same ofShape_ne_ofLeaf

theorem equalWithin_of_plainWithin_leaf (leaf : v.isContainer = false)
    (plain : h.PlainThroughout v) (plain' : h.PlainThroughout w)
    (found : h.plainWithin depth v = some tree) (found' : h.plainWithin depth w = some tree) :
    h.equalWithin (depth + 1) v w = true := by
  rw [plainWithin_of_leaf leaf] at found
  obtain rfl := Option.some.inj found
  obtain ⟨leaf', same⟩ := leaf_of_plainWithin found'
  refine equalWithin_of_same leaf ?_ h depth
  exact Value.same_of_ofLeaf_eq leaf (plain v (.root rfl)) leaf' (plain' w (.root rfl)) same.symm

/-- **Values with the same plain tree are equal**, if the tree loses nothing of either. -/
theorem equalWithin_of_plainWithin (plain : h.PlainThroughout v) (plain' : h.PlainThroughout w)
    (found : h.plainWithin depth v = some tree) (found' : h.plainWithin depth w = some tree) :
    h.equalWithin (depth + 1) v w = true := by
  induction depth generalizing v w tree with
  | zero =>
    rcases v.leaf_or_container with leaf | ⟨r, rfl⟩
    · exact equalWithin_of_plainWithin_leaf leaf plain plain' found found'
    · cases found
  | succ depth ih =>
    rcases v.leaf_or_container with leaf | ⟨r, rfl⟩
    · exact equalWithin_of_plainWithin_leaf leaf plain plain' found found'
    · rcases w.leaf_or_container with leaf' | ⟨s, rfl⟩
      · rw [plainWithin_of_leaf leaf'] at found'
        obtain rfl := Option.some.inj found'
        exact nomatch (leaf_of_plainWithin found).1
      · obtain ⟨trees, below, same⟩ := plainWithin_container_iff.mp found
        obtain ⟨trees', below', same'⟩ := plainWithin_container_iff.mp found'
        rw [plain.kept_eq] at below same
        rw [plain'.kept_eq] at below' same'
        have length : (h.cell r).shape.places.length = trees.length := by
          rw [Cell.length_places, below.length_eq]
        have length' : (h.cell s).shape.places.length = trees'.length := by
          rw [Cell.length_places, below'.length_eq]
        obtain ⟨shape, rfl⟩ := ofShape_inj length length' (same.trans same'.symm)
        refine equalWithin_of_places shape fun place u x held held' => ?_
        obtain ⟨tree, left, right⟩ :=
          Cell.related_at shape (forall₂_trans below below'.flip) held held'
        exact ih (plain.child (Cell.mem_children_of_at? held))
          (plain'.child (Cell.mem_children_of_at? held')) left right

theorem plainWithin_mono {depth' : Nat} (found : h.plainWithin depth v = some tree)
    (le : depth ≤ depth') : h.plainWithin depth' v = some tree := by
  induction depth generalizing v tree depth' with
  | zero =>
    rcases v.leaf_or_container with leaf | ⟨r, rfl⟩
    · rw [plainWithin_of_leaf leaf] at found ⊢
      exact found
    · cases found
  | succ depth ih =>
    rcases v.leaf_or_container with leaf | ⟨r, rfl⟩
    · rw [plainWithin_of_leaf leaf] at found ⊢
      exact found
    · obtain ⟨depth', rfl⟩ := Nat.exists_eq_add_of_le' (Nat.one_le_of_lt le)
      obtain ⟨trees, below, same⟩ := plainWithin_container_iff.mp found
      refine plainWithin_container_iff.mpr ⟨trees, below.imp fun w tree here => ?_, same⟩
      exact ih here (Nat.le_of_succ_le_succ le)

theorem equal_of_plainWithin (closed : h.Closed) (live : h.Live v) (live' : h.Live w)
    (plain : h.PlainThroughout v) (plain' : h.PlainThroughout w)
    (found : h.plainWithin depth v = some tree) (found' : h.plainWithin depth w = some tree) :
    h.equal v w = true := by
  -- neither nests deeper than there are containers, so the limit can be raised or lowered to that
  have settle : ∀ {u}, h.Live u → h.plainWithin depth u = some tree →
      h.plainWithin (h.size * h.size) u = some tree := by
    intro u live found
    have nests := exists_plainWithin_iff.mp ⟨tree, found⟩
    obtain ⟨tree', found'⟩ := exists_plainWithin_iff.mpr (nests.acyclic.nestsWithin closed live)
    have here := plainWithin_mono found (Nat.le_max_left depth h.size)
    have there := plainWithin_mono found' (Nat.le_max_right depth h.size)
    obtain rfl := Option.some.inj (here.symm.trans there)
    exact plainWithin_mono found' (Nat.le_mul_self _)
  exact equalWithin_of_plainWithin plain plain' (settle live found) (settle live' found')

end Heap

end FormLogic
