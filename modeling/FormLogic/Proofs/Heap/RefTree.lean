import FormLogic.Heap
import Mathlib.Data.List.Count
import Mathlib.Data.List.Forall2

/-!
# `FormLogic.Proofs.Heap.RefTree` — values laid out as trees

A value that does not contain itself is laid out as a finite tree that also says which container
stands at each node. Where no reference occurs twice, the value is a tree of its own: nothing is
shared in it. Values with no reference in common are disjoint. What a heap says of such a tree is
told by the cells at its references, so it is untouched by a change anywhere else.

## Contents
- `RefTree`, `value`, `refs`, `at?`: trees with references, and their nodes by paths of keys.
- `Heap.Holds`, `Heap.LaidOut`: a heap in which the containers of a tree hold what the tree shows.
- `Holds.congr`, `Holds.store`, `Holds.replace`, `Holds.setItems`: the changes of a laid out tree.
-/

namespace FormLogic

/-- A value with everything below it. A container stands with its reference. -/
inductive RefTree where
  | leaf (v : Value)
  | mapping (r : Ref) (entries : List (String × RefTree))
  | sequence (r : Ref) (items : List RefTree)

namespace RefTree

/-- The value at the top of the tree. -/
def value : RefTree → Value
  | leaf v => v
  | mapping r _ => .container r
  | sequence r _ => .container r

/-- Whether a container is at the top of the tree. -/
def isContainer : RefTree → Bool
  | leaf _ => false
  | mapping _ _ => true
  | sequence _ _ => true

/-- Whether the tree is the mark of absence. -/
def isUndefined : RefTree → Bool
  | leaf v => v.isUndefined
  | mapping _ _ => false
  | sequence _ _ => false

mutual

/-- The references of all containers in the tree. -/
def refs : RefTree → List Ref
  | leaf _ => []
  | mapping r entries => r :: refsOfEntries entries
  | sequence r items => r :: refsOfItems items

/-- The references of all containers in the entries. -/
def refsOfEntries : List (String × RefTree) → List Ref
  | [] => []
  | (_, t) :: rest => refs t ++ refsOfEntries rest

/-- The references of all containers in the elements. -/
def refsOfItems : List RefTree → List Ref
  | [] => []
  | t :: rest => refs t ++ refsOfItems rest

end

/-- The entries as a mapping holds them. -/
def valuesOf (entries : List (String × RefTree)) : List (String × Value) :=
  entries.map fun entry => (entry.1, entry.2.value)

/-- The part of the tree that is reached from the top by the keys of mappings. -/
def at? : List String → RefTree → Option RefTree
  | [], t => some t
  | key :: path, mapping _ entries => (valueAt? key entries).bind (at? path)
  | _ :: _, _ => none

end RefTree

/-- To prove something of all trees, prove it of a container if it holds of all that is below. -/
@[elab_as_elim]
theorem RefTree.induction {P : RefTree → Prop} (leaf : ∀ v, P (.leaf v))
    (mapping : ∀ r entries, (∀ entry ∈ entries, P entry.2) → P (.mapping r entries))
    (sequence : ∀ r items, (∀ t ∈ items, P t) → P (.sequence r items)) : ∀ t, P t
  | .leaf v => leaf v
  | .mapping r entries => mapping r entries fun entry _ => induction leaf mapping sequence entry.2
  | .sequence r items => sequence r items fun t _ => induction leaf mapping sequence t
termination_by t => sizeOf t
decreasing_by
  · next here =>
    have inside := List.sizeOf_lt_of_mem here
    obtain ⟨key, t⟩ := entry
    simp only [RefTree.mapping.sizeOf_spec, Prod.mk.sizeOf_spec] at inside ⊢
    omega
  · next here =>
    have inside := List.sizeOf_lt_of_mem here
    simp only [RefTree.sequence.sizeOf_spec]
    omega

/-! ## Entries under a key -/

section

variable {α : Type} {key : String} {a : α} {entries : List (String × α)}

theorem mem_insertEntry {entry : String × α} (mem : entry ∈ insertEntry key a entries) :
    entry = (key, a) ∨ entry ∈ entries := by
  induction entries with
  | nil =>
    unfold insertEntry at mem
    exact Or.inl (List.mem_singleton.mp mem)
  | cons first rest ih =>
    obtain ⟨k, b⟩ := first
    unfold insertEntry at mem
    by_cases here : k = key
    · rw [if_pos here] at mem
      rcases List.mem_cons.mp mem with same | later
      · exact Or.inl same
      · exact Or.inr (List.mem_cons_of_mem _ later)
    · rw [if_neg here] at mem
      rcases List.mem_cons.mp mem with same | later
      · exact Or.inr (List.mem_cons.mpr (Or.inl same))
      · exact (ih later).imp id (List.mem_cons_of_mem _)

/-- Storing what is there already changes nothing. -/
theorem insertEntry_eq_self (found : valueAt? key entries = some a) :
    insertEntry key a entries = entries := by
  induction entries with
  | nil => cases found
  | cons entry rest ih =>
    obtain ⟨k, b⟩ := entry
    rw [valueAt?_cons] at found
    unfold insertEntry
    by_cases here : k = key
    · rw [if_pos here] at found ⊢
      cases found
      rw [here]
    · rw [if_neg here] at found ⊢
      rw [ih found]

end

namespace RefTree

variable {key : String} {t u : RefTree} {entries : List (String × RefTree)} {items : List RefTree}
  {r : Ref}

theorem keysOf_valuesOf (entries : List (String × RefTree)) :
    keysOf (valuesOf entries) = keysOf entries := by
  unfold keysOf valuesOf
  rw [List.map_map]
  rfl

theorem valueAt?_valuesOf (key : String) (entries : List (String × RefTree)) :
    valueAt? key (valuesOf entries) = (valueAt? key entries).map value := by
  induction entries with
  | nil => rfl
  | cons entry rest ih =>
    obtain ⟨k, t⟩ := entry
    show valueAt? key ((k, t.value) :: valuesOf rest) = _
    rw [valueAt?_cons, valueAt?_cons]
    by_cases here : k = key
    · rw [if_pos here, if_pos here]
      rfl
    · rw [if_neg here, if_neg here, ih]

theorem valuesOf_insertEntry (key : String) (t : RefTree) (entries : List (String × RefTree)) :
    valuesOf (insertEntry key t entries) = insertEntry key t.value (valuesOf entries) := by
  induction entries with
  | nil => rfl
  | cons entry rest ih =>
    obtain ⟨k, u⟩ := entry
    show valuesOf (if k = key then (key, t) :: rest else (k, u) :: insertEntry key t rest) =
      if k = key then (key, t.value) :: valuesOf rest
      else (k, u.value) :: insertEntry key t.value (valuesOf rest)
    by_cases here : k = key
    · rw [if_pos here, if_pos here]
      rfl
    · rw [if_neg here, if_neg here, ← ih]
      rfl

/-! ## References -/

theorem mem_refsOfEntries : r ∈ refsOfEntries entries ↔ ∃ entry ∈ entries, r ∈ entry.2.refs := by
  induction entries with
  | nil => simp [refsOfEntries]
  | cons entry rest ih =>
    obtain ⟨k, t⟩ := entry
    rw [refsOfEntries, List.mem_append, ih]
    simp

theorem mem_refsOfItems : r ∈ refsOfItems items ↔ ∃ t ∈ items, r ∈ t.refs := by
  induction items with
  | nil => simp [refsOfItems]
  | cons t rest ih =>
    rw [refsOfItems, List.mem_append, ih]
    simp

theorem refsOfItems_append (items others : List RefTree) :
    refsOfItems (items ++ others) = refsOfItems items ++ refsOfItems others := by
  induction items with
  | nil => rfl
  | cons t rest ih => rw [List.cons_append, refsOfItems, refsOfItems, ih, List.append_assoc]

/-- The top of a container is among its references. -/
theorem mem_refs_of_value (top : t.value = .container r) (container : t.isContainer = true) :
    r ∈ t.refs := by
  cases t with
  | leaf v => cases container
  | mapping s entries =>
    obtain rfl := Value.container.inj top
    exact List.mem_cons_self
  | sequence s items =>
    obtain rfl := Value.container.inj top
    exact List.mem_cons_self

/-- A container has a reference, which is among those of the tree. -/
theorem exists_ref (container : t.isContainer = true) :
    ∃ r, t.value = .container r ∧ r ∈ t.refs := by
  cases t with
  | leaf v => cases container
  | mapping r entries => exact ⟨r, rfl, List.mem_cons_self⟩
  | sequence r items => exact ⟨r, rfl, List.mem_cons_self⟩

/-- A reference that occurs once altogether is on one side only. -/
theorem not_mem_of_count {refs refs' : List Ref} (once : refs.count r + refs'.count r ≤ 1)
    (mem : r ∈ refs) : r ∉ refs' := by
  intro mem'
  have one := List.count_pos_iff.mpr mem
  have two := List.count_pos_iff.mpr mem'
  omega

/-- Two containers are not the same one if no reference occurs twice. -/
theorem not_same_of_count (once : ∀ r, t.refs.count r + u.refs.count r ≤ 1)
    (container : t.isContainer = true) (container' : u.isContainer = true) :
    ¬ t.value.same u.value = true := by
  intro same
  obtain ⟨a, top, mem⟩ := exists_ref container
  obtain ⟨b, top', mem'⟩ := exists_ref container'
  rw [top, top'] at same
  obtain rfl : a = b := beq_iff_eq.mp same
  exact not_mem_of_count (once a) mem mem'

/-- What is reached by keys is part of the tree. -/
theorem mem_refs_of_at? {path : List String} (found : t.at? path = some u) (mem : r ∈ u.refs) :
    r ∈ t.refs := by
  induction path generalizing t with
  | nil =>
    cases found
    exact mem
  | cons key path ih =>
    cases t with
    | leaf v => cases found
    | sequence s items => cases found
    | mapping s entries =>
      obtain ⟨below, here, found⟩ := Option.bind_eq_some_iff.mp found
      refine List.mem_cons_of_mem _ (mem_refsOfEntries.mpr ⟨_, mem_of_valueAt? here, ?_⟩)
      exact ih found

/-- A reference occurs in all entries together at least as often as in one of them. -/
theorem count_le_of_mem {entry : String × RefTree} (mem : entry ∈ entries) (r : Ref) :
    entry.2.refs.count r ≤ (refsOfEntries entries).count r := by
  induction entries with
  | nil => cases mem
  | cons first rest ih =>
    obtain ⟨k, u⟩ := first
    rw [refsOfEntries, List.count_append]
    rcases List.mem_cons.mp mem with rfl | later
    · exact Nat.le_add_right _ _
    · exact Nat.le_trans (ih later) (Nat.le_add_left _ _)

/-- The occurrences in two different entries add up. -/
theorem count_add_le_of_mem {k : String} (mem : (key, t) ∈ entries) (mem' : (k, u) ∈ entries)
    (other : k ≠ key) (r : Ref) :
    t.refs.count r + u.refs.count r ≤ (refsOfEntries entries).count r := by
  induction entries with
  | nil => cases mem
  | cons entry rest ih =>
    obtain ⟨k', v⟩ := entry
    rw [refsOfEntries, List.count_append]
    rcases List.mem_cons.mp mem with same | later <;>
      rcases List.mem_cons.mp mem' with same' | later'
    · cases same
      cases same'
      exact absurd rfl other
    · cases same
      exact Nat.add_le_add_left (count_le_of_mem later' r) _
    · cases same'
      rw [Nat.add_comm]
      exact Nat.add_le_add_left (count_le_of_mem later r) _
    · exact Nat.le_trans (ih later later') (Nat.le_add_left _ _)

/-- How often a reference occurs after storing a part: what it replaces does not count any more. -/
theorem count_insertEntry (r : Ref) (key : String) (t : RefTree)
    (entries : List (String × RefTree)) :
    (refsOfEntries (insertEntry key t entries)).count r +
        (((valueAt? key entries).map refs).getD []).count r =
      (refsOfEntries entries).count r + t.refs.count r := by
  induction entries with
  | nil => simp [insertEntry, refsOfEntries, valueAt?]
  | cons entry rest ih =>
    obtain ⟨k, u⟩ := entry
    unfold insertEntry
    rw [valueAt?_cons]
    by_cases here : k = key
    · rw [if_pos here, if_pos here]
      simp only [refsOfEntries, List.count_append, Option.map_some, Option.getD_some]
      omega
    · rw [if_neg here, if_neg here]
      simp only [refsOfEntries, List.count_append]
      omega

end RefTree

/-! ## Heaps that hold a tree -/

namespace Heap

open RefTree

/-- The containers of the tree hold what the tree shows. -/
inductive Holds (h : Heap) : RefTree → Prop where
  | leaf {v : Value} (scalar : v.isContainer = false) : Holds h (.leaf v)
  | mapping {r : Ref} {fields : Fields Value} {entries : List (String × RefTree)}
      (inside : r < h.size) (cell : h.cell r = .mapping fields)
      (shown : fields.entries = valuesOf entries) (below : ∀ entry ∈ entries, Holds h entry.2) :
      Holds h (.mapping r entries)
  | sequence {r : Ref} {items : List RefTree} (inside : r < h.size)
      (cell : h.cell r = .sequence (items.map value).toArray) (below : ∀ t ∈ items, Holds h t) :
      Holds h (.sequence r items)

/-- The value is laid out as the tree. -/
structure LaidOut (h : Heap) (v : Value) (t : RefTree) : Prop where
  value_eq : t.value = v
  holds : h.Holds t

theorem laidOut_all_iff {h : Heap} {values : List Value} {trees : List RefTree} :
    List.Forall₂ h.LaidOut values trees ↔
      values = trees.map value ∧ ∀ t ∈ trees, h.Holds t := by
  constructor
  · intro laid
    induction laid with
    | nil => exact ⟨rfl, fun t mem => nomatch mem⟩
    | cons first rest ih =>
      obtain ⟨rfl, holds⟩ := first
      obtain ⟨rfl, others⟩ := ih
      exact ⟨rfl, List.forall_mem_cons.mpr ⟨holds, others⟩⟩
  · rintro ⟨rfl, holds⟩
    rw [List.forall₂_map_left_iff]
    exact List.forall₂_same.mpr fun t mem => ⟨rfl, holds t mem⟩

namespace Holds

variable {h g : Heap} {t u : RefTree} {r : Ref} {entries : List (String × RefTree)}
  {items : List RefTree}

theorem value_isContainer (holds : h.Holds t) : t.value.isContainer = t.isContainer := by
  cases holds with
  | leaf scalar => exact scalar
  | mapping => rfl
  | sequence => rfl

theorem value_isUndefined (holds : h.Holds t) : t.value.isUndefined = t.isUndefined := by
  cases holds <;> rfl

/-- What a mapping has under a key is laid out as well. -/
theorem entry_holds {entry : String × RefTree} (holds : h.Holds (.mapping r entries))
    (mem : entry ∈ entries) : h.Holds entry.2 := by
  cases holds with
  | mapping inside cell shown below => exact below entry mem

/-- An element of a sequence is laid out as well. -/
theorem item_holds (holds : h.Holds (.sequence r items)) (mem : t ∈ items) : h.Holds t := by
  cases holds with
  | sequence inside cell below => exact below t mem

/-- What keys lead to is laid out as well. -/
theorem at? {path : List String} (holds : h.Holds t) (found : t.at? path = some u) : h.Holds u := by
  induction path generalizing t with
  | nil =>
    cases found
    exact holds
  | cons key path ih =>
    cases t with
    | leaf v => cases found
    | sequence s items => cases found
    | mapping s entries =>
      obtain ⟨below, here, found⟩ := Option.bind_eq_some_iff.mp found
      exact ih (holds.entry_holds (mem_of_valueAt? here)) found

/-- The keys of a mapping are pairwise different. -/
theorem nodup_keys (holds : h.Holds (.mapping r entries)) : (keysOf entries).Nodup := by
  cases holds with
  | @mapping _ fields _ inside cell shown below =>
    rw [← keysOf_valuesOf, ← shown]
    exact fields.nodup

/-- The value under a key of the mapping at the top. -/
theorem lookup_eq (holds : h.Holds (.mapping r entries)) (key : String) :
    h.lookup (.container r) key = ((valueAt? key entries).getD (.leaf .undefined)).value := by
  cases holds with
  | @mapping _ fields _ inside cell shown below =>
    have found : h.fieldsOf? (.container r) = some fields := by
      simp only [fieldsOf?, cell]
    unfold lookup
    rw [found, Option.bind_some]
    unfold Fields.get?
    rw [shown, valueAt?_valuesOf]
    cases valueAt? key entries <;> rfl

/-- A heap with the same cells at the references of the tree holds it as well. -/
theorem congr (holds : h.Holds t) (grown : h.size ≤ g.size)
    (same : ∀ r ∈ t.refs, g.cell r = h.cell r) : g.Holds t := by
  induction holds with
  | leaf scalar => exact .leaf scalar
  | @mapping r fields entries inside cell shown below ih =>
    have top : g.cell r = .mapping fields := by rw [same r List.mem_cons_self, cell]
    refine .mapping (Nat.lt_of_lt_of_le inside grown) top shown fun entry mem => ?_
    refine ih entry mem fun s deeper => same s ?_
    exact List.mem_cons_of_mem _ (mem_refsOfEntries.mpr ⟨entry, mem, deeper⟩)
  | @sequence r items inside cell below ih =>
    have top : g.cell r = .sequence (items.map value).toArray := by
      rw [same r List.mem_cons_self, cell]
    refine .sequence (Nat.lt_of_lt_of_le inside grown) top fun t mem => ?_
    refine ih t mem fun s deeper => same s ?_
    exact List.mem_cons_of_mem _ (mem_refsOfItems.mpr ⟨t, mem, deeper⟩)

/-- A change of one container leaves the trees as they are in which it does not occur. -/
theorem update (holds : h.Holds t) (apart : r ∉ t.refs) (f : Cell → Cell) :
    (h.update r f).Holds t := by
  refine holds.congr (Nat.le_of_eq (size_update h r f).symm) fun s mem => ?_
  rw [cell_update, if_neg]
  rintro ⟨rfl, _⟩
  exact apart mem

/-- Storing a tree under a key of the mapping at the top. -/
theorem store {key : String} (holds : h.Holds (.mapping r entries)) (stored : h.Holds t)
    (apart : r ∉ refsOfEntries entries) (apart' : r ∉ t.refs) :
    (h.update r (.mapFields (·.insert key t.value))).Holds
      (.mapping r (insertEntry key t entries)) := by
  cases holds with
  | @mapping _ fields _ inside cell shown below =>
    have cell' : (h.update r (.mapFields (·.insert key t.value))).cell r =
        .mapping (fields.insert key t.value) := by
      rw [cell_update, if_pos ⟨rfl, inside⟩, cell]
      rfl
    refine .mapping ?_ cell' ?_ fun entry mem => ?_
    · rw [size_update]
      exact inside
    · show insertEntry key t.value fields.entries = _
      rw [shown, valuesOf_insertEntry]
    · rcases mem_insertEntry mem with rfl | old
      · exact stored.update apart' _
      · refine (below entry old).update (fun deeper => apart ?_) _
        exact mem_refsOfEntries.mpr ⟨entry, old, deeper⟩

/-- A change below one key of the mapping at the top that keeps the value there. -/
theorem replace {key : String} {t' : RefTree} (holds : h.Holds (.mapping r entries))
    (found : valueAt? key entries = some t) (changed : g.Holds t') (value_eq : t'.value = t.value)
    (grown : h.size ≤ g.size) (top : g.cell r = h.cell r)
    (others : ∀ entry ∈ entries, entry.1 ≠ key → g.Holds entry.2) :
    g.Holds (.mapping r (insertEntry key t' entries)) := by
  have nodup := holds.nodup_keys
  cases holds with
  | @mapping _ fields _ inside cell shown below =>
    refine .mapping (Nat.lt_of_lt_of_le inside grown) (top.trans cell) ?_ fun entry mem => ?_
    · rw [shown, valuesOf_insertEntry, value_eq, insertEntry_eq_self]
      rw [valueAt?_valuesOf, found]
      rfl
    · by_cases here : entry.1 = key
      · have nodup' : (keysOf (insertEntry key t' entries)).Nodup := nodup_insertEntry nodup
        have at_key : valueAt? key (insertEntry key t' entries) = some entry.2 :=
          valueAt?_of_mem nodup' (here ▸ mem)
        rw [Fields.valueAt?_insertEntry, if_pos rfl] at at_key
        rw [← Option.some.inj at_key]
        exact changed
      · rcases mem_insertEntry mem with same | old
        · exact absurd (congrArg Prod.fst same) here
        · exact others entry old here

/-- New elements in the sequence at the top. -/
theorem setItems {others : List RefTree} (holds : h.Holds (.sequence r items))
    {f : Array Value → Array Value} (new : f (items.map value).toArray = (others.map value).toArray)
    (below : ∀ t ∈ others, h.Holds t) (apart : r ∉ refsOfItems others) :
    (h.update r (.mapItems f)).Holds (.sequence r others) := by
  cases holds with
  | @sequence _ _ inside cell _ =>
    refine .sequence ?_ ?_ fun t mem => (below t mem).update (fun deeper => apart ?_) _
    · rw [size_update]
      exact inside
    · rw [cell_update, if_pos ⟨rfl, inside⟩, cell, ← new]
      rfl
    · exact mem_refsOfItems.mpr ⟨t, mem, deeper⟩

end Holds

end Heap

end FormLogic
