import FormLogic.Heap
import Mathlib.Data.List.Forall2
import Mathlib.Data.List.Nodup

/-!
# `FormLogic.Proofs.Heap.Place` — where containers hold their values

What a container holds is looked at place by place. The shape of a container says which places it
has; its values stand at these places in order. So two containers of the same shape are compared by
their values at each place, and storing at a place that is in use changes this one value only.

## Contents
- `Place`, `Shape`, `Cell.shape`, `Cell.at?`: places and the values there.
- `Cell.at?_eq_some_iff`, `Cell.exists_at?_of_mem`: the values at the places are the children.
- `Cell.slots`: the values with their places.
- `Cell.forall₂_children`, `Cell.map_children_eq`: containers of the same shape.
- `Cell.put`, `Cell.shape_put`, `Cell.at?_put`: storing at a place that is in use.
-/

namespace FormLogic

/-! ## Places and shapes -/

/-- Where a container holds a value: under a key or at a position. -/
inductive Place where
  | key (key : String)
  | index (i : Nat)
  deriving DecidableEq

/-- A container without its values: the keys of a mapping in order, or the length of a sequence. -/
inductive Shape where
  | mapping (keys : List String)
  | sequence (length : Nat)
  deriving DecidableEq

/-- The places of a container, in order. -/
def Shape.places : Shape → List Place
  | .mapping keys => keys.map .key
  | .sequence length => (List.range length).map .index

namespace Cell

/-- The container without its values. -/
def shape : Cell → Shape
  | .mapping fields => .mapping fields.keys
  | .sequence items => .sequence items.size

/-- The value at a place. -/
def at? : Cell → Place → Option Value
  | .mapping fields, .key key => fields.get? key
  | .sequence items, .index i => items[i]?
  | _, _ => none

theorem length_places (c : Cell) : c.shape.places.length = c.children.length := by
  cases c with
  | mapping fields => simp [shape, Shape.places, children, Fields.keys, keysOf]
  | sequence items => simp [shape, Shape.places, children]

/-- The entry of a key is the one at the position of the key. -/
theorem valueAt?_eq_some_iff {α : Type} {entries : List (String × α)} {key : String} {a : α}
    (nodup : (keysOf entries).Nodup) :
    valueAt? key entries = some a ↔
      ∃ i : Nat, (keysOf entries)[i]? = some key ∧ (entries.map Prod.snd)[i]? = some a := by
  have parts (i : Nat) : entries[i]? = some (key, a) ↔
      (keysOf entries)[i]? = some key ∧ (entries.map Prod.snd)[i]? = some a := by
    unfold keysOf
    rw [List.getElem?_map, List.getElem?_map]
    cases entries[i]? with
    | none => simp
    | some entry => simp [Prod.ext_iff]
  rw [← exists_congr parts, ← List.mem_iff_getElem?]
  exact ⟨mem_of_valueAt?, valueAt?_of_mem nodup⟩

/-- The value at a place is the one at the position of the place. -/
theorem at?_eq_some_iff {c : Cell} {place : Place} {v : Value} :
    c.at? place = some v ↔
      ∃ i : Nat, c.shape.places[i]? = some place ∧ c.children[i]? = some v := by
  cases c with
  | mapping fields =>
    cases place with
    | key key =>
      show valueAt? key fields.entries = some v ↔ _
      rw [valueAt?_eq_some_iff fields.nodup]
      simp [shape, Shape.places, children, Fields.keys]
    | index i => simp [at?, shape, Shape.places]
  | sequence items =>
    cases place with
    | key key => simp [at?, shape, Shape.places]
    | index j =>
      simp only [at?, shape, Shape.places, children, List.getElem?_map, Option.map_eq_some_iff,
        Place.index.injEq, exists_eq_right, Array.getElem?_toList]
      constructor
      · intro found
        obtain ⟨bound, _⟩ := Array.getElem?_eq_some_iff.mp found
        exact ⟨j, List.getElem?_range bound, found⟩
      · rintro ⟨i, place, found⟩
        obtain ⟨bound, same⟩ := List.getElem?_eq_some_iff.mp place
        rw [List.getElem_range] at same
        exact same ▸ found

theorem mem_children_of_at? {c : Cell} {place : Place} {v : Value} (held : c.at? place = some v) :
    v ∈ c.children := by
  obtain ⟨i, _, here⟩ := at?_eq_some_iff.mp held
  exact List.mem_of_getElem? here

theorem exists_at?_of_mem {c : Cell} {v : Value} (held : v ∈ c.children) :
    ∃ place, c.at? place = some v := by
  obtain ⟨i, here⟩ := List.getElem?_of_mem held
  have bound : i < c.shape.places.length := by
    rw [length_places]
    exact (List.getElem?_eq_some_iff.mp here).1
  exact ⟨c.shape.places[i], at?_eq_some_iff.mpr ⟨i, List.getElem?_eq_getElem bound, here⟩⟩

/-- An entry of a mapping stands at the place of its key. -/
theorem at?_mapping_of_mem {fields : Fields Value} {entry : String × Value}
    (mem : entry ∈ fields.entries) : (mapping fields).at? (.key entry.1) = some entry.2 := by
  obtain ⟨i, here⟩ := List.getElem?_of_mem mem
  exact (valueAt?_eq_some_iff fields.nodup).mpr ⟨i, by simp [keysOf, here], by simp [here]⟩

theorem place_mem {c : Cell} {place : Place} {v : Value} (held : c.at? place = some v) :
    place ∈ c.shape.places := by
  obtain ⟨i, here, _⟩ := at?_eq_some_iff.mp held
  exact List.mem_of_getElem? here

/-- At each of its places a container holds a value. -/
theorem exists_at?_of_place {c : Cell} {place : Place} (mem : place ∈ c.shape.places) :
    ∃ v, c.at? place = some v := by
  obtain ⟨i, here⟩ := List.getElem?_of_mem mem
  have bound : i < c.children.length := by
    rw [← length_places]
    exact (List.getElem?_eq_some_iff.mp here).1
  exact ⟨c.children[i], at?_eq_some_iff.mpr ⟨i, here, List.getElem?_eq_getElem bound⟩⟩

/-- The values with their places, in order. -/
def slots (c : Cell) : List (Place × Value) :=
  c.shape.places.zip c.children

theorem mem_slots {c : Cell} {slot : Place × Value} :
    slot ∈ c.slots ↔ c.at? slot.1 = some slot.2 := by
  rw [at?_eq_some_iff, List.mem_iff_getElem?]
  exact exists_congr fun i => List.getElem?_zip_eq_some

theorem map_fst_slots (c : Cell) : c.slots.map Prod.fst = c.shape.places :=
  List.map_fst_zip (Nat.le_of_eq (length_places c))

/-- No place is there twice. -/
theorem nodup_places (c : Cell) : c.shape.places.Nodup := by
  cases c with
  | mapping fields => exact fields.nodup.map fun _ _ => Place.key.inj
  | sequence items => exact List.nodup_range.map fun _ _ => Place.index.inj

/-! ## Containers of the same shape -/

section

variable {α : Type} {c c' : Cell} {f f' : Value → α} {place : Place} {v : Value}

/-- A container of the same shape has the same places. -/
theorem exists_at?_of_shape (shape : c'.shape = c.shape) (held : c.at? place = some v) :
    ∃ w, c'.at? place = some w := by
  obtain ⟨i, position, here⟩ := at?_eq_some_iff.mp held
  have bound : i < c'.children.length := by
    rw [← length_places, shape, length_places]
    exact (List.getElem?_eq_some_iff.mp here).1
  refine ⟨c'.children[i], at?_eq_some_iff.mpr ⟨i, ?_, List.getElem?_eq_getElem bound⟩⟩
  rw [shape, position]

/-- The values are related in order if they are at each place. -/
theorem forall₂_children {R : Value → Value → Prop} (shape : c'.shape = c.shape)
    (related : ∀ place v w, c.at? place = some v → c'.at? place = some w → R v w) :
    List.Forall₂ R c.children c'.children := by
  have length : c.children.length = c'.children.length := by
    rw [← length_places, ← length_places, shape]
  refine List.forall₂_iff_get.mpr ⟨length, fun i bound bound' => ?_⟩
  have inside : i < c.shape.places.length := by
    rw [length_places]
    exact bound
  have here := List.getElem?_eq_getElem inside
  have here' : c'.shape.places[i]? = some c.shape.places[i] := by rw [shape, here]
  apply related c.shape.places[i]
  · exact at?_eq_some_iff.mpr ⟨i, here, List.getElem?_eq_getElem bound⟩
  · exact at?_eq_some_iff.mpr ⟨i, here', List.getElem?_eq_getElem bound'⟩

/-- What is seen of the values is the same if it is at each place. -/
theorem map_children_eq (shape : c'.shape = c.shape)
    (same : ∀ place v w, c.at? place = some v → c'.at? place = some w → f' w = f v) :
    c'.children.map f' = c.children.map f := by
  have all := forall₂_children shape same
  generalize c.children = vs at all
  generalize c'.children = ws at all
  induction all with
  | nil => rfl
  | cons first _ ih => rw [List.map_cons, List.map_cons, first, ih]

/-- If what is seen of the values is the same, then it is at each place. -/
theorem exists_at?_of_map_children (shape : c'.shape = c.shape)
    (same : c'.children.map f' = c.children.map f) (held : c.at? place = some v) :
    ∃ w, c'.at? place = some w ∧ f' w = f v := by
  obtain ⟨i, position, here⟩ := at?_eq_some_iff.mp held
  have seen : (c'.children.map f')[i]? = some (f v) := by
    rw [same, List.getElem?_map, here]
    rfl
  rw [List.getElem?_map] at seen
  obtain ⟨w, there, eq⟩ := Option.map_eq_some_iff.mp seen
  exact ⟨w, at?_eq_some_iff.mpr ⟨i, shape ▸ position, there⟩, eq⟩

end

/-! ## Storing at a place -/

/-- Stores a value at a place. -/
def put : Place → Value → Cell → Cell
  | .key key, v => mapFields (·.insert key v)
  | .index i, v => mapItems (Heap.storeAt i v)

section

variable {c : Cell} {place : Place} {old v : Value}

/-- At a position in use, storing is setting. -/
theorem storeAt_eq_set {items : Array Value} {i : Nat} (held : items[i]? = some old) (v : Value) :
    Heap.storeAt i v items = items.setIfInBounds i v := by
  obtain ⟨bound, _⟩ := Array.getElem?_eq_some_iff.mp held
  unfold Heap.storeAt
  rw [if_pos bound]

/-- Storing at a place in use keeps the shape. -/
theorem shape_put (held : c.at? place = some old) (v : Value) : (c.put place v).shape = c.shape := by
  cases c with
  | mapping fields =>
    cases place with
    | index i => cases held
    | key key =>
      have used : key ∈ fields.keys := by
        have mem := place_mem held
        simpa [shape, Shape.places] using mem
      show Shape.mapping (fields.insert key v).keys = .mapping fields.keys
      rw [Fields.keys_insert, if_pos used]
  | sequence items =>
    cases place with
    | key key => cases held
    | index i =>
      show Shape.sequence (Heap.storeAt i v items).size = .sequence items.size
      rw [storeAt_eq_set held, Array.size_setIfInBounds]

/-- Storing at a place in use changes the value there, and no other. -/
theorem at?_put (held : c.at? place = some old) (v : Value) (q : Place) :
    (c.put place v).at? q = if q = place then some v else c.at? q := by
  cases c with
  | mapping fields =>
    cases place with
    | index i => cases held
    | key key =>
      cases q with
      | index j => rfl
      | key k =>
        show (fields.insert key v).get? k = _
        rw [Fields.get?_insert]
        by_cases same : key = k
        · rw [if_pos same, if_pos (congrArg Place.key same.symm)]
        · rw [if_neg same, if_neg fun e => same (Place.key.inj e).symm]
          rfl
  | sequence items =>
    cases place with
    | key key => cases held
    | index i =>
      cases q with
      | key k => rfl
      | index j =>
        show (Heap.storeAt i v items)[j]? = _
        obtain ⟨bound, _⟩ := Array.getElem?_eq_some_iff.mp held
        rw [storeAt_eq_set held, Array.getElem?_setIfInBounds]
        by_cases same : i = j
        · subst same
          rw [if_pos rfl, if_pos rfl, if_pos bound]
        · rw [if_neg same, if_neg fun e => same (Place.index.inj e).symm]
          rfl

/-- What is held after storing was held at another place before, or has been stored. -/
theorem mem_children_put (held : c.at? place = some old) {w : Value}
    (mem : w ∈ (c.put place v).children) : w ∈ c.children ∨ w = v := by
  obtain ⟨q, here⟩ := exists_at?_of_mem mem
  rw [at?_put held] at here
  split at here
  · exact Or.inr (Option.some.inj here).symm
  · exact Or.inl (mem_children_of_at? here)

end

end Cell

end FormLogic
