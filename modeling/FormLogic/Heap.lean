import FormLogic.Fields
import FormLogic.Value

/-!
# `FormLogic.Heap` — containers and what they hold

The heap holds every container there is. A reference is a position in it, so handing out a reference
shares the container, and a new container gets the position after all others. Containers are never
taken away, and a mapping never becomes a sequence.

## Contents
- `Cell`: what a container holds; `Kind`: the classes of values.
- `Heap`, `cell`, `alloc`, `update`: the heap and its three operations, with what each leaves
  behind.
- `fieldsOf?`, `itemsOf?`, `lookup`, `kind`: reading through a value.
- `padTo`, `storeAt`: sequences that grow by undefined elements.
-/

namespace FormLogic

/-- What a container holds. -/
inductive Cell where
  | mapping (fields : Fields Value)
  | sequence (items : Array Value)

instance : Inhabited Cell :=
  ⟨.mapping .empty⟩

namespace Cell

/-- The values that the container holds, in order. -/
def children : Cell → List Value
  | .mapping fields => fields.entries.map Prod.snd
  | .sequence items => items.toList

/-- Changes the entries of a mapping; a sequence stays as it is. -/
def mapFields (f : Fields Value → Fields Value) : Cell → Cell
  | .mapping fields => .mapping (f fields)
  | .sequence items => .sequence items

/-- Changes the elements of a sequence; a mapping stays as it is. -/
def mapItems (f : Array Value → Array Value) : Cell → Cell
  | .mapping fields => .mapping fields
  | .sequence items => .sequence (f items)

end Cell

/-- The classes of values. -/
inductive Kind where
  | mapping
  | sequence
  | scalar
  | foreign
  deriving DecidableEq

/-- All containers, in the order in which they were made. -/
structure Heap where
  cells : Array Cell

namespace Heap

/-- No containers. -/
def empty : Heap :=
  ⟨#[]⟩

instance : Inhabited Heap :=
  ⟨empty⟩

/-- The number of containers; it is also the reference of the next one. -/
def size (h : Heap) : Nat :=
  h.cells.size

/-- What the container holds. A reference that was never handed out holds nothing. -/
def cell (h : Heap) (r : Ref) : Cell :=
  h.cells[r]?.getD default

/-- A new container and the heap with it. -/
def alloc (h : Heap) (c : Cell) : Ref × Heap :=
  (h.size, ⟨h.cells.push c⟩)

/-- Changes what one container holds. -/
def update (h : Heap) (r : Ref) (f : Cell → Cell) : Heap :=
  ⟨h.cells.modify r f⟩

/-! ## What the operations leave behind -/

@[simp]
theorem alloc_fst (h : Heap) (c : Cell) : (h.alloc c).1 = h.size :=
  rfl

@[simp]
theorem size_alloc (h : Heap) (c : Cell) : (h.alloc c).2.size = h.size + 1 :=
  Array.size_push c

@[simp]
theorem size_update (h : Heap) (r : Ref) (f : Cell → Cell) : (h.update r f).size = h.size :=
  Array.size_modify

theorem cell_of_size_le {h : Heap} {r : Ref} (old : h.size ≤ r) : h.cell r = default := by
  simp [cell, Array.getElem?_eq_none old]

theorem cell_alloc (h : Heap) (c : Cell) (r : Ref) :
    (h.alloc c).2.cell r = if r = h.size then c else h.cell r := by
  simp only [cell, alloc, Array.getElem?_push, size]
  split
  · next last => simp [last]
  · next other => simp [other]

theorem cell_update (h : Heap) (r s : Ref) (f : Cell → Cell) :
    (h.update r f).cell s = if s = r ∧ r < h.size then f (h.cell s) else h.cell s := by
  simp only [cell, update, Array.getElem?_modify, size]
  by_cases e : r = s
  · subst e
    by_cases inside : r < h.cells.size <;> simp [inside]
  · have : ¬ s = r := fun e' => e e'.symm
    simp [e, this]

/-! ## Reading through a value -/

/-- The entries of a mapping. -/
def fieldsOf? (h : Heap) : Value → Option (Fields Value)
  | .container r =>
    match h.cell r with
    | .mapping fields => some fields
    | .sequence _ => none
  | _ => none

/-- The elements of a sequence. -/
def itemsOf? (h : Heap) : Value → Option (Array Value)
  | .container r =>
    match h.cell r with
    | .mapping _ => none
    | .sequence items => some items
  | _ => none

/-- The value under `key` of a mapping; `undefined` if it has none or `v` is no mapping. -/
def lookup (h : Heap) (v : Value) (key : String) : Value :=
  ((h.fieldsOf? v).bind (·.get? key)).getD .undefined

/-- The class of the value. -/
def kind (h : Heap) : Value → Kind
  | .container r =>
    match h.cell r with
    | .mapping _ => .mapping
    | .sequence _ => .sequence
  | .foreign _ => .foreign
  | _ => .scalar

/-! ## Sequences that grow -/

/-- The elements up to `n`, padded with `undefined`. -/
def padTo (n : Nat) (items : Array Value) : Array Value :=
  if n ≤ items.size then items.take n
  else items ++ Array.replicate (n - items.size) .undefined

/-- The elements with `v` at position `i`, which may lie behind the last one. -/
def storeAt (i : Nat) (v : Value) (items : Array Value) : Array Value :=
  if i < items.size then items.setIfInBounds i v else (padTo i items).push v

end Heap

end FormLogic
