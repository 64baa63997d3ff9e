import FormLogic.Heap
import FormLogic.Json
import FormLogic.Limit

/-!
# `FormLogic.Heap.Plain` — values as plain trees

A plain tree has no references, no absent values and no handles. In a mapping an entry with such a
value is dropped; in a sequence, where it would move the others, it becomes `null`. A graph nested
deeper than the limit, as every graph that contains itself, has no plain tree.

## Contents
- `plain`: the plain tree of a value, up to a depth.
- `ofPlain`: the value of a plain tree, with new containers throughout.
-/

namespace FormLogic.Heap

/-- Whether an entry with this value is kept in a plain tree. -/
def isKept : Value → Bool
  | .undefined | .foreign _ => false
  | _ => true

/-- The plain tree of a value in which containers nest at most `depth` deep. -/
def plainWithin (h : Heap) : (depth : Nat) → Value → Option Json
  | _, .undefined => some .null
  | _, .null => some .null
  | _, .foreign _ => some .null
  | _, .bool b => some (.bool b)
  | _, .number x => some (.ofFloat x)
  | _, .string s => some (.string s)
  | 0, .container _ => none
  | depth + 1, .container r =>
    match h.cell r with
    | .sequence items => (items.toList.mapM (h.plainWithin depth)).map .array
    | .mapping fields =>
      ((fields.entries.filter fun entry => isKept entry.2).mapM fun entry =>
        (h.plainWithin depth entry.2).map fun tree => (entry.1, tree)).map .object

/-- The plain tree of a value. -/
def plain (h : Heap) (maxDepth : Nat) (v : Value) : Except RecursionLimit Json :=
  match h.plainWithin maxDepth v with
  | some tree => .ok tree
  | none => .error ⟨.serialize, maxDepth⟩

mutual

/-- The value of a plain tree. -/
def ofPlain (h : Heap) : Json → Value × Heap
  | .null => (.null, h)
  | .bool b => (.bool b, h)
  | .int n => (.number (Float.ofInt n), h)
  | .float x => (.number x, h)
  | .string s => (.string s, h)
  | .array trees =>
    let (items, h) := ofPlainItems h #[] trees
    let (r, h) := h.alloc (.sequence items)
    (.container r, h)
  | .object trees =>
    let (fields, h) := ofPlainEntries h .empty trees
    let (r, h) := h.alloc (.mapping fields)
    (.container r, h)

/-- The values of plain trees, behind those already there. -/
def ofPlainItems (h : Heap) (items : Array Value) : List Json → Array Value × Heap
  | [] => (items, h)
  | tree :: rest =>
    let (v, h) := ofPlain h tree
    ofPlainItems h (items.push v) rest

/-- The values of keyed plain trees, behind those already there. -/
def ofPlainEntries (h : Heap) (fields : Fields Value) :
    List (String × Json) → Fields Value × Heap
  | [] => (fields, h)
  | (key, tree) :: rest =>
    let (v, h) := ofPlain h tree
    ofPlainEntries h (fields.insert key v) rest

end

end FormLogic.Heap
