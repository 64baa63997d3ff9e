import FormLogic.Heap
import FormLogic.Number.Decimal
import FormLogic.Number.Layout

/-!
# `FormLogic.Heap.Coercion` — values as texts and numbers

The text of a sequence joins the texts of its elements, so it goes through nested sequences. Without
sequences that contain themselves, sequences nest at most as deep as there are containers, which
bounds the recursion; a sequence that goes deeper contains itself and has no text.

## Contents
- `text`, `number`: the text and the number of a value.
- `itemText`, `joined`: the text of an element, and of all elements with a separator.
- `primitive`: a value with its containers and handles replaced by their texts.
-/

namespace FormLogic.Heap

/-- The text of a value, if its sequences nest less than `depth` deep. -/
def textWithin? (h : Heap) : (depth : Nat) → Value → Option String
  | 0, _ => none
  | depth + 1, v =>
    match v with
    | .undefined => some "undefined"
    | .null => some "null"
    | .bool b => some (if b then "true" else "false")
    | .number x => some (Number.formatNumber x)
    | .string s => some s
    | .foreign _ => some "[object Object]"
    | .container r =>
      match h.cell r with
      | .mapping _ => some "[object Object]"
      | .sequence items =>
        (items.toList.mapM fun (item : Value) =>
          if item.isNullish then some "" else h.textWithin? depth item).map (",".intercalate ·)

/-- The text that a value is coerced to. A sequence that contains itself has none and counts as
empty. -/
def text (h : Heap) (v : Value) : String :=
  (h.textWithin? (h.size + 1) v).getD ""

/-- The text of an element of a sequence: nothing for `undefined` and `null`. -/
def itemText (h : Heap) (v : Value) : String :=
  if v.isNullish then "" else h.text v

/-- The texts of the elements with the separator between them. -/
def joined (h : Heap) (separator : String) (items : Array Value) : String :=
  separator.intercalate (items.toList.map h.itemText)

/-- The number that a value is coerced to. -/
def number (h : Heap) : Value → Float
  | .undefined | .foreign _ => Number.nan
  | .null => 0
  | .bool b => if b then 1 else 0
  | .number x => x
  | .string s => Number.ofText s
  | .container r =>
    match h.cell r with
    | .mapping _ => Number.nan
    | .sequence _ => Number.ofText (h.text (.container r))

/-- The value itself if it is a scalar, else its text. -/
def primitive (h : Heap) (v : Value) : Value :=
  match v with
  | .container _ | .foreign _ => .string (h.text v)
  | _ => v

end FormLogic.Heap
