import FormLogic.Heap.Plain
import FormLogic.Text.Quoted

/-!
# `FormLogic.Heap.Printer` — values for the reader

A value is shown in two ways: as the JSON text of its plain tree, or in full, with absent values and
handles where they stand. The full form is not meant for graphs that contain themselves; below as
many levels as there are containers it shows nothing.

## Contents
- `display`: the JSON text, or a mark that there is none.
- `inspect`: the full form.
-/

namespace FormLogic.Heap

/-- The JSON text of a value; a graph that is nested too deeply or contains itself has none. -/
def display (h : Heap) (v : Value) : String :=
  if v.isUndefined then "undefined"
  else
    match h.plainWithin defaultMaxDepth v with
    | some tree => tree.render
    | none => "[Circular]"

/-- The full form of a value whose containers nest less than `depth` deep. -/
def inspectWithin (h : Heap) : (depth : Nat) → Value → String
  | 0, _ => ""
  | depth + 1, v =>
    match v with
    | .undefined => "undefined"
    | .null => "null"
    | .bool b => if b then "true" else "false"
    | .number x => Number.formatNumber x
    | .string s => Text.quote s
    | .foreign _ => "Opaque(..)"
    | .container r =>
      match h.cell r with
      | .mapping fields =>
        let entries := fields.entries.map fun entry =>
          Text.quote entry.1 ++ ": " ++ h.inspectWithin depth entry.2
        "\x7b" ++ ", ".intercalate entries ++ "\x7d"
      | .sequence items =>
        "[" ++ ", ".intercalate (items.toList.map (h.inspectWithin depth)) ++ "]"

/-- The full form of a value. -/
def inspect (h : Heap) (v : Value) : String :=
  h.inspectWithin (h.size + 1) v

end FormLogic.Heap
