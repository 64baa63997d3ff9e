import FormLogic.Heap

/-!
# `FormLogic.Heap.Equality` — deep equality

Two values are deeply equal if they are identical, or if they are mappings with equally many entries
and each entry of the first has a deeply equal one under its key in the second, or sequences with
deeply equal elements. A comparison that goes deeper than there are pairs of containers has met a
pair twice and would not end; such graphs are not meant to be compared, and count as different.

## Contents
- `equal`: deep equality.
-/

namespace FormLogic.Heap

/-- Deep equality of values that differ or end within `depth` pairs of containers. -/
def equalWithin (h : Heap) : (depth : Nat) → Value → Value → Bool
  | 0, _, _ => false
  | depth + 1, v, w =>
    match v, w with
    | .container r, .container s =>
      r == s ||
        match h.cell r, h.cell s with
        | .mapping a, .mapping b =>
          a.size == b.size && a.entries.all fun entry =>
            match b.get? entry.1 with
            | some other => h.equalWithin depth entry.2 other
            | none => false
        | .sequence a, .sequence b =>
          a.size == b.size && (a.toList.zip b.toList).all fun pair =>
            h.equalWithin depth pair.1 pair.2
        | _, _ => false
    | v, w => v.same w

/-- Deep equality. -/
def equal (h : Heap) (v w : Value) : Bool :=
  h.equalWithin (h.size * h.size + 1) v w

end FormLogic.Heap
