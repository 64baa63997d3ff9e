/-!
# `FormLogic.Text.Ranges` — sets of characters given by ranges of code points

A property of characters is a list of closed ranges of code points. The tables themselves stand in
the module named for their property; this one only says when a character belongs to a table.

## Contents
- `Ranges`: a list of closed ranges; `Ranges.contains`: membership of a character.
-/

namespace FormLogic.Text

/-- Closed ranges of code points. -/
abbrev Ranges := List (Nat × Nat)

/-- Whether the character lies in one of the ranges. -/
def Ranges.contains (table : Ranges) (c : Char) : Bool :=
  table.any fun range => range.1 ≤ c.toNat && c.toNat ≤ range.2

theorem Ranges.contains_iff {table : Ranges} {c : Char} :
    table.contains c = true ↔ ∃ range ∈ table, range.1 ≤ c.toNat ∧ c.toNat ≤ range.2 := by
  simp [Ranges.contains]

end FormLogic.Text
