/-!
# `FormLogic.Text.Units` — positions in UTF-16 units

Lengths, positions and the order of texts are counted in UTF-16 units: a character below U+10000 is
one unit, any other a pair of surrogates. A text is still a list of characters, so a match always
starts and ends between characters; only reading a single unit can take half of a character.

## Contents
- `unitsOf`, `units`: the units of a character and of a text.
- `length16`, `unitAt?`: the number of units and the text of one unit.
- `compare16`: the order of texts by their units.
- `indexOf?`, `startsWith`, `endsWith`: where a text occurs in another.
-/

namespace FormLogic.Text

/-- The UTF-16 units of a character. -/
def unitsOf (c : Char) : List Nat :=
  if c.toNat < 0x10000 then
    [c.toNat]
  else
    [0xD800 + (c.toNat - 0x10000) / 0x400, 0xDC00 + (c.toNat - 0x10000) % 0x400]

/-- The UTF-16 units of a list of characters. -/
def units (cs : List Char) : List Nat :=
  cs.flatMap unitsOf

/-- The number of UTF-16 units of the text. -/
def length16 (s : String) : Nat :=
  (units s.toList).length

/-- The character of a unit; half of a pair has none, and is shown as U+FFFD. -/
def charOfUnit (u : Nat) : Char :=
  if 0xD800 ≤ u ∧ u < 0xE000 then Char.ofNat 0xFFFD else Char.ofNat u

/-- The text of the unit at position `i`. -/
def unitAt? (s : String) (i : Nat) : Option String :=
  (units s.toList)[i]?.map fun u => String.singleton (charOfUnit u)

/-- Texts in the order of their units, a proper beginning first. -/
def compare16 (s t : String) : Ordering :=
  compare (units s.toList) (units t.toList)

/-- The least position, counted from `start`, from which `needle` occurs in the characters. -/
def indexFrom? (needle : List Char) : (start : Nat) → List Char → Option Nat
  | start, [] => if needle.isEmpty then some start else none
  | start, c :: rest =>
    if needle.isPrefixOf (c :: rest) then
      some start
    else
      indexFrom? needle (start + (unitsOf c).length) rest

/-- The least position at which `needle` occurs in `s`. -/
def indexOf? (s needle : String) : Option Nat :=
  indexFrom? needle.toList 0 s.toList

/-- Whether the text begins with `needle`. -/
def startsWith (s needle : String) : Bool :=
  needle.toList.isPrefixOf s.toList

/-- Whether the text ends with `needle`. -/
def endsWith (s needle : String) : Bool :=
  needle.toList.isSuffixOf s.toList

end FormLogic.Text
