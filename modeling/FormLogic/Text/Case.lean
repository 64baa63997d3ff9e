import FormLogic.Text.CaseTable

/-!
# `FormLogic.Text.Case` — small and capital letters

The case maps take a character to a list of characters, since some have no single counterpart
(`ß` is capitalised to `SS`). Only the capital sigma looks around itself: at the end of a word its
small form is the final sigma.

## Contents
- `lowerOf`, `upperOf`: the maps of one character.
- `toLower`, `toUpper`: the maps of a text.
-/

namespace FormLogic.Text

/-- What the tables say of the code point: its expansion, its single image, or the point itself. -/
def imageOf (runs : List CaseRun) (expansions : List (Nat × List Nat)) (n : Nat) : List Nat :=
  match expansions.lookup n with
  | some points => points
  | none => [(runs.findSome? (·.image? n)).getD n]

/-- The small form of a character that stands alone. -/
def lowerOf (c : Char) : List Char :=
  (imageOf lowerRuns lowerExpansions c.toNat).map Char.ofNat

/-- The capital form of a character. -/
def upperOf (c : Char) : List Char :=
  (imageOf upperRuns upperExpansions c.toNat).map Char.ofNat

/-- Whether the first character that is not ignorable for case is a cased one. -/
def casedAhead (cs : List Char) : Bool :=
  match cs.dropWhile caseIgnorableRanges.contains with
  | [] => false
  | c :: _ => casedRanges.contains c

/-- The small form of the rest of a text; `before` is what precedes it, nearest first. -/
def lowerAfter : (before rest : List Char) → List Char
  | _, [] => []
  | before, c :: rest =>
    let image :=
      if c = 'Σ' then
        if casedAhead before && !casedAhead rest then ['ς'] else ['σ']
      else
        lowerOf c
    image ++ lowerAfter (c :: before) rest

/-- The text in small letters. -/
def toLower (s : String) : String :=
  String.ofList (lowerAfter [] s.toList)

/-- The text in capital letters. -/
def toUpper (s : String) : String :=
  String.ofList (s.toList.flatMap upperOf)

end FormLogic.Text
