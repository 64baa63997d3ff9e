import FormLogic.Text.Ranges

/-!
# `FormLogic.Text.Blank` — white space

White space is the Unicode property `White_Space`: 25 characters in ten ranges. It separates the
tokens of an expression, and it is what trimming removes.

## Contents
- `isBlank`: the property.
- `trim`: a text without the white space at its two ends.
-/

namespace FormLogic.Text

/-- The ranges of `White_Space`. -/
def blankRanges : Ranges :=
  [(0x9, 0xD), (0x20, 0x20), (0x85, 0x85), (0xA0, 0xA0), (0x1680, 0x1680), (0x2000, 0x200A),
    (0x2028, 0x2029), (0x202F, 0x202F), (0x205F, 0x205F), (0x3000, 0x3000)]

/-- Whether the character is white space. -/
def isBlank (c : Char) : Bool :=
  blankRanges.contains c

/-- The characters without the white space at the two ends. -/
def trimList (cs : List Char) : List Char :=
  ((cs.dropWhile isBlank).reverse.dropWhile isBlank).reverse

/-- The text without the white space at its two ends. -/
def trim (s : String) : String :=
  String.ofList (trimList s.toList)

end FormLogic.Text
