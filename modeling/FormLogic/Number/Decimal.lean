import FormLogic.Number.Shortest
import FormLogic.Text.Blank

/-!
# `FormLogic.Number.Decimal` — reading doubles

A decimal is an optional sign, digits with an optional point (digits may be missing on one side of
it), and an optional exponent; the names of the infinities and of NaN are read as well. The value is
the double nearest to the decimal, as long as the exponent is written with a number below `2 ^ 16`: a
greater one is cut short, which shows only where as many digits stand in front of it.

## Contents
- `ofDecimal`: the double nearest to `coefficient * 10 ^ exponent`.
- `ofDigits`, `exponentOf`: the numbers that digits write, in full and as an exponent.
- `ofNumeral`: the double nearest to a numeral of any length.
- `readDecimal?`: the double that a text denotes, if it has the form of a decimal.
- `ofText`: the number that a text is coerced to.
-/

namespace FormLogic.Number

/-- The double with the given sign. -/
def withSign (negative : Bool) (x : Float) : Float :=
  if negative then -x else x

/-- The double nearest to `coefficient * 10 ^ exponent`. Numbers from `10 ^ 310` on are infinite and
those below `10 ^ (-330)` are zero, whatever their digits. -/
def ofDecimal (coefficient : Nat) (exponent : Int) : Float :=
  let top := digitCount coefficient + exponent
  if coefficient = 0 ∨ top < -330 then 0
  else if 310 < top then infinity
  else Float.ofScientific coefficient (exponent < 0) exponent.natAbs

/-- The value of a decimal digit. -/
def digitValue (c : Char) : Nat :=
  c.toNat - '0'.toNat

/-- The natural number with the given decimal digits. -/
def ofDigits (ds : List Char) : Nat :=
  ds.foldl (fun n c => 10 * n + digitValue c) 0

/-- The bound from which on an exponent does not grow any further. -/
def exponentBound : Nat := twoTo 16

/-- The exponent with the given decimal digits. Digits after it has reached its bound do not count. -/
def exponentOf (ds : List Char) : Nat :=
  ds.foldl (fun n c => if n < exponentBound then 10 * n + digitValue c else n) 0

/-! ## Numerals of any length -/

/-- How many digits of a numeral are read in full. Doubles and the points halfway between them have
fewer significant digits than that, so of the digits behind it only counts whether one is not zero. -/
def fullDigits : Nat := 800

/-- The digits without leading zeros and without those that are not read in full, and how many have
been left out at the end. A last digit 1 stands for what has been left out if that is not zero. -/
def shorten (ds : List Char) : List Char × Nat :=
  let ds := ds.dropWhile (· == '0')
  let rest := ds.drop fullDigits
  if rest.all (· == '0') then (ds.take fullDigits, rest.length)
  else (ds.take fullDigits ++ ['1'], rest.length - 1)

/-- The double nearest to the numeral with the digits `whole` before the point and `fraction` behind
it, times a power of ten. -/
def ofNumeral (whole fraction : List Char) (exponent : Int) : Float :=
  let (ds, missing) := shorten (whole ++ fraction)
  ofDecimal (ofDigits ds) (exponent - fraction.length + missing)

/-! ## The form of a decimal -/

/-- Splits off an optional sign; the flag says whether it was a minus. -/
def splitSign : List Char → Bool × List Char
  | '-' :: rest => (true, rest)
  | '+' :: rest => (false, rest)
  | cs => (false, cs)

/-- The digits at the beginning and the rest. -/
def splitDigits (cs : List Char) : List Char × List Char :=
  (cs.takeWhile Char.isDigit, cs.dropWhile Char.isDigit)

/-- The exponent that ends a decimal: nothing at all, or `e` with at least one digit and nothing
behind. -/
def readExponent? : List Char → Option Int
  | [] => some 0
  | c :: rest =>
    if c = 'e' ∨ c = 'E' then
      let (negative, rest) := splitSign rest
      let (ds, rest) := splitDigits rest
      if ds.isEmpty || !rest.isEmpty then none else some (signed negative (exponentOf ds))
    else
      none

/-- Splits off a point and the digits behind it, if there is a point. -/
def splitFraction : List Char → List Char × List Char
  | '.' :: rest => splitDigits rest
  | cs => ([], cs)

/-- Reads an unsigned decimal. -/
def readUnsigned? (cs : List Char) : Option Float :=
  let (whole, rest) := splitDigits cs
  let (fraction, rest) := splitFraction rest
  if whole.isEmpty && fraction.isEmpty then
    none
  else
    (readExponent? rest).map (ofNumeral whole fraction)

/-- Reads a decimal, an infinity or NaN. The names are read in any mixture of small and capital
letters. -/
def readDecimal? (s : String) : Option Float :=
  let (negative, cs) := splitSign s.toList
  let name := String.ofList (cs.map Char.toLower)
  if name = "inf" ∨ name = "infinity" then some (withSign negative infinity)
  else if name = "nan" then some nan
  else (readUnsigned? cs).map (withSign negative)

/-- The number that a text is coerced to. White space around it does not count; nothing is zero.
Only `Infinity` with an optional sign names an infinity, and any other text with an ASCII letter
except the one of an exponent is no number. -/
def ofText (s : String) : Float :=
  let s := Text.trim s
  if s = "" then 0
  else if s = "Infinity" ∨ s = "+Infinity" then infinity
  else if s = "-Infinity" then -infinity
  else if s.toList.any fun c => c.isAlpha && c != 'e' && c != 'E' then nan
  else (readDecimal? s).getD nan

end FormLogic.Number
