import FormLogic.Number.Shortest

/-!
# `FormLogic.Number.Layout` — how doubles are written

Two layouts write the shortest decimal of a double. The positional one never uses an exponent; the
other one is that of JSON texts, which keeps `.0` and uses an exponent for very large and very small
numbers.

## Contents
- `positional`: the layout without exponents; `formatNumber`: the text of a number in an expression.
- `scientific`: the layout of JSON texts.
-/

namespace FormLogic.Number

/-- The decimal digits of a natural number. -/
def digits (n : Nat) : List Char :=
  Nat.toDigits 10 n

/-- The given number of zeros. -/
def zeros (n : Nat) : List Char :=
  List.replicate n '0'

/-- The digits with the decimal point after the first `point` of them, zeros filling the gaps. A
number without a fraction gets the text `whole` after it. -/
def withPoint (whole : List Char) (ds : List Char) (point : Int) : List Char :=
  if point ≤ 0 then
    '0' :: '.' :: (zeros (-point).toNat ++ ds)
  else if point < ds.length then
    ds.take point.toNat ++ '.' :: ds.drop point.toNat
  else
    ds ++ zeros (point - ds.length).toNat ++ whole

/-- The sign of a negative number. -/
def sign (negative : Bool) : List Char :=
  if negative then ['-'] else []

/-- The shortest digits of a double, of two equally near decimals the greater, without an exponent.
-/
def positional (x : Float) : String :=
  match read x with
  | .nan => "NaN"
  | .infinite negative => String.ofList (sign negative ++ "Infinity".toList)
  | .finite negative 0 _ => String.ofList (sign negative ++ ['0'])
  | .finite negative mantissa exponent =>
    let (coefficient, grid) := shortest .up mantissa exponent
    let ds := digits coefficient
    String.ofList (sign negative ++ withPoint [] ds (ds.length + grid))

/-- The text of a number: an integer below `10 ^ 15` in absolute value is written as one, so that
both zeros are `0`; any other number is written positionally. -/
def formatNumber (x : Float) : String :=
  match integer? x with
  | some n => if n.natAbs < tenTo 15 then toString n else positional x
  | none => positional x

/-- The layout of a double in a JSON text, for finite doubles. From `10 ^ (-5)` up to `10 ^ 16` the
number is positional and has at least one digit on each side of the point; outside it is one digit,
the other digits after a point, and the signed exponent. Of two equally near decimals the even one
is taken. -/
def scientific (x : Float) : String :=
  match read x with
  | .nan => "NaN"
  | .infinite negative => String.ofList (sign negative ++ "Infinity".toList)
  | .finite negative 0 _ => String.ofList (sign negative ++ "0.0".toList)
  | .finite negative mantissa exponent =>
    let (coefficient, grid) := shortest .even mantissa exponent
    let ds := digits coefficient
    let point := ds.length + grid
    let body :=
      if -5 < point ∧ point ≤ 16 then
        withPoint ".0".toList ds point
      else
        ds.take 1 ++ (if ds.length = 1 then [] else '.' :: ds.drop 1) ++
          'e' :: (if 0 < point then '+' else '-') :: digits (point - 1).natAbs
    String.ofList (sign negative ++ body)

end FormLogic.Number
