/-!
# `FormLogic.Number.Binary64` — exact values of doubles

A finite double is a sign, a natural number and a power of two. Reading these off the bits makes the
questions about its exact value (is it an integer, what is left after division) questions about
natural numbers.

## Contents
- `nan`, `infinity`: the doubles that are no reals; `twoTo`, `tenTo`: powers of two and ten.
- `Reading`, `read`: what a double says; `assemble`: the double of a sign, a mantissa and an
  exponent.
- `integer?`: the integer that a double is, if it is one.
- `remainder`: the exact remainder of a division that rounds its quotient towards zero.
-/

namespace FormLogic.Number

/-- The double that is no number. -/
def nan : Float := Float.ofBits 0x7FF8000000000000

/-- The infinity above all other doubles. -/
def infinity : Float := Float.ofBits 0x7FF0000000000000

/-- A power of two. -/
def twoTo (n : Nat) : Nat :=
  Nat.pow 2 n

/-- A power of ten. -/
def tenTo (n : Nat) : Nat :=
  Nat.pow 10 n

/-- What a double says. -/
inductive Reading where
  | nan
  | infinite (negative : Bool)
  /-- The number `mantissa * 2 ^ exponent`, negated if `negative`. -/
  | finite (negative : Bool) (mantissa : Nat) (exponent : Int)
  deriving DecidableEq

/-- The least exponent of a double, that of the subnormal numbers. -/
def leastExponent : Int := -1074

/-- Reads a double off its bits. -/
def read (x : Float) : Reading :=
  let bits := x.toBits.toNat
  let negative := twoTo 63 ≤ bits
  let biased := bits / twoTo 52 % twoTo 11
  let fraction := bits % twoTo 52
  if biased = 2047 then
    if fraction = 0 then .infinite negative else .nan
  else if biased = 0 then
    .finite negative fraction leastExponent
  else
    .finite negative (twoTo 52 + fraction) ((biased : Nat) - 1075 : Int)

/-- How far a mantissa can be moved up, to a lower exponent, without leaving 53 bits or the least
exponent. -/
def headroom (mantissa : Nat) (exponent : Int) : Nat :=
  min (52 - mantissa.log2) (exponent - leastExponent).toNat

/-- The double `mantissa * 2 ^ exponent`, for a mantissa below `2 ^ 53` and an exponent not below
the least one: such a number is a double. -/
def assemble (negative : Bool) (mantissa : Nat) (exponent : Int) : Float :=
  let shift := headroom mantissa exponent
  let mantissa := mantissa * twoTo shift
  let exponent := exponent - shift
  let magnitude :=
    if mantissa < twoTo 52 then mantissa
    else (exponent + 1075).toNat * twoTo 52 + (mantissa - twoTo 52)
  Float.ofBits (UInt64.ofNat (if negative then twoTo 63 + magnitude else magnitude))

/-- The integer of a sign and a magnitude. -/
def signed (negative : Bool) (magnitude : Nat) : Int :=
  if negative then -magnitude else magnitude

/-- The integer that the double is, if it is one; both zeros are the integer zero. -/
def integer? (x : Float) : Option Int :=
  match read x with
  | .finite negative mantissa exponent =>
    if 0 ≤ exponent then
      some (signed negative (mantissa * twoTo exponent.toNat))
    else if mantissa % twoTo (-exponent).toNat = 0 then
      some (signed negative (mantissa / twoTo (-exponent).toNat))
    else
      none
  | _ => none

/-- Whether the double is the zero with a minus sign. -/
def isNegativeZero (x : Float) : Bool :=
  match read x with
  | .finite true 0 _ => true
  | _ => false

/-- What is left of `x` after taking away `y` as often as it fits, with the sign of `x`. The result
is exact: with both numbers on the lower of their two exponents it is a remainder of natural
numbers. -/
def remainder (x y : Float) : Float :=
  match read x, read y with
  | .finite negative m p, .finite _ n q =>
    if n = 0 then
      nan
    else
      let low := min p q
      assemble negative (m * twoTo (p - low).toNat % (n * twoTo (q - low).toNat)) low
  | .finite _ _ _, .infinite _ => x
  | _, _ => nan

end FormLogic.Number
