import FormLogic.Number.Binary64

/-!
# `FormLogic.Number.Shortest` — the shortest decimal of a double

The reals that round to a finite double form an interval around it. Its shortest decimal is a point
of that interval on the coarsest decimal grid that has one: the multiples of `10 ^ e` for the
greatest possible `e`. If a grid has a point in the interval, then so has one of the two multiples
next to the double, so only these are tried; of two hits the nearer one is taken, and a `Tie`
decides between equally near ones.

All comparisons are made in natural numbers. With the double `m * 2 ^ q`, everything is counted in
quarters of `2 ^ q`, scaled by the powers of two and ten that make it integral.

## Contents
- `Tie`: which of two equally near decimals is taken.
- `Scaled`: a double, its interval and a grid on a common integral scale; `Scaled.pick?`.
- `shortest`: the coefficient and the exponent of the shortest decimal.
-/

namespace FormLogic.Number

/-- Which of two equally near decimals is taken. -/
inductive Tie where
  | up
  | even
  deriving DecidableEq

/-- A number, the bounds of the interval that rounds to it and a grid spacing, on one scale. -/
structure Scaled where
  value : Nat
  low : Nat
  high : Nat
  /-- Whether the bounds themselves round to the number. -/
  closed : Bool
  spacing : Nat

/-- Whether a point of the scale lies in the interval. -/
def Scaled.holds (s : Scaled) (point : Nat) : Bool :=
  if s.closed then s.low ≤ point && point ≤ s.high else s.low < point && point < s.high

/-- The multiple of the spacing that stands for the number, if one of its two neighbours does. -/
def Scaled.pick? (tie : Tie) (s : Scaled) : Option Nat :=
  let below := s.value / s.spacing
  let under := s.value % s.spacing
  let above := s.spacing - under
  match s.holds (below * s.spacing), s.holds ((below + 1) * s.spacing) with
  | true, true =>
    if under < above then some below
    else if above < under then some (below + 1)
    else
      match tie with
      | .up => some (below + 1)
      | .even => some (below + below % 2)
  | true, false => some below
  | false, true => some (below + 1)
  | false, false => none

/-- The double `mantissa * 2 ^ exponent` on the grid `10 ^ grid`. The double below a power of two is
half as far away as the one above it, except at the least exponent. -/
def scaled (mantissa : Nat) (exponent grid : Int) : Scaled :=
  let quarter := exponent - 2
  let scale := twoTo quarter.toNat * tenTo (-grid).toNat
  let near := mantissa = twoTo 52 ∧ leastExponent < exponent
  { value := 4 * mantissa * scale
    low := (4 * mantissa - if near then 1 else 2) * scale
    high := (4 * mantissa + 2) * scale
    closed := mantissa % 2 = 0
    spacing := tenTo grid.toNat * twoTo (-quarter).toNat }

/-- The number of decimal digits of a natural number. -/
def digitCount (n : Nat) : Nat :=
  (Nat.toDigits 10 n).length

/-- The position above the leading digit: the least `k` with `mantissa * 2 ^ exponent < 10 ^ k`.
Every positive double is above `10 ^ (-400)`. -/
def magnitude (mantissa : Nat) (exponent : Int) : Int :=
  digitCount (mantissa * tenTo 400 * twoTo exponent.toNat / twoTo (-exponent).toNat) - 400

/-- Tries the grids from `grid` downwards; seventeen digits always suffice. -/
def coarsest (tie : Tie) (mantissa : Nat) (exponent : Int) : (tries : Nat) → Int → Nat × Int
  | 0, grid => (0, grid)
  | tries + 1, grid =>
    match (scaled mantissa exponent grid).pick? tie with
    | some coefficient => (coefficient, grid)
    | none => coarsest tie mantissa exponent tries (grid - 1)

/-- The coefficient and the exponent of the shortest decimal of the positive double
`mantissa * 2 ^ exponent`. -/
def shortest (tie : Tie) (mantissa : Nat) (exponent : Int) : Nat × Int :=
  coarsest tie mantissa exponent 20 (magnitude mantissa exponent)

end FormLogic.Number
