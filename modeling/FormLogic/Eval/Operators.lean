import FormLogic.Expr
import FormLogic.Heap.Coercion
import FormLogic.Text.Units

/-!
# `FormLogic.Eval.Operators` — the binary operators

Operators look at the heap only to find the texts of sequences; none of them changes it.

## Contents
- `order?`, `looseEqual`: order and loose equality of values.
- `binary`: the value of a binary operator.
-/

namespace FormLogic

namespace Heap

/-- The order of two doubles; NaN has none. -/
def floatOrder? (x y : Float) : Option Ordering :=
  if x < y then some .lt
  else if x == y then some .eq
  else if y < x then some .gt
  else none

/-- The order of two values: of two texts that of their units, otherwise that of the numbers. -/
def order? (h : Heap) (v w : Value) : Option Ordering :=
  match h.primitive v, h.primitive w with
  | .string s, .string t => some (Text.compare16 s t)
  | v, w => floatOrder? (h.number v) (h.number w)

/-- A truth value as a number; any other value as it is. -/
def withoutBool : Value → Value
  | .bool b => .number (if b then 1 else 0)
  | v => v

/-- A container as its text; any other value as it is. -/
def withoutContainer (h : Heap) (v : Value) : Value :=
  if v.isContainer then h.primitive v else v

/-- Equality of a number with a text goes by numbers, everything else by identity. -/
def scalarEqual (h : Heap) (v w : Value) : Bool :=
  match v, w with
  | .number x, .string _ => x == h.number w
  | .string _, .number y => h.number v == y
  | v, w => v.same w

/-- Loose equality: `undefined` and `null` are equal to each other only, truth values count as
numbers, and a container that meets something else counts as its text. -/
def looseEqual (h : Heap) (v w : Value) : Bool :=
  if v.isNullish || w.isNullish then
    v.isNullish && w.isNullish
  else
    let v := withoutBool v
    let w := withoutBool w
    if v.isContainer && w.isContainer then v.same w
    else h.scalarEqual (h.withoutContainer v) (h.withoutContainer w)

/-- The sum of numbers, or the texts one after the other if one of the operands is a text. -/
def sum (h : Heap) (v w : Value) : Value :=
  match h.primitive v, h.primitive w with
  | .string s, w => .string (s ++ h.text w)
  | v, .string t => .string (h.text v ++ t)
  | v, w => .number (h.number v + h.number w)

/-- The value of a binary operator. -/
def binary (h : Heap) (op : BinaryOp) (v w : Value) : Value :=
  match op with
  | .add => h.sum v w
  | .sub => .number (h.number v - h.number w)
  | .mul => .number (h.number v * h.number w)
  | .div => .number (h.number v / h.number w)
  | .rem => .number (Number.remainder (h.number v) (h.number w))
  | .lt => .bool ((h.order? v w).any (·.isLT))
  | .le => .bool ((h.order? v w).any (·.isLE))
  | .gt => .bool ((h.order? v w).any (·.isGT))
  | .ge => .bool ((h.order? v w).any (·.isGE))
  | .eq => .bool (h.looseEqual v w)
  | .ne => .bool (!h.looseEqual v w)
  | .strictEq => .bool (v.same w)
  | .strictNe => .bool (!v.same w)

end Heap

end FormLogic
