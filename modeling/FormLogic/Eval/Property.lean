import FormLogic.Error
import FormLogic.Heap.Coercion
import FormLogic.Text.Units

/-!
# `FormLogic.Eval.Property` — properties of values

Mappings have a property for each key, sequences one for each index and `length`, texts one for each
unit and `length`; numbers, truth values and handles have none. Only mappings and sequences can be
written to. A write that fails changes nothing.

## Contents
- `index?`: the position that a key names.
- `readProperty`, `writeProperty`, `deleteProperty`: the three accesses.
-/

namespace FormLogic

namespace Heap

/-- How far past its length a sequence may grow at once. -/
def maxGrowth : Nat := 10000

/-- The bound of all positions. -/
def indexBound : Nat := 4294967295

/-- The position that a number names. -/
def indexOfNumber? (x : Float) : Option Nat :=
  match Number.integer? x with
  | some (.ofNat n) => if n < indexBound then some n else none
  | _ => none

/-- The position that a key names: a number that is one, or the text of such a number. -/
def index? : Value → Option Nat
  | .number x => indexOfNumber? x
  | .string s =>
    match Number.readDecimal? s with
    | some x => if Number.formatNumber x = s then indexOfNumber? x else none
    | none => none
  | _ => none

/-- Reads a property. -/
def readProperty (h : Heap) (base key : Value) : Except EvalError Value :=
  match base with
  | .undefined | .null => .error (.propertyOfNullish (h.text key) base.nullishName)
  | .container r =>
    match h.cell r with
    | .mapping fields => .ok ((fields.get? (h.text key)).getD .undefined)
    | .sequence items =>
      match index? key with
      | some i => .ok (items[i]?.getD .undefined)
      | none => .ok (if key = .string "length" then .ofNat items.size else .undefined)
  | .string s =>
    match index? key with
    | some i => .ok (((Text.unitAt? s i).map .string).getD .undefined)
    | none => .ok (if key = .string "length" then .ofNat (Text.length16 s) else .undefined)
  | _ => .ok .undefined

/-- The length that is assigned to a sequence. -/
def newLength (h : Heap) (v : Value) : Except EvalError Nat :=
  match Number.integer? (h.number v) with
  | some (.ofNat n) => .ok n
  | _ => .error (.invalidArgument "length" "a non-negative integer")

/-- Refuses to let a sequence of `size` elements grow to `length` elements if that is too far. -/
def checkGrowth (property : String) (size length : Nat) : Except EvalError Unit :=
  if size + maxGrowth < length then
    .error (.invalidArgument property "a length at most 10000 past the current one")
  else
    .ok ()

/-- How a write to the sequence changes its elements. -/
def sequenceWrite (h : Heap) (size : Nat) (key v : Value) :
    Except EvalError (Array Value → Array Value) := do
  match index? key with
  | some i =>
    checkGrowth (h.text key) size (i + 1)
    return storeAt i v
  | none =>
    if h.text key = "length" then
      let length ← h.newLength v
      checkGrowth (h.text key) size length
      return padTo length
    else
      throw (.invalidTarget (h.text key) "sequence")

/-- How a write changes the container it goes to, or why it is refused. -/
def propertyWrite (h : Heap) (base key v : Value) : Except EvalError (Ref × (Cell → Cell)) :=
  match base with
  | .container r =>
    match h.cell r with
    | .mapping _ => .ok (r, .mapFields (·.insert (h.text key) v))
    | .sequence items =>
      (h.sequenceWrite items.size key v).map fun change => (r, .mapItems change)
  | .undefined | .null => .error (.invalidTarget (h.text key) base.nullishName)
  | base => .error (.invalidTarget (h.text key) base.typeName)

/-- Writes a property. -/
def writeProperty (base key v : Value) (h : Heap) : Except EvalError Unit × Heap :=
  match h.propertyWrite base key v with
  | .ok (r, change) => (.ok (), h.update r change)
  | .error e => (.error e, h)

/-- Deletes a property: an entry of a mapping goes, an element of a sequence becomes `undefined`. -/
def deleteProperty (base key : Value) (h : Heap) : Except EvalError Unit × Heap :=
  match base with
  | .undefined | .null => (.error (.propertyOfNullish (h.text key) base.nullishName), h)
  | .container r =>
    match h.cell r with
    | .mapping _ => (.ok (), h.update r (.mapFields (·.erase (h.text key))))
    | .sequence items =>
      match index? key with
      | some i =>
        if i < items.size then (.ok (), h.update r (.mapItems (storeAt i .undefined)))
        else (.ok (), h)
      | none => (.ok (), h)
  | _ => (.ok (), h)

end Heap

end FormLogic
