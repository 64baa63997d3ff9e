/-!
# `FormLogic.Value` — the values that forms are made of

A value is a scalar, a handle that belongs to the host, or a reference to a container. References
are shared: two values with the same reference are the same container, and what the container holds
is written in the heap (`FormLogic.Heap`). So everything here is known without looking at the heap.

## Contents
- `Ref`, `Value`: references and values.
- `truthy`, `typeName`: what conditions and `typeof` see.
- `same`: strict identity; `sameOrNaN`: the identity that finds NaN as well.
-/

namespace FormLogic

/-- A reference to a container: its position in the heap. -/
abbrev Ref := Nat

/-- A value of a form. `undefined` marks what is absent, and a `foreign` value is a handle of the
host that is never looked into. -/
inductive Value where
  | undefined
  | null
  | bool (b : Bool)
  | number (x : Float)
  | string (s : String)
  | container (r : Ref)
  | foreign (name : String)
  deriving DecidableEq

instance : Inhabited Value :=
  ⟨.undefined⟩

namespace Value

/-- Whether the value is the mark of absence. -/
def isUndefined : Value → Bool
  | .undefined => true
  | _ => false

/-- Whether the value is `undefined` or `null`. -/
def isNullish : Value → Bool
  | .undefined | .null => true
  | _ => false

/-- Whether the value is a container. -/
def isContainer : Value → Bool
  | .container _ => true
  | _ => false

/-- Whether a condition with this value holds. -/
def truthy : Value → Bool
  | .undefined | .null => false
  | .bool b => b
  | .number x => x != 0 && !x.isNaN
  | .string s => !s.isEmpty
  | .container _ | .foreign _ => true

/-- The name that `typeof` gives. -/
def typeName : Value → String
  | .undefined => "undefined"
  | .bool _ => "boolean"
  | .number _ => "number"
  | .string _ => "string"
  | .null | .container _ | .foreign _ => "object"

/-- The name of a value that has no properties. -/
def nullishName (v : Value) : String :=
  if v.isUndefined then "undefined" else "null"

/-- Strict identity: scalars by value, containers and handles by reference. NaN is identical to
nothing. -/
def same : Value → Value → Bool
  | .undefined, .undefined => true
  | .null, .null => true
  | .bool a, .bool b => a == b
  | .number a, .number b => a == b
  | .string a, .string b => a == b
  | .container a, .container b => a == b
  | .foreign a, .foreign b => a == b
  | _, _ => false

/-- Identity for which NaN is one value. -/
def sameOrNaN (v w : Value) : Bool :=
  match v, w with
  | .number a, .number b => (a.isNaN && b.isNaN) || v.same w
  | _, _ => v.same w

/-- The number of a count. -/
def ofNat (n : Nat) : Value :=
  .number (Float.ofNat n)

/-- The text that the value holds. -/
def text? : Value → Option String
  | .string s => some s
  | _ => none

end Value

end FormLogic
