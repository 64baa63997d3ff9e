/-!
# `FormLogic.Limit` — depth limits

Every operation that follows containers into containers has a depth limit, so that it also ends on
graphs that contain themselves.

## Contents
- `Operation`, `RecursionLimit`: which operation went deeper than which limit, and its message.
- `defaultMaxDepth`: the limit where nothing else is said.
-/

namespace FormLogic

/-- The operations that are limited in depth. -/
inductive Operation where
  | clone
  | merge
  | walk
  | serialize
  deriving DecidableEq

/-- The name of the operation in messages. -/
def Operation.name : Operation → String
  | .clone => "clone"
  | .merge => "merge"
  | .walk => "walk"
  | .serialize => "serialize"

/-- An operation met containers nested deeper than its limit. -/
structure RecursionLimit where
  operation : Operation
  limit : Nat
  deriving DecidableEq

/-- The text of the error. -/
def RecursionLimit.message (e : RecursionLimit) : String :=
  e.operation.name ++ " exceeded the maximum depth of " ++ toString e.limit

/-- The depth limit where nothing else is said. -/
def defaultMaxDepth : Nat := 256

end FormLogic
