import FormLogic.Json
import FormLogic.Text.Quoted

/-!
# `FormLogic.Json.Decode` — reading records from plain trees

A record is read from an object, field by field in the order of the object's entries; unknown keys
do not count. Settings can also be given as an array of their fields in a fixed order. The first
field that does not have its type is the error.

## Contents
- `describe`: how a tree is named in a complaint about it.
- `DecodeError`: why a tree is no record, and its message.
- `toBool`, `toText`, `toCount`, `toVariant`, `orNull`: readers of single fields.
- `decodeFields`, `decodeRecord`: readers of records.
-/

namespace FormLogic.Json

/-- How a tree is named in a complaint about it. -/
def describe : Json → String
  | .null => "null"
  | .bool b => "boolean `" ++ (if b then "true" else "false") ++ "`"
  | .int n => "integer `" ++ toString n ++ "`"
  | .float x => "floating point `" ++ Number.scientific x ++ "`"
  | .string s => "string " ++ Text.quote s
  | .array _ => "sequence"
  | .object _ => "map"

/-- Why a tree is no record of the wanted type. -/
inductive DecodeError where
  | invalidType (found : Json) (expected : String)
  | invalidValue (found : Json) (expected : String)
  | invalidLength (length : Nat) (expected : String)
  | unknownVariant (found : String) (expected : List String)

/-- The text of the error. -/
def DecodeError.message : DecodeError → String
  | .invalidType found expected => "invalid type: " ++ found.describe ++ ", expected " ++ expected
  | .invalidValue found expected => "invalid value: " ++ found.describe ++ ", expected " ++ expected
  | .invalidLength length expected =>
    "invalid length " ++ toString length ++ ", expected " ++ expected
  | .unknownVariant found expected =>
    "unknown variant `" ++ found ++ "`, expected " ++
      " or ".intercalate (expected.map fun name => "`" ++ name ++ "`")

/-- A reader of trees. -/
abbrev Decoder (α : Type) :=
  Json → Except DecodeError α

/-! ## Single fields -/

/-- Reads a truth value. -/
def toBool : Decoder Bool
  | .bool b => .ok b
  | tree => .error (.invalidType tree "a boolean")

/-- Reads a text. -/
def toText : Decoder String
  | .string s => .ok s
  | tree => .error (.invalidType tree "a string")

/-- Reads a count, an integer from zero on. -/
def toCount : Decoder Nat
  | .int n => if 0 ≤ n then .ok n.toNat else .error (.invalidValue (.int n) "usize")
  | tree => .error (.invalidType tree "usize")

/-- Reads a field that may be `null`, which stands for `fallback`. -/
def orNull {α : Type} (fallback : α) (decode : Decoder α) : Decoder α
  | .null => .ok fallback
  | tree => decode tree

/-- The meaning of a name in a table. -/
def variantNamed {α : Type} (table : List (String × α)) (name : String) : Except DecodeError α :=
  match table.lookup name with
  | some meaning => .ok meaning
  | none => .error (.unknownVariant name (table.map Prod.fst))

/-- Reads one of the names of a table: the name as a text, or as the only key of an object whose
value is `null`. -/
def toVariant {α : Type} (table : List (String × α)) : Decoder α
  | .string name => variantNamed table name
  | .object [(name, content)] => do
    let meaning ← variantNamed table name
    match content with
    | .null => return meaning
    | tree => throw (.invalidType tree "unit")
  | .object entries => .error (.invalidValue (.object entries) "map with a single key")
  | tree => .error (.invalidType tree "string or map")

/-! ## Records -/

/-- A field of a record: its key and what it changes in the record. -/
structure Field (ρ : Type) where
  key : String
  store : Json → ρ → Except DecodeError ρ

/-- The field under `key` that is read by `decode` and stored by `set`. -/
def field {ρ α : Type} (key : String) (decode : Decoder α) (set : α → ρ → ρ) : Field ρ where
  key := key
  store tree record := (decode tree).map fun value => set value record

/-- Stores the entries in a record, one after the other. -/
def decodeFields {ρ : Type} (fields : List (Field ρ)) :
    List (String × Json) → ρ → Except DecodeError ρ
  | [], record => .ok record
  | (key, tree) :: rest, record => do
    match fields.find? (·.key == key) with
    | some field => decodeFields fields rest (← field.store tree record)
    | none => decodeFields fields rest record

/-- Stores the elements of an array in the fields of a record, in the order of the fields. -/
def decodePositions {ρ : Type} : List (Field ρ) → List Json → ρ → Except DecodeError ρ
  | field :: fields, tree :: rest, record => do
    decodePositions fields rest (← field.store tree record)
  | _, _, record => .ok record

/-- Reads a record called `name` from an object or from an array, `start` standing for what is not
given. -/
def decodeRecord {ρ : Type} (name : String) (fields : List (Field ρ)) (start : ρ) : Decoder ρ
  | .object entries => decodeFields fields entries start
  | .array trees => do
    let record ← decodePositions fields trees start
    if fields.length < trees.length then
      throw (.invalidLength trees.length "fewer elements in array")
    return record
  | tree => .error (.invalidType tree ("struct " ++ name))

end FormLogic.Json
