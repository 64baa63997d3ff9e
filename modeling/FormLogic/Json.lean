import FormLogic.Number.Layout

/-!
# `FormLogic.Json` — plain trees

A plain tree is what a JSON text can hold. Integers and other numbers are kept apart: an integer is
written without a fraction, and it is exact beyond the range of doubles.

## Contents
- `Json`: the type; `Json.ofFloat`: the tree of a double.
- `Json.render`: the compact JSON text.
- `Json.describe`: how a tree is named in a complaint about it.
-/

namespace FormLogic

/-- A plain tree. -/
inductive Json where
  | null
  | bool (b : Bool)
  | int (n : Int)
  | float (x : Float)
  | string (s : String)
  | array (items : List Json)
  | object (entries : List (String × Json))

instance : Inhabited Json :=
  ⟨.null⟩

namespace Json

/-- The tree of a double: an integer if it is one below `2 ^ 53` in absolute value; the infinities
and NaN have no other tree than `null`. -/
def ofFloat (x : Float) : Json :=
  match Number.integer? x with
  | some n => if n.natAbs < Number.twoTo 53 then .int n else .float x
  | none => if x.isFinite then .float x else .null

/-- The four hexadecimal digits of a control character. -/
def hex4 (n : Nat) : String :=
  let ds := Nat.toDigits 16 n
  String.ofList (List.replicate (4 - ds.length) '0' ++ ds)

/-- The written form of a character inside a JSON string. -/
def escape (c : Char) : String :=
  if c = '"' then "\\\""
  else if c = '\\' then "\\\\"
  else if c = '\n' then "\\n"
  else if c = '\r' then "\\r"
  else if c = '\t' then "\\t"
  else if c = '\x08' then "\\b"
  else if c = '\x0c' then "\\f"
  else if c.toNat < 0x20 then "\\u" ++ hex4 c.toNat
  else String.singleton c

/-- The JSON string of a text. -/
def quote (s : String) : String :=
  s.toList.foldl (fun text c => text ++ escape c) "\"" ++ "\""

mutual

/-- The compact JSON text: no white space, keys in their order. -/
def render : Json → String
  | .null => "null"
  | .bool b => if b then "true" else "false"
  | .int n => toString n
  | .float x => Number.scientific x
  | .string s => quote s
  | .array items => "[" ++ ",".intercalate (renderItems items) ++ "]"
  | .object entries => "\x7b" ++ ",".intercalate (renderEntries entries) ++ "\x7d"

/-- The texts of the elements. -/
def renderItems : List Json → List String
  | [] => []
  | item :: rest => render item :: renderItems rest

/-- The texts of the entries. -/
def renderEntries : List (String × Json) → List String
  | [] => []
  | (key, value) :: rest => (quote key ++ ":" ++ render value) :: renderEntries rest

end

end Json

end FormLogic
