import FormLogic.Eval.Machine
import FormLogic.Text.Case

/-!
# `FormLogic.Eval.Method` — the methods of values

The arguments of a method are actions that the method runs when it needs them: once each for its
plain arguments, once for each element for a callback. A callback goes through the elements that the
sequence had when the method was called.

## Contents
- `Argument`: a callback or a plain argument.
- `anyItem`, `everyItem`, `firstItem`, `filterItems`, `mapItems`: callbacks over elements.
- `callMethod`: the methods of sequences, texts and mappings.
-/

namespace FormLogic

/-- An argument that has not been evaluated. -/
inductive Argument where
  | callback (params : List String) (body : Eval Value)
  | plain (value : Eval Value)

namespace Eval

/-- The value of an argument. A function is not a value. -/
def argument (arg : Argument) : Eval Value :=
  match arg with
  | .callback _ _ => throw .bareArrowFunction
  | .plain value => value

/-- The value of the first argument; a missing one is `undefined`. -/
def firstArgument (args : List Argument) : Eval Value :=
  match args with
  | [] => return .undefined
  | arg :: _ => argument arg

/-! ## Callbacks over elements -/

/-- What a callback does with an element and its position. -/
abbrev Visit := Value → Nat → Eval Value

/-- Whether the callback holds for some element; stops at the first one. -/
def anyItem (visit : Visit) : (index : Nat) → List Value → Eval Bool
  | _, [] => return false
  | index, item :: rest => do
    if (← visit item index).truthy then return true else anyItem visit (index + 1) rest

/-- Whether the callback holds for every element; stops at the first for which it does not. -/
def everyItem (visit : Visit) : (index : Nat) → List Value → Eval Bool
  | _, [] => return true
  | index, item :: rest => do
    if (← visit item index).truthy then everyItem visit (index + 1) rest else return false

/-- The first element for which the callback holds, or `undefined`. -/
def firstItem (visit : Visit) : (index : Nat) → List Value → Eval Value
  | _, [] => return .undefined
  | index, item :: rest => do
    if (← visit item index).truthy then return item else firstItem visit (index + 1) rest

/-- The elements for which the callback holds, behind those already kept. -/
def filterItems (visit : Visit) (kept : Array Value) :
    (index : Nat) → List Value → Eval (Array Value)
  | _, [] => return kept
  | index, item :: rest => do
    let kept := if (← visit item index).truthy then kept.push item else kept
    filterItems visit kept (index + 1) rest

/-- The values of the callback for the elements, behind those already there. -/
def mapItems (visit : Visit) (values : Array Value) :
    (index : Nat) → List Value → Eval (Array Value)
  | _, [] => return values
  | index, item :: rest => do
    let value ← visit item index
    mapItems visit (values.push value) (index + 1) rest

/-- The callbacks that sequences take. -/
def eachMethod? (method : String) : Option (Visit → List Value → Eval Value) :=
  match method with
  | "some" => some fun visit items => return .bool (← anyItem visit 0 items)
  | "every" => some fun visit items => return .bool (← everyItem visit 0 items)
  | "find" => some fun visit items => firstItem visit 0 items
  | "filter" => some fun visit items => do alloc (.sequence (← filterItems visit #[] 0 items))
  | "map" => some fun visit items => do alloc (.sequence (← mapItems visit #[] 0 items))
  | _ => none

/-- Runs a method with a callback over the elements that the sequence has now. -/
def callEach (method : String) (each : Visit → List Value → Eval Value) (r : Ref)
    (args : List Argument) : Eval Value :=
  match args with
  | .callback params body :: _ => do
    let visit := fun item index => withParams params [item, .ofNat index] body
    each visit (((← heap).itemsOf? (.container r)).getD #[]).toList
  | _ => throw (.invalidArgument method "an arrow function")

/-! ## The methods -/

/-- Appends the values of the arguments, each as soon as it is known. -/
def pushAll (r : Ref) : List Argument → Eval Unit
  | [] => return
  | arg :: rest => do
    let v ← argument arg
    update r (.mapItems (·.push v))
    pushAll r rest

/-- The elements of a sequence. -/
def itemsOf (r : Ref) : Eval (Array Value) :=
  return ((← heap).itemsOf? (.container r)).getD #[]

/-- The methods of sequences. -/
def sequenceMethod (r : Ref) (method : String) (args : List Argument) : Eval Value := do
  match eachMethod? method with
  | some each => callEach method each r args
  | none =>
    match method with
    | "includes" =>
      let needle ← firstArgument args
      return .bool ((← itemsOf r).any (·.sameOrNaN needle))
    | "indexOf" =>
      let needle ← firstArgument args
      match (← itemsOf r).findIdx? (·.same needle) with
      | some i => return .ofNat i
      | none => return .number (-1)
    | "join" =>
      let separator ← firstArgument args
      let h ← heap
      let separator := if separator.isUndefined then "," else h.text separator
      return .string (h.joined separator (← itemsOf r))
    | "push" =>
      pushAll r args
      return .ofNat (← itemsOf r).size
    | _ => throw (.unknownMethod method "sequence")

/-- The methods of texts. -/
def textMethod (s : String) (method : String) (args : List Argument) : Eval Value := do
  match method with
  | "toLowerCase" => return .string (Text.toLower s)
  | "toUpperCase" => return .string (Text.toUpper s)
  | "trim" => return .string (Text.trim s)
  | "includes" => return .bool (Text.indexOf? s (← text (← firstArgument args))).isSome
  | "startsWith" => return .bool (Text.startsWith s (← text (← firstArgument args)))
  | "endsWith" => return .bool (Text.endsWith s (← text (← firstArgument args)))
  | "indexOf" =>
    match Text.indexOf? s (← text (← firstArgument args)) with
    | some i => return .ofNat i
    | none => return .number (-1)
  | _ => throw (.unknownMethod method "string")

/-- The methods of mappings. -/
def mappingMethod (r : Ref) (method : String) (args : List Argument) : Eval Value := do
  match method with
  | "hasOwnProperty" =>
    let key ← text (← firstArgument args)
    return .bool (((← heap).fieldsOf? (.container r)).any (·.contains key))
  | _ => throw (.unknownMethod method "mapping")

/-- Calls a method of a value. -/
def callMethod (receiver : Value) (method : String) (args : List Argument) : Eval Value := do
  match receiver with
  | .undefined | .null => throw (.propertyOfNullish method receiver.nullishName)
  | .string s => textMethod s method args
  | .container r =>
    match (← heap).cell r with
    | .sequence _ => sequenceMethod r method args
    | .mapping _ => mappingMethod r method args
  | receiver => throw (.unknownMethod method receiver.typeName)

end Eval

end FormLogic
