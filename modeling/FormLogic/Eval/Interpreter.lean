import FormLogic.Eval.Method
import FormLogic.Eval.Operators
import FormLogic.Expr.Printer

/-!
# `FormLogic.Eval.Interpreter` — evaluating programs

Expressions are evaluated from left to right by recursion on their trees. A chain of member accesses
and calls stops where an optional link meets `undefined` or `null`: the rest of the chain is skipped
and its value is `undefined`. So the recursion answers with an optional value, and `settle` turns a
stopped chain into `undefined` where a chain ends.

The interpreter keeps the programs it has read under their texts. Only texts that are programs are
kept.

## Contents
- `Eval.chain`, `Eval.value`, `Eval.run`: the value of an expression and of a program.
- `Evaluator`: anything that evaluates texts.
- `Interpreter`, `Interpreter.evaluate`: the interpreter with its programs.
-/

namespace FormLogic

namespace Eval

/-- The value of a constant. -/
def ofLiteral : Literal → Value
  | .undefined => .undefined
  | .null => .null
  | .bool b => .bool b
  | .number x => .number x
  | .string s => .string s

/-- A chain that has stopped is `undefined`. -/
def settle (chain : Eval (Option Value)) : Eval Value :=
  return (← chain).getD .undefined

/-- The value of a prefix operator. -/
def unary (h : Heap) : UnaryOp → Value → Value
  | .not, v => .bool (!v.truthy)
  | .neg, v => .number (-h.number v)
  | .plus, v => .number (h.number v)
  | .typeof, v => .string v.typeName

/-- The value of a name. -/
def lookup (name : String) : Eval Value := do
  match (← scope).lookup? name with
  | some v => return v
  | none => throw (.undefinedIdentifier name)

/-- Whether a logical operator is decided by its first operand. -/
def decides : LogicalOp → Value → Bool
  | .and, v => !v.truthy
  | .or, v => v.truthy

mutual

/-- The value of an expression, or nothing if an optional link has stopped it. -/
def chain : Expr → Eval (Option Value)
  | .literal value => return some (ofLiteral value)
  | .array items => do
    let values ← values #[] items
    return some (← alloc (.sequence values))
  | .object entries => do
    let fields ← fields .empty entries
    return some (← alloc (.mapping fields))
  | .ident name => return some (← lookup name)
  | .member base key optional => do
    match ← chain base with
    | none => return none
    | some base =>
      if optional && base.isNullish then
        return none
      else
        let key ← keyValue key
        return some (← read base key)
  | .call (.member base key optional) args => do
    match ← chain base with
    | none => return none
    | some receiver =>
      if optional && receiver.isNullish then
        return none
      else
        let method ← text (← keyValue key)
        return some (← callMethod receiver method (arguments args))
  | .call callee _ => do
    let _ ← chain callee
    throw .notCallable
  | .arrow _ _ => throw .bareArrowFunction
  | .unary .typeof (.ident name) => do
    match (← scope).lookup? name with
    | some v => return some (.string v.typeName)
    | none => return some (.string "undefined")
  | .unary op operand => do
    let v ← settle (chain operand)
    return some (unary (← heap) op v)
  | .binary op lhs rhs => do
    let v ← settle (chain lhs)
    let w ← settle (chain rhs)
    return some ((← heap).binary op v w)
  | .logical op lhs rhs => do
    let v ← settle (chain lhs)
    if decides op v then return some v else return some (← settle (chain rhs))
  | .conditional test consequent alternate => do
    if (← settle (chain test)).truthy then
      return some (← settle (chain consequent))
    else
      return some (← settle (chain alternate))
  | .assign (.ident name) value => do
    let v ← settle (chain value)
    assign name v
    return some v
  | .assign (.member base key _) value => do
    let base ← settle (chain base)
    let key ← keyValue key
    let v ← settle (chain value)
    write base key v
    return some v
  | .assign target _ => throw (.invalidTarget target.print "expression")
  | .delete (.member base key optional) => do
    match ← chain base with
    | none => return some (.bool true)
    | some base =>
      if optional && base.isNullish then
        return some (.bool true)
      else
        let key ← keyValue key
        delete base key
        return some (.bool true)
  | .delete _ => return some (.bool false)

/-- The value of a key. -/
def keyValue : Key Expr → Eval Value
  | .named name => return .string name
  | .computed key => settle (chain key)

/-- The values of expressions, behind those already known. -/
def values (known : Array Value) : List Expr → Eval (Array Value)
  | [] => return known
  | item :: rest => do
    let v ← settle (chain item)
    values (known.push v) rest

/-- The values of entries, behind those already known. -/
def fields (known : Fields Value) : List (String × Expr) → Eval (Fields Value)
  | [] => return known
  | (key, value) :: rest => do
    let v ← settle (chain value)
    fields (known.insert key v) rest

/-- The arguments of a call, not yet evaluated. -/
def arguments : List Expr → List Argument
  | [] => []
  | .arrow params body :: rest => .callback params (settle (chain body)) :: arguments rest
  | arg :: rest => .plain (settle (chain arg)) :: arguments rest

end

/-- A function that is no argument of a call has no value. -/
theorem chain_arrow (params : List String) (body : Expr) :
    chain (.arrow params body) = throw .bareArrowFunction := by
  unfold chain
  rfl

/-- The value of an expression. -/
def value (e : Expr) : Eval Value :=
  settle (chain e)

/-- The value of the last statement; `last` is that of the statement before. -/
def runFrom (last : Value) : Program → Eval Value
  | [] => return last
  | statement :: rest => do runFrom (← value statement) rest

/-- The value of a program. -/
def run (program : Program) : Eval Value :=
  runFrom .undefined program

end Eval

/-- Anything that evaluates a text for a node, with a state of its own in `σ`. -/
abbrev Evaluator (σ : Type) :=
  String → Context → Action σ EvaluationError Value

/-- The programs that have been read, under their texts. -/
structure Interpreter where
  programs : Fields Program
  /-- Every program is kept under a text that reads as it. -/
  read : ∀ source program, programs.get? source = some program → parse source = .ok program

namespace Interpreter

/-- An interpreter that has read nothing. -/
def fresh : Interpreter :=
  ⟨.empty, by simp [Fields.empty, Fields.get?, valueAt?]⟩

/-- The number of different programs that have been read. -/
def size (i : Interpreter) : Nat :=
  i.programs.size

/-- The interpreter without the programs that it has read. -/
def clear (_ : Interpreter) : Interpreter :=
  fresh

/-- The interpreter that also keeps the program of a text. -/
def keep (i : Interpreter) (source : String) (program : Program)
    (parsed : parse source = .ok program) : Interpreter where
  programs := i.programs.insert source program
  read := by
    intro source' program' known
    rw [Fields.get?_insert] at known
    split at known
    · next same =>
      cases known
      exact same ▸ parsed
    · exact i.read source' program' known

/-- The program of a text and the interpreter that keeps it. -/
def program (i : Interpreter) (source : String) : Except SyntaxError (Program × Interpreter) :=
  match i.programs.get? source with
  | some program => .ok (program, i)
  | none =>
    match parsed : parse source with
    | .ok program => .ok (program, i.keep source program parsed)
    | .error e => .error e

/-- Evaluates a text with the bindings of a context. -/
def evaluate : Evaluator Interpreter :=
  fun expression ctx ⟨heap, i⟩ =>
    match i.program expression with
    | .error e => (.error ⟨expression, .malformed e⟩, ⟨heap, i⟩)
    | .ok (program, i) =>
      match Eval.run program ⟨heap, Scope.ofContext ctx⟩ with
      | (.ok v, m) => (.ok v, ⟨m.heap, i⟩)
      | (.error cause, m) => (.error ⟨expression, cause⟩, ⟨m.heap, i⟩)

end Interpreter

end FormLogic
