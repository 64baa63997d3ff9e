import FormLogic.Context
import FormLogic.Eval.Property
import FormLogic.Heap.Action

/-!
# `FormLogic.Eval.Machine` — the state of an evaluation

An evaluation has the heap and a scope: the six bindings of the context and, on top of them, the
parameters of the callbacks that are running. An assignment to a name changes the innermost entry
with that name, and never the context.

## Contents
- `Scope`, `Scope.lookup?`, `Scope.assign?`, `Scope.ofContext`: names and their values.
- `Machine`, `Eval`: the state and the actions on it.
- `Eval.read`, `Eval.write`, `Eval.delete`, `Eval.withParams`: the actions that evaluation is made
  of.
-/

namespace FormLogic

/-- Names and their values, the innermost first. -/
abbrev Scope := List (String × Value)

namespace Scope

/-- The value of a name. -/
def lookup? (scope : Scope) (name : String) : Option Value :=
  List.lookup name scope

/-- The scope with the innermost entry of the name changed, if there is one. -/
def assign? (name : String) (v : Value) : Scope → Option Scope
  | [] => none
  | (n, w) :: rest =>
    if n = name then some ((n, v) :: rest) else (assign? name v rest).map ((n, w) :: ·)

/-- The bindings of a context. -/
def ofContext (ctx : Context) : Scope :=
  ctx.bindings

/-- The scope with the parameters on top, each with the argument at its position or `undefined`. The
last parameter is the innermost. -/
def bind : (params : List String) → (args : List Value) → Scope → Scope
  | [], _, scope => scope
  | param :: params, args, scope =>
    bind params (args.drop 1) ((param, args.headD .undefined) :: scope)

end Scope

/-- The state of an evaluation. -/
structure Machine where
  heap : Heap
  scope : Scope

/-- Actions of an evaluation. -/
abbrev Eval :=
  ExceptT EvalError (StateM Machine)

namespace Eval

/-- The heap as it is now. -/
def heap : Eval Heap :=
  fun m => (.ok m.heap, m)

/-- The scope as it is now. -/
def scope : Eval Scope :=
  fun m => (.ok m.scope, m)

/-- An action on the heap. -/
def onHeap {α : Type} (action : Heap → Except EvalError α × Heap) : Eval α :=
  fun ⟨heap, scope⟩ =>
    let (result, heap) := action heap
    (result, ⟨heap, scope⟩)

/-- A new container. -/
def alloc (c : Cell) : Eval Value :=
  onHeap fun h =>
    let (r, h) := h.alloc c
    (.ok (.container r), h)

/-- Changes what a container holds. -/
def update (r : Ref) (f : Cell → Cell) : Eval Unit :=
  onHeap fun h => (.ok (), h.update r f)

/-- The text of a value. -/
def text (v : Value) : Eval String :=
  return (← heap).text v

/-- The value of a property. -/
def read (base key : Value) : Eval Value :=
  onHeap fun h => (h.readProperty base key, h)

/-- Writes a property. -/
def write (base key v : Value) : Eval Unit :=
  onHeap (Heap.writeProperty base key v)

/-- Deletes a property. -/
def delete (base key : Value) : Eval Unit :=
  onHeap (Heap.deleteProperty base key)

/-- Changes the innermost entry of a name. -/
def assign (name : String) (v : Value) : Eval Unit :=
  fun m =>
    match m.scope.assign? name v with
    | some scope => (.ok (), { m with scope })
    | none => (.error (.undefinedIdentifier name), m)

/-- Runs an action with parameters on top of the scope, and takes them off again, also when the
action fails. -/
def withParams {α : Type} (params : List String) (args : List Value) (action : Eval α) : Eval α :=
  fun ⟨heap, scope⟩ =>
    let (result, m) := action ⟨heap, scope.bind params args⟩
    (result, ⟨m.heap, m.scope.drop params.length⟩)

end Eval

end FormLogic
