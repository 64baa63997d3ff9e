import FormLogic.Proofs.Eval.Callback

/-!
# `FormLogic.Proofs.Eval.Duality` — `every` and `some` are dual

A callback holds for every element if its negation does not hold for some element. With callbacks that
change things and can fail, this is a statement about runs: both loops stop after the same invocation,
so they leave the same machine, and if an invocation fails, both fail with its error.

## Contents
- `value_not`, `invoke_not`: the negation of an expression, and of a callback.
- `everyItem_eq_not_anyItem`: the two loops.
- `value_every`: the two methods.
-/

namespace FormLogic.Eval

/-! ## Negated callbacks -/

theorem value_not (e : Expr) : value (.unary .not e) = do
    let v ← value e
    return .bool (!v.truthy) := by
  funext m
  apply value_of_chain
  rw [chain]
  · rw [bind_assoc]
    rfl
  · intro _ typeof _
    cases typeof

/-- What becomes of a value afterwards does not depend on the parameters. -/
theorem withParams_bind {α β : Type} (params : List String) (args : List Value) (p : Eval α)
    (f : α → β) : withParams params args (p >>= fun a => return f a) = do
      let a ← withParams params args p
      return f a := by
  funext ⟨heap, scope⟩
  rw [bind_apply]
  unfold withParams
  dsimp only
  rw [bind_apply]
  rcases p ⟨heap, scope.bind params args⟩ with ⟨_ | _, _⟩ <;> rfl

theorem invoke_not (params : List String) (body : Expr) (item : Value) (index : Nat) :
    invoke params (.unary .not body) item index = do
      let v ← invoke params body item index
      return .bool (!v.truthy) := by
  unfold invoke
  rw [value_not, withParams_bind]

/-! ## The loops -/

/-- The callback holds for every element if its negation does not hold for some: both loops go on
after a value that holds, and stop at one that does not. -/
theorem everyItem_eq_not_anyItem {visit negated : Visit}
    (negates : ∀ item index, negated item index = do
      let v ← visit item index
      return .bool (!v.truthy)) (index : Nat) (items : List Value) :
    everyItem visit index items = do
      let b ← anyItem negated index items
      return !b := by
  induction items generalizing index with
  | nil => rfl
  | cons item rest ih =>
    unfold everyItem anyItem
    rw [negates, bind_assoc, bind_assoc]
    apply congrArg (visit item index >>= ·)
    funext v
    cases holds : v.truthy with
    | false => rfl
    | true =>
      show everyItem visit (index + 1) rest = _
      rw [ih]
      rfl

/-! ## The methods -/

section

variable {base body : Expr} {optional : Bool} {params : List String} {m u : Machine} {r : Ref}
  {items : Array Value}

/-- A call of one of the methods on a sequence is a run of its loop. -/
theorem value_each {method : String} (each : Visit → List Value → Eval Value)
    (receiver : value base m = (.ok (.container r), u)) (sequence : u.heap.cell r = .sequence items)
    (found : eachMethod? method = some each) :
    value (.call (.member base (.named method) optional) [.arrow params body]) m =
      each (invoke params body) items.toList u := by
  rw [value_callMember receiver (k := .string method) rfl (by rfl)]
  exact callMethod_each sequence found

/-- **Duality.** On a sequence, `every` and the negation of `some` with the negated callback give the
same truth value or fail with the same error, and leave the same heap and the same scope. -/
theorem value_every (receiver : value base m = (.ok (.container r), u))
    (sequence : u.heap.cell r = .sequence items) :
    let onAll : Expr := .call (.member base (.named "every") optional) [.arrow params body]
    let onOne : Expr :=
      .call (.member base (.named "some") optional) [.arrow params (.unary .not body)]
    value onAll m = value (.unary .not onOne) m ∧
      ((∃ b, (value onAll m).1 = .ok (.bool b)) ∨ ∃ e, (value onAll m).1 = .error e) := by
  intro onAll onOne
  have all : value onAll m =
      (everyItem (invoke params body) 0 items.toList >>= fun b => return .bool b) u :=
    value_each (fun visit items => return .bool (← everyItem visit 0 items)) receiver sequence rfl
  have one : value onOne m =
      (anyItem (invoke params (.unary .not body)) 0 items.toList >>= fun b => return .bool b) u :=
    value_each (fun visit items => return .bool (← anyItem visit 0 items)) receiver sequence rfl
  have loops := everyItem_eq_not_anyItem (invoke_not params body) 0 items.toList
  rw [value_not, bind_apply, one, all, loops, bind_apply, bind_apply, bind_apply]
  rcases anyItem (invoke params (.unary .not body)) 0 items.toList u with ⟨e | b, _⟩
  · exact ⟨rfl, Or.inr ⟨e, rfl⟩⟩
  · exact ⟨rfl, Or.inl ⟨_, rfl⟩⟩

end

/-- The callback keeps the element that it was invoked for last, and is invoked for two of three. -/
theorem value_every_keeping :
    let body : Expr := .assign (.member (.ident "log") (.named "last") false) (.ident "x")
    let onAll : Expr := .call (.member (.ident "data") (.named "every") false) [.arrow ["x"] body]
    let onOne : Expr :=
      .call (.member (.ident "data") (.named "some") false) [.arrow ["x"] (.unary .not body)]
    let items : Array Value := #[.bool true, .null, .bool true]
    let scope : Scope := [("data", .container 0), ("log", .container 1)]
    let m : Machine := ⟨⟨#[.sequence items, .mapping .empty]⟩, scope⟩
    value onAll m = value (.unary .not onOne) m ∧
      ((∃ b, (value onAll m).1 = .ok (.bool b)) ∨ ∃ e, (value onAll m).1 = .error e) ∧
      value onAll m =
        (.ok (.bool false), ⟨⟨#[.sequence items, .mapping (.ofList [("last", .null)])]⟩, scope⟩) := by
  intro body onAll onOne items scope m
  have receiver : value (.ident "data") m = (.ok (.container 0), m) := by rfl
  obtain ⟨same, answer⟩ := value_every receiver (by rfl : m.heap.cell 0 = .sequence items)
  exact ⟨same, answer, by rfl⟩

end FormLogic.Eval
