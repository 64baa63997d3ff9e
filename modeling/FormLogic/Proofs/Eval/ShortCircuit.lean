import FormLogic.Eval.Interpreter
import FormLogic.Proofs.Expr.Part
import FormLogic.Proofs.Heap.Action

/-!
# `FormLogic.Proofs.Eval.ShortCircuit` — chains that stop

A chain stops at an optional link whose base is `undefined` or `null`. Everything behind the link is
skipped, however far the chain goes on: no key and no argument there is evaluated, so none of them can
fail or change anything. The chain is `undefined` then, and a `delete` at its end has nothing to
delete.

Where a chain stops is described by the values of the bases of its links. The evaluator hands an empty
answer on from link to link instead; `chain_eq_none_iff` says that the two are the same.

## Contents
- `Expr.Continues`: chains that go on to the right of another one.
- `Eval.Stops`: evaluations that stop at an optional link; `chain_eq_none_iff`.
- `value_stopped`: the rest of a chain that has stopped.
-/

namespace FormLogic

/-- The second chain goes on where the first one ends, by member accesses and calls of methods. A
method is called where its access stands. -/
inductive Expr.Continues (c : Expr) : Expr → Prop where
  | here : c.Continues c
  | member {e : Expr} {key : Key Expr} {optional : Bool} (before : c.Continues e) :
      c.Continues (.member e key optional)
  | call {e : Expr} {key : Key Expr} {optional : Bool} {args : List Expr}
      (before : c.Continues (.member e key optional)) :
      c.Continues (.call (.member e key optional) args)

namespace Eval

/-- Evaluating the chain stops at one of its optional links: the base of the link is `undefined` or
`null`. The machine in the end is the one that the base leaves. -/
inductive Stops : Expr → Machine → Machine → Prop where
  | link {base : Expr} {key : Key Expr} {m m' : Machine} {v : Value}
      (first : value base m = (.ok v, m')) (nullish : v.isNullish = true) :
      Stops (.member base key true) m m'
  | member {base : Expr} {key : Key Expr} {optional : Bool} {m m' : Machine}
      (before : Stops base m m') : Stops (.member base key optional) m m'
  | call {base : Expr} {key : Key Expr} {optional : Bool} {args : List Expr} {m m' : Machine}
      (before : Stops (.member base key optional) m m') :
      Stops (.call (.member base key optional) args) m m'

/-! ## The answers of chains -/

/-- A chain has a value if it ends; one that has stopped is `undefined`. -/
theorem value_eq_ok_iff {e : Expr} {m m' : Machine} {v : Value} :
    value e m = (.ok v, m') ↔ ∃ o, chain e m = (.ok o, m') ∧ o.getD .undefined = v := by
  unfold value settle
  rw [bind_eq_ok_iff]
  constructor
  · rintro ⟨o, u, ends, same⟩
    cases same
    exact ⟨o, ends, rfl⟩
  · rintro ⟨o, ends, rfl⟩
    exact ⟨o, m', ends, rfl⟩

/-- A chain that comes to an action with a value has the value of the action. -/
theorem value_of_chain {e : Expr} {m u : Machine} {p : Eval Value}
    (goesOn : chain e m = (p >>= fun v => return some v) u) : value e m = p u := by
  unfold value settle
  rw [bind_apply, goesOn, bind_apply]
  rcases p u with ⟨_ | _, _⟩ <;> rfl

/-- A chain that has a value other than `undefined` and `null` has not stopped. -/
theorem chain_of_value {e : Expr} {m u : Machine} {v : Value} (known : value e m = (.ok v, u))
    (present : v.isNullish = false) : chain e m = (.ok (some v), u) := by
  obtain ⟨o, ends, rfl⟩ := value_eq_ok_iff.mp known
  cases o with
  | none => cases present
  | some v => exact ends

/-- The action does not end with an empty answer. -/
def Answers (p : Eval (Option Value)) : Prop :=
  ∀ m m', p m ≠ (.ok none, m')

namespace Answers

theorem pure (v : Value) : Answers (return some v) := by
  intro m m' ends
  cases ends

theorem throw (e : EvalError) : Answers (throw e) := by
  intro m m' ends
  cases ends

theorem after {α : Type} (p : Eval α) {f : α → Eval (Option Value)} (next : ∀ a, Answers (f a)) :
    Answers (p >>= f) := by
  intro m m' ends
  obtain ⟨a, u, _, last⟩ := bind_eq_ok_iff.mp ends
  exact next a u m' last

theorem ite {c : Prop} [Decidable c] {p q : Eval (Option Value)} (yes : Answers p)
    (no : Answers q) : Answers (if c then p else q) := by
  split
  · exact yes
  · exact no

end Answers

/-! ## The links -/

section

variable {base : Expr} {optional : Bool} {m m' : Machine}

/-- A chain does not get past a link: it has stopped before, or stops at this link. -/
def Blocked (base : Expr) (optional : Bool) (m m' : Machine) : Prop :=
  chain base m = (.ok none, m') ∨
    ∃ v, chain base m = (.ok (some v), m') ∧ (optional && v.isNullish) = true

/-- Where a chain does not get past a link, what stands behind the link is not run. -/
theorem Blocked.link (blocked : Blocked base optional m m') (stop : Option Value)
    (next : Value → Eval (Option Value)) :
    (do
      match ← chain base with
      | none => return stop
      | some v => if optional && v.isNullish then return stop else next v : Eval (Option Value)) m =
      (.ok stop, m') := by
  rw [bind_apply]
  rcases blocked with stopped | ⟨v, ends, nullish⟩
  · rw [stopped]
    rfl
  · rw [ends]
    dsimp only
    rw [if_pos nullish]
    rfl

/-- What stands behind a link always answers, so a chain that stops has not got past the link. -/
theorem blocked_of_link {next : Value → Eval (Option Value)} (answers : ∀ v, Answers (next v))
    (stopped : (do
      match ← chain base with
      | none => return none
      | some v => if optional && v.isNullish then return none else next v : Eval (Option Value)) m =
      (.ok none, m')) : Blocked base optional m m' := by
  obtain ⟨o, u, ends, last⟩ := bind_eq_ok_iff.mp stopped
  cases o with
  | none =>
    cases last
    exact Or.inl ends
  | some v =>
    dsimp only at last
    split at last
    · next nullish =>
      cases last
      exact Or.inr ⟨v, ends, nullish⟩
    · exact absurd last (answers v u m')

theorem chain_member_eq_none_iff {key : Key Expr} :
    chain (.member base key optional) m = (.ok none, m') ↔ Blocked base optional m m' := by
  unfold chain
  constructor
  · apply blocked_of_link
    intro v
    exact .after _ fun k => .after _ fun w => .pure w
  · intro blocked
    exact blocked.link none _

/-- A call stops where the access to its method does. -/
theorem chain_call_eq_none_iff {key : Key Expr} {args : List Expr} :
    chain (.call (.member base key optional) args) m = (.ok none, m') ↔
      chain (.member base key optional) m = (.ok none, m') := by
  rw [chain_member_eq_none_iff]
  unfold chain
  constructor
  · apply blocked_of_link
    intro v
    exact .after _ fun k => .after _ fun method => .after _ fun w => .pure w
  · intro blocked
    exact blocked.link none _

end

/-! ## Where a chain stops -/

theorem chain_of_stops {c : Expr} {m m' : Machine} (stops : Stops c m m') :
    chain c m = (.ok none, m') := by
  induction stops with
  | link first nullish =>
    obtain ⟨o, ends, rfl⟩ := value_eq_ok_iff.mp first
    apply chain_member_eq_none_iff.mpr
    cases o with
    | none => exact Or.inl ends
    | some v => exact Or.inr ⟨v, ends, nullish⟩
  | member _ ih => exact chain_member_eq_none_iff.mpr (Or.inl ih)
  | call _ ih => exact chain_call_eq_none_iff.mpr ih

/-- A call of anything but a method fails. -/
theorem answers_call {callee : Expr} {args : List Expr}
    (other : ∀ base key optional, callee = .member base key optional → False) :
    Answers (chain (.call callee args)) := by
  rw [chain]
  · exact .after _ fun _ => .throw _
  · exact other

theorem answers_unary (op : UnaryOp) (operand : Expr) : Answers (chain (.unary op operand)) := by
  by_cases named : ∃ name, op = .typeof ∧ operand = .ident name
  · obtain ⟨name, rfl, rfl⟩ := named
    unfold chain
    apply Answers.after
    intro s
    split
    · exact .pure _
    · exact .pure _
  · rw [chain]
    · exact .after _ fun v => .after _ fun h => .pure _
    · intro name same same'
      exact named ⟨name, same, same'⟩

theorem answers_assign (target e : Expr) : Answers (chain (.assign target e)) := by
  cases target with
  | ident name =>
    unfold chain
    exact .after _ fun v => .after _ fun _ => .pure v
  | member base key optional =>
    unfold chain
    exact .after _ fun b => .after _ fun k => .after _ fun v => .after _ fun _ => .pure v
  | _ => exact .throw _

theorem answers_delete (target : Expr) : Answers (chain (.delete target)) := by
  cases target with
  | member base key optional =>
    unfold chain
    apply Answers.after
    intro o
    cases o with
    | none => exact .pure _
    | some v => exact .ite (.pure _) (.after _ fun k => .after _ fun _ => .pure _)
  | _ => exact .pure _

/-- The evaluator gives its empty answer exactly where an optional link stops the chain. -/
theorem chain_eq_none_iff {c : Expr} {m m' : Machine} :
    chain c m = (.ok none, m') ↔ Stops c m m' := by
  refine ⟨fun stopped => ?_, chain_of_stops⟩
  -- the empty answer of a link is that of its base, or is due to the value of its base
  induction c using Expr.partsInduction generalizing m m' with
  | step c ih =>
    have answered (answers : Answers (chain c)) : Stops c m m' := absurd stopped (answers m m')
    cases c with
    | member base key optional =>
      rcases chain_member_eq_none_iff.mp stopped with earlier | ⟨v, ends, here⟩
      · exact .member (ih base List.mem_cons_self earlier)
      · obtain ⟨rfl, nullish⟩ := Bool.and_eq_true_iff.mp here
        exact .link (value_eq_ok_iff.mpr ⟨some v, ends, rfl⟩) nullish
    | call callee args =>
      cases callee with
      | member base key optional =>
        have access := chain_call_eq_none_iff.mp stopped
        exact .call (ih _ List.mem_cons_self access)
      | _ => exact answered (answers_call nofun)
    | literal value => exact answered (.pure _)
    | array items => exact answered (.after _ fun _ => .after _ fun _ => .pure _)
    | object entries => exact answered (.after _ fun _ => .after _ fun _ => .pure _)
    | ident name => exact answered (.after _ fun _ => .pure _)
    | arrow params body => exact answered (chain_arrow params body ▸ .throw _)
    | unary op operand => exact answered (answers_unary op operand)
    | binary op lhs rhs =>
      exact answered (.after _ fun _ => .after _ fun _ => .after _ fun _ => .pure _)
    | logical op lhs rhs =>
      exact answered (.after _ fun _ => .ite (.pure _) (.after _ fun _ => .pure _))
    | conditional test consequent alternate =>
      exact answered (.after _ fun _ => .ite (.after _ fun _ => .pure _) (.after _ fun _ => .pure _))
    | assign target e => exact answered (answers_assign target e)
    | delete target => exact answered (answers_delete target)

/-! ## The rest of the chain -/

/-- What goes on behind a chain that has stopped has stopped there as well. -/
theorem Stops.continues {c e : Expr} {m m' : Machine} (stops : Stops c m m')
    (tail : c.Continues e) : Stops e m m' := by
  induction tail with
  | here => exact stops
  | member _ ih => exact .member ih
  | call _ ih => exact .call ih

/-- **Short circuit.** Where evaluating a chain stops at an optional link, every chain that goes on
behind it is `undefined` and leaves the machine that the first one leaves, whatever its keys and
arguments are; and deleting a member of such a chain is `true` and leaves that machine, too. -/
theorem value_stopped {c e : Expr} {m m' : Machine} (stops : Stops c m m')
    (tail : c.Continues e) :
    value e m = (.ok .undefined, m') ∧
      ∀ key optional, value (.delete (.member e key optional)) m = (.ok (.bool true), m') := by
  have stopped := chain_of_stops (stops.continues tail)
  constructor
  · exact value_eq_ok_iff.mpr ⟨none, stopped, rfl⟩
  · intro key optional
    have blocked : Blocked e optional m m' := Or.inl stopped
    apply value_eq_ok_iff.mpr
    refine ⟨some (.bool true), ?_, rfl⟩
    unfold chain
    exact blocked.link _ _

/-- An assignment has made the base `null`. What is skipped behind the link would fail, and would
assign to a name. -/
theorem value_stopped_assigned :
    let c : Expr := .member (.assign (.ident "data") (.literal .null)) (.named "a") true
    let e : Expr := .call (.member (.member c (.computed (.ident "missing")) false) (.named "push") true)
      [.assign (.ident "schema") (.literal .undefined), .ident "missing"]
    let m : Machine := ⟨.empty, [("data", .bool true), ("schema", .bool false)]⟩
    let m' : Machine := ⟨.empty, [("data", .null), ("schema", .bool false)]⟩
    Stops c m m' ∧ c.Continues e ∧ value e m = (.ok .undefined, m') ∧
      ∀ key optional, value (.delete (.member e key optional)) m = (.ok (.bool true), m') := by
  intro c e m m'
  have stops : Stops c m m' := .link (v := .null) (by rfl) (by rfl)
  have tail : c.Continues e := .call (.member (.member .here))
  exact ⟨stops, tail, value_stopped stops tail⟩

end Eval

end FormLogic
