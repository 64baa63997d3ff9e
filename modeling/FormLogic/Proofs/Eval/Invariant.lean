import FormLogic.Eval.Interpreter
import FormLogic.Proofs.Expr.Part

/-!
# `FormLogic.Proofs.Eval.Invariant` — properties that evaluation keeps

An evaluation is put together from a few actions: it reads, makes containers, fails, goes on after
another action, and runs a callback under its parameters. A property of actions that all of these have
and keep is an *invariant*, and holds of the evaluation of every expression that reads only. What else
there is, the writes and the failure of an assignment to what cannot be assigned to, is asked of the
nodes of the expression: an invariant that permits each of them holds of the evaluation.

The methods and callbacks are gone through once, here; what an invariant says is shown for its actions
alone.

## Contents
- `EvalError.OnExpression`: the failure of an assignment to what cannot be assigned to.
- `Eval.Invariant`: properties of actions; `Eval.Permits`: nodes whose writes have them.
- `Invariant.callMethod`, `Invariant.chain`, `Invariant.run`: methods, expressions and programs.
-/

namespace FormLogic

/-- An assignment has failed because what stands left of `=` cannot be assigned to. -/
def EvalError.OnExpression (e : EvalError) : Prop :=
  ∃ property, e = .invalidTarget property "expression"

namespace Eval

/-- A property of actions that evaluation keeps: all steps but writing have it, and it is kept where
actions are put together. -/
structure Invariant (P : ∀ {α : Type}, Eval α → Prop) : Prop where
  pure : ∀ {α : Type} (a : α), P (Pure.pure a)
  throw : ∀ {α : Type} {e : EvalError}, ¬ e.OnExpression → P (MonadExcept.throw e : Eval α)
  bind : ∀ {α β : Type} {p : Eval α} {f : α → Eval β}, P p → (∀ a, P (f a)) → P (p >>= f)
  heap : P Eval.heap
  scope : P Eval.scope
  alloc : ∀ c, P (Eval.alloc c)
  read : ∀ base key, P (Eval.read base key)
  withParams : ∀ {α : Type} {p : Eval α} (params : List String) (args : List Value),
    P p → P (Eval.withParams params args p)

/-- A method can be called if it is not the one that writes, or writing has the property. -/
def PermitsMethod (P : ∀ {α : Type}, Eval α → Prop) (method : String) : Prop :=
  method = "push" → ∀ r f, P (update r f)

/-- The writes of the node have the property, and so has its failure if it has to fail. -/
def Permits (P : ∀ {α : Type}, Eval α → Prop) : Expr → Prop
  | .call (.member _ (.named method) _) _ => PermitsMethod @P method
  | .call (.member _ (.computed _) _) _ => ∀ method, PermitsMethod @P method
  | .assign (.ident name) _ => ∀ v, P (assign name v)
  | .assign (.member _ _ _) _ => ∀ base key v, P (write base key v)
  | .assign target _ =>
    P (throw (.invalidTarget target.print "expression") : Eval (Option Value))
  | .delete (.member _ _ _) => ∀ base key, P (delete base key)
  | _ => True

namespace Invariant

variable {P : ∀ {α : Type}, Eval α → Prop}

theorem ite {α : Type} {c : Prop} [Decidable c] {p q : Eval α} (yes : P p) (no : P q) :
    P (if c then p else q) := by
  split
  · exact yes
  · exact no

variable (inv : Invariant @P)

include inv

theorem text (v : Value) : P (Eval.text v) :=
  inv.bind inv.heap fun _ => inv.pure _

theorem settle {p : Eval (Option Value)} (inner : P p) : P (Eval.settle p) :=
  inv.bind inner fun _ => inv.pure _

end Invariant

/-! ## Methods -/

/-- What an argument evaluates has the property. -/
def ArgumentHas (P : ∀ {α : Type}, Eval α → Prop) : Argument → Prop
  | .callback _ body => P body
  | .plain value => P value

namespace Invariant

variable {P : ∀ {α : Type}, Eval α → Prop} (inv : Invariant @P)

section Callbacks

variable {visit : Visit}

include inv

theorem anyItem (inner : ∀ item index, P (visit item index)) (index : Nat) (items : List Value) :
    P (Eval.anyItem visit index items) := by
  induction items generalizing index with
  | nil => exact inv.pure _
  | cons item rest ih =>
    exact inv.bind (inner item index) fun _ => ite (inv.pure _) (ih (index + 1))

theorem everyItem (inner : ∀ item index, P (visit item index)) (index : Nat)
    (items : List Value) : P (Eval.everyItem visit index items) := by
  induction items generalizing index with
  | nil => exact inv.pure _
  | cons item rest ih =>
    exact inv.bind (inner item index) fun _ => ite (ih (index + 1)) (inv.pure _)

theorem firstItem (inner : ∀ item index, P (visit item index)) (index : Nat)
    (items : List Value) : P (Eval.firstItem visit index items) := by
  induction items generalizing index with
  | nil => exact inv.pure _
  | cons item rest ih =>
    exact inv.bind (inner item index) fun _ => ite (inv.pure _) (ih (index + 1))

theorem filterItems (inner : ∀ item index, P (visit item index)) (kept : Array Value)
    (index : Nat) (items : List Value) : P (Eval.filterItems visit kept index items) := by
  induction items generalizing kept index with
  | nil => exact inv.pure _
  | cons item rest ih => exact inv.bind (inner item index) fun _ => ih _ (index + 1)

theorem mapItems (inner : ∀ item index, P (visit item index)) (values : Array Value)
    (index : Nat) (items : List Value) : P (Eval.mapItems visit values index items) := by
  induction items generalizing values index with
  | nil => exact inv.pure _
  | cons item rest ih => exact inv.bind (inner item index) fun _ => ih _ (index + 1)

/-- A loop over elements has the property if its callback does. -/
theorem each {method : String} {each : Visit → List Value → Eval Value}
    (found : eachMethod? method = some each) (inner : ∀ item index, P (visit item index))
    (items : List Value) : P (each visit items) := by
  unfold eachMethod? at found
  split at found <;> cases found
  · exact inv.bind (inv.anyItem inner 0 items) fun _ => inv.pure _
  · exact inv.bind (inv.everyItem inner 0 items) fun _ => inv.pure _
  · exact inv.firstItem inner 0 items
  · exact inv.bind (inv.filterItems inner #[] 0 items) fun _ => inv.alloc _
  · exact inv.bind (inv.mapItems inner #[] 0 items) fun _ => inv.alloc _

end Callbacks

variable {method : String} {args : List Argument}

include inv

theorem argument {arg : Argument} (inner : ArgumentHas @P arg) : P (Eval.argument arg) := by
  cases arg with
  | callback params body => exact inv.throw nofun
  | plain value => exact inner

theorem firstArgument (inner : ∀ arg ∈ args, ArgumentHas @P arg) : P (Eval.firstArgument args) := by
  cases args with
  | nil => exact inv.pure _
  | cons arg rest => exact inv.argument (inner arg List.mem_cons_self)

theorem callEach {each : Visit → List Value → Eval Value} (found : eachMethod? method = some each)
    (r : Ref) (inner : ∀ arg ∈ args, ArgumentHas @P arg) :
    P (Eval.callEach method each r args) := by
  unfold Eval.callEach
  split
  · next params body rest =>
    have body : P body := inner (.callback params body) List.mem_cons_self
    exact inv.bind inv.heap fun _ => inv.each found (fun _ _ => inv.withParams _ _ body) _
  · exact inv.throw nofun

theorem itemsOf (r : Ref) : P (Eval.itemsOf r) :=
  inv.bind inv.heap fun _ => inv.pure _

theorem pushAll (r : Ref) (writes : ∀ r f, P (update r f))
    (inner : ∀ arg ∈ args, ArgumentHas @P arg) : P (Eval.pushAll r args) := by
  induction args with
  | nil => exact inv.pure _
  | cons arg rest ih =>
    refine inv.bind (inv.argument (inner arg List.mem_cons_self)) fun _ => ?_
    exact inv.bind (writes r _) fun _ => ih fun arg mem => inner arg (List.mem_cons_of_mem _ mem)

/-- Sequences have one method that writes. -/
theorem sequenceMethod (r : Ref) (permits : PermitsMethod @P method)
    (inner : ∀ arg ∈ args, ArgumentHas @P arg) : P (Eval.sequenceMethod r method args) := by
  have needle := inv.firstArgument inner
  unfold Eval.sequenceMethod
  cases found : eachMethod? method with
  | some each => exact inv.callEach found r inner
  | none =>
    dsimp only
    split
    · exact inv.bind needle fun _ => inv.bind (inv.itemsOf r) fun _ => inv.pure _
    · refine inv.bind needle fun _ => inv.bind (inv.itemsOf r) fun _ => ?_
      split
      · exact inv.pure _
      · exact inv.pure _
    · refine inv.bind needle fun _ => inv.bind inv.heap fun _ => inv.bind (inv.itemsOf r) fun _ => ?_
      exact inv.pure _
    · refine inv.bind (inv.pushAll r (permits rfl) inner) fun _ => ?_
      exact inv.bind (inv.itemsOf r) fun _ => inv.pure _
    · exact inv.throw nofun

theorem textMethod (s : String) (inner : ∀ arg ∈ args, ArgumentHas @P arg) :
    P (Eval.textMethod s method args) := by
  -- the methods with an argument look for its text
  have sought {f : String → Eval Value} (next : ∀ t, P (f t)) :
      P (Eval.firstArgument args >>= fun v => Eval.text v >>= f) :=
    inv.bind (inv.firstArgument inner) fun v => inv.bind (inv.text v) next
  unfold Eval.textMethod
  split
  · exact inv.pure _
  · exact inv.pure _
  · exact inv.pure _
  · exact sought fun _ => inv.pure _
  · exact sought fun _ => inv.pure _
  · exact sought fun _ => inv.pure _
  · refine sought fun _ => ?_
    split
    · exact inv.pure _
    · exact inv.pure _
  · exact inv.throw nofun

theorem mappingMethod (r : Ref) (inner : ∀ arg ∈ args, ArgumentHas @P arg) :
    P (Eval.mappingMethod r method args) := by
  unfold Eval.mappingMethod
  split
  · refine inv.bind (inv.firstArgument inner) fun v => inv.bind (inv.text v) fun key => ?_
    exact inv.bind inv.heap fun _ => inv.pure _
  · exact inv.throw nofun

theorem callMethod (receiver : Value) (permits : PermitsMethod @P method)
    (inner : ∀ arg ∈ args, ArgumentHas @P arg) : P (Eval.callMethod receiver method args) := by
  unfold Eval.callMethod
  split
  · exact inv.throw nofun
  · exact inv.throw nofun
  · exact inv.textMethod _ inner
  · refine inv.bind inv.heap fun h => ?_
    split
    · exact inv.sequenceMethod _ permits inner
    · exact inv.mappingMethod _ inner
  · exact inv.throw nofun

/-! ## Expressions -/

/-- What follows the base of a link is reached, or the chain has stopped before it. -/
theorem link {base : Expr} {stop : Option Value} {optional : Bool}
    {next : Value → Eval (Option Value)} (first : P (Eval.chain base)) (goes : ∀ v, P (next v)) :
    P
      (do
        match ← Eval.chain base with
        | none => return stop
        | some v => if optional && v.isNullish then return stop else next v) := by
  refine inv.bind first fun o => ?_
  cases o with
  | none => exact inv.pure _
  | some v => exact ite (inv.pure _) (goes v)

/-- An invariant that permits every node of an expression holds of its evaluation, along the recursion
of the evaluator. -/
theorem chain (e : Expr) : e.Everywhere (Permits @P) → P (Eval.chain e) := by
  refine Eval.chain.induct
    (fun e => e.Everywhere (Permits @P) → P (Eval.chain e))
    (fun args => (∀ arg ∈ args, arg.Everywhere (Permits @P)) →
      ∀ arg ∈ arguments args, ArgumentHas @P arg)
    (fun key => (∀ part ∈ Expr.keyParts key, part.Everywhere (Permits @P)) → P (keyValue key))
    (fun _ entries => (∀ part ∈ entries.map Prod.snd, part.Everywhere (Permits @P)) →
      ∀ known, P (fields known entries))
    (fun _ items => (∀ item ∈ items, item.Everywhere (Permits @P)) → ∀ known, P (values known items))
    ?literal ?array ?object ?ident ?member ?callMember ?call ?arrow ?typeofName ?unary ?binary
    ?logical ?conditional ?assignName ?assignMember ?assign ?deleteMember ?delete
    ?noArguments ?callback ?plain ?noItems ?item ?noEntries ?entry ?named ?computed e
  case literal =>
    intro value _
    unfold Eval.chain
    exact inv.pure _
  case array =>
    intro items ih permits
    unfold Eval.chain
    refine inv.bind (ih (fun item mem => permits.below mem) _) fun _ => ?_
    exact inv.bind (inv.alloc _) fun _ => inv.pure _
  case object =>
    intro entries ih permits
    unfold Eval.chain
    refine inv.bind (ih (fun value mem => permits.below mem) _) fun _ => ?_
    exact inv.bind (inv.alloc _) fun _ => inv.pure _
  case ident =>
    intro name _
    unfold Eval.chain lookup
    refine inv.bind (inv.bind inv.scope fun s => ?_) fun _ => inv.pure _
    split
    · exact inv.pure _
    · exact inv.throw nofun
  case member =>
    intro base key optional atBase atKey permits
    have onKey := atKey fun part mem => permits.below (List.mem_cons_of_mem base mem)
    unfold Eval.chain
    refine inv.link (atBase (permits.below List.mem_cons_self)) fun v => inv.bind onKey fun k => ?_
    exact inv.bind (inv.read v k) fun _ => inv.pure _
  case callMember =>
    intro base key optional args atBase atKey atArgs permits
    have callee : (Expr.member base key optional).Everywhere (Permits @P) :=
      permits.below List.mem_cons_self
    have onArgs := atArgs fun arg mem => permits.below (List.mem_cons_of_mem _ mem)
    unfold Eval.chain
    refine inv.link (atBase (callee.below List.mem_cons_self)) fun v => ?_
    cases key with
    | named method =>
      -- the text of a name is the name
      show P (Eval.callMethod v method (arguments args) >>= fun w => return some w)
      exact inv.bind (inv.callMethod v permits.here onArgs) fun _ => inv.pure _
    | computed key =>
      have onKey := atKey fun part mem => callee.below (List.mem_cons_of_mem base mem)
      refine inv.bind onKey fun k => inv.bind (inv.text k) fun method => ?_
      exact inv.bind (inv.callMethod v (permits.here method) onArgs) fun _ => inv.pure _
  case call =>
    intro callee args other ih permits
    rw [Eval.chain]
    · exact inv.bind (ih (permits.below List.mem_cons_self)) fun _ => inv.throw nofun
    · exact other
  case arrow =>
    intro params body _
    rw [chain_arrow]
    exact inv.throw nofun
  case typeofName =>
    intro name _
    unfold Eval.chain
    refine inv.bind inv.scope fun s => ?_
    split
    · exact inv.pure _
    · exact inv.pure _
  case unary =>
    intro op operand plain ih permits
    rw [Eval.chain]
    · refine inv.bind (inv.settle (ih (permits.below List.mem_cons_self))) fun _ => ?_
      exact inv.bind inv.heap fun _ => inv.pure _
    · exact plain
  case binary =>
    intro op lhs rhs left right permits
    have onRight := right (permits.below (List.mem_cons_of_mem _ List.mem_cons_self))
    unfold Eval.chain
    refine inv.bind (inv.settle (left (permits.below List.mem_cons_self))) fun _ => ?_
    exact inv.bind (inv.settle onRight) fun _ => inv.bind inv.heap fun _ => inv.pure _
  case logical =>
    intro op lhs rhs left right permits
    have onRight := right (permits.below (List.mem_cons_of_mem _ List.mem_cons_self))
    unfold Eval.chain
    refine inv.bind (inv.settle (left (permits.below List.mem_cons_self))) fun _ =>
      ite (inv.pure _) ?_
    exact inv.bind (inv.settle onRight) fun _ => inv.pure _
  case conditional =>
    intro test consequent alternate first second third permits
    have onSecond := second (permits.below (List.mem_cons_of_mem _ List.mem_cons_self))
    have onThird := third
      (permits.below (List.mem_cons_of_mem _ (List.mem_cons_of_mem _ List.mem_cons_self)))
    unfold Eval.chain
    refine inv.bind (inv.settle (first (permits.below List.mem_cons_self))) fun _ => ite ?_ ?_
    · exact inv.bind (inv.settle onSecond) fun _ => inv.pure _
    · exact inv.bind (inv.settle onThird) fun _ => inv.pure _
  case assignName =>
    intro name value ih permits
    have onValue := ih (permits.below (List.mem_cons_of_mem _ List.mem_cons_self))
    unfold Eval.chain
    exact inv.bind (inv.settle onValue) fun v => inv.bind (permits.here v) fun _ => inv.pure _
  case assignMember =>
    intro base key optional value atBase atKey atValue permits
    have target : (Expr.member base key optional).Everywhere (Permits @P) :=
      permits.below List.mem_cons_self
    have onKey := atKey fun part mem => target.below (List.mem_cons_of_mem base mem)
    have onValue := atValue (permits.below (List.mem_cons_of_mem _ List.mem_cons_self))
    unfold Eval.chain
    refine inv.bind (inv.settle (atBase (target.below List.mem_cons_self))) fun b => ?_
    refine inv.bind onKey fun k => inv.bind (inv.settle onValue) fun v => ?_
    exact inv.bind (permits.here b k v) fun _ => inv.pure _
  case assign =>
    intro target value noName noMember permits
    have fails : P (MonadExcept.throw (.invalidTarget target.print "expression") :
        Eval (Option Value)) := by
      have here := permits.here
      cases target with
      | ident name => exact (noName name rfl).elim
      | member base key optional => exact (noMember base key optional rfl).elim
      | _ => exact here
    rw [Eval.chain]
    · exact fails
    · exact noName
    · exact noMember
  case deleteMember =>
    intro base key optional atBase atKey permits
    have target : (Expr.member base key optional).Everywhere (Permits @P) :=
      permits.below List.mem_cons_self
    have onKey := atKey fun part mem => target.below (List.mem_cons_of_mem base mem)
    unfold Eval.chain
    refine inv.link (atBase (target.below List.mem_cons_self)) fun v => ?_
    exact inv.bind onKey fun k => inv.bind (permits.here v k) fun _ => inv.pure _
  case delete =>
    intro target noMember permits
    rw [Eval.chain]
    · exact inv.pure _
    · exact noMember
  case noArguments =>
    intro _ arg mem
    exact absurd mem List.not_mem_nil
  case callback =>
    intro params body rest atBody others permits arg mem
    obtain ⟨first, later⟩ := List.forall_mem_cons.mp permits
    unfold arguments at mem
    rcases List.mem_cons.mp mem with rfl | mem
    · exact inv.settle (atBody (first.below List.mem_cons_self))
    · exact others later arg mem
  case plain =>
    intro arg' rest noArrow atArg others permits arg mem
    obtain ⟨first, later⟩ := List.forall_mem_cons.mp permits
    rw [arguments] at mem
    · rcases List.mem_cons.mp mem with rfl | mem
      · exact inv.settle (atArg first)
      · exact others later arg mem
    · exact noArrow
  case noItems =>
    intro _ _ known
    exact inv.pure known
  case item =>
    intro known item rest first others permits known'
    obtain ⟨here, later⟩ := List.forall_mem_cons.mp permits
    exact inv.bind (inv.settle (first here)) fun _ => others .undefined later _
  case noEntries =>
    intro _ _ known
    exact inv.pure known
  case entry =>
    intro known key value rest first others permits known'
    obtain ⟨here, later⟩ := List.forall_mem_cons.mp permits
    exact inv.bind (inv.settle (first here)) fun _ => others .undefined later _
  case named =>
    intro name _
    exact inv.pure _
  case computed =>
    intro key atKey permits
    exact inv.settle (atKey (permits key List.mem_cons_self))

/-- An invariant that permits every node of a program holds of its evaluation. -/
theorem run {program : Program}
    (permits : ∀ statement ∈ program, statement.Everywhere (Permits @P)) : P (Eval.run program) := by
  have from' (v : Value) : P (runFrom v program) := by
    induction program generalizing v with
    | nil => exact inv.pure v
    | cons statement rest ih =>
      obtain ⟨first, others⟩ := List.forall_mem_cons.mp permits
      exact inv.bind (inv.settle (inv.chain statement first)) fun w => ih others w
  exact from' .undefined

end Invariant

end Eval

end FormLogic
