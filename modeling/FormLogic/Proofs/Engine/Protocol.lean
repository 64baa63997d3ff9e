import FormLogic.Engine
import FormLogic.Proofs.Heap.Action
import Mathlib.Data.List.Chain

/-!
# `FormLogic.Proofs.Engine.Protocol` — what a run of the rules calls, and in which order

The evaluator of an engine is any function. It may change the graphs, the rule list among them, and
it may fail. What can be said of all runs is when it is called, with which texts, and what becomes of
its answers. So the evaluator is given a log of its calls, and the log of a run is cut into blocks,
one for each turn. A block is described by the record that stands at its index when it begins, and
by the answers of the calls before it.

The description is built from the single evaluation upwards: `Evaluation`, `Gate`, `Turn`, `Block`.
At each level an action of the engine and the same action with a log run in step (`Logs`), and what
the log gains fits the description.

## Contents
- `Call`, `Evaluator.logged`, `Engine.logged`: evaluators that keep a log of their calls.
- `Evaluation`, `Gate`, `Turn`, `RecordTurn`: the calls of an evaluation, of a gate, of a rule and of
  the record at an index.
- `Logs`, with `Logs.pure`, `Logs.throw`, `Logs.bind`: actions in step with their logged forms.
- `Block`, `Protocol`: a whole run; `processDetailed_protocol`.
-/

namespace FormLogic

variable {σ : Type}

/-! ## Evaluators with a log -/

/-- A call of an evaluator: the text that it was given and what it answered. -/
structure Call where
  text : String
  answer : Except EvaluationError Value

/-- The same world with a log of calls. -/
def World.logged (w : World σ) (calls : List Call) : World (σ × List Call) :=
  ⟨w.heap, w.host, calls⟩

/-- The same evaluator, which puts each of its calls at the end of a log. -/
def Evaluator.logged (evaluator : Evaluator σ) : Evaluator (σ × List Call) :=
  fun text ctx ⟨heap, host, calls⟩ =>
    let (answer, w) := evaluator text ctx ⟨heap, host⟩
    (answer, w.logged (calls ++ [⟨text, answer⟩]))

namespace Engine

/-- The same engine with a log of the calls of its evaluator. -/
def logged (engine : Engine σ) : Engine (σ × List Call) :=
  ⟨Evaluator.logged engine.evaluator, engine.config⟩

/-! ## What is called -/

section

variable (engine : Engine σ) (ctx : Context)

/-- The slots that a text mentions have been isolated, if the settings say so. -/
def Isolates (text : String) (h k : Heap) : Prop :=
  if engine.config.isolateBindings then isolate engine.config text ctx h = (.ok (), k) else k = h

/-- An evaluation of a text is one call of the evaluator, on the heap that isolating has left. Where
isolating fails there is no call. -/
inductive Evaluation (text : String) :
    World σ → List Call → Except FormError Value → World σ → Prop where
  | unisolated {w : World σ} {e : RecursionLimit} {k : Heap}
      (on : engine.config.isolateBindings = true)
      (fails : isolate engine.config text ctx w.heap = (.error e, k)) :
      Evaluation text w [] (.error (.recursionLimit e)) ⟨k, w.host⟩
  | called {w w' : World σ} {k : Heap} {answer : Except EvaluationError Value}
      (isolates : engine.Isolates ctx text w.heap k)
      (answers : engine.evaluator text ctx ⟨k, w.host⟩ = (answer, w')) :
      Evaluation text w [⟨text, answer⟩] (answer.mapError .evaluation) w'

/-- A rule without a gate is let through. Otherwise the gate is evaluated, and its truth decides. -/
inductive Gate (rule : Rule) : World σ → List Call → Except FormError Bool → World σ → Prop where
  | none {w : World σ} (empty : rule.gate = "") : Gate rule w [] (.ok true) w
  | asked {w w' : World σ} {calls : List Call} {answer : Except FormError Value}
      (given : rule.gate ≠ "") (evaluation : engine.Evaluation ctx rule.gate w calls answer w') :
      Gate rule w calls (answer.map Value.truthy) w'

/-- Under strict settings the rule is refused with this error: it has exactly one of condition and
first branch. -/
inductive Refused (rule : Rule) (index : Nat) : ConfigurationError → Prop where
  | noBranch (strict : engine.config.strictRules = true) (condition : rule.condition ≠ "")
      (branch : rule.consequent = "") : Refused rule index (.incompleteRule index "if" "then")
  | noCondition (strict : engine.config.strictRules = true) (condition : rule.condition = "")
      (branch : rule.consequent ≠ "") : Refused rule index (.incompleteRule index "then" "if")

/-- The rule is switched on, and the settings do not refuse it. -/
def Ready (rule : Rule) : Prop :=
  rule.active = true ∧
    (engine.config.strictRules = true → (rule.condition = "" ↔ rule.consequent = ""))

/-- The rule has a condition and a first branch. -/
def Configured (rule : Rule) : Prop :=
  rule.condition ≠ "" ∧ rule.consequent ≠ ""

/-- The calls of a rule at its turn and what becomes of it: nothing is called, or the gate if there
is one, or after it the condition, or after that one of the branches. -/
inductive Turn (rule : Rule) (index : Nat) :
    World σ → List Call → Except FormError Outcome → World σ → Prop where
  | inactive {w : World σ} (off : rule.active = false) : Turn rule index w [] (.ok .inactive) w
  | refused {w : World σ} {e : ConfigurationError} (on : rule.active = true)
      (refused : engine.Refused rule index e) : Turn rule index w [] (.error (.configuration e)) w
  | gateFails {w w' : World σ} {calls : List Call} {e : FormError} (ready : engine.Ready rule)
      (gate : engine.Gate ctx rule w calls (.error e) w') : Turn rule index w calls (.error e) w'
  | gateClosed {w w' : World σ} {calls : List Call} (ready : engine.Ready rule)
      (gate : engine.Gate ctx rule w calls (.ok false) w') :
      Turn rule index w calls (.ok .gateClosed) w'
  | notConfigured {w w' : World σ} {calls : List Call} (ready : engine.Ready rule)
      (gate : engine.Gate ctx rule w calls (.ok true) w') (half : ¬ Configured rule) :
      Turn rule index w calls (.ok .notConfigured) w'
  | conditionFails {w u w' : World σ} {gates calls : List Call} {e : FormError}
      (ready : engine.Ready rule) (gate : engine.Gate ctx rule w gates (.ok true) u)
      (configured : Configured rule)
      (condition : engine.Evaluation ctx rule.condition u calls (.error e) w') :
      Turn rule index w (gates ++ calls) (.error e) w'
  | consequent {w u u' w' : World σ} {gates asked calls : List Call} {v : Value}
      {answer : Except FormError Value} (ready : engine.Ready rule)
      (gate : engine.Gate ctx rule w gates (.ok true) u) (configured : Configured rule)
      (condition : engine.Evaluation ctx rule.condition u asked (.ok v) u')
      (holds : v.truthy = true)
      (branch : engine.Evaluation ctx rule.consequent u' calls answer w') :
      Turn rule index w (gates ++ asked ++ calls) (answer.map fun _ => .consequent) w'
  | alternate {w u u' w' : World σ} {gates asked calls : List Call} {v : Value}
      {answer : Except FormError Value} (ready : engine.Ready rule)
      (gate : engine.Gate ctx rule w gates (.ok true) u) (configured : Configured rule)
      (condition : engine.Evaluation ctx rule.condition u asked (.ok v) u')
      (fails : v.truthy = false) (given : rule.alternate ≠ "")
      (branch : engine.Evaluation ctx rule.alternate u' calls answer w') :
      Turn rule index w (gates ++ asked ++ calls) (answer.map fun _ => .alternate) w'
  | noBranch {w u w' : World σ} {gates asked : List Call} {v : Value} (ready : engine.Ready rule)
      (gate : engine.Gate ctx rule w gates (.ok true) u) (configured : Configured rule)
      (condition : engine.Evaluation ctx rule.condition u asked (.ok v) w')
      (fails : v.truthy = false) (empty : rule.alternate = "") :
      Turn rule index w (gates ++ asked) (.ok .noBranch) w'

/-- The turn of the record at an index, which is read when the turn begins. -/
inductive RecordTurn (record : Value) (index : Nat) :
    World σ → List Call → Except FormError Outcome → World σ → Prop where
  | absent {w : World σ} (undefined : record = .undefined) :
      RecordTurn record index w [] (.ok .inactive) w
  | malformed {w : World σ} {e : ConfigurationError} (given : record ≠ .undefined)
      (refused : Rule.ofRecord w.heap record index = .error e) :
      RecordTurn record index w [] (.error (.configuration e)) w
  | rule {w w' : World σ} {rule : Rule} {calls : List Call} {result : Except FormError Outcome}
      (given : record ≠ .undefined) (read : Rule.ofRecord w.heap record index = .ok rule)
      (turn : engine.Turn ctx rule index w calls result w') :
      RecordTurn record index w calls result w'

end

/-! ## Actions in step with their logged forms -/

/-- What an action does and what it adds to the log: the calls, the result and the world it leaves
fit the description, and the logged action differs from it in the log only. -/
def Logs {ε α : Type} (plain : Action σ ε α) (logged : Action (σ × List Call) ε α)
    (fits : World σ → List Call → Except ε α → World σ → Prop) : Prop :=
  ∀ w log, ∃ calls, fits w calls (plain w).1 (plain w).2 ∧
    logged (w.logged log) = ((plain w).1, (plain w).2.logged (log ++ calls))

namespace Logs

variable {ε α β : Type} {p : Action σ ε α} {p' : Action (σ × List Call) ε α}
  {f : α → Action σ ε β} {f' : α → Action (σ × List Call) ε β}
  {Q R : World σ → List Call → Except ε α → World σ → Prop}
  {T : World σ → List Call → Except ε β → World σ → Prop}

theorem mono (logs : Logs p p' Q) (weaker : ∀ w calls x w', Q w calls x w' → R w calls x w') :
    Logs p p' R := by
  intro w log
  obtain ⟨calls, fits, same⟩ := logs w log
  exact ⟨calls, weaker _ _ _ _ fits, same⟩

/-- An action that calls nothing and changes nothing. -/
theorem still {x : Except ε α} (plain : ∀ w, p w = (x, w)) (logged : ∀ w, p' w = (x, w))
    (fits : ∀ w, Q w [] x w) : Logs p p' Q := by
  intro w log
  refine ⟨[], ?_, ?_⟩
  · rw [plain w]
    exact fits w
  · rw [plain w, logged, List.append_nil]

theorem pure (a : α) (fits : ∀ w, Q w [] (.ok a) w) :
    Logs (Pure.pure a : Action σ ε α) (Pure.pure a) Q :=
  still (fun _ => rfl) (fun _ => rfl) fits

theorem throw (e : ε) (fits : ∀ w, Q w [] (.error e) w) :
    Logs (MonadExcept.throw e : Action σ ε α) (MonadExcept.throw e) Q :=
  still (fun _ => rfl) (fun _ => rfl) fits

/-- One action after the other: the first one fails, or the calls of both follow each other. -/
theorem bind (first : Logs p p' Q)
    (fails : ∀ w calls e w', Q w calls (.error e) w' → T w calls (.error e) w')
    (next : ∀ a, Logs (f a) (f' a) fun u calls y w' =>
      ∀ w before, Q w before (.ok a) u → T w (before ++ calls) y w') :
    Logs (p >>= f) (p' >>= f') T := by
  intro w log
  obtain ⟨before, fits, same⟩ := first w log
  rw [bind_apply, bind_apply, same]
  rcases ends : p w with ⟨_ | a, u⟩
  · rw [ends] at fits
    exact ⟨before, fails _ _ _ _ fits, rfl⟩
  · rw [ends] at fits
    obtain ⟨calls, fits', same'⟩ := next a u (log ++ before)
    refine ⟨before ++ calls, fits' w before fits, ?_⟩
    rw [← List.append_assoc]
    exact same'

/-- The heap is read, and the action goes on with it. -/
theorem heap {f : Heap → Action σ ε α} {f' : Heap → Action (σ × List Call) ε α}
    (next : ∀ h, Logs (f h) (f' h) fun w calls x w' => w.heap = h → Q w calls x w') :
    Logs (Action.heap >>= f) (Action.heap >>= f') Q := by
  intro w log
  obtain ⟨calls, fits, same⟩ := next w.heap w log
  exact ⟨calls, fits rfl, same⟩

theorem ite {c : Prop} [Decidable c] {q : Action σ ε α} {q' : Action (σ × List Call) ε α}
    (yes : c → Logs p p' Q) (no : ¬ c → Logs q q' Q) :
    Logs (if c then p else q) (if c then p' else q') Q := by
  by_cases holds : c
  · rw [if_pos holds, if_pos holds]
    exact yes holds
  · rw [if_neg holds, if_neg holds]
    exact no holds

end Logs

/-! ## Evaluations, gates and rules -/

variable {engine : Engine σ} {ctx : Context} {rule : Rule} {index : Nat}

theorem logs_evaluate (text : String) :
    Logs (engine.evaluate text ctx) (engine.logged.evaluate text ctx)
      (engine.Evaluation ctx text) := by
  have called (k : Heap) (w : World σ) (isolates : engine.Isolates ctx text w.heap k)
      (log : List Call) : ∃ calls,
      engine.Evaluation ctx text w calls
        (Action.withErrors FormError.evaluation (engine.evaluator text ctx) ⟨k, w.host⟩).1
        (Action.withErrors FormError.evaluation (engine.evaluator text ctx) ⟨k, w.host⟩).2 ∧
      Action.withErrors FormError.evaluation (engine.logged.evaluator text ctx)
          ⟨k, w.host, log⟩ =
        ((Action.withErrors FormError.evaluation (engine.evaluator text ctx) ⟨k, w.host⟩).1,
          (Action.withErrors FormError.evaluation (engine.evaluator text ctx)
            ⟨k, w.host⟩).2.logged (log ++ calls)) := by
    rw [Action.withErrors_apply, Action.withErrors_apply]
    exact ⟨_, .called isolates rfl, rfl⟩
  intro w log
  unfold evaluate
  by_cases on : engine.config.isolateBindings = true
  · have on' : engine.logged.config.isolateBindings = true := on
    rw [if_pos on, if_pos on', bind_apply, bind_apply, Action.onHeap_apply]
    unfold World.logged
    rw [Action.onHeap_apply]
    rcases ends : isolate engine.config text ctx w.heap with ⟨_ | _, k⟩
    · have ends' : isolate engine.logged.config text ctx w.heap = _ := ends
      rw [ends']
      exact ⟨[], .unisolated on ends, by rw [List.append_nil]; rfl⟩
    · have ends' : isolate engine.logged.config text ctx w.heap = _ := ends
      rw [ends']
      refine called k w ?_ log
      unfold Isolates
      rw [if_pos on]
      exact ends
  · have off' : ¬ engine.logged.config.isolateBindings = true := on
    rw [if_neg on, if_neg off']
    refine called w.heap w ?_ log
    unfold Isolates
    rw [if_neg on]

theorem logs_gateHolds (rule : Rule) :
    Logs (engine.gateHolds rule ctx) (engine.logged.gateHolds rule ctx) (engine.Gate ctx rule) := by
  unfold gateHolds
  refine .ite (fun empty => .pure _ fun w => .none (String.isEmpty_iff.mp empty)) fun given => ?_
  have given : rule.gate ≠ "" := fun empty => given (String.isEmpty_iff.mpr empty)
  refine .bind (logs_evaluate rule.gate) (fun w calls e w' evaluation => ?_) fun v => ?_
  · exact .asked given evaluation
  · refine .pure _ fun u w calls evaluation => ?_
    rw [List.append_nil]
    exact .asked given evaluation

/-- The settings refuse a rule exactly if it has one of condition and first branch. -/
theorem refused_of_incomplete {e : ConfigurationError} (strict : engine.config.strictRules = true)
    (half : incomplete? rule index = some e) : engine.Refused rule index e := by
  unfold incomplete? at half
  split at half
  · next condition branch =>
    cases half
    refine .noBranch strict (fun empty => ?_) (String.isEmpty_iff.mp branch)
    rw [String.isEmpty_iff.mpr empty] at condition
    cases condition
  · next condition branch =>
    cases half
    refine .noCondition strict (String.isEmpty_iff.mp condition) fun empty => ?_
    rw [String.isEmpty_iff.mpr empty] at branch
    cases branch
  · cases half

theorem ready_of_complete (on : rule.active = true) (whole : incomplete? rule index = none) :
    engine.Ready rule := by
  refine ⟨on, fun _ => ?_⟩
  rw [← String.isEmpty_iff, ← String.isEmpty_iff]
  unfold incomplete? at whole
  split at whole
  · cases whole
  · cases whole
  · next one other =>
    cases condition : rule.condition.isEmpty <;> cases branch : rule.consequent.isEmpty
    · exact Iff.rfl
    · exact absurd branch (one condition)
    · exact absurd branch (other condition)
    · exact Iff.rfl

theorem configured_iff :
    Configured rule ↔ ¬ (rule.condition.isEmpty || rule.consequent.isEmpty) = true := by
  unfold Configured
  rw [Bool.or_eq_true, String.isEmpty_iff, String.isEmpty_iff, not_or]

/-- Behind an open gate, the condition and a branch are evaluated. -/
theorem logs_applyBranches (ready : engine.Ready rule) :
    Logs (engine.applyBranches rule ctx) (engine.logged.applyBranches rule ctx)
      fun u calls x w' => ∀ w gates, engine.Gate ctx rule w gates (.ok true) u →
        engine.Turn ctx rule index w (gates ++ calls) x w' := by
  unfold applyBranches
  refine .ite (fun empty => .pure _ fun u w gates gate => ?_) fun filled => ?_
  · rw [List.append_nil]
    exact .notConfigured ready gate fun configured => configured_iff.mp configured empty
  · have configured : Configured rule := configured_iff.mpr filled
    refine .bind (logs_evaluate rule.condition) (fun u calls e w' condition w gates gate => ?_)
      fun v => ?_
    · exact .conditionFails ready gate configured condition
    · refine .ite (fun holds => ?_) fun fails => ?_
      · refine .bind (logs_evaluate rule.consequent) ?_ fun answer => .pure _ ?_
        · intro u' calls e w' branch u asked condition w gates gate
          rw [← List.append_assoc]
          exact .consequent ready gate configured condition holds branch
        · intro w' u' calls branch u asked condition w gates gate
          rw [List.append_nil, ← List.append_assoc]
          exact .consequent ready gate configured condition holds branch
      · have fails : v.truthy = false := Bool.eq_false_iff.mpr fails
        refine .ite (fun empty => .pure _ ?_) fun given => ?_
        · intro w' u asked condition w gates gate
          rw [List.append_nil]
          exact .noBranch ready gate configured condition fails (String.isEmpty_iff.mp empty)
        · have given : rule.alternate ≠ "" := fun empty => given (String.isEmpty_iff.mpr empty)
          refine .bind (logs_evaluate rule.alternate) ?_ fun answer => .pure _ ?_
          · intro u' calls e w' branch u asked condition w gates gate
            rw [← List.append_assoc]
            exact .alternate ready gate configured condition fails given branch
          · intro w' u' calls branch u asked condition w gates gate
            rw [List.append_nil, ← List.append_assoc]
            exact .alternate ready gate configured condition fails given branch

/-- The turn of a rule that the settings let through. -/
theorem logs_gated (ready : engine.Ready rule) :
    Logs
      (engine.gateHolds rule ctx >>= fun holds =>
        if holds = true then engine.applyBranches rule ctx else pure .gateClosed)
      (engine.logged.gateHolds rule ctx >>= fun holds =>
        if holds = true then engine.logged.applyBranches rule ctx else pure .gateClosed)
      (engine.Turn ctx rule index) := by
  refine .bind (logs_gateHolds rule) (fun w calls e w' gate => .gateFails ready gate) fun open_ => ?_
  cases open_ with
  | true =>
    rw [if_pos rfl, if_pos rfl]
    exact (logs_applyBranches ready).mono fun u calls x w' turn w gates gate => turn w gates gate
  | false =>
    rw [if_neg Bool.false_ne_true, if_neg Bool.false_ne_true]
    refine .pure _ fun w' w gates gate => ?_
    rw [List.append_nil]
    exact .gateClosed ready gate

/-- **One rule** keeps to the protocol. -/
theorem logs_applyRule (rule : Rule) (index : Nat) :
    Logs (engine.applyRule rule index ctx) (engine.logged.applyRule rule index ctx)
      (engine.Turn ctx rule index) := by
  unfold applyRule
  refine .ite (fun off => .pure _ fun w => .inactive (by simpa using off)) fun on => ?_
  have on : rule.active = true := by simpa using on
  refine .ite (fun strict => ?_) fun lax => logs_gated ⟨on, fun strict => absurd strict lax⟩
  cases half : incomplete? rule index with
  | none =>
    have ready : engine.Ready rule := ready_of_complete on half
    exact logs_gated ready
  | some e =>
    have refused := refused_of_incomplete strict half
    exact .still (x := .error _) (fun _ => rfl) (fun _ => rfl) fun w => .refused on refused

/-- The record at an index is read and applied. -/
theorem logs_applyRecord (record : Value) (index : Nat) :
    Logs (engine.applyRecord record index ctx) (engine.logged.applyRecord record index ctx)
      (engine.RecordTurn ctx record index) := by
  unfold applyRecord
  refine .ite (fun absent => .pure _ fun w => .absent ?_) fun given => .heap fun h => ?_
  · cases record <;> first | rfl | cases absent
  · have given : record ≠ .undefined := by
      rintro rfl
      exact given rfl
    cases read : Rule.ofRecord h record index with
    | error e =>
      refine .throw _ ?_
      rintro w rfl
      exact .malformed given read
    | ok rule =>
      refine (logs_applyRule rule index).mono ?_
      rintro w calls x w' turn rfl
      exact .rule given read turn

/-! ## Whole runs -/

/-- One turn of a run: the worlds before and after it, what is called in it, and what comes of it. -/
structure Block (σ : Type) where
  before : World σ
  calls : List Call
  result : Except FormError Outcome
  after : World σ

/-- The record at an index of the list now. -/
def element? (h : Heap) (rules : Value) (index : Nat) : Option Value :=
  ((h.itemsOf? rules).getD #[])[index]?

/-- A run from an index on with so many turns left: it ends when no turn is left, when the list has
become too short, or when a turn fails. -/
inductive Run (engine : Engine σ) (ctx : Context) (rules : Value) :
    (left index : Nat) → World σ → List (Block σ) → Except FormError (List Outcome) → World σ →
    Prop where
  | done {index : Nat} {w : World σ} : Run engine ctx rules 0 index w [] (.ok []) w
  | short {left index : Nat} {w : World σ} (missing : element? w.heap rules index = none) :
      Run engine ctx rules (left + 1) index w [] (.ok []) w
  | cut {left index : Nat} {w w' : World σ} {record : Value} {calls : List Call} {e : FormError}
      (here : element? w.heap rules index = some record)
      (turn : engine.RecordTurn ctx record index w calls (.error e) w') :
      Run engine ctx rules (left + 1) index w [⟨w, calls, .error e, w'⟩] (.error e) w'
  | turn {left index : Nat} {w u w' : World σ} {record : Value} {calls : List Call}
      {outcome : Outcome} {blocks : List (Block σ)} {x : Except FormError (List Outcome)}
      (here : element? w.heap rules index = some record)
      (turn : engine.RecordTurn ctx record index w calls (.ok outcome) u)
      (rest : Run engine ctx rules left (index + 1) u blocks x w') :
      Run engine ctx rules (left + 1) index w (⟨w, calls, .ok outcome, u⟩ :: blocks)
        (x.map (outcome :: ·)) w'

/-- However many turns are left, they make up a run, behind the outcomes so far. -/
theorem logs_turns (engine : Engine σ) (ctx : Context) (rules : Value) (left index : Nat)
    (done : List Outcome) :
    Logs (engine.turns rules ctx left index done) (engine.logged.turns rules ctx left index done)
      fun w calls x w' => ∃ blocks outcomes, calls = blocks.flatMap Block.calls ∧
        Run engine ctx rules left index w blocks outcomes w' ∧
        x = outcomes.map fun outcomes => ⟨done.reverse ++ outcomes⟩ := by
  induction left generalizing index done with
  | zero =>
    refine .pure _ fun w => ⟨[], .ok [], rfl, .done, ?_⟩
    rw [Except.map, List.append_nil]
  | succ left ih =>
    unfold turns
    refine .heap fun h => ?_
    cases here : ((h.itemsOf? rules).getD #[])[index]? with
    | none =>
      refine .pure _ ?_
      rintro w rfl
      refine ⟨[], .ok [], rfl, .short here, ?_⟩
      rw [Except.map, List.append_nil]
    | some record =>
      refine .bind (logs_applyRecord record index) ?_ fun outcome => ?_
      · rintro w calls e w' turn rfl
        refine ⟨[⟨w, calls, .error e, w'⟩], .error e, ?_, .cut here turn, rfl⟩
        rw [List.flatMap_singleton]
      · refine (ih (index + 1) (outcome :: done)).mono ?_
        rintro u _ x w' ⟨blocks, outcomes, rfl, run, rfl⟩ w before turn rfl
        refine ⟨⟨w, before, .ok outcome, u⟩ :: blocks, outcomes.map (outcome :: ·), ?_,
          .turn here turn run, ?_⟩
        · rw [List.flatMap_cons]
        · cases outcomes with
          | error e => rfl
          | ok outcomes => simp [Except.map]

/-- What a run with so many turns does, block by block. -/
structure Protocol (engine : Engine σ) (ctx : Context) (rules : Value) (turns index : Nat)
    (start : World σ) (blocks : List (Block σ)) (result : Except FormError (List Outcome))
    (finish : World σ) : Prop where
  /-- There is at most one block for each turn. -/
  length_le : blocks.length ≤ turns
  /-- The first block begins where the run does. -/
  start_eq : ∀ b ∈ blocks.head?, b.before = start
  /-- Each block begins where the one before it has ended. -/
  chained : blocks.IsChain fun b c => c.before = b.after
  /-- The run ends where its last block does. -/
  finish_eq : finish = (blocks.getLast?.map Block.after).getD start
  /-- A block is the turn of the record that stands at its index when it begins. -/
  each : ∀ (i : Nat) b, blocks[i]? = some b → ∃ record,
    element? b.before.heap rules (index + i) = some record ∧
      engine.RecordTurn ctx record (index + i) b.before b.calls b.result b.after
  /-- If the run ends well, then its outcomes are those of the blocks, and there is a block for each
  turn unless the list has no element any more at the next index. -/
  ends : ∀ outcomes, result = .ok outcomes → blocks.map Block.result = outcomes.map .ok ∧
    (blocks.length = turns ∨ element? finish.heap rules (index + blocks.length) = none)
  /-- If the run fails, then all its blocks but the last one are complete, and that one has been cut
  short by the error. -/
  fails : ∀ e, result = .error e → ∃ complete cut, blocks = complete ++ [cut] ∧
    cut.result = .error e ∧ ∀ b ∈ complete, ∃ outcome, b.result = .ok outcome

section

variable {rules record : Value} {left index : Nat} {w u w' : World σ} {blocks : List (Block σ)}
  {calls : List Call} {x : Except FormError (List Outcome)}

/-- A run without a turn. -/
theorem Protocol.nil (stops : 0 = left ∨ element? w.heap rules index = none) :
    Protocol engine ctx rules left index w [] (.ok []) w where
  length_le := Nat.zero_le _
  start_eq := by simp
  chained := .nil
  finish_eq := rfl
  each := by simp
  ends outcomes same := by
    cases same
    exact ⟨rfl, stops⟩
  fails := by simp

/-- A run whose only turn fails. -/
theorem Protocol.cut {e : FormError} (here : element? w.heap rules index = some record)
    (turn : engine.RecordTurn ctx record index w calls (.error e) w') :
    Protocol engine ctx rules (left + 1) index w [⟨w, calls, .error e, w'⟩] (.error e) w' where
  length_le := by simp
  start_eq := by simp
  chained := .singleton _
  finish_eq := rfl
  each i b found := by
    cases i with
    | zero =>
      obtain rfl := Option.some.inj found
      exact ⟨record, here, turn⟩
    | succ i => cases found
  ends := by simp
  fails e' same := by
    cases same
    exact ⟨[], _, rfl, rfl, by simp⟩

/-- **A turn in front** of a run that keeps to the protocol. -/
theorem Protocol.cons {outcome : Outcome} (here : element? w.heap rules index = some record)
    (turn : engine.RecordTurn ctx record index w calls (.ok outcome) u)
    (rest : Protocol engine ctx rules left (index + 1) u blocks x w') :
    Protocol engine ctx rules (left + 1) index w (⟨w, calls, .ok outcome, u⟩ :: blocks)
      (x.map (outcome :: ·)) w' where
  length_le := Nat.succ_le_succ rest.length_le
  start_eq := by simp
  chained := List.isChain_cons.mpr ⟨rest.start_eq, rest.chained⟩
  finish_eq := by
    rw [rest.finish_eq]
    cases blocks with
    | nil => rfl
    | cons b blocks => rw [List.getLast?_cons_cons, List.getLast?_cons]; rfl
  each i b found := by
    cases i with
    | zero =>
      obtain rfl := Option.some.inj found
      exact ⟨record, here, turn⟩
    | succ i =>
      -- the index counts from where the rest begins
      obtain ⟨record, there, turn⟩ := rest.each i b found
      rw [Nat.add_right_comm] at there turn
      exact ⟨record, there, turn⟩
  ends outcomes same := by
    cases x with
    | error e => cases same
    | ok others =>
      cases same
      obtain ⟨agree, stops⟩ := rest.ends others rfl
      refine ⟨by rw [List.map_cons, List.map_cons, agree], ?_⟩
      rw [List.length_cons]
      refine stops.imp (congrArg Nat.succ) fun missing => ?_
      rwa [Nat.add_right_comm] at missing
  fails e same := by
    cases x with
    | ok outcomes => cases same
    | error e' =>
      cases same
      obtain ⟨complete, cut, rfl, broken, whole⟩ := rest.fails e rfl
      refine ⟨_ :: complete, cut, rfl, broken, ?_⟩
      intro b mem
      rcases List.mem_cons.mp mem with rfl | mem
      · exact ⟨outcome, rfl⟩
      · exact whole b mem

/-- **A run** keeps to the protocol, by induction on its turns. -/
theorem Run.protocol (run : Run engine ctx rules left index w blocks x w') :
    Protocol engine ctx rules left index w blocks x w' := by
  induction run with
  | done => exact .nil (Or.inl rfl)
  | short missing => exact .nil (Or.inr missing)
  | cut here turn => exact .cut here turn
  | turn here turn rest ih => exact .cons here turn ih

end

/-- The value that stands for the rules of a node. -/
def rulesOf (h : Heap) (ctx : Context) : Value :=
  h.lookup (h.lookup ctx.uiSchema optionsKey) rulesKey

theorem kind_of_itemsOf? {h : Heap} {v : Value} {items : Array Value}
    (sequence : h.itemsOf? v = some items) : h.kind v = .sequence := by
  cases v with
  | container r =>
    unfold Heap.itemsOf? at sequence
    unfold Heap.kind
    cases held : h.cell r with
    | mapping fields =>
      simp only [held] at sequence
      cases sequence
    | sequence elements => simp only [held]
  | _ => cases sequence

/-- Where the rules are a sequence, there is a turn for each of its elements. -/
theorem processDetailed_eq_turns (engine : Engine σ) {w : World σ} {items : Array Value}
    (sequence : w.heap.itemsOf? (rulesOf w.heap ctx) = some items) :
    engine.processDetailed ctx w =
      engine.turns (rulesOf w.heap ctx) ctx items.size 0 [] w := by
  have list : ruleList w.heap ctx = .ok (some (rulesOf w.heap ctx)) := by
    unfold ruleList
    exact if_pos (kind_of_itemsOf? sequence)
  unfold processDetailed
  rw [heap_bind]
  simp only [list, sequence, Option.getD_some]

/-- **The rule protocol.** Whatever the evaluator does, if the rules of a node are a sequence when
the run starts, then the calls of the run are those of its blocks one after the other, and these keep
to the protocol. -/
theorem processDetailed_protocol (engine : Engine σ) (ctx : Context) (w : World σ)
    (items : Array Value) (sequence : w.heap.itemsOf? (rulesOf w.heap ctx) = some items) :
    ∃ blocks result,
      Protocol engine ctx (rulesOf w.heap ctx) items.size 0 w blocks result
        (engine.processDetailed ctx w).2 ∧
      (engine.processDetailed ctx w).1 = result.map Report.mk ∧
      engine.logged.processDetailed ctx (w.logged []) =
        ((engine.processDetailed ctx w).1,
          (engine.processDetailed ctx w).2.logged (blocks.flatMap Block.calls)) := by
  obtain ⟨_, ⟨blocks, result, rfl, run, eq⟩, same⟩ :=
    logs_turns engine ctx (rulesOf w.heap ctx) items.size 0 [] w []
  have sequence' : (w.logged []).heap.itemsOf? (rulesOf (w.logged []).heap ctx) = some items :=
    sequence
  rw [processDetailed_eq_turns engine sequence, processDetailed_eq_turns engine.logged sequence']
  exact ⟨blocks, result, run.protocol, eq, same⟩

/-- The first rule takes the others off the list, so that the run ends after one turn. -/
theorem processDetailed_protocol_shrinking :
    let h : Heap := ⟨#[.mapping (.ofList [("ui:options", .container 1)]),
      .mapping (.ofList [("formRules", .container 2)]),
      .sequence #[.container 3, .undefined, .container 3],
      .mapping (.ofList [("context", .string "ready"), ("if", .string "true"),
        ("then", .string "shrink")])]⟩
    let evaluator : Evaluator Unit := fun text _ w =>
      if text = "shrink" then
        (.ok .null, ⟨w.heap.update 2 (.mapItems fun items => items.take 1), w.host⟩)
      else (.ok (.bool true), w)
    let ctx : Context := { uiSchema := .container 0 }
    let engine : Engine Unit := ⟨evaluator, {}⟩
    let w : World Unit := ⟨h, ()⟩
    w.heap.itemsOf? (rulesOf w.heap ctx) = some #[.container 3, .undefined, .container 3] ∧
      (engine.processDetailed ctx w).1 = .ok ⟨[.consequent]⟩ ∧
      ∃ blocks result,
        Protocol engine ctx (rulesOf w.heap ctx) 3 0 w blocks result
          (engine.processDetailed ctx w).2 ∧
        (engine.processDetailed ctx w).1 = result.map Report.mk ∧
        engine.logged.processDetailed ctx (w.logged []) =
          ((engine.processDetailed ctx w).1,
            (engine.processDetailed ctx w).2.logged (blocks.flatMap Block.calls)) := by
  intro h evaluator ctx engine w
  have sequence : w.heap.itemsOf? (rulesOf w.heap ctx) =
      some #[.container 3, .undefined, .container 3] := by decide
  exact ⟨sequence, by rfl, processDetailed_protocol engine ctx w _ sequence⟩

end Engine

end FormLogic
