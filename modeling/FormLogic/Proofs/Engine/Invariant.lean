import FormLogic.Engine
import FormLogic.Proofs.Heap.Action

/-!
# `FormLogic.Proofs.Engine.Invariant` — what evaluations keep, a run keeps

All that a run of the rules does to the world it does by evaluating texts. These are the texts of the
rules that it comes to, each rule read from its record when its turn begins. So what survives
evaluating these texts survives the run, however it ends.

## Contents
- `Rule.texts`, `rulesMet`: the texts of a rule, and the rules that a run comes to.
- `Preserves`: actions that keep an invariant, with `preserves_bind`, `preserves_ite`.
- `preserves_applyRule`: a rule; `turns_keeps`: the turns that are left, by induction.
- `processDetailed_keeps`, `process_keeps`: the whole run.
-/

namespace FormLogic

/-- The texts of a rule that can be evaluated. -/
def Rule.texts (rule : Rule) : List String :=
  [rule.gate, rule.condition, rule.consequent, rule.alternate]

namespace Engine

variable {σ : Type}

/-- The rules that a run comes to from an index on, with so many turns left. -/
def rulesFrom (engine : Engine σ) (rules : Value) (ctx : Context) :
    (left index : Nat) → World σ → List Rule
  | 0, _, _ => []
  | left + 1, index, w =>
    match ((w.heap.itemsOf? rules).getD #[])[index]? with
    | none => []
    | some record =>
      let here := (Rule.ofRecord w.heap record index).toOption.toList
      match engine.applyRecord record index ctx w with
      | (.ok _, w) => here ++ rulesFrom engine rules ctx left (index + 1) w
      | (.error _, _) => here

/-- The rules that the run of a node comes to, as they read when their turns begin. -/
def rulesMet (engine : Engine σ) (ctx : Context) (w : World σ) : List Rule :=
  match ruleList w.heap ctx with
  | .ok (some rules) =>
    engine.rulesFrom rules ctx ((w.heap.itemsOf? rules).getD #[]).size 0 w
  | _ => []

/-! ## Actions that keep an invariant -/

/-- The invariant survives the action, however it ends. -/
def Preserves {ε α : Type} (I : World σ → Prop) (action : Action σ ε α) : Prop :=
  ∀ w, I w → I (action w).2

section

variable {ε α β : Type} {I : World σ → Prop} {p : Action σ ε α}

theorem preserves_pure (a : α) : Preserves I (pure a : Action σ ε α) :=
  fun _ holds => holds

theorem preserves_throw (e : ε) : Preserves I (throw e : Action σ ε α) :=
  fun _ holds => holds

theorem preserves_bind {f : α → Action σ ε β} (first : Preserves I p)
    (next : ∀ a, Preserves I (f a)) : Preserves I (p >>= f) := by
  intro w holds
  have between := first w holds
  rw [bind_apply]
  generalize p w = x at between
  obtain ⟨_ | a, u⟩ := x
  · exact between
  · exact next a u between

theorem preserves_ite {c : Prop} [Decidable c] {q : Action σ ε α} (yes : Preserves I p)
    (no : Preserves I q) : Preserves I (if c then p else q) := by
  split
  · exact yes
  · exact no

end

/-! ## One rule -/

variable {engine : Engine σ} {ctx : Context} {rule : Rule} {I : World σ → Prop}

theorem preserves_gateHolds (gate : Preserves I (engine.evaluate rule.gate ctx)) :
    Preserves I (engine.gateHolds rule ctx) := by
  unfold gateHolds
  exact preserves_ite (preserves_pure _) (preserves_bind gate fun _ => preserves_pure _)

theorem preserves_applyBranches (condition : Preserves I (engine.evaluate rule.condition ctx))
    (consequent : Preserves I (engine.evaluate rule.consequent ctx))
    (alternate : Preserves I (engine.evaluate rule.alternate ctx)) :
    Preserves I (engine.applyBranches rule ctx) := by
  unfold applyBranches
  refine preserves_ite (preserves_pure _) (preserves_bind condition fun v => ?_)
  apply preserves_ite
  · exact preserves_bind consequent fun _ => preserves_pure _
  · apply preserves_ite
    · exact preserves_pure _
    · exact preserves_bind alternate fun _ => preserves_pure _

/-- What survives evaluating the texts of a rule survives the rule. -/
theorem preserves_applyRule (each : ∀ text ∈ rule.texts, Preserves I (engine.evaluate text ctx))
    (index : Nat) : Preserves I (engine.applyRule rule index ctx) := by
  have gated : Preserves I (do
      if ← engine.gateHolds rule ctx then engine.applyBranches rule ctx else return .gateClosed) := by
    apply preserves_bind
    · exact preserves_gateHolds (each rule.gate (by simp [Rule.texts]))
    · intro holds
      apply preserves_ite
      · exact preserves_applyBranches (each _ (by simp [Rule.texts])) (each _ (by simp [Rule.texts]))
          (each _ (by simp [Rule.texts]))
      · exact preserves_pure _
  unfold applyRule
  apply preserves_ite
  · exact preserves_pure _
  · apply preserves_ite
    · split
      · exact preserves_bind (preserves_throw _) fun _ => gated
      · exact gated
    · exact gated

/-! ## The turns -/

variable {w : World σ} {record rules : Value} {left index : Nat}

/-- The rule at a turn is read from the world that the turn begins in. -/
theorem applyRecord_keeps (holds : I w)
    (each : ∀ rule, Rule.ofRecord w.heap record index = .ok rule → ∀ text ∈ rule.texts,
      Preserves I (engine.evaluate text ctx)) : I (engine.applyRecord record index ctx w).2 := by
  unfold applyRecord
  split
  · exact holds
  · rw [heap_bind]
    cases read : Rule.ofRecord w.heap record index with
    | error e => exact holds
    | ok rule => exact preserves_applyRule (each rule read) index w holds

/-- **The turns that are left**, by induction on them: what survives evaluating the texts of the rules
that they come to survives the turns. -/
theorem turns_keeps (holds : I w)
    (each : ∀ rule ∈ engine.rulesFrom rules ctx left index w, ∀ text ∈ rule.texts,
      Preserves I (engine.evaluate text ctx)) (done : List Outcome) :
    I (engine.turns rules ctx left index done w).2 := by
  induction left generalizing index w done with
  | zero => exact holds
  | succ left ih =>
    unfold turns
    unfold rulesFrom at each
    rw [heap_bind]
    cases found : ((w.heap.itemsOf? rules).getD #[])[index]? with
    | none => exact holds
    | some record =>
      simp only [found] at each
      dsimp only
      have here : I (engine.applyRecord record index ctx w).2 := by
        refine applyRecord_keeps holds fun rule read => each rule ?_
        rw [read]
        generalize engine.applyRecord record index ctx w = x
        obtain ⟨_ | _, _⟩ := x <;> simp [Except.toOption]
      rw [bind_apply]
      generalize engine.applyRecord record index ctx w = x at here each
      obtain ⟨_ | outcome, u⟩ := x
      · exact here
      · exact ih here (fun rule met => each rule (List.mem_append_right _ met)) (outcome :: done)

/-- **A run keeps what evaluations keep.** If an invariant survives evaluating each text of the rules
that a run comes to, then it survives the run, whatever becomes of it. -/
theorem processDetailed_keeps (holds : I w)
    (each : ∀ rule ∈ engine.rulesMet ctx w, ∀ text ∈ rule.texts,
      Preserves I (engine.evaluate text ctx)) : I (engine.processDetailed ctx w).2 := by
  unfold processDetailed
  unfold rulesMet at each
  rw [heap_bind]
  cases list : ruleList w.heap ctx with
  | error e => exact holds
  | ok rules =>
    cases rules with
    | none => exact holds
    | some rules =>
      simp only [list] at each
      exact turns_keeps holds each []

theorem process_keeps (holds : I w)
    (each : ∀ rule ∈ engine.rulesMet ctx w, ∀ text ∈ rule.texts,
      Preserves I (engine.evaluate text ctx)) : I (engine.process ctx w).2 := by
  have detailed := processDetailed_keeps holds each
  unfold process
  rw [bind_apply]
  generalize engine.processDetailed ctx w = x at detailed
  obtain ⟨_ | _, _⟩ := x <;> exact detailed

end Engine

end FormLogic
