import FormLogic.Proofs.Engine.Isolation

/-!
# `FormLogic.Proofs.Engine.Spread` — how far rules spread

Rules that mention some slots only change what these slots lead to. This is so with and without
isolation: isolating replaces the children of slots that are mentioned, and a program names only what
its text mentions. One evaluation may put together what different slots lead to, but all of them
together lead to nothing then that they did not lead to before, unless it is new. So the bound stays
the same from one evaluation to the next.

## Contents
- `Heap.Spreads`: changes that do not leave what some roots lead to; `Spreads.trans`.
- `Rule.MentionsOnly`: the slots that the texts of a rule mention.
- `evaluate_spreads`, `process_spreads`: one evaluation, and a run.
-/

namespace FormLogic

/-! ## Changes below some roots -/

/-- From `g` to `h`, only what the roots lead to has been changed, and they lead to nothing else now
but to new containers. -/
structure Heap.Spreads (g h : Heap) (roots : Set Value) : Prop where
  grown : g.size ≤ h.size
  closed : h.Closed
  frame : ∀ r, r < g.size → ¬ g.Reach roots (.container r) → h.cell r = g.cell r
  leads : ∀ r, h.Reach roots (.container r) → g.size ≤ r ∨ g.Reach roots (.container r)

namespace Heap.Spreads

variable {g h k : Heap} {roots slots : Set Value}

theorem refl (closed : g.Closed) : g.Spreads g roots where
  grown := Nat.le_refl _
  closed := closed
  frame _ _ _ := rfl
  leads _ reached := Or.inr reached

/-- What is not reached at first is not reached later either, so the same roots bound both. -/
theorem trans (first : g.Spreads h roots) (second : h.Spreads k roots) : g.Spreads k roots where
  grown := Nat.le_trans first.grown second.grown
  closed := second.closed
  frame r old unreached := by
    have later : ¬ h.Reach roots (.container r) := by
      intro reached
      rcases first.leads r reached with new | before
      · exact absurd old (Nat.not_lt.mpr new)
      · exact unreached before
    rw [second.frame r (Nat.lt_of_lt_of_le old first.grown) later, first.frame r old unreached]
  leads r reached := by
    rcases second.leads r reached with new | between
    · exact Or.inl (Nat.le_trans first.grown new)
    · exact first.leads r between

/-- The children of the roots have been replaced. -/
theorem of_isolating (isolating : Clone.Isolating roots g h) : g.Spreads h roots where
  grown := isolating.grown
  closed := isolating.closed
  frame r old unreached := isolating.frame r old fun rooted => unreached (.root rooted)
  leads r reached := by
    rcases isolating.reach_before reached with before | new
    · exact Or.inr before
    · exact Or.inl (new r rfl)

/-- What has been changed is confined to some of the roots. -/
theorem of_confined (confined : g.Confined h slots) (closed : g.Closed)
    (live : ∀ v ∈ roots, g.Live v) (rooted : slots ⊆ roots) : g.Spreads h roots where
  grown := confined.grown
  closed := confined.closed closed fun v slot => live v (rooted slot)
  frame r old unreached := by
    refine confined.frame r old fun reached => unreached ?_
    exact reached.trans fun v slot => .root (rooted slot)
  leads r reached := by
    rcases confined.reach_before closed live reached with before | reached | ⟨new, _⟩
    · exact Or.inr before
    · exact Or.inr (reached.trans fun v slot => .root (rooted slot))
    · exact Or.inl new

end Heap.Spreads

/-! ## One evaluation -/

/-- Of all the slots, the text mentions only those with these names. -/
def MentionsOnly (text : String) (names : List String) : Prop :=
  ∀ name ∈ bindingNames, mentions text name = true → name ∈ names

instance (text : String) (names : List String) : Decidable (MentionsOnly text names) :=
  inferInstanceAs (Decidable (∀ name ∈ bindingNames, _))

/-- Of all the slots, the texts of the rule mention only those with these names. -/
def Rule.MentionsOnly (rule : Rule) (names : List String) : Prop :=
  ∀ text ∈ rule.texts, FormLogic.MentionsOnly text names

instance (rule : Rule) (names : List String) : Decidable (rule.MentionsOnly names) :=
  inferInstanceAs (Decidable (∀ text ∈ rule.texts, _))

namespace Engine

variable {ctx : Context} {h : Heap} {config : Config} {text : String} {names : List String}

/-- The names of the slots are words. -/
theorem isWordPart_of_binding {name : String} (known : name ∈ bindingNames) :
    ∀ c ∈ name.toList, isWordPart c = true := by
  have words : (bindingNames.all fun name => name.toList.all isWordPart) = true := by decide
  exact List.all_eq_true.mp (List.all_eq_true.mp words name known)

/-- The names of a program that are those of slots are among the ones that its text mentions. -/
theorem valuesOf_names_subset {program : Program} (parsed : parse text = .ok program)
    (only : MentionsOnly text names) : ctx.valuesOf program.names ⊆ ctx.valuesOf names := by
  rintro v ⟨name, used, bound⟩
  have known : name ∈ bindingNames := Context.mem_bindingNames bound
  have mentioned := mentions_of_parse parsed used (isWordPart_of_binding known)
  exact ⟨name, only name known mentioned, bound⟩

theorem interpreter_spreads (closed : h.Closed) (live : ctx.Live h) (only : MentionsOnly text names)
    (i : Interpreter) :
    h.Spreads (Interpreter.evaluate text ctx ⟨h, i⟩).2.heap (ctx.valuesOf names) := by
  cases parsed : parse text with
  | error e =>
    rw [Interpreter.evaluate_of_parse_error parsed]
    exact .refl closed
  | ok program =>
    obtain ⟨confined, _⟩ := Interpreter.evaluate_confined parsed closed live i
    exact .of_confined confined closed (live.valuesOf names) (valuesOf_names_subset parsed only)

theorem isolate_spreads (closed : h.Closed) (only : MentionsOnly text names) :
    h.Spreads (isolate config text ctx h).2 (ctx.valuesOf names) := by
  apply Heap.Spreads.of_isolating
  apply isolateSlots_isolating closed fun _ mem => mem
  intro name _ mentioned v bound
  exact ⟨name, only name (Context.mem_bindingNames bound) mentioned, bound⟩

/-- **One evaluation** changes what the slots lead to that its text mentions. -/
theorem evaluate_spreads (closed : h.Closed) (live : ctx.Live h) (only : MentionsOnly text names)
    (i : Interpreter) :
    h.Spreads ((Engine.mk Interpreter.evaluate config).evaluate text ctx ⟨h, i⟩).2.heap
      (ctx.valuesOf names) := by
  cases on : config.isolateBindings with
  | false =>
    rw [evaluate_of_off on]
    exact interpreter_spreads closed live only i
  | true =>
    have isolated : h.Spreads (isolate config text ctx h).2 _ := isolate_spreads closed only
    cases ends : isolate config text ctx h with
    | mk result k =>
      rw [ends] at isolated
      cases result with
      | error e =>
        rw [evaluate_of_isolate_error on ends]
        exact isolated
      | ok _ =>
        rw [evaluate_of_isolate on ends]
        exact isolated.trans (interpreter_spreads isolated.closed (live.mono isolated.grown) only i)

/-! ## Runs -/

/-- **Rules do not spread** beyond the slots that they mention. Whatever becomes of a run, it changes
only what these slots lead to, and they lead to nothing else afterwards but to new containers. -/
theorem process_spreads (closed : h.Closed) (live : ctx.Live h) (i : Interpreter)
    (only : ∀ rule ∈ (Engine.mk Interpreter.evaluate config).rulesMet ctx ⟨h, i⟩,
      rule.MentionsOnly names) :
    h.Spreads ((Engine.mk Interpreter.evaluate config).process ctx ⟨h, i⟩).2.heap
      (ctx.valuesOf names) := by
  refine process_keeps (I := fun w => h.Spreads w.heap (ctx.valuesOf names)) (.refl closed) ?_
  intro rule met text mem w spreads
  have live' : ctx.Live w.heap := live.mono spreads.grown
  exact spreads.trans (evaluate_spreads spreads.closed live' (only rule met text mem) w.host)

end Engine

end FormLogic
