import FormLogic.Proofs.Clone.PlainForm
import FormLogic.Proofs.Engine.Isolation

/-!
# `FormLogic.Proofs.Engine.Unobservable` — isolation cannot be seen on plain forms

On a plain form an engine gives the same outcome whether it isolates its bindings or not. Isolating
leaves a plain form whose slots unfold to the same trees. Two forests like that are the same up to a
renaming of references, and evaluation does not see references; so both evaluations go in step, and
the renaming grows with the containers that both make.

## Contents
- `Interpreter.evaluate_agrees`: evaluation in step, on heaps that are the same up to a renaming.
- `isolate_sameForm`: isolating a plain form.
- `evaluate_unobservable`: the same outcome with and without isolation.
-/

namespace FormLogic

/-! ## Evaluation in step -/

theorem Results.mapError {ε δ α β : Type} {R : α → β → Prop} {x : Except ε α} {y : Except ε β}
    (same : Results R x y) (f : ε → δ) : Results R (x.mapError f) (y.mapError f) := by
  cases same with
  | ok same => exact .ok same
  | error e => exact .error (f e)

/-- Evaluating a text on heaps that are the same up to a renaming fails alike, or gives related
values, and leaves heaps that are the same up to a renaming with more pairs. -/
theorem Interpreter.evaluate_agrees {ρ : Renaming} {ctx : Context} {h k : Heap} (heaps : ρ.Heaps h k)
    (slots : ∀ name v, ctx.binding? name = some v → ρ.Values v v) (expression : String)
    (i : Interpreter) :
    ∃ ρ', ρ.Later ρ' ∧
      ρ'.Heaps (evaluate expression ctx ⟨h, i⟩).2.heap (evaluate expression ctx ⟨k, i⟩).2.heap ∧
      Results ρ'.Values (evaluate expression ctx ⟨h, i⟩).1 (evaluate expression ctx ⟨k, i⟩).1 ∧
      (evaluate expression ctx ⟨k, i⟩).2.host = (evaluate expression ctx ⟨h, i⟩).2.host := by
  cases parsed : parse expression with
  | error e =>
    rw [evaluate_of_parse_error parsed, evaluate_of_parse_error parsed]
    exact ⟨ρ, .refl ρ, heaps, .error _, rfl⟩
  | ok program =>
    obtain ⟨i', evaluated⟩ := evaluate_of_parse parsed i
    have machines : ρ.Machines Set.univ ⟨h, .ofContext ctx⟩ ⟨k, .ofContext ctx⟩ := by
      refine ⟨heaps, List.forall₂_same.mpr fun frame mem => ⟨rfl, fun _ => ?_⟩⟩
      exact slots frame.1 frame.2 (Scope.mem_ofContext.mp mem)
    obtain ⟨ρ', grows, after, same⟩ := Renaming.agree_run (fun _ _ => trivial) ρ _ _ machines
    rw [evaluated ctx h, evaluated ctx k]
    exact ⟨ρ', grows.later, after.heaps, same.mapError _, rfl⟩

namespace Engine

variable {ctx : Context} {h k : Heap} {config : Config} {expression : String}

/-! ## Isolating a plain form -/

/-- Isolating some slots of a plain form succeeds, and they look as before. -/
theorem isolateSlots_sameForm {names : List String} (isolated : ∀ name ∈ names, name ∈ isolatedNames)
    (closed : h.Closed) (live : ctx.Live h) (plain : PlainForm ctx config.maxDepth h) :
    ∃ k, isolateSlots config expression ctx names h = (.ok (), k) ∧
      Clone.SameForm ctx config.maxDepth h k := by
  induction names generalizing h with
  | nil => exact ⟨h, rfl, .refl closed plain⟩
  | cons name rest ih =>
    have isolated' : ∀ name ∈ rest, name ∈ isolatedNames :=
      fun name mem => isolated name (List.mem_cons_of_mem _ mem)
    by_cases mentioned : mentions expression name = true
    · rw [isolateSlots_mentioned config ctx rest mentioned]
      obtain ⟨name', _, bound⟩ := mem_valuesOf_isolated ctx (isolated name List.mem_cons_self)
      obtain ⟨g, first, same⟩ := Clone.children_sameForm closed live plain bound
      obtain ⟨k, others, same'⟩ := ih isolated' same.closed (live.mono same.grown) same.plain
      exact ⟨k, bind_eq_ok_iff.mpr ⟨(), g, first, others⟩, same.trans same'⟩
    · rw [isolateSlots_unmentioned config ctx rest mentioned]
      exact ih isolated' closed live plain

theorem isolate_sameForm (config : Config) (expression : String) (closed : h.Closed)
    (live : ctx.Live h) (plain : PlainForm ctx config.maxDepth h) :
    ∃ k, isolate config expression ctx h = (.ok (), k) ∧
      Clone.SameForm ctx config.maxDepth h k :=
  isolateSlots_sameForm (fun _ mem => mem) closed live plain

/-! ## With and without isolation -/

/-- Outcomes that fail alike or give values that correspond, as do the slots in the heaps they leave,
all under one one-to-one renaming of references. What corresponding values lead to corresponds, since
related containers hold related values. -/
def Corresponds (ctx : Context) (x y : Except FormError Value × World Interpreter) : Prop :=
  ∃ ρ : Renaming, ρ.Heaps x.2.heap y.2.heap ∧ Results ρ.Values x.1 y.1 ∧
    (∀ name v, ctx.binding? name = some v → ρ.Values v v) ∧ y.2.host = x.2.host

/-- **Isolation is unobservable on plain forms.** With and without it, evaluating an expression fails
with the same error, or gives values that correspond; and in both cases so do the slots. -/
theorem evaluate_unobservable (config : Config) (ctx : Context) (h : Heap) (closed : h.Closed)
    (live : ctx.Live h) (plain : PlainForm ctx config.maxDepth h) (expression : String)
    (i : Interpreter) :
    let off : Config := { config with isolateBindings := false }
    let on : Config := { config with isolateBindings := true }
    Corresponds ctx ((Engine.mk Interpreter.evaluate off).evaluate expression ctx ⟨h, i⟩)
      ((Engine.mk Interpreter.evaluate on).evaluate expression ctx ⟨h, i⟩) := by
  intro off on
  obtain ⟨k, isolated, same⟩ := isolate_sameForm on expression closed live plain
  rw [evaluate_of_off rfl, evaluate_of_isolate rfl isolated]
  -- both heaps are forests whose slots unfold alike
  have heaps := Renaming.heaps_inStep closed same.closed live (live.mono same.grown) plain.forest
    same.plain.forest same.slots
  have slots : ∀ name v, ctx.binding? name = some v → (Renaming.inStep ctx h k).Values v v := by
    intro name v bound
    exact Renaming.values_inStep (.slot bound) (same.slots name v bound)
  obtain ⟨ρ, later, after, results, hosts⟩ := Interpreter.evaluate_agrees heaps slots expression i
  refine ⟨ρ, after, results.mapError _, fun name v bound => ?_, hosts⟩
  exact later.values (slots name v bound)

/-- A child of the data is made to hold itself, be it the old one or its copy. -/
theorem evaluate_unobservable_child :
    let h : Heap := ⟨#[.mapping (.ofList [("child", .container 1)]),
      .mapping (.ofList [("name", .string "a")])]⟩
    let ctx : Context := { data := .container 0 }
    let off : Config := { isolateBindings := false, maxDepth := 1 }
    let on : Config := { isolateBindings := true, maxDepth := 1 }
    h.Closed ∧ ctx.Live h ∧ PlainForm ctx 1 h ∧
      Corresponds ctx
        ((Engine.mk Interpreter.evaluate off).evaluate "data.child.self = data.child" ctx ⟨h, .fresh⟩)
        ((Engine.mk Interpreter.evaluate on).evaluate "data.child.self = data.child" ctx ⟨h, .fresh⟩)
      := by
  intro h ctx off on
  have closed : h.Closed := by decide
  have live : ctx.Live h := by decide
  have slot : ∀ {name r}, ctx.binding? name = some (.container r) → name = "data" ∧ r = 0 := by
    intro name r bound
    unfold Context.binding? at bound
    split at bound <;> cases bound
    exact ⟨rfl, rfl⟩
  have cases_of_lt : ∀ {r : Ref}, r < h.size → r = 0 ∨ r = 1 := fun {r} inside =>
    Nat.le_one_iff_eq_zero_or_eq_one.mp (Nat.le_of_lt_succ inside)
  have spots : ∀ {s t}, ctx.Holds h s (.container t) →
      s = if t = 0 then .slot "data" else .inside 0 (.key "child") := by
    intro s t here
    cases here with
    | slot bound =>
      obtain ⟨rfl, rfl⟩ := slot bound
      rfl
    | inside reached held =>
      have place := Cell.place_mem held
      rcases cases_of_lt (reached.live closed (live.valuesOf _) _ rfl) with rfl | rfl
      · obtain rfl := List.mem_singleton.mp place
        cases held
        rfl
      · obtain rfl := List.mem_singleton.mp place
        cases held
  have plain : PlainForm ctx 1 h := by
    refine ⟨fun s t r here there => (spots here).trans (spots there).symm, ?_, ?_⟩
    · intro name r bound v held s fields reached cell key mem
      have inside := reached.live_of_value closed (closed r v held)
      rcases cases_of_lt (inside s rfl) with rfl | rfl
      · cases cell
        obtain rfl := List.mem_singleton.mp mem
        decide
      · cases cell
        obtain rfl := List.mem_singleton.mp mem
        decide
    · intro name r bound v held s same w inner
      obtain ⟨rfl, rfl⟩ := slot bound
      obtain rfl := List.mem_singleton.mp held
      cases same
      obtain rfl := List.mem_singleton.mp inner
      rfl
  exact ⟨closed, live, plain, evaluate_unobservable on ctx h closed live plain _ .fresh⟩

end Engine

end FormLogic
