import FormLogic.Proofs.Clone.Children
import FormLogic.Proofs.Engine.Invariant
import FormLogic.Proofs.Eval.Confinement
import FormLogic.Proofs.Expr.Mentions

/-!
# `FormLogic.Proofs.Engine.Isolation` — what isolated rules can touch

An engine that isolates its bindings gives the slots that an expression mentions children of their
own before the expression is evaluated. What the rules of a node change is then new, apart from the
containers that the slots themselves hold, and from what the two slots that are never isolated lead
to.

The invariant speaks of the heap at the start of the run. Whatever the two exempt slots lead to is
new, or *open*: held by one of the other slots, or reached from the exempt slots at the start. An
evaluation reaches more than that only through the slots it mentions, and these have just been given
new children; so it changes open and new containers only, and puts nothing else into them.

## Contents
- `Open`, `Kept`, `Isolated`: the containers that may change, the frame, and the invariant.
- `isolateSlots_isolates`: the children of the slots that are mentioned.
- `preserves_evaluate`, `keeps_process`: the invariant along a run.
-/

namespace FormLogic.Engine

/-- The names of the slots that are not isolated. -/
def exemptNames : List String :=
  ["formContext", "idSchema"]

variable {ctx : Context} {start h k g : Heap} {r : Ref} {v : Value}

/-- The containers that rules may change: those that the isolated slots hold, and those that the
other slots lead to. -/
def Open (ctx : Context) (start : Heap) (r : Ref) : Prop :=
  .container r ∈ ctx.valuesOf isolatedNames ∨
    start.Reach (ctx.valuesOf exemptNames) (.container r)

/-- All containers from the start are as they were, but for the open ones. -/
structure Kept (ctx : Context) (start h : Heap) : Prop where
  grown : start.size ≤ h.size
  frame : ∀ r, r < start.size → ¬ Open ctx start r → h.cell r = start.cell r

/-- Moreover, the slots that are not isolated lead to open and new containers only. -/
structure Isolated (ctx : Context) (start h : Heap) : Prop extends Kept ctx start h where
  closed : h.Closed
  leads : ∀ r, h.Reach (ctx.valuesOf exemptNames) (.container r) →
    start.size ≤ r ∨ Open ctx start r

/-- A run starts with the invariant. -/
theorem Isolated.init (closed : start.Closed) : Isolated ctx start start where
  grown := Nat.le_refl _
  frame _ _ _ := rfl
  closed := closed
  leads _ reached := Or.inr (Or.inr reached)

/-! ## The slots that are mentioned -/

theorem exists_binding (ctx : Context) {name : String} (isolated : name ∈ isolatedNames) :
    ∃ v, ctx.binding? name = some v := by
  simp only [isolatedNames, List.mem_cons, List.not_mem_nil, or_false] at isolated
  rcases isolated with rfl | rfl | rfl | rfl <;> exact ⟨_, rfl⟩

theorem mem_valuesOf_isolated (ctx : Context) {name : String} (isolated : name ∈ isolatedNames) :
    (ctx.binding? name).getD .undefined ∈ ctx.valuesOf isolatedNames := by
  obtain ⟨v, bound⟩ := exists_binding ctx isolated
  rw [bound]
  exact ⟨name, isolated, bound⟩

/-- The names of the isolated slots are words. -/
theorem isWordPart_of_isolated {name : String} (isolated : name ∈ isolatedNames) :
    ∀ c ∈ name.toList, isWordPart c = true := by
  have words : (isolatedNames.all fun name => name.toList.all isWordPart) = true := by decide
  exact List.all_eq_true.mp (List.all_eq_true.mp words name isolated)

/-- A slot is isolated or exempt. -/
theorem name_cases {name : String} (bound : ctx.binding? name = some v) :
    name ∈ isolatedNames ∨ name ∈ exemptNames := by
  unfold Context.binding? at bound
  split at bound <;> first | decide | cases bound

/-- A slot that is mentioned is isolated before the slots that follow. -/
theorem isolateSlots_mentioned {expression name : String} (config : Config) (ctx : Context)
    (rest : List String) (mentioned : mentions expression name = true) :
    isolateSlots config expression ctx (name :: rest) = (do
      Clone.children ⟨config.maxDepth⟩ ((ctx.binding? name).getD .undefined)
      isolateSlots config expression ctx rest) := by
  rw [isolateSlots, if_pos mentioned]

theorem isolateSlots_unmentioned {expression name : String} (config : Config) (ctx : Context)
    (rest : List String) (unmentioned : ¬ mentions expression name = true) :
    isolateSlots config expression ctx (name :: rest) =
      isolateSlots config expression ctx rest := by
  rw [isolateSlots, if_neg unmentioned]

/-- What containers hold after isolating some slots they held before, or it is new. Only the
containers of slots that are mentioned have changed. That is so however far isolating gets. -/
theorem isolateSlots_isolating {config : Config} {expression : String} {names : List String}
    {slots : Set Value} (closed : h.Closed) (isolated : ∀ name ∈ names, name ∈ isolatedNames)
    (mentioned : ∀ name ∈ names, mentions expression name = true → ∀ v,
      ctx.binding? name = some v → v ∈ slots) :
    Clone.Isolating slots h (isolateSlots config expression ctx names h).2 := by
  induction names generalizing h with
  | nil => exact .refl _ closed
  | cons name rest ih =>
    have isolated' : ∀ name ∈ rest, name ∈ isolatedNames :=
      fun name mem => isolated name (List.mem_cons_of_mem _ mem)
    have mentioned' : ∀ name ∈ rest, mentions expression name = true → ∀ v,
        ctx.binding? name = some v → v ∈ slots :=
      fun name mem => mentioned name (List.mem_cons_of_mem _ mem)
    by_cases here : mentions expression name = true
    · rw [isolateSlots_mentioned config ctx rest here]
      obtain ⟨v, bound⟩ := exists_binding ctx (isolated name List.mem_cons_self)
      have slot := mentioned name List.mem_cons_self here v bound
      rw [bound, Option.getD_some]
      have first := Clone.children_isolating closed slot ⟨config.maxDepth⟩
      refine bind_ends (R := Clone.Isolating slots) .trans first fun _ k ends => ?_
      have first' : Clone.Isolating slots h k := of_ends first ends
      exact ih first'.closed isolated' mentioned'
    · rw [isolateSlots_unmentioned config ctx rest here]
      exact ih closed isolated' mentioned'

/-- After isolating, the slots that are mentioned hold no old containers. -/
theorem isolateSlots_isolates {config : Config} {expression : String} {names : List String}
    (isolated : ∀ name ∈ names, name ∈ isolatedNames) (closed : h.Closed) (live : ctx.Live h)
    (ends : isolateSlots config expression ctx names h = (.ok (), k)) :
    Clone.Isolating (ctx.valuesOf isolatedNames) h k ∧
      ∀ name ∈ names, mentions expression name = true →
        Clone.Detached h k ((ctx.binding? name).getD .undefined) := by
  induction names generalizing h with
  | nil =>
    cases ends
    exact ⟨.refl _ closed, fun _ mem => nomatch mem⟩
  | cons name rest ih =>
    have isolated' : ∀ name ∈ rest, name ∈ isolatedNames :=
      fun name mem => isolated name (List.mem_cons_of_mem _ mem)
    by_cases mentioned : mentions expression name = true
    · rw [isolateSlots_mentioned config ctx rest mentioned] at ends
      obtain ⟨_, g, first, ends⟩ := bind_eq_ok_iff.mp ends
      have slot := mem_valuesOf_isolated ctx (isolated name List.mem_cons_self)
      have slotLive : h.Live ((ctx.binding? name).getD .undefined) := by
        obtain ⟨name', _, bound⟩ := slot
        exact live name' _ bound
      obtain ⟨isolating, detached⟩ := Clone.children_isolates closed slotLive slot first
      obtain ⟨later, others⟩ := ih isolated' isolating.closed (live.mono isolating.grown) ends
      refine ⟨isolating.trans later, fun name' mem mentioned' => ?_⟩
      rcases List.mem_cons.mp mem with rfl | mem
      · exact detached.later isolating.grown later
      · intro s same w held
        exact Clone.new_mono isolating.grown (others name' mem mentioned' s same w held)
    · rw [isolateSlots_unmentioned config ctx rest mentioned] at ends
      obtain ⟨isolating, detached⟩ := ih isolated' closed live ends
      refine ⟨isolating, fun name' mem mentioned' => ?_⟩
      rcases List.mem_cons.mp mem with rfl | mem
      · exact absurd mentioned' mentioned
      · exact detached name' mem mentioned'

/-! ## One evaluation -/

namespace Isolated

/-- The frame and the invariant survive isolating the slots that an expression mentions. -/
theorem kept_of_touches (isolated : Isolated ctx start h)
    (touches : Clone.Touches (ctx.valuesOf isolatedNames) h k) : Kept ctx start k where
  grown := Nat.le_trans isolated.grown touches.grown
  frame r old shut := by
    have unheld : .container r ∉ ctx.valuesOf isolatedNames := fun held => shut (Or.inl held)
    have inside := Nat.lt_of_lt_of_le old isolated.grown
    rw [touches.frame r inside unheld, isolated.frame r old shut]

theorem of_isolating (isolated : Isolated ctx start h)
    (isolating : Clone.Isolating (ctx.valuesOf isolatedNames) h k) : Isolated ctx start k where
  toKept := isolated.kept_of_touches isolating.toTouches
  closed := isolating.closed
  leads r reached := by
    rcases isolating.reach_before reached with before | new
    · exact isolated.leads r before
    · exact Or.inl (Nat.le_trans isolated.grown (new r rfl))

/-- What the names of an expression lead to once the slots it mentions have been isolated. -/
theorem named_leads (isolated : Isolated ctx start h)
    (isolating : Clone.Isolating (ctx.valuesOf isolatedNames) h k) {names : List String}
    (detached : ∀ name ∈ names, name ∈ isolatedNames → ∀ v, ctx.binding? name = some v →
      Clone.Detached h k v)
    (reached : k.Reach (ctx.valuesOf names) (.container r)) : start.size ≤ r ∨ Open ctx start r := by
  -- a slot that is named is exempt, or it holds nothing old
  have inside : (h.Reach (ctx.valuesOf exemptNames) (.container r) ∨ h.New (.container r)) ∨
      (.container r ∈ ctx.valuesOf isolatedNames ∧ Clone.Detached h k (.container r)) := by
    refine reached.within (P := fun v => (h.Reach (ctx.valuesOf exemptNames) v ∨ h.New v) ∨
      (v ∈ ctx.valuesOf isolatedNames ∧ Clone.Detached h k v)) ?_ ?_
    · rintro v ⟨name, used, bound⟩
      rcases name_cases bound with slot | exempt
      · exact Or.inr ⟨⟨name, slot, bound⟩, detached name used slot v bound⟩
      · exact Or.inl (Or.inl (.root ⟨name, exempt, bound⟩))
    · rintro r before w held
      rcases before with (exempt | new) | ⟨_, detached⟩
      · rcases isolating.held r w held with old | new
        · exact Or.inl (Or.inl (exempt.child old))
        · exact Or.inl (Or.inr new)
      · rcases isolating.held r w held with old | new
        · rw [Heap.children_of_size_le (new r rfl)] at old
          cases old
        · exact Or.inl (Or.inr new)
      · exact Or.inl (Or.inr (detached r rfl w held))
  rcases inside with (exempt | new) | ⟨slot, _⟩
  · exact isolated.leads r exempt
  · exact Or.inl (Nat.le_trans isolated.grown (new r rfl))
  · exact Or.inr (Or.inl slot)

/-- An evaluation that is confined to what leads to open and new containers keeps the invariant. -/
theorem of_confined (isolated : Isolated ctx start k) {roots : Set Value}
    (leads : ∀ r, k.Reach roots (.container r) → start.size ≤ r ∨ Open ctx start r)
    (live : ctx.Live k) (rooted : ∀ v ∈ roots, k.Live v) (confined : k.Confined g roots) :
    Isolated ctx start g where
  grown := Nat.le_trans isolated.grown confined.grown
  frame r old shut := by
    have unreached : ¬ k.Reach roots (.container r) := by
      intro reached
      rcases leads r reached with new | opened
      · exact absurd old (Nat.not_lt.mpr new)
      · exact shut opened
    rw [confined.frame r (Nat.lt_of_lt_of_le old isolated.grown) unreached,
      isolated.frame r old shut]
  closed := confined.closed isolated.closed rooted
  leads r reached := by
    -- the exempt slots lead where they have led before, until they meet what has been changed
    have inside := confined.reach_before isolated.closed (live.valuesOf exemptNames) reached
    rcases inside with exempt | reached | ⟨new, _⟩
    · exact isolated.leads r exempt
    · exact leads r reached
    · exact Or.inl (Nat.le_trans isolated.grown new)

end Isolated

/-! ## Along a run -/

/-- An action that keeps the invariant if it succeeds, and the frame however it ends. -/
def Keeps {ε α : Type} (ctx : Context) (start : Heap) (action : Action Interpreter ε α) : Prop :=
  ∀ w, Isolated ctx start w.heap → Kept ctx start (action w).2.heap ∧
    ∀ a, (action w).1 = .ok a → Isolated ctx start (action w).2.heap

variable {config : Config}

/-- An evaluation after the slots it mentions have been isolated. -/
theorem isolated_evaluate {expression : String} (isolated : Isolated ctx start h)
    (live : ctx.Live h) (ends : isolate config expression ctx h = (.ok (), k)) (i : Interpreter) :
    Isolated ctx start (Interpreter.evaluate expression ctx ⟨k, i⟩).2.heap := by
  obtain ⟨isolating, detached⟩ := isolateSlots_isolates (fun _ mem => mem) isolated.closed live ends
  have before := isolated.of_isolating isolating
  have live' := live.mono isolating.grown
  cases parsed : parse expression with
  | error e =>
    rw [Interpreter.evaluate_of_parse_error parsed]
    exact before
  | ok program =>
    obtain ⟨confined, _⟩ := Interpreter.evaluate_confined parsed before.closed live' i
    refine before.of_confined (fun r reached => ?_) live' (live'.valuesOf program.names) confined
    refine isolated.named_leads isolating (fun name used slot v bound => ?_) reached
    have here := detached name slot (mentions_of_parse parsed used (isWordPart_of_isolated slot))
    rw [bound] at here
    exact here

/-- An expression is evaluated on the heap that isolating has left. -/
theorem evaluate_of_isolate {expression : String} (on : config.isolateBindings = true)
    (ends : isolate config expression ctx h = (.ok (), k)) (i : Interpreter) :
    (Engine.mk Interpreter.evaluate config).evaluate expression ctx ⟨h, i⟩ =
      ((Interpreter.evaluate expression ctx ⟨k, i⟩).1.mapError .evaluation,
        (Interpreter.evaluate expression ctx ⟨k, i⟩).2) := by
  unfold evaluate
  dsimp only
  rw [if_pos on, bind_apply, Action.onHeap_apply, ends]
  exact Action.withErrors_apply _ _ _

/-- If isolating fails, nothing is evaluated. -/
theorem evaluate_of_isolate_error {expression : String} (on : config.isolateBindings = true)
    {e : RecursionLimit} (ends : isolate config expression ctx h = (.error e, k)) (i : Interpreter) :
    (Engine.mk Interpreter.evaluate config).evaluate expression ctx ⟨h, i⟩ =
      (.error (.recursionLimit e), ⟨k, i⟩) := by
  unfold evaluate
  dsimp only
  rw [if_pos on, bind_apply, Action.onHeap_apply, ends]
  rfl

/-- Without isolation the expression is evaluated on the heap as it is. -/
theorem evaluate_of_off {expression : String} (off : config.isolateBindings = false) (h : Heap)
    (i : Interpreter) : (Engine.mk Interpreter.evaluate config).evaluate expression ctx ⟨h, i⟩ =
      ((Interpreter.evaluate expression ctx ⟨h, i⟩).1.mapError .evaluation,
        (Interpreter.evaluate expression ctx ⟨h, i⟩).2) := by
  unfold evaluate
  dsimp only
  rw [if_neg (by rw [off]; exact Bool.false_ne_true)]
  exact Action.withErrors_apply _ _ _

/-- **One evaluation** keeps the invariant, however it ends. -/
theorem preserves_evaluate (on : config.isolateBindings = true) (live : ctx.Live start)
    (expression : String) : Preserves (fun w => Isolated ctx start w.heap)
      ((Engine.mk Interpreter.evaluate config).evaluate expression ctx) := by
  rintro ⟨h, i⟩ isolated
  have live' : ctx.Live h := live.mono isolated.grown
  have isolating : Clone.Isolating (ctx.valuesOf isolatedNames) h (isolate config expression ctx h).2 :=
    isolateSlots_isolating isolated.closed (fun _ mem => mem)
      fun name slot _ v bound => ⟨name, slot, bound⟩
  cases ends : isolate config expression ctx h with
  | mk result k =>
    cases result with
    | error e =>
      rw [evaluate_of_isolate_error on ends]
      exact isolated.of_isolating (of_ends isolating ends)
    | ok _ =>
      rw [evaluate_of_isolate on ends]
      exact isolated_evaluate isolated live' ends i

/-! ## Rules -/

variable {index : Nat}

theorem keeps_of_preserves {ε α : Type} {action : Action Interpreter ε α}
    (preserves : Preserves (fun w => Isolated ctx start w.heap) action) : Keeps ctx start action :=
  fun w isolated => ⟨(preserves w isolated).toKept, fun _ _ => preserves w isolated⟩

theorem keeps_applyRecord (on : config.isolateBindings = true) (live : ctx.Live start)
    (record : Value) :
    Keeps ctx start ((Engine.mk Interpreter.evaluate config).applyRecord record index ctx) :=
  keeps_of_preserves fun _ isolated =>
    applyRecord_keeps isolated fun _ _ text _ => preserves_evaluate on live text

theorem keeps_processDetailed (on : config.isolateBindings = true) (live : ctx.Live start) :
    Keeps ctx start ((Engine.mk Interpreter.evaluate config).processDetailed ctx) :=
  keeps_of_preserves fun _ isolated =>
    processDetailed_keeps isolated fun _ _ text _ => preserves_evaluate on live text

theorem keeps_process (on : config.isolateBindings = true) (live : ctx.Live start) :
    Keeps ctx start ((Engine.mk Interpreter.evaluate config).process ctx) :=
  keeps_of_preserves fun _ isolated =>
    process_keeps isolated fun _ _ text _ => preserves_evaluate on live text

/-- **Isolation frame.** Whether it ends well or not, running the rules of a node leaves every
container as it was, apart from those that the isolated slots hold and those that `formContext` and
`idSchema` lead to. -/
theorem process_leaves_others (config : Config) (on : config.isolateBindings = true)
    (ctx : Context) (h : Heap) (closed : h.Closed) (live : ctx.Live h) (i : Interpreter) (r : Ref)
    (old : r < h.size)
    (unheld : .container r ∉ ctx.valuesOf ["schema", "uiSchema", "data", "arrayUiSchema"])
    (unreached : ¬ h.Reach (ctx.valuesOf ["formContext", "idSchema"]) (.container r)) :
    ((Engine.mk Interpreter.evaluate config).process ctx ⟨h, i⟩).2.heap.cell r = h.cell r := by
  obtain ⟨kept, _⟩ := keeps_process on live ⟨h, i⟩ (.init closed)
  refine kept.frame r old ?_
  rintro (⟨name, slot, bound⟩ | reached)
  · refine unheld ⟨name, ?_, bound⟩
    simp only [isolatedNames, List.mem_cons, List.not_mem_nil, or_false] at slot ⊢
    tauto
  · exact unreached reached

/-- A rule writes to what a child of the data was copied to; the child itself stays empty. -/
theorem process_leaves_others_shared :
    let h : Heap := ⟨#[.mapping (.ofList [("shared", .container 1)]), .mapping .empty,
      .mapping (.ofList [("ui:options", .container 3)]),
      .mapping (.ofList [("formRules", .container 4)]), .sequence #[.container 5],
      .mapping (.ofList [("if", .string "true"), ("then", .string "data.shared.x = data")])]⟩
    let ctx : Context := { data := .container 0, uiSchema := .container 2 }
    h.Closed ∧ ctx.Live h ∧
      ((Engine.mk Interpreter.evaluate {}).process ctx ⟨h, .fresh⟩).1.toOption.isSome = true ∧
      ((Engine.mk Interpreter.evaluate {}).process ctx ⟨h, .fresh⟩).2.heap.cell 1 = h.cell 1 := by
  intro h ctx
  have closed : h.Closed := by decide
  have live : ctx.Live h := by decide
  have unheld : .container 1 ∉ ctx.valuesOf ["schema", "uiSchema", "data", "arrayUiSchema"] := by
    rintro ⟨name, slot, bound⟩
    simp only [List.mem_cons, List.not_mem_nil, or_false] at slot
    rcases slot with rfl | rfl | rfl | rfl <;> exact absurd bound (by decide)
  have unreached : ¬ h.Reach (ctx.valuesOf ["formContext", "idSchema"]) (.container 1) := by
    intro reached
    have nothing := reached.within (P := fun v => v = .undefined) ?_ fun _ same => nomatch same
    · cases nothing
    · rintro v ⟨name, slot, bound⟩
      simp only [List.mem_cons, List.not_mem_nil, or_false] at slot
      rcases slot with rfl | rfl <;> exact (Option.some.inj bound).symm
  refine ⟨closed, live, by decide +kernel, ?_⟩
  exact process_leaves_others {} rfl ctx h closed live .fresh 1 (by decide) unheld unreached

end FormLogic.Engine
