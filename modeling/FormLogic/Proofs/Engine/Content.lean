import FormLogic.Proofs.Clone.Unseen
import FormLogic.Proofs.Engine.Isolation
import FormLogic.Proofs.Eval.ReadOnly
import FormLogic.Proofs.Heap.Equality

/-!
# `FormLogic.Proofs.Engine.Content` — isolation preserves content

An engine that isolates its bindings replaces children by copies also when the expression only reads.
The copies are not noticed, so the slots are equal to what they were, with one exception: copies leave
reserved keys out. So what is mentioned must be free of reserved keys from the second level on. In the
container that a slot itself holds they do no harm, since it stays, and all its entries get their
copies.

## Contents
- `MentionsUnreserved`, `isolateSlots_unseen`: isolating is not seen, whether it succeeds or not.
- `ReadsOnly`, `evaluate_unseen`: nor is evaluating an expression that only reads.
- `evaluate_preserves_content`: the slots are equal to what they were; and what is lost otherwise,
  `evaluate_drops_nested_reserved_key`.
-/

namespace FormLogic.Engine

variable {ctx : Context} {h k : Heap} {config : Config} {expression : String}

/-! ## Isolating -/

/-- In the slots that an expression mentions, no mapping has a reserved key but for those that the
slots themselves hold. -/
def MentionsUnreserved (expression : String) (ctx : Context) (h : Heap) : Prop :=
  ∀ name ∈ isolatedNames, mentions expression name = true → ∀ r,
    ctx.binding? name = some (.container r) → ∀ v ∈ (h.cell r).children, h.FreeOfReserved v

theorem MentionsUnreserved.of_unseen (free : MentionsUnreserved expression ctx h)
    (live : ctx.Live h) (unseen : Clone.Unseen h k) : MentionsUnreserved expression ctx k := by
  intro name slot mentioned r bound w held
  obtain ⟨v, before, alike⟩ := (unseen.alike _ (live name _ bound)).exists_child held
  exact (free name slot mentioned r bound v before).of_alike alike

/-- Isolating some slots is not seen, whether it succeeds or not. -/
theorem isolateSlots_unseen {names : List String} (isolated : ∀ name ∈ names, name ∈ isolatedNames)
    (closed : h.Closed) (live : ctx.Live h) (free : MentionsUnreserved expression ctx h) :
    Clone.Unseen h (isolateSlots config expression ctx names h).2 := by
  induction names generalizing h with
  | nil => exact .refl h
  | cons name rest ih =>
    have isolated' : ∀ name ∈ rest, name ∈ isolatedNames :=
      fun name mem => isolated name (List.mem_cons_of_mem _ mem)
    by_cases mentioned : mentions expression name = true
    · have slot := isolated name List.mem_cons_self
      obtain ⟨v, bound⟩ := exists_binding ctx slot
      have unseen : Clone.Unseen h (Clone.children ⟨config.maxDepth⟩ v h).2 :=
        Clone.children_unseen closed fun r same => free name slot mentioned r (same ▸ bound)
      rw [isolateSlots_mentioned config ctx rest mentioned, bound]
      refine bind_ends .trans unseen fun _ k first => ?_
      have unseen' : Clone.Unseen h k := of_ends unseen first
      obtain ⟨isolating, _⟩ :=
        Clone.children_isolates closed (live name v bound) (Set.mem_univ v) first
      exact ih isolated' isolating.closed (live.mono unseen'.grown) (free.of_unseen live unseen')
    · rw [isolateSlots_unmentioned config ctx rest mentioned]
      exact ih isolated' closed live free

/-! ## Evaluating -/

/-- The program of the text, if it has one, only reads (`Expr.readsOnly`). -/
def ReadsOnly (expression : String) : Prop :=
  ∀ program, parse expression = .ok program → Expr.readsOnlyItems program = true

/-- Whether a text only reads can be checked by parsing it. -/
instance (expression : String) : Decidable (ReadsOnly expression) :=
  match parsed : parse expression with
  | .ok program =>
    decidable_of_iff (Expr.readsOnlyItems program = true)
      ⟨fun only _ same => Except.ok.inj (parsed.symm.trans same) ▸ only,
        fun only => only program parsed⟩
  | .error _ => isTrue fun _ same => nomatch parsed.symm.trans same

/-- Evaluating a text that only reads leaves all containers as they are. -/
theorem ReadsOnly.extends (only : ReadsOnly expression) (ctx : Context) (h : Heap)
    (i : Interpreter) : h.Extends (Interpreter.evaluate expression ctx ⟨h, i⟩).2.heap := by
  cases parsed : parse expression with
  | error e =>
    rw [Interpreter.evaluate_of_parse_error parsed]
    exact .refl h
  | ok program => exact Interpreter.evaluate_extends parsed (only program parsed) ctx h i

/-- An expression that only reads is evaluated, and nothing is seen of it. -/
theorem evaluate_unseen (on : config.isolateBindings = true) (closed : h.Closed)
    (live : ctx.Live h) (only : ReadsOnly expression)
    (free : MentionsUnreserved expression ctx h) (i : Interpreter) :
    Clone.Unseen h
      ((Engine.mk Interpreter.evaluate config).evaluate expression ctx ⟨h, i⟩).2.heap := by
  have unseen : Clone.Unseen h (isolate config expression ctx h).2 :=
    isolateSlots_unseen (fun _ mem => mem) closed live free
  cases ends : isolate config expression ctx h with
  | mk result k =>
    have unseen' : Clone.Unseen h k := of_ends unseen ends
    cases result with
    | error e =>
      rw [evaluate_of_isolate_error on ends]
      exact unseen'
    | ok _ =>
      obtain ⟨isolating, _⟩ := isolateSlots_isolates (fun _ mem => mem) closed live ends
      rw [evaluate_of_isolate on ends]
      exact unseen'.trans (.of_extends isolating.closed (only.extends ctx k i))

/-- **Isolation preserves content.** With isolation on, evaluating an expression that only reads
leaves each slot deeply equal to what it was, if the slots contain neither themselves nor NaN, and
those that the expression mentions have no reserved keys below their own containers. Evaluation need
not succeed for that, nor is there a bound on how deep the slots nest. The heaps from before and after
stand side by side, so the slot from after has its reference moved up. -/
theorem evaluate_preserves_content (config : Config) (on : config.isolateBindings = true)
    (ctx : Context) (h : Heap) (closed : h.Closed) (live : ctx.Live h)
    (acyclic : ∀ name v, ctx.binding? name = some v → h.Acyclic v)
    (notNaN : ∀ name v, ctx.binding? name = some v → h.FreeOfNaN v) (expression : String)
    (only : ReadsOnly expression) (unreserved : MentionsUnreserved expression ctx h)
    (i : Interpreter) (name : String) (v : Value) (bound : ctx.binding? name = some v) :
    (h.beside ((Engine.mk Interpreter.evaluate config).evaluate expression ctx ⟨h, i⟩).2.heap).equal
      v (v.shift h.size) = true := by
  have unseen := evaluate_unseen on closed live only unreserved i
  have slotLive := live name v bound
  exact Heap.equal_beside closed slotLive (acyclic name v bound) (notNaN name v bound)
    (unseen.alike v slotLive)

/-- All slots but the data are empty. -/
theorem eq_of_data_only {name : String} {v w : Value}
    (bound : ({ data := w } : Context).binding? name = some v) : v = .undefined ∨ v = w := by
  unfold Context.binding? at bound
  split at bound <;> first | exact Or.inl (Option.some.inj bound).symm |
    exact Or.inr (Option.some.inj bound).symm | cases bound

/-- The data has a reserved key in its own container, and both its children are replaced. -/
theorem evaluate_preserves_content_own_key :
    let h : Heap := ⟨#[
      .mapping (.ofList [("constructor", .container 1), ("name", .string "form")]),
      .mapping (.ofList [("set", .bool true)])]⟩
    let ctx : Context := { data := .container 0 }
    h.Closed ∧ ctx.Live h ∧ ReadsOnly "data.name" ∧ MentionsUnreserved "data.name" ctx h ∧
      (∀ name v, ctx.binding? name = some v → h.Acyclic v ∧ h.FreeOfNaN v) ∧
      ((Engine.mk Interpreter.evaluate {}).evaluate "data.name" ctx ⟨h, .fresh⟩).1.toOption =
        some (.string "form") ∧
      (h.beside ((Engine.mk Interpreter.evaluate {}).evaluate "data.name" ctx
        ⟨h, .fresh⟩).2.heap).equal (.container 0) (.container 2) = true := by
  intro h ctx
  have closed : h.Closed := by decide
  have live : ctx.Live h := by decide
  have only : ReadsOnly "data.name" := by decide +kernel
  have nests : ∀ name v, ctx.binding? name = some v → h.NestsWithin 2 v := by
    intro name v bound
    rcases eq_of_data_only bound with rfl | rfl <;> decide
  have acyclic := fun name v bound => (nests name v bound).acyclic
  have notNaN : ∀ name v, ctx.binding? name = some v → h.FreeOfNaN v := by
    intro name v bound
    refine .of_cells ?_ (by decide)
    rcases eq_of_data_only bound with rfl | rfl <;> rfl
  have unheld : ∀ t, t < h.size → Value.container 0 ∉ (h.cell t).children := by decide
  have unreserved : MentionsUnreserved "data.name" ctx h := by
    intro name _ _ r bound v held s fields reached cell key mem
    rcases eq_of_data_only bound with other | same
    · cases other
    · cases same
      -- no container holds the one of the slot, so the other one is meant
      have apart : Value.container s ≠ .container 0 := by
        refine reached.within (P := (· ≠ .container 0)) ?_ fun t _ w below same => ?_
        · rintro _ rfl same
          exact unheld 0 (by decide) (same ▸ held)
        · exact unheld t (Heap.lt_size_of_mem_children below) (same ▸ below)
      have inside : s < 2 := reached.live_of_value closed (closed 0 v held) s rfl
      have nonzero : s ≠ 0 := fun zero => apart (congrArg Value.container zero)
      obtain rfl : s = 1 :=
        Nat.le_antisymm (Nat.le_of_lt_succ inside) (Nat.one_le_iff_ne_zero.mpr nonzero)
      cases cell
      obtain rfl := List.mem_singleton.mp mem
      decide
  refine ⟨closed, live, only, unreserved, fun name v bound =>
    ⟨acyclic name v bound, notNaN name v bound⟩, by decide +kernel, ?_⟩
  exact evaluate_preserves_content {} rfl ctx h closed live acyclic notNaN "data.name" only unreserved
    .fresh "data" (.container 0) rfl

/-- One level further down, the reserved key is lost, although the expression only reads. -/
theorem evaluate_drops_nested_reserved_key :
    let h : Heap := ⟨#[
      .mapping (.ofList [("a", .container 1)]),
      .mapping (.ofList [("constructor", .bool true)])]⟩
    let ctx : Context := { data := .container 0 }
    h.Closed ∧ ctx.Live h ∧ ReadsOnly "data.a" ∧
      (∀ name v, ctx.binding? name = some v →
        h.Acyclic v ∧ h.FreeOfNaN v ∧ h.NestsWithin defaultMaxDepth v) ∧
      ((Engine.mk Interpreter.evaluate {}).evaluate "data.a" ctx ⟨h, .fresh⟩).1.toOption.isSome =
        true ∧
      ¬ (h.beside ((Engine.mk Interpreter.evaluate {}).evaluate "data.a" ctx
        ⟨h, .fresh⟩).2.heap).equal (.container 0) (.container 2) = true := by
  intro h ctx
  have slots : ∀ name v, ctx.binding? name = some v →
      h.Acyclic v ∧ h.FreeOfNaN v ∧ h.NestsWithin defaultMaxDepth v := by
    intro name v bound
    have nests : h.NestsWithin 2 v := by
      rcases eq_of_data_only bound with rfl | rfl <;> decide
    refine ⟨nests.acyclic, .of_cells ?_ (by decide), nests.mono (by decide)⟩
    rcases eq_of_data_only bound with rfl | rfl <;> rfl
  exact ⟨by decide, by decide, by decide +kernel, slots, by decide +kernel, by decide +kernel⟩

end FormLogic.Engine
