import FormLogic.Proofs.Engine.Isolation
import FormLogic.Proofs.Engine.Protocol
import FormLogic.Proofs.Heap.Forest
import FormLogic.Proofs.Heap.Reading

/-!
# `FormLogic.Proofs.Engine.Frozen` — a rule list that its own rules cannot change

A rule is read when its turn comes, so that earlier rules can change later ones. With isolation they
cannot: a rule that mentions the presentation works on copies of what is below it, while the engine
goes on with the list that it found there at first. As long as no container of that list is exempt
from isolation, the run is the one of the rules that are read off the list before it starts.

## Contents
- `Rule.ofRecord_congr`: a record reads the same where its containers are.
- `reading`, `readings`, `applyAll`: rules that have all been read beforehand, and their run.
- `Kept.list_unchanged`, `turns_eq_applyAll`: the list at each turn; `processDetailed_frozen`.
-/

namespace FormLogic

/-! ## Reading a record -/

/-- A record reads the same in a heap in which it leads to the same containers. -/
theorem Rule.ofRecord_congr {h k : Heap} {record : Value}
    (same : ∀ r, h.Reach {record} (.container r) → k.cell r = h.cell r) (index : Nat) :
    ofRecord k record index = ofRecord h record index := by
  have kind : k.kind record = h.kind record := Heap.kind_congr fun r held => same r (.root held.symm)
  unfold ofRecord Heap.plain
  rw [kind, Heap.plainWithin_congr same]

namespace Engine

/-! ## Rules that have been read beforehand -/

/-- What the record at an index reads as in the heap: nothing where it is absent. -/
def reading (h : Heap) (record : Value) (index : Nat) : Except ConfigurationError (Option Rule) :=
  if record.isUndefined then .ok none else (Rule.ofRecord h record index).map some

/-- What records read as in the heap, the first of them at position `index`. -/
def readings (h : Heap) : (index : Nat) → List Value → List (Except ConfigurationError (Option Rule))
  | _, [] => []
  | index, record :: rest => reading h record index :: readings h (index + 1) rest

section

variable {σ : Type}

/-- Applies what has been read at position `index`. -/
def applyReading (engine : Engine σ) (ctx : Context) (index : Nat) :
    Except ConfigurationError (Option Rule) → Action σ FormError Outcome
  | .error e => throw (.configuration e)
  | .ok none => return .inactive
  | .ok (some rule) => engine.applyRule rule index ctx

/-- Applies all that has been read, in order, from position `index` on. No record is looked at. -/
def applyAll (engine : Engine σ) (ctx : Context) :
    (index : Nat) → List (Except ConfigurationError (Option Rule)) →
      Action σ FormError (List Outcome)
  | _, [] => return []
  | index, first :: rest => do
    let outcome ← engine.applyReading ctx index first
    let outcomes ← applyAll engine ctx (index + 1) rest
    return outcome :: outcomes

variable {engine : Engine σ} {ctx : Context} {index : Nat} {w w' : World σ}

theorem length_readings (h : Heap) (index : Nat) (records : List Value) :
    (readings h index records).length = records.length := by
  induction records generalizing index with
  | nil => rfl
  | cons record rest ih => exact congrArg Nat.succ (ih (index + 1))

/-- There is one outcome for each rule. -/
theorem length_applyAll {rules : List (Except ConfigurationError (Option Rule))}
    {outcomes : List Outcome} (ends : engine.applyAll ctx index rules w = (.ok outcomes, w')) :
    outcomes.length = rules.length := by
  induction rules generalizing index w outcomes with
  | nil =>
    cases ends
    rfl
  | cons first rest ih =>
    obtain ⟨outcome, u, _, ends⟩ := bind_eq_ok_iff.mp ends
    obtain ⟨others, u', later, ends⟩ := bind_eq_ok_iff.mp ends
    cases ends
    exact congrArg Nat.succ (ih later)

/-- The report of a run of rules has an outcome for each of them. -/
theorem length_report {rules : List (Except ConfigurationError (Option Rule))} {report : Report}
    (ends : (do return ⟨← engine.applyAll ctx index rules⟩ : Action σ FormError Report) w =
      (.ok report, w')) : report.outcomes.length = rules.length := by
  obtain ⟨outcomes, u, applied, ends⟩ := bind_eq_ok_iff.mp ends
  cases ends
  exact length_applyAll applied

/-- A turn that finds a record applies it and goes on. -/
theorem turns_found {rules record : Value} (here : element? w.heap rules index = some record)
    (left : Nat) (done : List Outcome) :
    engine.turns rules ctx (left + 1) index done w = (do
      let outcome ← engine.applyRecord record index ctx
      engine.turns rules ctx left (index + 1) (outcome :: done)) w := by
  unfold element? at here
  conv_lhs => unfold turns
  rw [heap_bind]
  simp only [here]

/-- A record whose containers are as they were in `start` is applied as it reads there. -/
theorem applyRecord_eq_applyReading {start : Heap} {record : Value}
    (same : ∀ r, start.Reach {record} (.container r) → w.heap.cell r = start.cell r) :
    engine.applyRecord record index ctx w =
      engine.applyReading ctx index (reading start record index) w := by
  unfold applyRecord reading
  split
  · rfl
  · rw [heap_bind, Rule.ofRecord_congr same]
    cases Rule.ofRecord start record index <;> rfl

end

/-! ## The list at each turn -/

section

variable {config : Config} {ctx : Context} {start h : Heap} {rules : Value}

/-- A list none of whose containers is open is unchanged throughout. -/
theorem Kept.list_unchanged (kept : Kept ctx start h) (closed : start.Closed)
    (live : start.Live rules) (shut : ∀ r, start.Reach {rules} (.container r) → ¬ Open ctx start r)
    {r : Ref} (reached : start.Reach {rules} (.container r)) : h.cell r = start.cell r :=
  kept.frame r (reached.live_of_value closed live r rfl) (shut r reached)

/-- **The turns of a list that cannot change** are those of the rules that it read as at first, by
induction on the turns left. -/
theorem turns_eq_applyAll (on : config.isolateBindings = true) (live : ctx.Live start)
    {items : Array Value} (sequence : start.itemsOf? rules = some items)
    (unchanged : ∀ {h}, Kept ctx start h →
      ∀ {r}, start.Reach {rules} (.container r) → h.cell r = start.cell r)
    {rest : List Value} {index : Nat} (to_come : items.toList.drop index = rest)
    (done : List Outcome) (w : World Interpreter) (isolated : Isolated ctx start w.heap) :
    (Engine.mk Interpreter.evaluate config).turns rules ctx rest.length index done w =
      (do return ⟨done.reverse ++ (← (Engine.mk Interpreter.evaluate config).applyAll ctx index
        (readings start index rest))⟩ : Action Interpreter FormError Report) w := by
  induction rest generalizing index done w with
  | nil =>
    show (Except.ok (⟨done.reverse⟩ : Report), w) = (.ok ⟨done.reverse ++ []⟩, w)
    rw [List.append_nil]
  | cons record rest ih =>
    have here : items[index]? = some record := by
      rw [← Array.getElem?_toList, ← List.head?_drop, to_come]
      rfl
    have next : items.toList.drop (index + 1) = rest := by
      rw [← List.tail_drop, to_come]
      rfl
    have mem : record ∈ items.toList := List.mem_of_mem_drop (to_come ▸ List.mem_cons_self)
    -- this turn finds the record where it was, and reads it as it was
    have list : w.heap.itemsOf? rules = some items :=
      (Heap.itemsOf?_congr fun r held => unchanged isolated.toKept (.root held.symm)).trans sequence
    have read : (Engine.mk Interpreter.evaluate config).applyRecord record index ctx w =
        (Engine.mk Interpreter.evaluate config).applyReading ctx index
          (reading start record index) w :=
      applyRecord_eq_applyReading fun r reached =>
        unchanged isolated.toKept (Heap.reach_of_element sequence mem reached)
    have found : element? w.heap rules index = some record := by
      unfold element?
      rw [list]
      exact here
    have keeps : Keeps ctx start
        ((Engine.mk Interpreter.evaluate config).applyRecord record index ctx) :=
      keeps_applyRecord on live record
    have kept := keeps w isolated
    rw [List.length_cons, turns_found found]
    unfold readings applyAll
    rw [bind_apply, bind_apply, bind_apply, ← read]
    generalize applyRecord _ record index ctx w = x at kept
    obtain ⟨_ | outcome, w'⟩ := x
    · rfl
    · have later := ih next (outcome :: done) w' (kept.2 outcome rfl)
      dsimp only
      rw [later, bind_apply, bind_apply]
      generalize applyAll _ ctx (index + 1) (readings start (index + 1) rest) w' = y
      obtain ⟨_ | outcomes, w''⟩ := y
      · rfl
      · show (Except.ok (⟨(outcome :: done).reverse ++ outcomes⟩ : Report), w'') =
          (.ok ⟨done.reverse ++ (outcome :: outcomes)⟩, w'')
        rw [List.reverse_cons, List.append_assoc, List.singleton_append]

/-- What stands for the rules of a node does not dangle. -/
theorem live_rulesOf (closed : h.Closed) (ctx : Context) : h.Live (rulesOf h ctx) :=
  closed.lookup _ _

/-- **A frozen rule list.** The rules of a node are a sequence, and of the containers that this leads
to a slot holds none, nor do `formContext` and `idSchema` lead to any. Then an isolating engine runs
the rules that the elements read as at the start; a run that succeeds has an outcome for each of
them; and the list ends as it began, with all that it leads to. -/
theorem processDetailed_frozen (config : Config) (on : config.isolateBindings = true) (ctx : Context)
    (h : Heap) (closed : h.Closed) (live : ctx.Live h) (i : Interpreter) (items : Array Value)
    (sequence : h.itemsOf? (rulesOf h ctx) = some items)
    (unheld : ∀ r, h.Reach {rulesOf h ctx} (.container r) → .container r ∉ ctx.values)
    (unreached : ∀ r, h.Reach {rulesOf h ctx} (.container r) →
      ¬ h.Reach (ctx.valuesOf ["formContext", "idSchema"]) (.container r)) :
    let engine : Engine Interpreter := ⟨Interpreter.evaluate, config⟩
    let run := engine.processDetailed ctx ⟨h, i⟩
    run = (do return ⟨← engine.applyAll ctx 0 (readings h 0 items.toList)⟩ :
        Action Interpreter FormError Report) ⟨h, i⟩ ∧
      (∀ report, run.1 = .ok report → report.outcomes.length = items.size) ∧
      ∀ r, h.Reach {rulesOf h ctx} (.container r) → run.2.heap.cell r = h.cell r := by
  intro engine run
  have shut : ∀ r, h.Reach {rulesOf h ctx} (.container r) → ¬ Open ctx h r := by
    rintro r reached (⟨name, _, bound⟩ | exempt)
    · exact unheld r reached (Context.mem_values bound)
    · exact unreached r reached exempt
  have unchanged : ∀ {k}, Kept ctx h k →
      ∀ {r}, h.Reach {rulesOf h ctx} (.container r) → k.cell r = h.cell r :=
    fun kept _ reached => kept.list_unchanged closed (live_rulesOf closed ctx) shut reached
  have frozen : run = (do return ⟨← engine.applyAll ctx 0 (readings h 0 items.toList)⟩ :
      Action Interpreter FormError Report) ⟨h, i⟩ := by
    have turns := turns_eq_applyAll on live sequence unchanged List.drop_zero [] ⟨h, i⟩ (.init closed)
    simp only [List.reverse_nil, List.nil_append, Array.length_toList] at turns
    have start : engine.processDetailed ctx ⟨h, i⟩ =
        engine.turns (rulesOf h ctx) ctx items.size 0 [] ⟨h, i⟩ :=
      processDetailed_eq_turns (w := ⟨h, i⟩) engine sequence
    exact start.trans turns
  refine ⟨frozen, fun report ends => ?_, fun r => unchanged ?_⟩
  · have ends : run = (.ok report, run.2) := Prod.ext ends rfl
    exact (length_report (frozen.symm.trans ends)).trans
      ((length_readings h 0 _).trans Array.length_toList)
  · exact (keeps_processDetailed on live ⟨h, i⟩ (.init closed)).1

/-- The first rule switches the second one off, but only in a copy. -/
theorem processDetailed_frozen_deactivation :
    let h : Heap := ⟨#[.mapping (.ofList [("ui:options", .container 1)]),
      .mapping (.ofList [("formRules", .container 2), ("last", .container 4)]),
      .sequence #[.container 3, .container 4],
      .mapping (.ofList [("if", .string "true"),
        ("then", .string "uiSchema['ui:options'].last.active = false")]),
      .mapping (.ofList [("if", .string "true"), ("then", .string "true")])]⟩
    let ctx : Context := { uiSchema := .container 0 }
    h.Closed ∧ ctx.Live h ∧ h.itemsOf? (rulesOf h ctx) = some #[.container 3, .container 4] ∧
      ((Engine.mk Interpreter.evaluate {}).processDetailed ctx ⟨h, .fresh⟩).1.toOption.map
        Report.outcomes = some [.consequent, .consequent] ∧
      (Engine.mk Interpreter.evaluate {}).processDetailed ctx ⟨h, .fresh⟩ =
        (do return ⟨← (Engine.mk Interpreter.evaluate {}).applyAll ctx 0
          (readings h 0 [.container 3, .container 4])⟩ : Action Interpreter FormError Report)
          ⟨h, .fresh⟩ ∧
      ((Engine.mk Interpreter.evaluate {}).processDetailed ctx ⟨h, .fresh⟩).2.heap.cell 4 =
        h.cell 4 := by
  intro h ctx
  have closed : h.Closed := by decide
  have live : ctx.Live h := by decide
  have sequence : h.itemsOf? (rulesOf h ctx) = some #[.container 3, .container 4] := by decide
  -- the list leads to itself and the two records
  have inside : ∀ {v}, h.Reach {rulesOf h ctx} v →
      v ∈ [.container 2, .container 3, .container 4] ∨ v.isContainer = false := by
    intro v reached
    refine reached.within (P := fun v => v ∈ [.container 2, .container 3, .container 4] ∨
      v.isContainer = false) ?_ ?_
    · rintro _ rfl
      exact Or.inl (by decide)
    · rintro r (mem | leaf) w held
      · simp only [List.mem_cons, Value.container.injEq, List.not_mem_nil, or_false] at mem
        rcases mem with rfl | rfl | rfl <;> revert held <;> revert w <;> decide
      · cases leaf
  have unheld : ∀ r, h.Reach {rulesOf h ctx} (.container r) → .container r ∉ ctx.values := by
    rintro r reached ⟨name, _, bound⟩
    rcases inside reached with mem | leaf
    · unfold Context.binding? at bound
      split at bound <;> cases bound
      exact absurd mem (by decide)
    · cases leaf
  have unreached : ∀ r, h.Reach {rulesOf h ctx} (.container r) →
      ¬ h.Reach (ctx.valuesOf ["formContext", "idSchema"]) (.container r) := by
    intro r _ reached
    have nothing := reached.within (P := fun v => v = .undefined) ?_ fun _ same => nomatch same
    · cases nothing
    · rintro v ⟨name, slot, bound⟩
      simp only [List.mem_cons, List.not_mem_nil, or_false] at slot
      rcases slot with rfl | rfl <;> exact (Option.some.inj bound).symm
  obtain ⟨frozen, _, unchanged⟩ :=
    processDetailed_frozen {} rfl ctx h closed live .fresh _ sequence unheld unreached
  have list : h.Reach {rulesOf h ctx} (.container 2) := .root (by decide)
  exact ⟨closed, live, sequence, by decide +kernel, frozen, unchanged 4 (list.child (by decide))⟩

end

end Engine

end FormLogic
