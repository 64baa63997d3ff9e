import FormLogic.Proofs.Eval.Confinement
import FormLogic.Proofs.Eval.Invariant
import FormLogic.Proofs.Expr.Built

/-!
# `FormLogic.Proofs.Eval.Unreachable` — what a program that was read never runs into

The evaluator is defined for all trees, so it has an answer for trees that no text reads as: it
refuses an assignment to what cannot be assigned to, and a `delete` of what is no member is `false`.
The grammar builds neither (`FormLogic.Proofs.Expr.Built`). Evaluation goes through the nodes of the
program only, so both cases are unreachable from a text. The refusal is the only error about an
`expression`: when a property cannot be written, the error is about the type of a value.

## Contents
- `Unrefused`: results other than the refusal; the accesses to properties have such results.
- `Eval.Unrefusing`: actions with such results, an invariant of evaluation that all well-formed nodes
  permit.
- `Eval.chain_delete_member`: a `delete` of a member answers `true`.
- `parse_wellFormed`: texts.
-/

namespace FormLogic

/-! ## Results other than the refusal -/

/-- If this is an error, it is not about what stands left of `=`. -/
def Unrefused {α : Type} (x : Except EvalError α) : Prop :=
  ∀ e, x = .error e → ¬ e.OnExpression

namespace Unrefused

variable {α β : Type}

theorem ok (a : α) : Unrefused (.ok a : Except EvalError α) :=
  nofun

theorem error {e : EvalError} (other : ¬ e.OnExpression) :
    Unrefused (.error e : Except EvalError α) := by
  rintro _ ⟨⟩
  exact other

theorem bind {x : Except EvalError α} {f : α → Except EvalError β} (first : Unrefused x)
    (next : ∀ a, Unrefused (f a)) : Unrefused (x >>= f) := by
  cases x with
  | ok a => exact next a
  | error e => exact .error (first e rfl)

theorem map {x : Except EvalError α} (first : Unrefused x) (f : α → β) : Unrefused (x.map f) := by
  cases x with
  | ok a => exact .ok (f a)
  | error e => exact .error (first e rfl)

end Unrefused

theorem EvalError.not_onExpression {property target : String} (other : target ≠ "expression") :
    ¬ (EvalError.invalidTarget property target).OnExpression := by
  rintro ⟨_, same⟩
  exact other (EvalError.invalidTarget.inj same).2

namespace Heap

variable (h : Heap) (base key v : Value)

theorem unrefused_readProperty : Unrefused (h.readProperty base key) := by
  unfold readProperty
  split
  · exact .error nofun
  · exact .error nofun
  · split
    · exact .ok _
    · split <;> exact .ok _
  · split <;> exact .ok _
  · exact .ok _

theorem unrefused_deleteProperty : Unrefused (deleteProperty base key h).1 := by
  unfold deleteProperty
  split
  · exact .error nofun
  · exact .error nofun
  · split
    · exact .ok _
    · split
      · split <;> exact .ok _
      · exact .ok _
  · exact .ok _

theorem unrefused_checkGrowth (property : String) (size length : Nat) :
    Unrefused (checkGrowth property size length) := by
  unfold checkGrowth
  split
  · exact .error nofun
  · exact .ok _

theorem unrefused_newLength : Unrefused (h.newLength v) := by
  unfold newLength
  split
  · exact .ok _
  · exact .error nofun

theorem unrefused_sequenceWrite (size : Nat) : Unrefused (h.sequenceWrite size key v) := by
  unfold sequenceWrite
  split
  · exact .bind (unrefused_checkGrowth _ _ _) fun _ => .ok _
  · split
    · refine .bind (h.unrefused_newLength v) fun length => ?_
      exact .bind (unrefused_checkGrowth _ _ _) fun _ => .ok _
    · exact .error (EvalError.not_onExpression (by decide))

/-- What cannot be written to is called by its type. -/
theorem unrefused_propertyWrite : Unrefused (h.propertyWrite base key v) := by
  cases base with
  | container r =>
    unfold propertyWrite
    dsimp only
    split
    · exact .ok _
    · exact (h.unrefused_sequenceWrite key v _).map _
  | undefined | null => exact .error (EvalError.not_onExpression (by decide))
  | _ => exact .error (EvalError.not_onExpression (by simp [Value.typeName]))

end Heap

namespace Eval

variable {α : Type}

/-! ## Actions without the refusal -/

/-- However the action ends, it is not with the refusal. -/
def Unrefusing (p : Eval α) : Prop :=
  ∀ m : Machine, Unrefused (p m).1

theorem unrefusing_write (base key v : Value) : Unrefusing (write base key v) := by
  intro m
  have written := m.heap.unrefused_propertyWrite base key v
  unfold write onHeap Heap.writeProperty
  dsimp only
  split
  · exact .ok _
  · next e refused => exact .error (written e refused)

theorem unrefusing_assign (name : String) (v : Value) : Unrefusing (assign name v) := by
  intro m
  unfold assign
  split
  · exact .ok _
  · exact .error nofun

/-- Evaluation ends with the refusal only if a node does. -/
theorem invariant_unrefusing : Invariant @Unrefusing where
  pure a _ := .ok a
  throw other _ := .error other
  bind {_ _ p f} first next m := by
    have first := first m
    rw [bind_apply]
    generalize p m = x at first
    obtain ⟨e | a, m'⟩ := x
    · exact .error (first e rfl)
    · exact next a m'
  heap _ := .ok _
  scope _ := .ok _
  alloc _ _ := .ok _
  read base key m := m.heap.unrefused_readProperty base key
  withParams params args inner := fun ⟨heap, scope⟩ => inner ⟨heap, scope.bind params args⟩

/-- No well-formed node has to refuse its target. -/
theorem permits_of_wellFormed {e : Expr} (wellFormed : e.IsWellFormed) : Permits @Unrefusing e := by
  have update (r : Ref) (f : Cell → Cell) : Unrefusing (update r f) := fun _ => .ok _
  cases e with
  | call callee args =>
    cases callee with
    | member base key optional =>
      cases key with
      | named method => exact fun _ => update
      | computed key => exact fun _ _ => update
    | _ => trivial
  | assign target value =>
    cases target with
    | ident name => exact unrefusing_assign name
    | member base key optional => exact unrefusing_write
    | _ => cases wellFormed
  | delete target =>
    cases target with
    | member base key optional => exact fun v k m => m.heap.unrefused_deleteProperty v k
    | _ => trivial
  | _ => trivial

/-! ## Deleting -/

/-- An action that answers `true` if it answers at all. -/
def Affirms (p : Eval (Option Value)) : Prop :=
  ∀ m o, (p m).1 = .ok o → o = some (.bool true)

theorem Affirms.after {p : Eval α} {f : α → Eval (Option Value)} (next : ∀ a, Affirms (f a)) :
    Affirms (p >>= f) := by
  intro m o answers
  rw [bind_apply] at answers
  generalize p m = x at answers
  obtain ⟨_ | a, m'⟩ := x
  · cases answers
  · exact next a m' o answers

/-- A `delete` of a member answers `true`, or fails. -/
theorem chain_delete_member {target : Expr} (member : target.isMember = true) :
    Affirms (chain (.delete target)) := by
  have done : Affirms (return some (.bool true)) :=
    fun _ _ answers => (Except.ok.inj answers).symm
  cases target with
  | member base key optional =>
    unfold chain
    refine .after fun o => ?_
    cases o with
    | none => exact done
    | some v =>
      dsimp only
      split
      · exact done
      · exact .after fun k => .after fun _ => done
  | _ => cases member

end Eval

/-! ## Texts -/

/-- An evaluation fails for what stands left of an `=` in no text. -/
theorem Interpreter.evaluate_unrefused (source : String) (ctx : Context) (h : Heap)
    (i : Interpreter) {e : EvaluationError}
    (fails : (Interpreter.evaluate source ctx ⟨h, i⟩).1 = .error e) : ¬ e.cause.OnExpression := by
  cases parsed : parse source with
  | error malformed =>
    rw [evaluate_of_parse_error parsed] at fails
    obtain rfl := Except.error.inj fails
    exact nofun
  | ok program =>
    have unrefusing : Eval.Unrefusing (Eval.run program) := by
      refine Eval.invariant_unrefusing.run fun statement mem => ?_
      exact (program_built parsed statement mem).1.imp fun node built =>
        Eval.permits_of_wellFormed built.1
    obtain ⟨i', evaluated⟩ := evaluate_of_parse parsed i
    rw [evaluated ctx h] at fails
    have run := unrefusing ⟨h, .ofContext ctx⟩
    cases ends : (Eval.run program ⟨h, .ofContext ctx⟩).1 with
    | ok v =>
      rw [ends] at fails
      cases fails
    | error cause =>
      rw [ends] at fails
      obtain rfl := Except.error.inj fails
      exact run cause ends

/-- **Only well-formed programs are read.** If a text reads as a program, its statements are at most
64 levels deep and well formed at every node, and what they delete are members, so that `delete`
answers `true` or fails. Hence no evaluation of a text fails for what stands left of an `=`. -/
theorem parse_wellFormed (source : String) :
    (∀ program, parse source = .ok program → ∀ statement ∈ program,
      statement.depth ≤ 64 ∧ statement.Everywhere Expr.IsWellFormed ∧
        ∀ target, (Expr.delete target).IsPartOf statement →
          ∀ m o, (Eval.chain (.delete target) m).1 = .ok o → o = some (.bool true)) ∧
    ∀ ctx h i e, (Interpreter.evaluate source ctx ⟨h, i⟩).1 = .error e →
      ∀ property, e.cause ≠ .invalidTarget property "expression" := by
  constructor
  · intro program parsed statement mem
    obtain ⟨built, shallow⟩ := program_built parsed statement mem
    refine ⟨shallow, built.imp fun node built => built.1, fun target within => ?_⟩
    exact Eval.chain_delete_member (built _ within).1
  · intro ctx h i e fails property same
    exact Interpreter.evaluate_unrefused source ctx h i fails ⟨property, same⟩

/-- A member is deleted; and what cannot be assigned to is refused by the grammar. -/
theorem parse_wellFormed_delete :
    (∃ target, parse "delete a?.b[c]" = .ok [.delete target] ∧ target.isMember = true ∧
      ∀ m o, (Eval.chain (.delete target) m).1 = .ok o → o = some (.bool true)) ∧
    ∃ e, (Interpreter.evaluate "1 = 2" {} ⟨.empty, .fresh⟩).1 = .error e ∧
      ∀ property, e.cause ≠ .invalidTarget property "expression" := by
  constructor
  · have shape : (parse "delete a?.b[c]").toOption.map
        (List.map fun | .delete _ => true | _ => false) = some [true] := by decide +kernel
    cases parsed : parse "delete a?.b[c]" with
    | error e =>
      rw [parsed] at shape
      cases shape
    | ok program =>
      rw [parsed] at shape
      obtain ⟨statement, rfl, shape⟩ := List.map_eq_singleton_iff.mp (Option.some.inj shape)
      cases statement with
      | delete target =>
        obtain ⟨_, wellFormed, deletes⟩ :=
          (parse_wellFormed "delete a?.b[c]").1 _ parsed _ List.mem_cons_self
        exact ⟨target, rfl, wellFormed.here, deletes target .whole⟩
      | _ => cases shape
  · have refused : (parse "1 = 2").toOption.isNone = true := by decide +kernel
    cases parsed : parse "1 = 2" with
    | ok program =>
      rw [parsed] at refused
      cases refused
    | error malformed =>
      have fails := congrArg Prod.fst
        (Interpreter.evaluate_of_parse_error parsed {} .empty .fresh)
      exact ⟨_, fails, (parse_wellFormed "1 = 2").2 {} .empty .fresh _ fails⟩

end FormLogic
