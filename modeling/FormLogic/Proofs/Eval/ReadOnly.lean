import FormLogic.Proofs.Eval.Confinement
import FormLogic.Proofs.Eval.Invariant

/-!
# `FormLogic.Proofs.Eval.ReadOnly` — expressions that change nothing

An expression that neither assigns nor deletes, and calls nothing but named methods other than
`push`, leaves all containers as they are. It can make new ones, since literals, `filter` and `map`
do. What its callbacks do counts as well: the bodies of functions are parts of the expression.

## Contents
- `Expr.readsOnly`: such expressions; `permits_of_readsOnly`: none of their nodes writes.
- `Eval.Extending`: actions that change no container, an invariant of evaluation.
- `evaluate_extends`: texts.
-/

namespace FormLogic

/-! ## Expressions -/

namespace Expr

mutual

/-- There is no assignment in the expression, no `delete`, and no call but of named methods other
than `push`. -/
def readsOnly : Expr → Bool
  | .literal _ | .ident _ => true
  | .array items => readsOnlyItems items
  | .object entries => readsOnlyEntries entries
  | .member base key _ => readsOnly base && readsOnlyKey key
  | .call (.member base (.named method) _) args =>
    method != "push" && readsOnly base && readsOnlyItems args
  | .call _ _ => false
  | .arrow _ body => readsOnly body
  | .unary _ operand => readsOnly operand
  | .binary _ lhs rhs | .logical _ lhs rhs => readsOnly lhs && readsOnly rhs
  | .conditional test consequent alternate =>
    readsOnly test && readsOnly consequent && readsOnly alternate
  | .assign _ _ | .delete _ => false

/-- The elements all read only. -/
def readsOnlyItems : List Expr → Bool
  | [] => true
  | item :: rest => readsOnly item && readsOnlyItems rest

/-- The entries' values all read only. -/
def readsOnlyEntries : List (String × Expr) → Bool
  | [] => true
  | (_, value) :: rest => readsOnly value && readsOnlyEntries rest

/-- The key reads only. -/
def readsOnlyKey : Key Expr → Bool
  | .named _ => true
  | .computed key => readsOnly key

end

end Expr

namespace Eval

/-! ## Actions that change no container -/

/-- The action leaves all containers as they are, also when it fails. -/
def Extending {α : Type} (p : Eval α) : Prop :=
  ∀ m : Machine, m.heap.Extends (p m).2.heap

/-- Evaluation changes no container but by writing. -/
theorem invariant_extending : Invariant @Extending where
  pure _ m := .refl m.heap
  throw _ m := .refl m.heap
  bind first next m :=
    bind_ends (R := fun m m' : Machine => m.heap.Extends m'.heap) .trans (first m)
      fun a m' _ => next a m'
  heap m := .refl m.heap
  scope m := .refl m.heap
  alloc c m := .alloc m.heap c
  read _ _ m := .refl m.heap
  withParams params args inner := fun ⟨heap, scope⟩ => inner ⟨heap, scope.bind params args⟩

end Eval

/-! ## Expressions that do not write -/

namespace Expr

theorem readsOnlyItems_iff {items : List Expr} :
    readsOnlyItems items = true ↔ ∀ item ∈ items, item.readsOnly = true := by
  induction items with
  | nil => simp [readsOnlyItems]
  | cons item rest ih => rw [readsOnlyItems, Bool.and_eq_true, ih, List.forall_mem_cons]

theorem readsOnlyEntries_iff {entries : List (String × Expr)} :
    readsOnlyEntries entries = true ↔ ∀ value ∈ entries.map Prod.snd, value.readsOnly = true := by
  induction entries with
  | nil => simp [readsOnlyEntries]
  | cons entry rest ih =>
    obtain ⟨key, value⟩ := entry
    rw [readsOnlyEntries, Bool.and_eq_true, ih, List.map_cons, List.forall_mem_cons]

theorem readsOnlyKey_iff {key : Key Expr} :
    readsOnlyKey key = true ↔ ∀ part ∈ keyParts key, part.readsOnly = true := by
  cases key <;> simp [readsOnlyKey, keyParts]

/-- What is called in an expression that reads only is a method other than `push`. -/
theorem exists_method_of_readsOnly {callee : Expr} {args : List Expr}
    (only : (call callee args).readsOnly = true) :
    ∃ base method optional, callee = .member base (.named method) optional ∧ method ≠ "push" ∧
      callee.readsOnly = true ∧ readsOnlyItems args = true := by
  cases callee with
  | member base key optional =>
    cases key with
    | named method =>
      obtain ⟨front, inner⟩ := Bool.and_eq_true_iff.mp only
      obtain ⟨other, front⟩ := Bool.and_eq_true_iff.mp front
      exact ⟨base, method, optional, rfl, bne_iff_ne.mp other,
        Bool.and_eq_true_iff.mpr ⟨front, rfl⟩, inner⟩
    | computed _ => cases only
  | _ => cases only

/-- The parts of an expression that reads only do so as well. -/
theorem readsOnly_children {e : Expr} (only : e.readsOnly = true) :
    ∀ part ∈ e.children, part.readsOnly = true := by
  cases e with
  | literal _ | ident _ => exact nofun
  | array items => exact readsOnlyItems_iff.mp only
  | object entries => exact readsOnlyEntries_iff.mp only
  | member base key optional =>
    obtain ⟨front, inner⟩ := Bool.and_eq_true_iff.mp only
    exact List.forall_mem_cons.mpr ⟨front, readsOnlyKey_iff.mp inner⟩
  | call callee args =>
    obtain ⟨_, _, _, _, _, front, inner⟩ := exists_method_of_readsOnly only
    exact List.forall_mem_cons.mpr ⟨front, readsOnlyItems_iff.mp inner⟩
  | arrow _ _ | unary _ _ => simpa [children, readsOnly] using only
  | binary _ _ _ | logical _ _ _ => simpa [children, readsOnly] using only
  | conditional _ _ _ => simpa [children, readsOnly, and_assoc] using only
  | assign _ _ | delete _ => cases only

/-- Where expressions read only, no node writes. -/
theorem permits_of_readsOnly {e : Expr} (only : e.readsOnly = true) :
    Eval.Permits @Eval.Extending e := by
  cases e with
  | call callee args =>
    obtain ⟨base, method, optional, rfl, other, _, _⟩ := exists_method_of_readsOnly only
    exact fun same => absurd same other
  | assign _ _ | delete _ => cases only
  | _ => trivial

end Expr

theorem Eval.extending_run {program : Program} (only : Expr.readsOnlyItems program = true) :
    Extending (run program) := by
  refine invariant_extending.run fun statement mem => ?_
  exact .of_parts (Q := fun e => e.readsOnly = true) (Expr.readsOnlyItems_iff.mp only statement mem)
    (fun _ => Expr.permits_of_readsOnly) fun _ => Expr.readsOnly_children

/-- **Reading only.** Evaluating a text with such a program leaves all containers as they are, also
when it fails. -/
theorem Interpreter.evaluate_extends {source : String} {program : Program}
    (parsed : parse source = .ok program) (only : Expr.readsOnlyItems program = true) (ctx : Context)
    (h : Heap) (i : Interpreter) : h.Extends (evaluate source ctx ⟨h, i⟩).2.heap := by
  obtain ⟨i', evaluated⟩ := evaluate_of_parse parsed i
  rw [evaluated ctx h]
  exact Eval.extending_run only ⟨h, .ofContext ctx⟩

end FormLogic
