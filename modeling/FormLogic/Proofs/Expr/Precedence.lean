import FormLogic.Expr.Printer
import FormLogic.Proofs.Expr.Depth

/-!
# `FormLogic.Proofs.Expr.Precedence` — how infix operators group

Operands with infix operators between them have one tree: at its root is the last operator of lowest
precedence, and the operands on its two sides group in the same way.

## Contents
- `Infix`, `precedence`: the infix operators and how tightly they bind.
- `lastLowest`, `lastLowest_spec`: the operator at the root.
- `grouped`, `grouped_append`: the tree, and its parts on both sides of the root.
- `height_grouped_le`: operands that are added on the right never make the tree lower.
-/

namespace FormLogic

/-- The operators that stand between two operands. -/
inductive Infix where
  | binary (op : BinaryOp)
  | logical (op : LogicalOp)

namespace Infix

/-- The operator as it is written between its operands. -/
def symbol : Infix → String
  | .binary op => op.symbol
  | .logical op => op.symbol

/-- The expression with the operator at its top. -/
def join : Infix → Expr → Expr → Expr
  | .binary op => .binary op
  | .logical op => .logical op

/-- How tightly the operator binds: a higher number binds tighter. -/
def precedence : Infix → Nat
  | .binary .mul | .binary .div | .binary .rem => 5
  | .binary .add | .binary .sub => 4
  | .binary .lt | .binary .le | .binary .gt | .binary .ge => 3
  | .binary .eq | .binary .ne | .binary .strictEq | .binary .strictNe => 2
  | .logical .and => 1
  | .logical .or => 0

theorem height_join (op : Infix) (lhs rhs : Expr) :
    (op.join lhs rhs).height = 1 + max lhs.height rhs.height := by
  cases op <;> rw [join, Expr.height]

end Infix

section

variable {α : Type} {item : Infix × α} {items before after : List (Infix × α)}

/-- Operands with the operators in front of them, parted at one of them. -/
structure Split (α : Type) where
  before : List (Infix × α)
  root : Infix × α
  after : List (Infix × α)

/-- The last operator of lowest precedence, with its right operand. -/
def lastLowest : List (Infix × α) → Option (Split α)
  | [] => none
  | item :: items =>
    match lastLowest items with
    | none => some ⟨[], item, []⟩
    | some split =>
      if split.root.1.precedence ≤ item.1.precedence then
        some { split with before := item :: split.before }
      else
        some ⟨[], item, items⟩

/-- What it is to be parted at the last operator of lowest precedence. -/
structure Split.Parts (split : Split α) (items : List (Infix × α)) : Prop where
  whole : items = split.before ++ split.root :: split.after
  lowest : ∀ item ∈ split.before, split.root.1.precedence ≤ item.1.precedence
  last : ∀ item ∈ split.after, split.root.1.precedence < item.1.precedence

theorem lastLowest_eq_none (none : lastLowest items = none) : items = [] := by
  cases items with
  | nil => rfl
  | cons item items =>
    unfold lastLowest at none
    split at none
    · cases none
    · split at none <;> cases none

/-- **The operator at the root** is the last one of lowest precedence. -/
theorem lastLowest_spec {split : Split α} (found : lastLowest items = some split) :
    split.Parts items := by
  induction items generalizing split with
  | nil => cases found
  | cons item items ih =>
    unfold lastLowest at found
    cases rest : lastLowest items with
    | none =>
      rw [rest] at found
      cases found
      obtain rfl := lastLowest_eq_none rest
      exact ⟨rfl, nofun, nofun⟩
    | some lower =>
      obtain ⟨whole, lowest, last⟩ := ih rest
      simp only [rest] at found
      split at found
      · next tighter =>
        cases found
        refine ⟨congrArg (item :: ·) whole, ?_, last⟩
        intro other mem
        rcases List.mem_cons.mp mem with rfl | mem
        · exact tighter
        · exact lowest other mem
      · next looser =>
        cases found
        have below : item.1.precedence < lower.root.1.precedence := Nat.lt_of_not_le looser
        refine ⟨rfl, nofun, ?_⟩
        intro other mem
        rw [whole, List.mem_append, List.mem_cons] at mem
        rcases mem with mem | rfl | mem
        · exact Nat.lt_of_lt_of_le below (lowest other mem)
        · exact below
        · exact Nat.lt_trans below (last other mem)

/-- There is only one such operator. -/
theorem lastLowest_append (lowest : ∀ other ∈ before, item.1.precedence ≤ other.1.precedence)
    (last : ∀ other ∈ after, item.1.precedence < other.1.precedence) :
    lastLowest (before ++ item :: after) = some ⟨before, item, after⟩ := by
  induction before with
  | nil =>
    rw [List.nil_append, lastLowest]
    cases rest : lastLowest after with
    | none => rw [lastLowest_eq_none rest]
    | some lower =>
      have whole := (lastLowest_spec rest).whole
      have mem : lower.root ∈ after := by
        rw [whole]
        exact List.mem_append_right _ List.mem_cons_self
      exact if_neg (Nat.not_le_of_lt (last _ mem))
  | cons other before ih =>
    have tighter := lowest other List.mem_cons_self
    have found := ih fun o mem => lowest o (List.mem_cons_of_mem _ mem)
    rw [List.cons_append, lastLowest, found]
    exact if_pos tighter

end

/-! ## The tree -/

/-- **The tree of operands with operators between them**: at its root is the last operator of lowest
precedence, and both sides group in the same way. -/
def grouped (first : Expr) (items : List (Infix × Expr)) : Expr :=
  match _ : lastLowest items with
  | none => first
  | some split => split.root.1.join (grouped first split.before) (grouped split.root.2 split.after)
termination_by items.length
decreasing_by
  all_goals
    have whole := (lastLowest_spec ‹_›).whole
    rw [whole, List.length_append, List.length_cons]
    omega

variable {first : Expr} {op : Infix} {operand : Expr} {done more before after : List (Infix × Expr)}

theorem grouped_nil (first : Expr) : grouped first [] = first := by
  rw [grouped]
  rfl

/-- The two sides of the root. -/
theorem grouped_append (first operand : Expr)
    (lowest : ∀ item ∈ before, op.precedence ≤ item.1.precedence)
    (last : ∀ item ∈ after, op.precedence < item.1.precedence) :
    grouped first (before ++ (op, operand) :: after) =
      op.join (grouped first before) (grouped operand after) := by
  have found : lastLowest (before ++ (op, operand) :: after) =
      some ⟨before, (op, operand), after⟩ := lastLowest_append lowest last
  rw [grouped]
  split
  · next none => cases none.symm.trans found
  · next split some =>
    cases some.symm.trans found
    rfl

example (a b c d : Expr) :
    grouped a [(.binary .sub, b), (.binary .mul, c), (.binary .sub, d)] =
      .binary .sub (.binary .sub a (.binary .mul b c)) d := by
  simp [grouped, lastLowest, Infix.precedence, Infix.join]

/-- The tree of the front is no higher than the whole: what is added on the right is joined to a
part of the tree. -/
theorem height_grouped_le (first : Expr) (done more : List (Infix × Expr)) :
    (grouped first done).height ≤ (grouped first (done ++ more)).height := by
  induction count : (done ++ more).length using Nat.strongRecOn generalizing first done more with
  | _ n ih =>
    cases found : lastLowest (done ++ more) with
    | none =>
      obtain ⟨rfl, rfl⟩ := List.append_eq_nil_iff.mp (lastLowest_eq_none found)
      exact Nat.le_refl _
    | some split =>
      obtain ⟨before, ⟨op, operand⟩, after⟩ := split
      obtain ⟨whole, lowest, last⟩ := lastLowest_spec found
      dsimp only at whole lowest last
      have joined := grouped_append first operand lowest last
      have shorter : before.length + after.length + 1 = n := by
        rw [← count, whole, List.length_append, List.length_cons]
        omega
      rw [whole, joined, Infix.height_join]
      rcases List.append_eq_append_iff.mp whole with ⟨between, rfl, rfl⟩ | ⟨between, rfl, tail⟩
      · -- the root stands behind the front
        have lower := ih _ (by omega) first done between rfl
        omega
      · cases between with
        | nil =>
          rw [List.append_nil]
          omega
        | cons item between =>
          -- the root stands in the front
          obtain ⟨rfl, behind⟩ := List.cons.inj tail
          have behind : after = between ++ more := behind
          subst behind
          have lower := ih _ (by omega) operand between more rfl
          have front := grouped_append first operand lowest fun item mem =>
            last item (List.mem_append_left _ mem)
          rw [front, Infix.height_join]
          omega

end FormLogic
