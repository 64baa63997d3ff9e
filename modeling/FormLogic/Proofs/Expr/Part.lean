import FormLogic.Proofs.Expr.Depth

/-!
# `FormLogic.Proofs.Expr.Part` — what holds at every node

The nodes of an expression are the expression itself and the nodes of its direct parts. What the
grammar guarantees, and what evaluation asks for, is said of one node at a time and then of every node
of an expression: that holds of an expression if it holds at its root and everywhere in its direct
parts.

## Contents
- `Expr.IsPartOf`: the nodes of an expression.
- `Expr.Everywhere`: what holds at each node; `everywhere_iff`, `Everywhere.of_parts`.
- `Expr.partsInduction`: induction over the direct parts.
-/

namespace FormLogic.Expr

/-- The expression stands in another one: it is the other one, or stands in one of its direct
parts. -/
inductive IsPartOf (node : Expr) : Expr → Prop where
  | whole : IsPartOf node node
  | inside {e part : Expr} (direct : part ∈ e.children) (deeper : IsPartOf node part) :
      IsPartOf node e

/-- Every node of the expression has the property. -/
def Everywhere (P : Expr → Prop) (e : Expr) : Prop :=
  ∀ node, node.IsPartOf e → P node

/-- What holds of an expression if it holds of its direct parts, holds of every expression. -/
@[elab_as_elim]
theorem partsInduction {motive : Expr → Prop}
    (step : ∀ e, (∀ part ∈ e.children, motive part) → motive e) (e : Expr) : motive e :=
  step e fun part _ => partsInduction step part
termination_by e.height
decreasing_by exact height_lt_of_mem ‹_›

variable {P Q : Expr → Prop} {e : Expr}

theorem everywhere_iff : Everywhere P e ↔ P e ∧ ∀ part ∈ e.children, Everywhere P part := by
  constructor
  · intro all
    exact ⟨all e .whole, fun part direct node deeper => all node (.inside direct deeper)⟩
  · rintro ⟨here, below⟩ node within
    cases within with
    | whole => exact here
    | inside direct deeper => exact below _ direct node deeper

namespace Everywhere

theorem here (all : Everywhere P e) : P e :=
  all e .whole

theorem below (all : Everywhere P e) {part : Expr} (direct : part ∈ e.children) :
    Everywhere P part :=
  (everywhere_iff.mp all).2 part direct

theorem node (here : P e) (below : ∀ part ∈ e.children, Everywhere P part) : Everywhere P e :=
  everywhere_iff.mpr ⟨here, below⟩

theorem imp (all : Everywhere P e) (weaker : ∀ node, P node → Q node) : Everywhere Q e :=
  fun node within => weaker node (all node within)

/-- What passes on to the direct parts and gives the property, gives it everywhere. -/
theorem of_parts (root : Q e) (here : ∀ e, Q e → P e)
    (below : ∀ e, Q e → ∀ part ∈ e.children, Q part) : Everywhere P e := by
  intro node within
  induction within with
  | whole => exact here _ root
  | inside direct _ ih => exact ih (below _ root _ direct)

end Everywhere

end FormLogic.Expr
