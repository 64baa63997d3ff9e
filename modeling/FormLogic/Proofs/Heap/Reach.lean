import FormLogic.Context
import FormLogic.Heap
import Mathlib.Data.Set.Insert

/-!
# `FormLogic.Proofs.Heap.Reach` — what a value leads to

A host can only hand out references to containers that exist, and a container can only hold what was
handed out. So no reference dangles: the heaps that a program meets are *closed*. From a set of roots
one reaches the roots themselves and whatever a container holds that was reached.

## Contents
- `Heap.Live`, `Heap.Closed`, `Context.Live`: references that do not dangle; `Heap.New`: the others.
- `Heap.Reach`: the values that roots lead to, with the closure principle `Reach.within`.
- `Context.valuesOf`: the values of some bindings.
-/

namespace FormLogic

theorem Value.leaf_or_container (v : Value) : v.isContainer = false ∨ ∃ r, v = .container r := by
  cases v with
  | container r => exact Or.inr ⟨r, rfl⟩
  | _ => exact Or.inl rfl

namespace Heap

/-! ## References that do not dangle -/

/-- The value is no reference, or a reference to a container of the heap. -/
def Live (h : Heap) (v : Value) : Prop :=
  ∀ r, v = .container r → r < h.size

/-- The value is no reference, or a reference to a container that the heap does not have. -/
def New (h : Heap) (v : Value) : Prop :=
  ∀ r, v = .container r → h.size ≤ r

/-- Containers hold live values only. -/
def Closed (h : Heap) : Prop :=
  ∀ r, ∀ v ∈ (h.cell r).children, h.Live v

theorem live_container {h : Heap} {r : Ref} : h.Live (.container r) ↔ r < h.size :=
  ⟨fun live => live r rfl, fun inside _ e => Value.container.inj e ▸ inside⟩

theorem Live.mono {h g : Heap} {v : Value} (live : h.Live v) (grown : h.size ≤ g.size) :
    g.Live v :=
  fun r e => Nat.lt_of_lt_of_le (live r e) grown

/-- A container outside the heap holds nothing. -/
theorem children_of_size_le {h : Heap} {r : Ref} (outside : h.size ≤ r) :
    (h.cell r).children = [] := by
  rw [cell_of_size_le outside]
  rfl

/-- Only containers of the heap hold something. -/
theorem lt_size_of_mem_children {h : Heap} {r : Ref} {v : Value}
    (held : v ∈ (h.cell r).children) : r < h.size := by
  by_contra outside
  rw [children_of_size_le (Nat.le_of_not_lt outside)] at held
  exact absurd held (by simp)

instance (h : Heap) : DecidablePred h.Live
  | .container r => decidable_of_iff (r < h.size) live_container.symm
  | .undefined | .null | .bool _ | .number _ | .string _ | .foreign _ =>
    isTrue fun _ other => Value.noConfusion other

/-- That no reference dangles can be checked container by container. -/
theorem closed_iff {h : Heap} :
    h.Closed ↔ ∀ r, r < h.size → ∀ v ∈ (h.cell r).children, h.Live v :=
  ⟨fun closed r _ => closed r, fun closed r v held => closed r (lt_size_of_mem_children held) v held⟩

instance (h : Heap) : Decidable h.Closed :=
  decidable_of_iff _ closed_iff.symm

/-! ## Reaching -/

/-- The values that the roots lead to. -/
inductive Reach (h : Heap) (roots : Set Value) : Value → Prop where
  | root {v : Value} (rooted : v ∈ roots) : Reach h roots v
  | child {r : Ref} {v : Value} (reached : Reach h roots (.container r))
      (held : v ∈ (h.cell r).children) : Reach h roots v

namespace Reach

variable {h g : Heap} {roots others : Set Value} {v : Value}

/-- The closure principle: what has the roots and the children of its containers has everything
that is reached. -/
theorem within {P : Value → Prop} (rooted : ∀ v ∈ roots, P v)
    (closed : ∀ r, P (.container r) → ∀ v ∈ (h.cell r).children, P v)
    (reached : h.Reach roots v) : P v := by
  induction reached with
  | root here => exact rooted _ here
  | child _ held ih => exact closed _ ih _ held

/-- More is reached from roots that reach the old ones. -/
theorem trans (rooted : ∀ v ∈ roots, h.Reach others v) (reached : h.Reach roots v) :
    h.Reach others v :=
  reached.within rooted fun _ before _ held => .child before held

/-- What some roots lead to, one of them does. -/
theorem exists_root (reached : h.Reach roots v) : ∃ u ∈ roots, h.Reach {u} v := by
  refine reached.within (P := fun v => ∃ u ∈ roots, h.Reach {u} v) ?_ ?_
  · intro v rooted
    exact ⟨v, rooted, .root rfl⟩
  · rintro r ⟨u, rooted, above⟩ v held
    exact ⟨u, rooted, above.child held⟩

/-- What a child leads to, its container leads to. -/
theorem of_child {r : Ref} {w : Value} (held : w ∈ (h.cell r).children) (reached : h.Reach {w} v) :
    h.Reach {.container r} v := by
  refine reached.trans fun u here => ?_
  obtain rfl : u = w := here
  exact .child (.root rfl) held

/-- A container leads to itself, and to what its children lead to. -/
theorem eq_or_below {r : Ref} (reached : h.Reach {.container r} v) :
    v = .container r ∨ ∃ w ∈ (h.cell r).children, h.Reach {w} v := by
  refine reached.within (P := fun v => v = .container r ∨ ∃ w ∈ (h.cell r).children, h.Reach {w} v)
    (fun v here => Or.inl here) fun s before v held => Or.inr ?_
  rcases before with same | ⟨w, inside, deeper⟩
  · obtain rfl := Value.container.inj same
    exact ⟨v, held, .root rfl⟩
  · exact ⟨w, inside, .child deeper held⟩

/-- What is no container leads to nothing else. -/
theorem eq_of_leaf {w : Value} (reached : h.Reach {v} w) (leaf : v.isContainer = false) : w = v := by
  refine reached.within (P := fun w => w = v) (fun w here => here) fun r same _ _ => ?_
  rw [← same] at leaf
  cases leaf

/-- From live roots only live values are reached. -/
theorem live (closed : h.Closed) (rooted : ∀ v ∈ roots, h.Live v) (reached : h.Reach roots v) :
    h.Live v :=
  reached.within rooted fun r _ => closed r

/-- A live value leads to live values only. -/
theorem live_of_value {w : Value} (closed : h.Closed) (live : h.Live v) (reached : h.Reach {v} w) :
    h.Live w := by
  refine reached.live closed ?_
  rintro _ rfl
  exact live

end Reach

end Heap

/-- No slot dangles. -/
def Context.Live (ctx : Context) (h : Heap) : Prop :=
  ∀ name v, ctx.binding? name = some v → h.Live v

/-- Only the six names are bound. -/
theorem Context.mem_bindingNames {ctx : Context} {name : String} {v : Value}
    (bound : ctx.binding? name = some v) : name ∈ bindingNames := by
  unfold binding? at bound
  split at bound <;> first | decide | cases bound

theorem Context.live_iff {ctx : Context} {h : Heap} :
    ctx.Live h ↔ ∀ name ∈ bindingNames, ∀ v ∈ ctx.binding? name, h.Live v := by
  constructor
  · intro live name _ v bound
    exact live name v bound
  · intro live name v bound
    exact live name (mem_bindingNames bound) v bound

instance (ctx : Context) (h : Heap) : Decidable (ctx.Live h) :=
  decidable_of_iff _ Context.live_iff.symm

/-- The values of the bindings with these names. -/
def Context.valuesOf (ctx : Context) (names : List String) : Set Value :=
  {v | ∃ name ∈ names, ctx.binding? name = some v}

theorem Context.Live.valuesOf {ctx : Context} {h : Heap} (live : ctx.Live h) (names : List String) :
    ∀ v ∈ ctx.valuesOf names, h.Live v := by
  rintro v ⟨name, _, bound⟩
  exact live name v bound

theorem Context.Live.mono {ctx : Context} {h g : Heap} (live : ctx.Live h)
    (grown : h.size ≤ g.size) : ctx.Live g :=
  fun name v bound => (live name v bound).mono grown

end FormLogic
