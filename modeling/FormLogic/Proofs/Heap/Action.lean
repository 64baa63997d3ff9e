import FormLogic.Heap.Action

/-!
# `FormLogic.Proofs.Heap.Action` — what actions leave behind

An action that fails leaves a heap as well, so what an action keeps is said of both ways in which it
can end. Actions that only make containers, and fill the ones they have made, extend the heap: every
container that was there stays as it is.

## Contents
- `bind_apply`, `bind_eq_ok_iff`, `bind_ends`: one action after the other; `of_ends`: what one leaves.
- `heap_bind`, `Action.onHeap_apply`, `Action.withErrors_apply`: actions with a state of the host.
- `Heap.Extends`: heaps that keep all containers of another.
-/

namespace FormLogic

/-! ## One action after the other -/

section

variable {σ ε α β : Type} {p : ExceptT ε (StateM σ) α} {f : α → ExceptT ε (StateM σ) β}

theorem bind_apply (p : ExceptT ε (StateM σ) α) (f : α → ExceptT ε (StateM σ) β) (s : σ) :
    (p >>= f) s = match p s with
      | (.ok a, s) => f a s
      | (.error e, s) => (.error e, s) := by
  show (match p s with | (x, s) => ExceptT.bindCont f x s) = _
  rcases p s with ⟨_ | _, _⟩ <;> rfl

/-- Two actions succeed one after the other if both do. -/
theorem bind_eq_ok_iff {s t : σ} {b : β} :
    (p >>= f) s = (.ok b, t) ↔ ∃ a u, p s = (.ok a, u) ∧ f a u = (.ok b, t) := by
  rw [bind_apply]
  constructor
  · intro ends
    generalize p s = x at ends
    obtain ⟨_ | a, u⟩ := x
    · cases ends
    · exact ⟨a, u, rfl, ends⟩
  · rintro ⟨a, u, first, second⟩
    rw [first]
    exact second

/-- What relates each state to the one it becomes relates the ends of two actions, however they
end. -/
theorem bind_ends {R : σ → σ → Prop} (trans : ∀ {s t u}, R s t → R t u → R s u) {s : σ}
    (first : R s (p s).2) (second : ∀ a t, p s = (.ok a, t) → R t (f a t).2) :
    R s ((p >>= f) s).2 := by
  rw [bind_apply]
  generalize p s = x at first second
  obtain ⟨_ | a, t⟩ := x
  · exact first
  · exact trans first (second a t rfl)

/-- What holds of the state that an action leaves holds of the one in which it is known to end. -/
theorem of_ends {R : σ → Prop} {s t : σ} {x : Except ε α} (left : R (p s).2)
    (ends : p s = (x, t)) : R t := by
  rw [ends] at left
  exact left

end

/-! ## Actions with a state of the host -/

/-- An action that reads the heap goes on with it. -/
theorem heap_bind {σ ε α : Type} (f : Heap → Action σ ε α) (w : World σ) :
    (Action.heap >>= f) w = f w.heap w :=
  rfl

namespace Action

variable {σ ε δ α : Type}

/-- An action on the heap leaves the state of the host as it is. -/
theorem onHeap_apply (wrap : δ → ε) (action : HeapM δ α) (h : Heap) (host : σ) :
    onHeap wrap action ⟨h, host⟩ = ((action h).1.mapError wrap, ⟨(action h).2, host⟩) := by
  unfold onHeap
  dsimp only
  rcases action h with ⟨_ | _, _⟩ <;> rfl

theorem withErrors_apply (wrap : δ → ε) (action : Action σ δ α) (w : World σ) :
    withErrors wrap action w = ((action w).1.mapError wrap, (action w).2) := by
  unfold withErrors
  rcases action w with ⟨_ | _, _⟩ <;> rfl

end Action

/-! ## Heaps that keep all containers -/

namespace Heap

/-- All containers of `h` are in `g` as they were. -/
structure Extends (h g : Heap) : Prop where
  grown : h.size ≤ g.size
  cells : ∀ {r}, r < h.size → g.cell r = h.cell r

namespace Extends

variable {h g k : Heap}

theorem refl (h : Heap) : h.Extends h :=
  ⟨Nat.le_refl _, fun _ => rfl⟩

theorem trans (first : h.Extends g) (second : g.Extends k) : h.Extends k where
  grown := Nat.le_trans first.grown second.grown
  cells old := by
    rw [second.cells (Nat.lt_of_lt_of_le old first.grown), first.cells old]

/-- A new container leaves the others as they are. -/
theorem alloc (h : Heap) (c : Cell) : h.Extends (h.alloc c).2 where
  grown := by
    rw [size_alloc]
    exact Nat.le_succ _
  cells old := by
    rw [cell_alloc, if_neg (Nat.ne_of_lt old)]

/-- A container that `h` does not have can be changed. -/
theorem update (extended : h.Extends g) {r : Ref} (new : h.size ≤ r) (f : Cell → Cell) :
    h.Extends (g.update r f) where
  grown := by
    rw [size_update]
    exact extended.grown
  cells {s} old := by
    have other : s ≠ r := Nat.ne_of_lt (Nat.lt_of_lt_of_le old new)
    rw [cell_update, if_neg fun same => other same.1, extended.cells old]

end Extends

end Heap

end FormLogic
