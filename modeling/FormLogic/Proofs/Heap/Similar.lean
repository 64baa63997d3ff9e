import FormLogic.Proofs.Heap.Equality

/-!
# `FormLogic.Proofs.Heap.Similar` — deep equality is an equivalence

Deep equality is computed under a bound on the depth, and looks at the first value to find the places
that it compares. *Similar* values are described without either: they are identical, or containers
that have the same places and similar values at each. This relation is symmetric and transitive by
itself, and it does not know the order of keys. In a graph that does not contain itself the bound is
never reached, so there the two agree; and a value that is not NaN is identical to itself, which makes
deep equality an equivalence.

## Contents
- `Similar`, `Similar.symm`, `Similar.trans`: similar values.
- `similar_of_equalWithin`, `equalWithin_of_similar`: similarity and equality under a bound.
- `Comparable`, `Comparable.equal_iff`: the values of which equality needs no bound.
- `Cell.Reordered`, `Reordered`: containers and heaps that differ in the order of keys;
  `Reordered.equal_eq`: equality does not see it.
-/

namespace FormLogic

/-! ## Similar values -/

namespace Heap

variable {h k : Heap} {u v w : Value} {r s : Ref} {depth : Nat}

/-- The values are identical, or containers that have the same places and similar values there. -/
inductive Similar (h : Heap) : Value → Value → Prop where
  | identical {v w : Value} (same : v.same w = true) : Similar h v w
  | containers {r s : Ref} (places : (h.cell r).SamePlaces (h.cell s))
      (held : ∀ place x y, (h.cell r).at? place = some x → (h.cell s).at? place = some y →
        Similar h x y) : Similar h (.container r) (.container s)

namespace Similar

theorem symm (similar : h.Similar v w) : h.Similar w v := by
  induction similar with
  | @identical v w same => exact .identical (v.same_comm w ▸ same)
  | containers places _ ih =>
    exact .containers places.symm fun place x y there here => ih place y x here there

theorem trans (first : h.Similar u v) (second : h.Similar v w) : h.Similar u w := by
  induction first generalizing w with
  | @identical u v same =>
    cases second with
    | identical same' => exact .identical (Value.same_trans same same')
    | containers places held =>
      rw [Value.same_comm] at same
      obtain rfl := Value.eq_of_same_container same
      exact .containers places held
  | @containers r s places held ih =>
    cases second with
    | identical same =>
      obtain rfl := Value.eq_of_same_container same
      exact .containers places held
    | @containers _ t places' held' =>
      refine .containers (places.trans places') fun place x z here there => ?_
      obtain ⟨y, between⟩ := places.exists_at? here
      exact ih place x y here between (held' place y z between there)

end Similar

/-- Unless two values are both containers, only identical ones are equal. -/
theorem equalWithin_scalar (scalar : ∀ r s, ¬ (v = .container r ∧ w = .container s)) :
    h.equalWithin (depth + 1) v w = v.same w := by
  cases v with
  | container r =>
    cases w with
    | container s => exact absurd ⟨rfl, rfl⟩ (scalar r s)
    | _ => rfl
  | _ => cases w <;> rfl

/-- Values that are equal under some bound are similar. -/
theorem similar_of_equalWithin (equal : h.equalWithin depth v w = true) : h.Similar v w := by
  induction depth generalizing v w with
  | zero => cases equal
  | succ depth ih =>
    by_cases containers : ∃ r s, v = .container r ∧ w = .container s
    · obtain ⟨r, s, rfl, rfl⟩ := containers
      rcases equalWithin_container_iff.mp equal with rfl | ⟨places, below⟩
      · exact .identical (beq_self_eq_true r)
      · exact .containers places fun place x y here there => ih (below place x y here there)
    · rw [equalWithin_scalar fun r s both => containers ⟨r, s, both⟩] at equal
      exact .identical equal

/-- Similar values are equal, if the first one ends before the bound. -/
theorem equalWithin_of_similar (similar : h.Similar v w) (nests : h.NestsWithin depth v) :
    h.equalWithin (depth + 1) v w = true := by
  induction depth generalizing v w with
  | zero =>
    cases similar with
    | identical same =>
      rwa [equalWithin_scalar fun r s both => ?_]
      rw [both.1] at nests
      cases nests
    | containers => cases nests
  | succ depth ih =>
    cases similar with
    | identical same =>
      rcases v.leaf_or_container with leaf | ⟨r, rfl⟩
      · rwa [equalWithin_scalar fun r s both => ?_]
        rw [both.1] at leaf
        cases leaf
      · obtain rfl := Value.eq_of_same_container same
        exact equalWithin_container_iff.mpr (.inl rfl)
    | @containers r s places held =>
      refine equalWithin_container_iff.mpr (.inr ⟨places, fun place x y here there => ?_⟩)
      exact ih (held place x y here there) (nests r rfl x (Cell.mem_children_of_at? here))

/-! ## Comparable values -/

/-- The value leads neither to itself nor to NaN. -/
structure Comparable (h : Heap) (v : Value) : Prop where
  live : h.Live v
  acyclic : h.Acyclic v
  free : h.FreeOfNaN v

namespace Comparable

/-- **Deep equality needs no bound.** Comparable values are equal if and only if they are similar. -/
theorem equal_iff (comparable : h.Comparable v) (closed : h.Closed) :
    h.equal v w = true ↔ h.Similar v w := by
  refine ⟨similar_of_equalWithin, fun similar => equalWithin_of_similar similar ?_⟩
  exact (comparable.acyclic.nestsWithin closed comparable.live).mono (Nat.le_mul_self _)

theorem similar_self (comparable : h.Comparable v) : h.Similar v v :=
  .identical (Value.same_self (comparable.free v (.root rfl)))

theorem of_alike (comparable : h.Comparable v) (closed : h.Closed) (alike : h.Alike k v w)
    (live : k.Live w) : k.Comparable w where
  live := live
  acyclic := ((comparable.acyclic.nestsWithin closed comparable.live).of_alike alike).acyclic
  free := comparable.free.of_alike alike

/-- Comparable values that unfold alike are equal. -/
theorem equal_of_alike (comparable : h.Comparable v) (closed : h.Closed) (alike : h.Alike h v w) :
    h.equal v w = true := by
  have nests := comparable.acyclic.nestsWithin closed comparable.live
  exact equalWithin_of_alike alike (nests.mono (Nat.le_mul_self _)) comparable.free

end Comparable

end Heap

/-! ## The order of keys -/

/-- The containers hold the same values at the same places, which for mappings can stand in different
orders. -/
inductive Cell.Reordered : Cell → Cell → Prop where
  | mapping {a b : Fields Value} (entries : a.entries.Perm b.entries) :
      Reordered (.mapping a) (.mapping b)
  | sequence (items : Array Value) : Reordered (.sequence items) (.sequence items)

namespace Cell.Reordered

variable {c d : Cell}

theorem samePlaces (same : c.Reordered d) : c.SamePlaces d := by
  cases same with
  | mapping entries => exact .mapping (entries.map Prod.fst)
  | sequence items => exact .sequence rfl

/-- The order does not matter to what stands at a place. -/
theorem at?_eq (same : c.Reordered d) (place : Place) : d.at? place = c.at? place := by
  cases same with
  | @mapping a b entries =>
    cases place with
    | key key =>
      have held : ∀ (fields : Fields Value) v, fields.get? key = some v ↔ (key, v) ∈ fields.entries :=
        fun _ _ => ⟨mem_of_valueAt?, at?_mapping_of_mem⟩
      show b.get? key = a.get? key
      refine Option.ext fun v => ?_
      rw [held, held, entries.mem_iff]
    | index i => rfl
  | sequence items => rfl

end Cell.Reordered

namespace Heap

variable {h k : Heap} {r s : Ref}

/-- A container whose keys stand in another order is similar. -/
theorem Comparable.similar_reordered (comparable : h.Comparable (.container r))
    (same : (h.cell r).Reordered (h.cell s)) : h.Similar (.container r) (.container s) := by
  refine .containers same.samePlaces fun place x y here there => ?_
  rw [same.at?_eq, here] at there
  obtain rfl := Option.some.inj there
  have reached : h.Reach {.container r} x := .child (.root rfl) (Cell.mem_children_of_at? here)
  exact .identical (Value.same_self (comparable.free x reached))

/-- The heaps have the same containers, but for the order of keys. -/
structure Reordered (h k : Heap) : Prop where
  size : k.size = h.size
  cells : ∀ r, (h.cell r).Reordered (k.cell r)

/-- In whatever order the keys stand, the same values are equal. -/
theorem Reordered.equal_eq (same : h.Reordered k) (v w : Value) : k.equal v w = h.equal v w := by
  have within : ∀ depth v w, k.equalWithin depth v w = h.equalWithin depth v w := by
    intro depth
    induction depth with
    | zero => exact fun _ _ => rfl
    | succ depth ih =>
      intro v w
      by_cases containers : ∃ r s, v = .container r ∧ w = .container s
      · obtain ⟨r, s, rfl, rfl⟩ := containers
        have left := same.cells r
        have right := same.cells s
        have places : (k.cell r).SamePlaces (k.cell s) ↔ (h.cell r).SamePlaces (h.cell s) :=
          ⟨fun both => (left.samePlaces.trans both).trans right.samePlaces.symm,
            fun both => (left.samePlaces.symm.trans both).trans right.samePlaces⟩
        rw [Bool.eq_iff_iff, equalWithin_container_iff, equalWithin_container_iff, places]
        simp only [left.at?_eq, right.at?_eq, ih]
      · have scalar := fun r s both => containers ⟨r, s, both⟩
        rw [equalWithin_scalar scalar, equalWithin_scalar scalar]
  unfold equal
  rw [same.size, within]

end Heap

end FormLogic
