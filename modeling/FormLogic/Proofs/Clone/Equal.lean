import FormLogic.Proofs.Clone.Unseen
import FormLogic.Proofs.Heap.Similar

/-!
# `FormLogic.Proofs.Clone.Equal` — the laws of deep equality

Among the values of one heap that lead neither to themselves nor to NaN, deep equality is an
equivalence. It sees no references and no order of keys, so it also holds between a value without
reserved keys and its deep copy, which unfolds to the same tree.

## Contents
- `EqualityLaws`, `equality_laws`: the laws, of every heap in which no reference dangles.
-/

namespace FormLogic.Heap

/-- What holds of deep equality in a heap. -/
structure EqualityLaws (h : Heap) : Prop where
  /-- Comparable values are equal if they are identical, or are containers with the same places that
  hold equal values at each, and not otherwise. -/
  similar : ∀ v w, h.Comparable v → (h.equal v w = true ↔ h.Similar v w)
  /-- Equality of comparable values is reflexive, symmetric and transitive. -/
  equivalence : Equivalence fun v w : {v // h.Comparable v} => h.equal v w = true
  /-- Two containers are equal if they have the same entries in different orders. -/
  reordered : ∀ r s, h.Comparable (.container r) → (h.cell r).Reordered (h.cell s) →
    h.equal (.container r) (.container s) = true
  /-- Reordering the entries of any containers makes no difference to any two values. -/
  unordered : ∀ k, h.Reordered k → ∀ v w, k.equal v w = h.equal v w
  /-- A comparable value without reserved keys is equal to its deep copy. -/
  copied : ∀ options v copy g, h.Comparable v → h.FreeOfReserved v →
    Clone.deep options v h = (.ok copy, g) → g.equal v copy = true ∧ g.equal copy v = true

/-- **Deep equality is an equivalence**, whatever the order of keys, and relates a value to its deep
copies. -/
theorem equality_laws {h : Heap} (closed : h.Closed) : h.EqualityLaws where
  similar _ _ comparable := comparable.equal_iff closed
  equivalence := by
    refine ⟨fun v => ?_, fun {v w} equal => ?_, fun {u v w} first second => ?_⟩
    · exact (v.2.equal_iff closed).mpr v.2.similar_self
    · exact (w.2.equal_iff closed).mpr ((v.2.equal_iff closed).mp equal).symm
    · rw [v.2.equal_iff closed] at second
      rw [u.2.equal_iff closed] at first ⊢
      exact first.trans second
  reordered _ _ comparable same := (comparable.equal_iff closed).mpr (comparable.similar_reordered same)
  unordered _ same := same.equal_eq
  copied options v copy g comparable unreserved ends := by
    have live := comparable.live
    have extended := Clone.deep_extends_of_ok ends
    have closed' := Clone.deep_closed closed live ends
    have still : h.Alike g v v := (Clone.Unseen.of_extends closed extended).alike v live
    have alike : h.Alike g v copy := Clone.deep_alike closed live unreserved ends
    have live' : g.Live copy := fun r same => ((Clone.deep_new closed live ends).1 r same).2
    have original := comparable.of_alike closed still (live.mono extended.grown)
    have made := comparable.of_alike closed alike live'
    exact ⟨original.equal_of_alike closed' (still.symm.trans alike),
      made.equal_of_alike closed' (alike.symm.trans still)⟩

/-- Two mappings that hold one sequence, under keys in different orders, and a third one with a sequence
of its own, in which the zero has the other sign. -/
theorem equality_laws_unsorted :
    let h : Heap := ⟨#[
      .mapping (.ofList [("rows", .container 2), ("on", .bool true)]),
      .mapping (.ofList [("on", .bool true), ("rows", .container 2)]),
      .sequence #[.number 0, .null],
      .mapping (.ofList [("on", .bool true), ("rows", .container 4)]),
      .sequence #[.number (-0), .null]]⟩
    let g : Heap := ⟨h.cells ++ #[
      .mapping (.ofList [("rows", .container 6), ("on", .bool true)]),
      .sequence #[.number 0, .null]]⟩
    h.Closed ∧ (∀ r < 5, h.Comparable (.container r)) ∧ (h.cell 0).Reordered (h.cell 1) ∧
      h.equal (.container 0) (.container 1) = true ∧ h.equal (.container 1) (.container 3) = true ∧
      h.FreeOfReserved (.container 0) ∧
      Clone.deep {} (.container 0) h = (.ok (.container 5), g) ∧
      g.equal (.container 0) (.container 5) = true ∧ g.equal (.container 5) (.container 0) = true := by
  intro h g
  have closed : h.Closed := by decide
  have laws := equality_laws closed
  have comparable : ∀ r < 5, h.Comparable (.container r) := by
    intro r inside
    have nests : ∀ r < 5, h.NestsWithin 2 (.container r) := by decide
    exact ⟨live_container.mpr inside, (nests r inside).acyclic, .of_cells rfl (by decide)⟩
  have reordered : (h.cell 0).Reordered (h.cell 1) := .mapping (.swap _ _ [])
  have first : h.equal (.container 0) (.container 1) = true :=
    laws.reordered 0 1 (comparable 0 (by decide)) reordered
  have second : h.equal (.container 1) (.container 3) = true := by
    have zeros : h.equal (.container 0) (.container 3) = true := by decide
    have swapped := laws.equivalence.symm (x := ⟨_, comparable 0 (by decide)⟩)
      (y := ⟨_, comparable 1 (by decide)⟩) first
    exact laws.equivalence.trans (z := ⟨_, comparable 3 (by decide)⟩) swapped zeros
  have unreserved : h.FreeOfReserved (.container 0) := by
    rintro (_ | _ | _ | _ | _ | r) fields - cell <;> cases cell <;> decide
  have ends : Clone.deep {} (.container 0) h = (.ok (.container 5), g) := by rfl
  exact ⟨closed, comparable, reordered, first, second, unreserved, ends,
    laws.copied {} _ _ g (comparable 0 (by decide)) unreserved ends⟩

end FormLogic.Heap
