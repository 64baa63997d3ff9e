import FormLogic.Proofs.Heap.Property
import FormLogic.Proofs.Number.Numeral

/-!
# `FormLogic.Proofs.Heap.Index` — the texts that name positions

A text names a position if it is read as a number, written again as it was, and the number is a
position. Reading accepts many spellings of a number, and writing gives one of them; for the
positions this is the numeral, so the numerals of the positions are what is left.

## Contents
- `index?_ofNat`, `index?_toString`: positions as numbers and as numerals.
- `index?_canonical`: the texts that name positions.
-/

namespace FormLogic.Heap

variable {i : Nat}

theorem index?_ofNat (bounded : i < indexBound) : index? (.ofNat i) = some i := by
  show indexOfNumber? (Float.ofNat i) = some i
  unfold indexOfNumber?
  rw [Number.integer?_ofNat (bounded.trans (by decide))]
  exact if_pos bounded

/-- The numeral of a position is read as the position and written as it was. -/
theorem index?_toString (bounded : i < indexBound) : index? (.string (toString i)) = some i := by
  have read := Number.readDecimal?_toString (bounded.trans (by decide : indexBound < Number.twoTo 53))
  have written := Number.formatNumber_ofNat (bounded.trans (by decide : indexBound < Number.tenTo 15))
  unfold index?
  dsimp only
  rw [read]
  dsimp only
  rw [if_pos written]
  exact index?_ofNat bounded

theorem lt_of_index? {k : String} (named : index? (.string k) = some i) : i < indexBound := by
  unfold index? at named
  dsimp only at named
  split at named
  · split at named
    · exact (indexOfNumber?_eq_some named).2
    · cases named
  · cases named

/-- **The texts that name positions are the numerals of numbers below the bound**, and no two texts
name the same position. -/
theorem index?_canonical (s : String) (n : Nat) :
    (index? (.string s) = some n ↔ Number.Canonical s n ∧ n < 4294967295) ∧
      ∀ t, t ≠ s → index? (.string s) = some n → index? (.string t) ≠ some n := by
  constructor
  · rw [Number.canonical_iff]
    constructor
    · intro named
      exact ⟨eq_toString_of_index? named, lt_of_index? named⟩
    · rintro ⟨rfl, bounded⟩
      exact index?_toString bounded
  · intro t other named named'
    exact other (index?_injective named' named)

end FormLogic.Heap
