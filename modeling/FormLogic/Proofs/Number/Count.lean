import FormLogic.Proofs.Number.Integer

/-!
# `FormLogic.Proofs.Number.Count` — counts as doubles

The double of a count is the count itself below `2 ^ 53` and rounded above, and infinite where it is
too large for any double. However large the count is, rounding gives it no sign, and it does not
become zero: a mantissa of more than 53 bits is moved down until it has 53, and rounding makes it no
smaller. So a count can be told from zero and from the numbers below it by its double.

## Contents
- `mantissa_shiftRight`, `shift_large`, `leading_bounds`: moving a mantissa down to 53 bits.
- `round_large`, `unpack_pack_large`: what becomes of a mantissa with 53 bits or more.
- `Counted`, `counted_ofNat`: the doubles of counts; `beq_ofNat_zero`, `beq_ofNat_minus_one`: they are
  not negative, and zero for zero only.
-/

namespace FormLogic.Number

open Float.Model
open Float.Model.UnpackedFloat (Sign ExtendedMantissa packedInfinity roundWithAccuracy
  shiftToTargetExponent)

/-! ## Rounding a large mantissa -/

theorem mantissa_shiftRight (em : ExtendedMantissa) (k : Nat) :
    (em >>> k).mantissa = em.mantissa / 2 ^ k := by
  induction k with
  | zero =>
    rw [Nat.pow_zero, Nat.div_one]
    rfl
  | succ k ih =>
    rw [Nat.pow_succ, ← Nat.div_div_eq_div_mul, ← ih]
    rfl

theorem le_roundedMantissa (em : ExtendedMantissa) : em.mantissa ≤ em.roundedMantissa := by
  obtain ⟨m, roundBit, stickyBit⟩ := em
  cases roundBit <;> cases stickyBit <;>
    simp [ExtendedMantissa.roundedMantissa, ExtendedMantissa.accuracy,
      UnpackedFloat.Accuracy.roundToNearestEven]

section

variable {m : Nat} {e : Int}

/-- Moved down as far as this, a mantissa has 53 bits. -/
theorem leading_bounds (bits : 52 ≤ m.log2) :
    2 ^ 52 ≤ m / 2 ^ (m.log2 - 52) ∧ m / 2 ^ (m.log2 - 52) < 2 ^ 53 := by
  have nonzero : m ≠ 0 := by
    rintro rfl
    exact absurd bits (by decide)
  obtain ⟨least, less⟩ := (Nat.log2_eq_iff nonzero).mp rfl
  have sum : 2 ^ 52 * 2 ^ (m.log2 - 52) = 2 ^ m.log2 := by
    rw [← Nat.pow_add, Nat.add_sub_cancel' bits]
  constructor
  · rwa [Nat.le_div_iff_mul_le (Nat.two_pow_pos _), sum]
  · rwa [Nat.div_lt_iff_lt_mul (Nat.two_pow_pos _), Nat.pow_succ', Nat.mul_assoc, sum,
      ← Nat.pow_succ']

/-- A mantissa of at least 53 bits is moved down to 53 bits. -/
theorem shift_large (bits : 52 ≤ m.log2) (low : leastExponent ≤ e) :
    (shiftToTargetExponent .binary64 m e .exact).1.mantissa = m / 2 ^ (m.log2 - 52) ∧
      e ≤ (shiftToTargetExponent .binary64 m e .exact).2 := by
  have least : leastExponent = -1074 := rfl
  have target : Format.binary64.targetExponent (totalExponent m e) = e + (m.log2 - 52 : Nat) := by
    unfold Format.targetExponent totalExponent
    show max ((m.log2 : Int) + 1 + e - 53) (-1074) = _
    omega
  unfold shiftToTargetExponent UnpackedFloat.shiftToExponent
  rw [target]
  dsimp only
  rw [mantissa_shiftRight, Int.add_comm e, Int.add_sub_cancel, Int.toNat_natCast]
  exact ⟨rfl, by omega⟩

/-- Rounding leaves a mantissa of at least 53 bits with 53 bits, and keeps its sign. -/
theorem round_large (s : Sign) (bits : 52 ≤ m.log2) (low : leastExponent ≤ e) :
    ∃ m' e' pos, roundWithAccuracy .binary64 s m e .exact = .finite s m' e' pos ∧
      m'.log2 = 52 ∧ leastExponent ≤ e' := by
  obtain ⟨leading, further⟩ := shift_large bits low
  unfold roundWithAccuracy
  dsimp only
  generalize shiftToTargetExponent .binary64 m e .exact = moved at leading further ⊢
  obtain ⟨em, e₁⟩ := moved
  -- rounding up can add a bit, so the mantissa is moved down once more
  have least : 2 ^ 52 ≤ em.roundedMantissa :=
    (leading ▸ (leading_bounds bits).1).trans (le_roundedMantissa em)
  have bits' : 52 ≤ em.roundedMantissa.log2 := (Nat.le_log2 (by omega)).mpr least
  obtain ⟨leading', further'⟩ := shift_large bits' (Int.le_trans low further)
  generalize shiftToTargetExponent .binary64 em.roundedMantissa e₁ .exact = settled
    at leading' further' ⊢
  have full : 2 ^ 52 ≤ settled.1.mantissa ∧ settled.1.mantissa < 2 ^ 53 :=
    leading' ▸ leading_bounds bits'
  have nonzero : settled.1.mantissa ≠ 0 := by omega
  exact ⟨_, _, Nat.pos_of_ne_zero nonzero, dif_neg nonzero,
    (Nat.log2_eq_iff nonzero).mpr full, by omega⟩

/-- A mantissa of 53 bits passes through packing, or becomes infinite. -/
theorem unpack_pack_large (s : Sign) (pos : 0 < m) (bits : m.log2 = 52) (low : leastExponent ≤ e) :
    (pack (.finite s m e pos)).unpack = .finite s m e pos ∨
      (pack (.finite s m e pos)).unpack = .infinity s := by
  by_cases high : e ≤ 971
  · exact .inl (Full.unpack_pack ⟨bits, low, high⟩ s)
  · right
    have outside : 2 ^ 11 ≤ (e + 1023 + 52).toNat + 1 := by omega
    have packed : UnpackedFloat.pack .binary64 (.finite s m e pos) = packedInfinity .binary64 s := by
      unfold UnpackedFloat.pack
      exact if_pos outside
    show UnpackedFloat.unpack .binary64 (UnpackedFloat.pack .binary64 _) = _
    rw [packed]
    cases s <;> rfl

end

/-! ## The doubles of counts -/

/-- The double has no sign and is not zero. -/
inductive Counted : UnpackedFloat → Prop where
  | finite {m : Nat} {e : Int} {pos : 0 < m} : Counted (.finite .positive m e pos)
  | infinity : Counted (.infinity .positive)

namespace Counted

variable {x : UnpackedFloat}

theorem beq_zero (counted : Counted x) (s : Sign) : x.beq (.zero s) = false := by
  cases counted <;> rfl

theorem beq_negative (counted : Counted x) {m : Nat} {e : Int} (pos : 0 < m) :
    x.beq (.finite .negative m e pos) = false := by
  cases counted <;> rfl

end Counted

theorem counted_ofNat {n : Nat} (pos : 0 < n) : Counted (Float.ofNat n).toModel.unpack := by
  by_cases small : n < twoTo 53
  · rw [unpack_ofNat pos small]
    exact .finite
  · have large : 2 ^ 53 ≤ n := Nat.le_of_not_lt small
    have bits : 52 ≤ (n * 2 ^ 53).log2 := by
      rw [log2_mul_two_pow pos.ne']
      omega
    obtain ⟨m, e, positive, rounded, full, low⟩ :=
      round_large .positive bits (by decide : leastExponent ≤ -53)
    rw [ofNat_of_large small, rounded]
    obtain same | same := unpack_pack_large .positive positive full low
    · rw [same]
      exact .finite
    · rw [same]
      exact .infinity

theorem beq_ofNat_zero (n : Nat) : (Float.ofNat n == 0) = (n == 0) := by
  rcases Nat.eq_zero_or_pos n with rfl | pos
  · rfl
  · rw [beq_false_of_ne pos.ne']
    exact (counted_ofNat pos).beq_zero .positive

theorem beq_ofNat_minus_one (n : Nat) : (Float.ofNat n == -1) = false := by
  have one : (-1 : Float).toModel.unpack = .finite .negative (2 ^ 52) (-52) (by decide) := rfl
  rcases Nat.eq_zero_or_pos n with rfl | pos
  · rfl
  · show (Float.ofNat n).toModel.unpack.beq (-1 : Float).toModel.unpack = false
    rw [one]
    exact (counted_ofNat pos).beq_negative _

end FormLogic.Number
