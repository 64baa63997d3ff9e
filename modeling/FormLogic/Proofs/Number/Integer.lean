import FormLogic.Json
import Mathlib

/-!
# `FormLogic.Proofs.Number.Integer` — integers as doubles

Every integer below `2 ^ 53` in absolute value is a double, and apart from the two zeros it is one
double only. Arithmetic on doubles takes them apart into a sign, a mantissa and an exponent, which
is what `read` finds in the bits. A double of 53 bits passes through packing and rounding as it is,
also when its mantissa has been moved up meanwhile. An integer is such a double once its magnitude
has been moved up far enough.

The library's lemmas on the parts of a double and on their comparison are Batteries', which no single
file of Mathlib leads to. So this module imports all of it, and what else needs them imports this module.

## Contents
- `read_eq`, `read_injective`: reading a double off its bits is taking it apart.
- `beq_self_of_not_isNaN`, `beq_self_of_isFinite`: doubles that are equal to themselves.
- `Full`: mantissas of 53 bits; `Full.unpack_pack`, `Full.round_scaled`: they stay as they are.
- `read_ofInt`: the double of an integer; `integer?_ofInt`: which integer it is.
- `eq_ofInt`, `beq_ofInt`, `beq_ofNat`: a double that is an integer is the double of this integer.
- `Json.ofFloat_ofInt`, `Json.beq_of_ofFloat_eq`: the trees of doubles.
-/

namespace FormLogic.Number

open Float.Model
open Float.Model.UnpackedFloat (Sign ExtendedMantissa unpackMantissa unpackExponent unpackSign
  unpackMantissa_def unpackExponent_def unpackSign_def packComponents roundWithAccuracy
  shiftToTargetExponent)

/-! ## Reading and taking apart -/

/-- Whether the sign is a minus. -/
def isMinus : Sign → Bool
  | .positive => false
  | .negative => true

/-- What a double says that has been taken apart. -/
def Reading.ofUnpacked : UnpackedFloat → Reading
  | .notANumber => .nan
  | .infinity sign => .infinite (isMinus sign)
  | .zero sign => .finite (isMinus sign) 0 leastExponent
  | .finite sign mantissa exponent _ => .finite (isMinus sign) mantissa exponent

section

variable (b : BitVec Format.binary64.numBits)

theorem toNat_unpackMantissa : (unpackMantissa b).toNat = b.toNat % twoTo 52 := by
  rw [unpackMantissa_def, BitVec.extractLsb'_toNat]
  rfl

theorem toNat_unpackExponent : (unpackExponent b).toNat = b.toNat / twoTo 52 % twoTo 11 := by
  rw [unpackExponent_def, BitVec.extractLsb'_toNat, Nat.shiftRight_eq_div_pow]
  rfl

theorem isMinus_unpackSign : isMinus (.ofBitVec (unpackSign b)) = decide (twoTo 63 ≤ b.toNat) := by
  have bound : b.toNat < 2 ^ 64 := b.isLt
  have bit : (unpackSign b).toNat = b.toNat / 2 ^ 63 % 2 := by
    rw [unpackSign_def, BitVec.extractLsb'_toNat, Nat.shiftRight_eq_div_pow]
    rfl
  have all : ∀ s : BitVec 1, isMinus (.ofBitVec s) = decide (s.toNat = 1) := by decide
  rw [all, bit, decide_eq_decide]
  show _ ↔ 2 ^ 63 ≤ b.toNat
  omega

end

/-- The leading bit, which is not stored, stands in front of the fraction. -/
theorem toNat_leading_append (fraction : BitVec 52) :
    (1#1 ++ fraction).toNat = twoTo 52 + fraction.toNat := by
  rw [BitVec.toNat_append, ← Nat.shiftLeft_add_eq_or_of_lt fraction.isLt]
  rfl

/-- Reading a double off its bits is taking it apart. -/
theorem read_eq (x : Float) : read x = .ofUnpacked x.toModel.unpack := by
  show _ = Reading.ofUnpacked (UnpackedFloat.unpack Format.binary64 x.toBits.toBitVec)
  unfold read UnpackedFloat.unpack
  dsimp only
  rw [← UInt64.toNat_toBitVec, ← toNat_unpackMantissa, ← toNat_unpackExponent, ← isMinus_unpackSign]
  generalize x.toBits.toBitVec = b
  have special : (-1#11).toNat = 2047 := rfl
  simp only [BitVec.toNat_eq, special, BitVec.toNat_zero]
  split_ifs with all none low none
  · rfl
  · rfl
  · rw [none]
    rfl
  · rw [low]
    rfl
  · rw [← toNat_leading_append]
    rfl

theorem isMinus_injective {s t : Sign} (same : isMinus s = isMinus t) : s = t := by
  cases s <;> cases t <;> first | rfl | cases same

theorem Reading.ofUnpacked_injective {a b : UnpackedFloat} (same : ofUnpacked a = ofUnpacked b) :
    a = b := by
  cases a with
  | notANumber =>
    cases b with
    | notANumber => rfl
    | _ => cases same
  | infinity s =>
    cases b with
    | infinity t => rw [isMinus_injective (Reading.infinite.inj same)]
    | _ => cases same
  | zero s =>
    cases b with
    | zero t => rw [isMinus_injective (Reading.finite.inj same).1]
    | finite t m e pos => exact absurd (Reading.finite.inj same).2.1 pos.ne
    | _ => cases same
  | finite s m e pos =>
    cases b with
    | zero t => exact absurd (Reading.finite.inj same).2.1 pos.ne'
    | finite t m' e' pos' =>
      obtain ⟨sign, rfl, rfl⟩ := Reading.finite.inj same
      rw [isMinus_injective sign]
    | _ => cases same

/-- Different doubles say different things. -/
theorem read_injective {x y : Float} (same : read x = read y) : x = y := by
  rw [read_eq, read_eq] at same
  have unpacked := Reading.ofUnpacked_injective same
  have bits := (UnpackedFloat.unpack_inj_of_valid x.toModel.valid y.toModel.valid).mp unpacked
  exact Float.toBits_inj.mp (UInt64.toBitVec_inj.mp bits)

theorem isFinite_iff {x : Float} :
    x.isFinite = true ↔ ∃ negative m e, read x = .finite negative m e := by
  show x.toModel.unpack.isFinite = true ↔ _
  rw [read_eq]
  cases x.toModel.unpack <;> simp [UnpackedFloat.isFinite, Reading.ofUnpacked]

/-- A double that is not NaN is equal to itself. -/
theorem beq_self_of_not_isNaN {x : Float} (number : x.isNaN = false) : (x == x) = true := by
  rw [Float.isNaN_eq_decide_eq_nan, decide_eq_false_iff_not] at number
  exact Float.beq_self_iff.mpr number

theorem beq_self_of_isFinite {x : Float} (finite : x.isFinite = true) : (x == x) = true := by
  rw [Float.beq_self_iff]
  rintro rfl
  cases finite

/-! ## Mantissas of 53 bits -/

/-- The mantissa has 53 bits, and the exponent is one at which there are such doubles. -/
structure Full (mantissa : Nat) (exponent : Int) : Prop where
  bits : mantissa.log2 = 52
  low : leastExponent ≤ exponent
  high : exponent ≤ 971

theorem log2_mul_two_pow {n : Nat} (nonzero : n ≠ 0) (k : Nat) :
    (n * 2 ^ k).log2 = n.log2 + k := by
  induction k with
  | zero => rw [Nat.pow_zero, Nat.mul_one, Nat.add_zero]
  | succ k ih =>
    have above : n * 2 ^ k ≠ 0 := Nat.mul_ne_zero nonzero (Nat.two_pow_pos k).ne'
    rw [Nat.pow_succ', Nat.mul_left_comm, Nat.log2_two_mul above, ih, Nat.add_assoc]

/-- A mantissa that has been moved up by zeros is moved down again without a remainder. -/
theorem shiftRight_scaled (m k : Nat) :
    (ExtendedMantissa.mk (m * 2 ^ k) false false) >>> k = ⟨m, false, false⟩ := by
  induction k generalizing m with
  | zero =>
    rw [Nat.pow_zero, Nat.mul_one]
    rfl
  | succ k ih =>
    rw [Nat.pow_succ', ← Nat.mul_assoc]
    refine (congrArg ExtendedMantissa.shiftRightOne (ih (m * 2))).trans ?_
    simp [ExtendedMantissa.shiftRightOne]

namespace Full

variable {m : Nat} {e : Int}

theorem pos (full : Full m e) : 0 < m := by
  rcases Nat.eq_zero_or_pos m with rfl | pos
  · cases full.bits
  · exact pos

theorem le_and_lt (full : Full m e) : 2 ^ 52 ≤ m ∧ m < 2 ^ 53 :=
  (Nat.log2_eq_iff full.pos.ne').mp full.bits

/-- Packing keeps what it packs. -/
theorem unpack_pack (full : Full m e) (s : Sign) :
    (pack (.finite s m e full.pos)).unpack = .finite s m e full.pos := by
  have low : -1074 ≤ e := full.low
  have high := full.high
  have packed : UnpackedFloat.pack .binary64 (.finite s m e full.pos) =
      packComponents .binary64 s (BitVec.ofNat _ (e + 1023 + 52).toNat) (BitVec.ofNat _ m) := by
    have inside : ¬ 2 ^ 11 ≤ (e + 1023 + 52).toNat + 1 := by omega
    unfold UnpackedFloat.pack
    dsimp only
    rw [full.bits]
    exact (if_neg inside).trans (if_pos rfl)
  have biased : (BitVec.ofNat 11 (e + 1023 + 52).toNat).toNat = (e + 1023 + 52).toNat := by
    rw [BitVec.toNat_ofNat]
    exact Nat.mod_eq_of_lt (by omega)
  have exponent : ((BitVec.ofNat 11 (e + 1023 + 52).toNat).toNat : Int) - (1023 + 52) = e := by
    rw [biased]
    omega
  have mantissa : (1#1 ++ BitVec.ofNat 52 m).toNat = m := by
    obtain ⟨least, small⟩ := full.le_and_lt
    rw [toNat_leading_append, BitVec.toNat_ofNat]
    show 2 ^ 52 + m % 2 ^ 52 = m
    omega
  have special : BitVec.ofNat 11 (e + 1023 + 52).toNat ≠ -1#11 := by
    intro all
    have ones : (e + 1023 + 52).toNat = 2047 := biased.symm.trans (congrArg BitVec.toNat all)
    omega
  have least : BitVec.ofNat 11 (e + 1023 + 52).toNat ≠ 0#11 := by
    intro all
    have zeros : (e + 1023 + 52).toNat = 0 := biased.symm.trans (congrArg BitVec.toNat all)
    omega
  show UnpackedFloat.unpack .binary64 (UnpackedFloat.pack .binary64 _) = _
  rw [packed]
  unfold UnpackedFloat.unpack
  simp only [UnpackedFloat.unpackExponent_packComponents,
    UnpackedFloat.unpackMantissa_packComponents, UnpackedFloat.unpackSign_packComponents,
    UnpackedFloat.Sign.ofBitVec_toBitVec]
  rw [if_neg special, if_neg least, UnpackedFloat.finite.injEq]
  exact ⟨rfl, mantissa, exponent⟩

theorem targetExponent_eq (full : Full m e) :
    Format.binary64.targetExponent (totalExponent m e) = e := by
  have low : -1074 ≤ e := full.low
  unfold Format.targetExponent totalExponent
  rw [full.bits]
  show max (52 + 1 + e - 53) (-1074) = e
  omega

theorem totalExponent_scaled (full : Full m e) (k : Nat) :
    totalExponent (m * 2 ^ k) (e - k) = totalExponent m e := by
  unfold totalExponent
  rw [log2_mul_two_pow full.pos.ne']
  omega

theorem shift_scaled (full : Full m e) (k : Nat) :
    shiftToTargetExponent .binary64 (m * 2 ^ k) (e - k) .exact = (⟨m, false, false⟩, e) := by
  have steps : (e - (e - k)).toNat = k := by omega
  unfold shiftToTargetExponent UnpackedFloat.shiftToExponent
  rw [full.totalExponent_scaled, full.targetExponent_eq]
  dsimp only
  rw [steps, Int.sub_add_cancel]
  exact congrArg (·, e) (shiftRight_scaled m k)

/-- Rounding keeps a mantissa of 53 bits, and finds it again if it has been moved up. -/
theorem round_scaled (full : Full m e) (s : Sign) (k : Nat) :
    roundWithAccuracy .binary64 s (m * 2 ^ k) (e - k) .exact = .finite s m e full.pos := by
  have rounded : (ExtendedMantissa.mk m false false).roundedMantissa = m := rfl
  have settled := full.shift_scaled 0
  rw [Nat.pow_zero, Nat.mul_one, Int.natCast_zero, Int.sub_zero] at settled
  unfold roundWithAccuracy
  simp only [full.shift_scaled k, rounded, settled]
  exact dif_neg full.pos.ne'

theorem round_self (full : Full m e) (s : Sign) :
    roundWithAccuracy .binary64 s m e .exact = .finite s m e full.pos := by
  have same := full.round_scaled s 0
  rwa [Nat.pow_zero, Nat.mul_one, Int.natCast_zero, Int.sub_zero] at same

end Full

/-- A finite double has 53 bits, unless it has the least exponent. -/
theorem full_or_least {x : Float} {negative : Bool} {m : Nat} {e : Int}
    (reads : read x = .finite negative m e) : Full m e ∨ m < 2 ^ 52 ∧ e = leastExponent := by
  have fraction : x.toBits.toNat % twoTo 52 < 2 ^ 52 := Nat.mod_lt _ (by decide)
  have biased : x.toBits.toNat / twoTo 52 % twoTo 11 < 2 ^ 11 := Nat.mod_lt _ (by decide)
  unfold read at reads
  dsimp only at reads
  split_ifs at reads with special none low
  · obtain ⟨-, rfl, rfl⟩ := Reading.finite.inj reads
    exact Or.inr ⟨fraction, rfl⟩
  · obtain ⟨-, rfl, rfl⟩ := Reading.finite.inj reads
    have bits : (2 ^ 52 + x.toBits.toNat % twoTo 52).log2 = 52 :=
      (Nat.log2_eq_iff (by omega)).mpr ⟨by omega, by omega⟩
    have low' : (-1074 : Int) ≤ (x.toBits.toNat / twoTo 52 % twoTo 11 : Nat) - 1075 := by omega
    exact Or.inl ⟨bits, low', by omega⟩

/-! ## The double of an integer -/

/-- How far the magnitude has to be moved up to have 53 bits. -/
def gap (n : Nat) : Nat :=
  52 - n.log2

section

variable {n : Nat} (pos : 0 < n) (small : n < twoTo 53)

include pos small

theorem full_gap : Full (n * 2 ^ gap n) (0 - gap n) := by
  have bits : n.log2 < 53 := (Nat.log2_lt pos.ne').mpr small
  have least : leastExponent = -1074 := rfl
  unfold gap
  refine ⟨?_, by omega, by omega⟩
  rw [log2_mul_two_pow pos.ne']
  omega

/-- Converting a magnitude moves it up. -/
theorem ofNat_unpacked : UnpackedFloat.ofNat .binary64 n =
    .finite .positive (n * 2 ^ gap n) (0 - gap n) (full_gap pos small).pos := by
  have full := full_gap pos small
  have total : totalExponent n 0 = totalExponent (n * 2 ^ gap n) (0 - gap n) := by
    unfold totalExponent
    rw [log2_mul_two_pow pos.ne']
    omega
  have greater : compare (n : Int) 0 = .gt := by
    rw [Int.compare_eq_gt]
    omega
  unfold UnpackedFloat.ofNat UnpackedFloat.ofInt UnpackedFloat.normalize
  rw [greater]
  show UnpackedFloat.round .binary64 .positive n 0 = _
  unfold UnpackedFloat.round UnpackedFloat.decreaseExponent
  rw [total, full.targetExponent_eq]
  dsimp only
  rw [Int.sub_sub_self, Int.toNat_natCast, Nat.shiftLeft_eq]
  exact full.round_self .positive

/-- A double is multiplied by one after the conversion, which changes nothing. -/
theorem unpack_ofNat : (Float.ofNat n).toModel.unpack =
    .finite .positive (n * 2 ^ gap n) (0 - gap n) (full_gap pos small).pos := by
  have full := full_gap pos small
  have product : Float.ofNat n = n.toUInt64.toFloat * Float.ofBits 0x3FF0000000000000 := by
    show Float.ofScientific n false 0 = _
    unfold Float.ofScientific
    exact dif_pos ⟨small, by decide⟩
  have one : (Float.ofBits 0x3FF0000000000000).toModel.unpack =
      .finite .positive (2 ^ 52) (-52) (by decide) := rfl
  have converted : n.toUInt64.toFloat.toModel.unpack =
      .finite .positive (n * 2 ^ gap n) (0 - gap n) full.pos := by
    have fits : n.toUInt64.toNat = n := Nat.mod_eq_of_lt (small.trans (by decide))
    show (pack (UnpackedFloat.ofNat .binary64 n.toUInt64.toNat)).unpack = _
    rw [fits, ofNat_unpacked pos small]
    exact full.unpack_pack .positive
  rw [product]
  show (pack (UnpackedFloat.mul .binary64 n.toUInt64.toFloat.toModel.unpack
    (Float.ofBits 0x3FF0000000000000).toModel.unpack)).unpack = _
  rw [converted, one]
  show (pack (roundWithAccuracy .binary64 .positive (n * 2 ^ gap n * 2 ^ 52)
    (0 - gap n - (52 : Nat)) .exact)).unpack = _
  rw [full.round_scaled .positive 52]
  exact full.unpack_pack .positive

end

/-- What the double of an integer says: the magnitude, moved up to 53 bits. -/
theorem read_ofInt {n : Int} (nonzero : n ≠ 0) (small : n.natAbs < twoTo 53) :
    read (Float.ofInt n) =
      .finite (decide (n < 0)) (n.natAbs * 2 ^ gap n.natAbs) (0 - gap n.natAbs) := by
  cases n with
  | ofNat k =>
    have pos : 0 < k := by
      rw [Int.ofNat_eq_natCast] at nonzero
      omega
    show read (Float.ofNat k) = _
    rw [read_eq, unpack_ofNat pos small]
    rfl
  | negSucc k =>
    have pos : 0 < k + 1 := Nat.succ_pos k
    have full := full_gap pos small
    show read (Float.neg (Float.ofNat (k + 1))) = _
    rw [read_eq]
    show Reading.ofUnpacked (pack (Float.ofNat (k + 1)).toModel.unpack.neg).unpack = _
    rw [unpack_ofNat pos small]
    show Reading.ofUnpacked (pack (.finite .negative _ _ full.pos)).unpack = _
    rw [full.unpack_pack, decide_eq_true (Int.negSucc_lt_zero k)]
    rfl

/-- A magnitude of more than 53 bits is rounded once. -/
theorem ofNat_of_large {n : Nat} (large : ¬ n < twoTo 53) :
    (Float.ofNat n).toModel.unpack =
      (pack (roundWithAccuracy .binary64 .positive (n * 2 ^ 53) (-53) .exact)).unpack := by
  have nonzero : n ≠ 0 := by
    rintro rfl
    exact large (by decide)
  have converted : Float.ofNat n = ⟨Float.Model.ofScientific n 0⟩ := by
    show Float.ofScientific n false 0 = _
    unfold Float.ofScientific
    exact dif_neg fun small => large small.1
  have high : ¬ (0 : Int) < -(2 ^ 11 + (n.log2 : Int)) := by omega
  have product : UnpackedFloat.ofScientific .binary64 n 0 =
      roundWithAccuracy .binary64 .positive (n <<< 53 * 10 ^ 0) (-(53 : Nat) + 0) .exact := by
    unfold UnpackedFloat.ofScientific
    rw [dif_neg nonzero, if_neg (by decide), if_neg high, if_pos (by decide)]
    rfl
  rw [converted]
  show (pack (UnpackedFloat.ofScientific .binary64 n 0)).unpack = _
  rw [product, Nat.shiftLeft_eq, Nat.pow_zero, Nat.mul_one]
  rfl

/-- Converting an integer that is a mantissa of 53 bits moved up finds the mantissa again. -/
theorem read_ofNat_scaled {m n : Nat} {e : Int} (full : Full m e) (high : 0 ≤ e)
    (scaled : n = m * 2 ^ e.toNat) (large : ¬ n < twoTo 53) :
    read (Float.ofNat n) = .finite false m e := by
  have shifted : n * 2 ^ 53 = m * 2 ^ (e.toNat + 53) := by rw [scaled, Nat.mul_assoc, Nat.pow_add]
  have exponent : (-53 : Int) = e - ((e.toNat + 53 : Nat) : Int) := by omega
  rw [read_eq, ofNat_of_large large, shifted, exponent, full.round_scaled, full.unpack_pack]
  rfl

/-! ## Doubles that are integers -/

theorem natAbs_signed (negative : Bool) (magnitude : Nat) :
    (signed negative magnitude).natAbs = magnitude := by
  cases negative <;> simp [signed]

theorem signed_natAbs (n : Int) : signed (decide (n < 0)) n.natAbs = n := by
  unfold signed
  by_cases negative : n < 0
  · rw [if_pos (decide_eq_true negative)]
    omega
  · rw [if_neg (by simpa using negative)]
    omega

theorem integer?_of_zero {x : Float} {negative : Bool}
    (reads : read x = .finite negative 0 leastExponent) : integer? x = some 0 := by
  have signless : signed negative 0 = 0 := by cases negative <;> rfl
  unfold integer?
  rw [reads]
  dsimp only
  rw [if_neg (by decide), if_pos (Nat.zero_mod _), Nat.zero_div, signless]

/-- An integer below `2 ^ 53` is the integer that its double is. -/
theorem integer?_ofInt {n : Int} (small : n.natAbs < twoTo 53) :
    integer? (Float.ofInt n) = some n := by
  by_cases zero : n = 0
  · subst zero
    exact integer?_of_zero (rfl : read (Float.ofInt 0) = .finite false 0 leastExponent)
  · unfold integer?
    rw [read_ofInt zero small]
    generalize gap n.natAbs = k
    dsimp only
    rw [Int.zero_sub, Int.neg_neg, Int.toNat_natCast]
    show (if _ then _ else if _ % 2 ^ k = 0 then some (signed _ (_ / 2 ^ k)) else _) = _
    by_cases flush : (0 : Int) ≤ -(k : Int)
    · obtain rfl : k = 0 := by omega
      rw [if_pos flush]
      show some (signed _ (n.natAbs * 1 * 1)) = _
      rw [Nat.mul_one, Nat.mul_one, signed_natAbs]
    · rw [if_neg flush, if_pos (Nat.mul_mod_left _ _), Nat.mul_div_cancel _ (Nat.two_pow_pos k),
        signed_natAbs]

section

variable {x : Float} {n : Int}

/-- A double that is an integer is finite. -/
theorem isFinite_of_integer? (integral : integer? x = some n) : x.isFinite = true := by
  unfold integer? at integral
  cases reads : read x with
  | finite negative m e => exact isFinite_iff.mpr ⟨negative, m, e, reads⟩
  | nan | infinite =>
    rw [reads] at integral
    cases integral

/-- The value of a double that is an integer has the magnitude of the integer. -/
theorem value_of_integer? {negative : Bool} {m : Nat} {e : Int}
    (reads : read x = .finite negative m e) (integral : integer? x = some n) :
    signed negative n.natAbs = n ∧ m * 2 ^ e.toNat = n.natAbs * 2 ^ (-e).toNat := by
  unfold integer? at integral
  rw [reads] at integral
  change (if 0 ≤ e then some (signed negative (m * 2 ^ e.toNat))
    else if m % 2 ^ (-e).toNat = 0 then some (signed negative (m / 2 ^ (-e).toNat))
    else none) = some n at integral
  split_ifs at integral with high divides
  · obtain rfl := Option.some.inj integral
    have none : (-e).toNat = 0 := by omega
    rw [natAbs_signed, none, Nat.pow_zero, Nat.mul_one]
    exact ⟨rfl, rfl⟩
  · obtain rfl := Option.some.inj integral
    have none : e.toNat = 0 := by omega
    rw [natAbs_signed, none, Nat.pow_zero, Nat.mul_one,
      Nat.div_mul_cancel (Nat.dvd_of_mod_eq_zero divides)]
    exact ⟨rfl, rfl⟩

/-- A double that is an integer other than zero is the double of this integer. -/
theorem eq_ofInt (integral : integer? x = some n) (nonzero : n ≠ 0)
    (small : n.natAbs < twoTo 53) : x = Float.ofInt n := by
  have pos : n.natAbs ≠ 0 := by omega
  obtain ⟨negative, m, e, reads⟩ := isFinite_iff.mp (isFinite_of_integer? integral)
  obtain ⟨sign, value⟩ := value_of_integer? reads integral
  have minus : negative = decide (n < 0) := by
    cases negative with
    | false =>
      change (n.natAbs : Int) = n at sign
      exact (decide_eq_false (by omega)).symm
    | true =>
      change -(n.natAbs : Int) = n at sign
      exact (decide_eq_true (by omega)).symm
  apply read_injective
  rw [read_ofInt nonzero small, reads]
  rcases full_or_least reads with full | ⟨low, rfl⟩
  · -- both sides have as many bits, so the exponents agree
    have bits := congrArg Nat.log2 value
    rw [log2_mul_two_pow full.pos.ne', log2_mul_two_pow pos, full.bits] at bits
    have few : n.natAbs.log2 < 53 := (Nat.log2_lt pos).mpr small
    have flush : e.toNat = 0 := by omega
    have distance : (-e).toNat = gap n.natAbs := by
      unfold gap
      omega
    have exponent : e = 0 - gap n.natAbs := by omega
    rw [flush, Nat.pow_zero, Nat.mul_one, distance] at value
    rw [minus, value, exponent]
  · -- a double below all those with 53 bits is no integer other than zero
    have least : 2 ^ 52 ≤ 2 ^ (-leastExponent).toNat := Nat.pow_le_pow_right (by decide) (by decide)
    have flush : leastExponent.toNat = 0 := rfl
    rw [flush, Nat.pow_zero, Nat.mul_one] at value
    have large := Nat.le_mul_of_pos_left (2 ^ (-leastExponent).toNat) (Nat.pos_of_ne_zero pos)
    omega

theorem eq_zero_of_integer? (integral : integer? x = some 0) : x = 0 ∨ x = -0 := by
  obtain ⟨negative, m, e, reads⟩ := isFinite_iff.mp (isFinite_of_integer? integral)
  obtain ⟨-, value⟩ := value_of_integer? reads integral
  rw [Int.natAbs_zero, Nat.zero_mul] at value
  obtain rfl : m = 0 := (Nat.mul_eq_zero.mp value).resolve_right (Nat.two_pow_pos _).ne'
  rcases full_or_least reads with full | ⟨-, rfl⟩
  · exact absurd full.pos (Nat.lt_irrefl 0)
  · cases negative with
    | false => exact Or.inl (read_injective reads)
    | true => exact Or.inr (read_injective reads)

/-- A double that is an integer is equal to the double of this integer. -/
theorem beq_ofInt (integral : integer? x = some n) (small : n.natAbs < twoTo 53) :
    (x == Float.ofInt n) = true := by
  by_cases zero : n = 0
  · subst zero
    rcases eq_zero_of_integer? integral with rfl | rfl <;> rfl
  · rw [← eq_ofInt integral zero small]
    exact beq_self_of_isFinite (isFinite_of_integer? integral)

/-- A double that is a natural number is equal to the double of this number, however large it is. -/
theorem beq_ofNat {n : Nat} (integral : integer? x = some n) : (x == Float.ofNat n) = true := by
  by_cases small : n < twoTo 53
  · have near := beq_ofInt integral (by rwa [Int.natAbs_natCast])
    exact near
  · obtain ⟨negative, m, e, reads⟩ := isFinite_iff.mp (isFinite_of_integer? integral)
    obtain ⟨sign, value⟩ := value_of_integer? reads integral
    rw [Int.natAbs_natCast] at sign value
    have large : 2 ^ 53 ≤ n := Nat.le_of_not_lt small
    obtain rfl : negative = false := by
      cases negative with
      | false => rfl
      | true =>
        change -(n : Int) = n at sign
        omega
    rcases full_or_least reads with full | ⟨low, rfl⟩
    · -- a mantissa has fewer than 53 bits, so it has been moved up
      have bits := full.le_and_lt
      have high : 0 ≤ e := by
        by_contra below
        have flush : e.toNat = 0 := by omega
        rw [flush, Nat.pow_zero, Nat.mul_one] at value
        have least := Nat.le_mul_of_pos_right n (Nat.two_pow_pos (-e).toNat)
        rw [← value] at least
        omega
      have flush : (-e).toNat = 0 := by omega
      rw [flush, Nat.pow_zero, Nat.mul_one] at value
      have same : x = Float.ofNat n := by
        apply read_injective
        rw [reads, read_ofNat_scaled full high value.symm small]
      rw [← same]
      exact beq_self_of_isFinite (isFinite_of_integer? integral)
    · have flush : leastExponent.toNat = 0 := rfl
      rw [flush, Nat.pow_zero, Nat.mul_one] at value
      have least := Nat.le_mul_of_pos_right n (Nat.two_pow_pos (-leastExponent).toNat)
      rw [← value] at least
      omega

end

end FormLogic.Number

/-! ## The trees of doubles -/

namespace FormLogic.Json

open Number

/-- The tree of a double is an integer, the double itself, or, of a double that is not finite,
`null`. -/
theorem ofFloat_cases (x : Float) :
    (∃ n, integer? x = some n ∧ n.natAbs < twoTo 53 ∧ ofFloat x = .int n) ∨
      (x.isFinite = true ∧ ofFloat x = .float x) ∨ (x.isFinite = false ∧ ofFloat x = .null) := by
  unfold ofFloat
  cases integral : integer? x with
  | some n =>
    dsimp only
    split_ifs with small
    · exact Or.inl ⟨n, rfl, small, rfl⟩
    · exact Or.inr (Or.inl ⟨isFinite_of_integer? integral, rfl⟩)
  | none =>
    dsimp only
    split_ifs with finite
    · exact Or.inr (Or.inl ⟨finite, rfl⟩)
    · exact Or.inr (Or.inr ⟨by simpa using finite, rfl⟩)

theorem ofFloat_ofInt {n : Int} (small : n.natAbs < twoTo 53) :
    ofFloat (Float.ofInt n) = .int n := by
  unfold ofFloat
  rw [integer?_ofInt small]
  exact if_pos small

/-- The zero with a minus sign has the tree of the other zero. -/
theorem ofFloat_neg_zero : ofFloat (-0) = .int 0 := by
  have reads : read (-0) = .finite true 0 leastExponent := rfl
  unfold ofFloat
  rw [integer?_of_zero reads]
  rfl

/-- Finite doubles with the same tree are equal. -/
theorem beq_of_ofFloat_eq {x y : Float} (finite : x.isFinite = true)
    (same : ofFloat x = ofFloat y) : (x == y) = true := by
  rcases ofFloat_cases x with ⟨n, integral, small, tree⟩ | ⟨-, tree⟩ | ⟨infinite, -⟩
  · have read := tree.symm.trans same
    rcases ofFloat_cases y with ⟨k, integral', -, tree'⟩ | ⟨-, tree'⟩ | ⟨-, tree'⟩
    · obtain rfl := Json.int.inj (read.trans tree')
      have left := beq_ofInt integral small
      have right := beq_ofInt integral' small
      exact PartialEquivBEq.trans left (PartialEquivBEq.symm right)
    · cases read.trans tree'
    · cases read.trans tree'
  · have read := tree.symm.trans same
    rcases ofFloat_cases y with ⟨k, -, -, tree'⟩ | ⟨-, tree'⟩ | ⟨-, tree'⟩
    · cases read.trans tree'
    · obtain rfl := Json.float.inj (read.trans tree')
      exact beq_self_of_isFinite finite
    · cases read.trans tree'
  · rw [infinite] at finite
    cases finite

end FormLogic.Json
