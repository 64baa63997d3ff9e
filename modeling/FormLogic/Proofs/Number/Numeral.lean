import FormLogic.Proofs.Expr.Lexical
import FormLogic.Proofs.Number.Integer

/-!
# `FormLogic.Proofs.Number.Numeral` — the decimal numerals of natural numbers

A natural number has one numeral: digits without a sign, and without a zero in front unless it is the
only digit. A number that a double holds exactly is read back from its numeral as it is, and its
double is written as the numeral, as long as it is below `10 ^ 15`.

## Contents
- `Canonical`, `canonical_iff`: the numeral of a number, and that it is the only one.
- `shorten_digits`, `ofNumeral_digits`: numerals are read in full.
- `readDecimal?_toString`, `integer?_ofNat`, `formatNumber_ofNat`: reading and writing numerals.
-/

namespace FormLogic.Number

/-- The text is the decimal numeral of the number. -/
structure Canonical (s : String) (n : Nat) : Prop where
  nonempty : s ≠ ""
  /-- There is no sign, no point, no exponent and no other character. -/
  digits : ∀ c ∈ s.toList, c.isDigit = true
  /-- There is no zero in front of other digits. -/
  leading : s.toList.head? = some '0' → s = "0"
  value : Nat.ofDigitChars 10 s.toList 0 = n

/-! ## One numeral for each number -/

section

variable {c : Char} (digit : c.isDigit = true)

include digit

/-- The digits follow each other from the zero on. -/
theorem toNat_of_isDigit : c.toNat = 48 + digitValue c ∧ digitValue c < 10 := by
  obtain ⟨low, high⟩ := Char.isDigit_iff_toNat.mp digit
  change 48 ≤ c.toNat at low
  change c.toNat ≤ 57 at high
  show c.toNat = 48 + (c.toNat - 48) ∧ c.toNat - 48 < 10
  omega

theorem toDigits_digitValue : Nat.toDigits 10 (digitValue c) = [c] := by
  obtain ⟨code, small⟩ := toNat_of_isDigit digit
  have same : (digitValue c).digitChar = c := by
    apply Char.toNat_inj.mp
    rw [Nat.toNat_digitChar_of_lt_ten small, code]
  rw [Nat.toDigits_of_lt_base small, same]

end

/-- Digits behind the numeral of a number make a numeral again. -/
theorem toDigits_append {ds : List Char} (digits : ∀ c ∈ ds, c.isDigit = true) {n : Nat}
    (pos : 0 < n) : Nat.toDigits 10 n ++ ds = Nat.toDigits 10 (Nat.ofDigitChars 10 ds n) := by
  induction ds generalizing n with
  | nil => exact List.append_nil _
  | cons c ds ih =>
    obtain ⟨digit, others⟩ := List.forall_mem_cons.mp digits
    have next : Nat.toDigits 10 n ++ [c] = Nat.toDigits 10 (10 * n + digitValue c) := by
      have small := (toNat_of_isDigit digit).2
      rw [← toDigits_digitValue digit, Nat.toDigits_append_toDigits (by decide) pos small]
    calc Nat.toDigits 10 n ++ c :: ds
        = (Nat.toDigits 10 n ++ [c]) ++ ds := by rw [List.append_assoc, List.singleton_append]
      _ = Nat.toDigits 10 (10 * n + digitValue c) ++ ds := by rw [next]
      _ = Nat.toDigits 10 (Nat.ofDigitChars 10 (c :: ds) n) := ih others (by omega)

/-- The first digit of a number is no zero, unless the number is. -/
theorem head?_toDigits {n : Nat} (leading : (Nat.toDigits 10 n).head? = some '0') : n = 0 := by
  induction n using Nat.strongRecOn with
  | ind n ih =>
    rw [Nat.toDigits_eq_if (by decide)] at leading
    split at leading
    · next small =>
      have zero : n.digitChar = '0' := Option.some.inj leading
      have code := Nat.toNat_digitChar_of_lt_ten small
      rw [zero] at code
      change 48 = 48 + n at code
      omega
    · next large =>
      rw [List.head?_append_of_ne_nil _ Nat.toDigits_ne_nil] at leading
      have none := ih (n / 10) (by omega) leading
      omega

theorem toList_toString (n : Nat) : (toString n).toList = Nat.toDigits 10 n := by
  rw [Nat.toString_eq_repr, Nat.toList_repr]

/-- **The numeral of a number is its only one.** -/
theorem canonical_iff {s : String} {n : Nat} : Canonical s n ↔ s = toString n := by
  constructor
  · rintro ⟨nonempty, digits, leading, rfl⟩
    apply String.toList_injective
    rw [toList_toString]
    have shape : s.toList ≠ [] := fun none => nonempty (String.toList_eq_nil_iff.mp none)
    obtain ⟨c, ds, whole⟩ := List.exists_cons_of_ne_nil shape
    rw [whole] at digits leading ⊢
    obtain ⟨digit, others⟩ := List.forall_mem_cons.mp digits
    by_cases zero : c = '0'
    · subst zero
      have alone := leading rfl
      rw [alone] at whole
      cases whole
      rfl
    · have pos : 0 < digitValue c := by
        have code := (toNat_of_isDigit digit).1
        have other : c.toNat ≠ 48 := fun same => zero (Char.toNat_inj.mp same)
        omega
      have first : 10 * 0 + digitValue c = digitValue c := by omega
      have rest := toDigits_append others pos
      rw [toDigits_digitValue digit] at rest
      show _ = Nat.toDigits 10 (Nat.ofDigitChars 10 ds (10 * 0 + digitValue c))
      rw [first, ← rest, List.singleton_append]
  · rintro rfl
    refine ⟨?_, ?_, ?_, ?_⟩
    · intro empty
      have none := toList_toString n
      rw [empty] at none
      exact Nat.toDigits_ne_nil none.symm
    · intro c mem
      rw [toList_toString] at mem
      exact isDigit_of_mem_digits mem
    · intro leading
      rw [toList_toString] at leading
      rw [head?_toDigits leading]
      rfl
    · rw [toList_toString, Nat.ofDigitChars_ten_toDigits]

/-! ## Reading and writing -/

section

variable {n : Nat}

/-- A short numeral is taken as it is. -/
theorem shorten_digits (pos : 0 < n) (short : (digits n).length ≤ fullDigits) :
    shorten (digits n) = (digits n, 0) := by
  have kept : (digits n).dropWhile (· == '0') = digits n := by
    refine Parser.dropWhile_eq_self ?_
    cases ahead : (digits n).head? with
    | none => rfl
    | some c =>
      refine beq_eq_false_iff_ne.mpr ?_
      rintro rfl
      have none := head?_toDigits ahead
      omega
  unfold shorten
  dsimp only
  rw [kept, List.drop_eq_nil_of_le short, List.take_of_length_le short]
  rfl

/-- The digits of a number that a double holds are read as its double. -/
theorem ofNumeral_digits (small : n < twoTo 53) : ofNumeral (digits n) [] 0 = Float.ofNat n := by
  have count : (digits n).length ≤ 16 :=
    (Nat.length_toDigits_le_iff (by decide) (by decide)).mpr (small.trans (by decide))
  rcases Nat.eq_zero_or_pos n with rfl | pos
  · rfl
  · have top : (digitCount n : Int) + (0 - (0 : Nat) + (0 : Nat)) = (digits n).length := by
      show ((Nat.toDigits 10 n).length : Int) + _ = (Nat.toDigits 10 n).length
      omega
    unfold ofNumeral
    rw [List.append_nil, shorten_digits pos (count.trans (by decide))]
    show ofDecimal (Nat.ofDigitChars 10 (Nat.toDigits 10 n) 0) (0 - (0 : Nat) + (0 : Nat)) = _
    rw [Nat.ofDigitChars_ten_toDigits]
    unfold ofDecimal
    dsimp only
    rw [top, if_neg (by omega), if_neg (by omega)]
    rfl

/-- **A numeral is read as its number**, if a double holds the number exactly. -/
theorem readDecimal?_toString (small : n < twoTo 53) :
    readDecimal? (toString n) = some (Float.ofNat n) := by
  have whole : (toString n).toList = digits n ++ Grammar.pointed [] :=
    (toList_toString n).trans (List.append_nil _).symm
  have each : ∀ c ∈ digits n, c.isDigit = true := fun _ mem => isDigit_of_mem_digits mem
  have some : digits n ≠ [] := Nat.toDigits_ne_nil
  obtain ⟨c, ds, shape⟩ := List.exists_cons_of_ne_nil some
  rw [readDecimal?_of_digit ((toList_toString n).trans shape) (each c (shape ▸ List.mem_cons_self)),
    whole, readUnsigned?_numeral some each (List.forall_mem_nil _), ofNumeral_digits small]

theorem integer?_ofNat (small : n < twoTo 53) : integer? (Float.ofNat n) = some (n : Int) := by
  have integral := integer?_ofInt (n := (n : Int)) (by rwa [Int.natAbs_natCast])
  exact integral

/-- The double of a number is written as its numeral. -/
theorem formatNumber_ofNat (short : n < tenTo 15) : formatNumber (Float.ofNat n) = toString n := by
  unfold formatNumber
  rw [integer?_ofNat (short.trans (by decide))]
  exact if_pos short

end

end FormLogic.Number
