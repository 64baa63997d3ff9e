import FormLogic.Expr.Grammar
import FormLogic.Expr.Printer
import FormLogic.Proofs.Expr.Replies

/-!
# `FormLogic.Proofs.Expr.Lexical` — names, numbers and quoted texts are read back

What a name, a number or a quoted text is written as is read back as the same, if what follows does
not run on from it: a name is not followed by a character that can be part of one, and a number
without a point is not followed by a point and a digit.

## Contents
- `isName`, `name_ok`, `keyword_misses`: names.
- `formatNumber_numeral`, `number_ok`: numbers, written as digits with an optional point.
- `textAfter_flatMap`: quoted texts, character by character; `isPlain`, `text_ok`: the printed ones.
-/

namespace FormLogic

namespace Grammar

open FormLogic.Parser

variable {cs rest : List Char} {w word : String}

/-! ## Names -/

/-- Whether the word is a name. -/
def isName (word : String) : Bool :=
  match word.toList with
  | [] => false
  | c :: cs => isNameStart c && cs.all isNameRest

theorem isName_cons (named : isName w = true) :
    ∃ c cs, w.toList = c :: cs ∧ isNameStart c = true ∧ ∀ d ∈ cs, isNameRest d = true := by
  unfold isName at named
  split at named
  · cases named
  · next c cs shape =>
    obtain ⟨first, others⟩ := Bool.and_eq_true_iff.mp named
    exact ⟨c, cs, shape, first, List.all_eq_true.mp others⟩

/-- A name is read to its end. -/
theorem name_ok (named : isName w = true) (other : rest.head?.any isNameRest = false) :
    name (w.toList ++ rest) = .ok w rest := by
  obtain ⟨c, cs, shape, first, others⟩ := isName_cons named
  have whole : String.ofList (c :: cs) = w := by rw [← shape, String.ofList_toList]
  rw [shape, List.cons_append]
  unfold name
  rw [bind_ok (satisfy_ok first _), bind_ok (span_append others other), whole]
  rfl

theorem name_misses (other : cs.head?.any isNameStart = false) : Misses name cs :=
  (satisfy_misses other).bind _

theorem keyword_ok (read : name cs = .ok w rest) : keyword w cs = .ok () rest := by
  unfold keyword
  rw [bind_ok read]
  exact congrFun (if_pos rfl) rest

/-- Another name is not the keyword. -/
theorem keyword_misses (read : name cs = .ok w rest) (other : w ≠ word) :
    Misses (keyword word) cs := by
  have fails : Misses (if w = word then pure () else fun cs => .fail (bare false) cs) rest :=
    ⟨bare false, rest, congrFun (if_neg other) rest, rfl⟩
  exact .bind_ok read fails

theorem keyword_misses_of_head (other : cs.head?.any isNameStart = false) (word : String) :
    Misses (keyword word) cs :=
  (name_misses other).bind _

/-! ## Characters that are part of names and numbers -/

/-- A character that cannot be part of a name is no digit and does not start an exponent. -/
theorem isDigit_eq_false_of_head (other : cs.head?.any isNameRest = false) :
    cs.head?.any Char.isDigit = false := by
  cases cs with
  | nil => rfl
  | cons c cs =>
    have other : isNameRest c = false := other
    unfold isNameRest Char.isAlphanum at other
    simp only [Bool.or_eq_false_iff] at other
    exact other.1.1.2

theorem isDigit_of_isNameStart {c : Char} (first : isNameStart c = true) : c.isDigit = false := by
  cases digit : c.isDigit with
  | false => rfl
  | true =>
    unfold isNameStart Char.isAlpha Char.isUpper Char.isLower at first
    unfold Char.isDigit at digit
    simp only [Bool.or_eq_true, Bool.and_eq_true, decide_eq_true_eq, beq_iff_eq, ge_iff_le,
      UInt32.le_iff_toNat_le] at first digit
    have low (a : UInt32) (high : '9'.val.toNat < a.toNat) : ¬ a.toNat ≤ c.val.toNat :=
      fun above => absurd (Nat.le_trans above digit.2) (Nat.not_le.mpr high)
    rcases first with ((upper | lower) | rfl) | rfl
    · exact absurd upper.1 (low _ (by decide))
    · exact absurd lower.1 (low _ (by decide))
    · exact absurd digit (by decide)
    · exact absurd digit (by decide)

theorem exponent_misses (other : cs.head?.any isNameRest = false) : Misses exponent cs := by
  refine (satisfy_misses ?_).bind _
  cases cs with
  | nil => rfl
  | cons c cs =>
    have other : isNameRest c = false := other
    have small : c ≠ 'e' := by
      rintro rfl
      exact absurd other (by decide)
    have large : c ≠ 'E' := by
      rintro rfl
      exact absurd other (by decide)
    simp [small, large]

/-- A point without a digit behind it is no fraction. -/
theorem fraction_misses_of_point (other : cs.head?.any Char.isDigit = false) :
    Misses fraction ('.' :: cs) :=
  .bind_ok (char_ok '.' cs) (span1_misses other)

/-! ## Numbers -/

/-- The digits behind a point, with the point if there are any. -/
def pointed (fraction : List Char) : List Char :=
  if fraction = [] then [] else '.' :: fraction

/-- A number that is written as digits with an optional point is read to its end. -/
theorem number_ok {whole fraction : List Char} (nonempty : whole ≠ [])
    (digits : ∀ c ∈ whole, c.isDigit = true) (digits' : ∀ c ∈ fraction, c.isDigit = true)
    (other : rest.head?.any isNameRest = false) (apart : Misses Grammar.fraction rest) :
    number (whole ++ (pointed fraction ++ rest)) = .ok (Number.ofNumeral whole fraction 0) rest := by
  have noDigit := isDigit_eq_false_of_head other
  have noExponent := optional_misses (exponent_misses other)
  unfold number
  by_cases integral : fraction = []
  · subst integral
    have front : span1 Char.isDigit (whole ++ (pointed [] ++ rest)) = .ok whole rest :=
      span1_append nonempty digits noDigit
    rw [bind_ok front, bind_ok (optional_misses apart), bind_ok noExponent]
    rfl
  · have front : span1 Char.isDigit (whole ++ (pointed fraction ++ rest)) =
        .ok whole ('.' :: (fraction ++ rest)) := by
      rw [pointed, if_neg integral]
      exact span1_append nonempty digits rfl
    have behind : Grammar.fraction ('.' :: (fraction ++ rest)) = .ok fraction rest :=
      (bind_ok (char_ok '.' _) _).trans (span1_append integral digits' noDigit)
    rw [bind_ok front, bind_ok (optional_ok behind), bind_ok noExponent]
    rfl

end Grammar

namespace Number

variable {x : Float} {mantissa : Nat} {exponent : Int}

theorem isDigit_of_mem_digits {n : Nat} {c : Char} (mem : c ∈ digits n) : c.isDigit = true :=
  Nat.isDigit_of_mem_toDigits (by decide) (by decide) mem

theorem isDigit_of_mem_zeros {n : Nat} {c : Char} (mem : c ∈ zeros n) : c.isDigit = true := by
  rw [List.eq_of_mem_replicate mem]
  decide

/-- The characters are digits with an optional point between them, and digits behind it. -/
def IsNumeral (text : List Char) : Prop :=
  ∃ whole fraction, whole ≠ [] ∧ (∀ c ∈ whole, c.isDigit = true) ∧
    (∀ c ∈ fraction, c.isDigit = true) ∧ text = whole ++ Grammar.pointed fraction

theorem IsNumeral.of_digits {ds : List Char} (nonempty : ds ≠ [])
    (digits : ∀ c ∈ ds, c.isDigit = true) : IsNumeral ds :=
  ⟨ds, [], nonempty, digits, (fun _ mem => nomatch mem), (List.append_nil ds).symm⟩

/-- The positional layout of digits is a numeral. -/
theorem withPoint_numeral {ds : List Char} (nonempty : ds ≠ [])
    (digits : ∀ c ∈ ds, c.isDigit = true) (point : Int) : IsNumeral (withPoint [] ds point) := by
  unfold withPoint
  split
  · -- the point stands in front of all digits
    refine ⟨['0'], zeros (-point).toNat ++ ds, List.cons_ne_nil _ _, ?_, ?_, ?_⟩
    · intro c mem
      rw [List.mem_singleton.mp mem]
      decide
    · intro c mem
      rcases List.mem_append.mp mem with zero | digit
      · exact isDigit_of_mem_zeros zero
      · exact digits c digit
    · rw [Grammar.pointed, if_neg (List.append_ne_nil_of_right_ne_nil _ nonempty)]
      rfl
  · next positive =>
    split
    · next inside =>
      have behind : ds.drop point.toNat ≠ [] := by
        rw [Ne, List.drop_eq_nil_iff]
        omega
      refine ⟨ds.take point.toNat, ds.drop point.toNat, ?_, ?_, ?_, ?_⟩
      · rw [Ne, List.take_eq_nil_iff]
        rintro (none | empty)
        · omega
        · exact nonempty empty
      · exact fun c mem => digits c (List.mem_of_mem_take mem)
      · exact fun c mem => digits c (List.mem_of_mem_drop mem)
      · rw [Grammar.pointed, if_neg behind]
    · -- the digits are filled up with zeros, and there is no point
      refine .of_digits ?_ ?_
      · rw [List.append_nil]
        exact List.append_ne_nil_of_left_ne_nil nonempty _
      · intro c mem
        rw [List.append_nil] at mem
        rcases List.mem_append.mp mem with digit | zero
        · exact digits c digit
        · exact isDigit_of_mem_zeros zero

/-- A finite number that is not negative is written as a numeral. -/
theorem formatNumber_numeral (reading : read x = .finite false mantissa exponent) :
    IsNumeral (formatNumber x).toList := by
  have positional : IsNumeral (positional x).toList := by
    unfold Number.positional
    rw [reading]
    cases mantissa with
    | zero =>
      show IsNumeral (String.ofList ['0']).toList
      rw [String.toList_ofList]
      exact .of_digits (List.cons_ne_nil _ _) (List.forall_mem_singleton.mpr rfl)
    | succ n =>
      show IsNumeral (String.ofList (withPoint [] (digits (shortest .up (n + 1) exponent).1)
        ((digits (shortest .up (n + 1) exponent).1).length +
          (shortest .up (n + 1) exponent).2))).toList
      rw [String.toList_ofList]
      exact withPoint_numeral Nat.toDigits_ne_nil (fun c mem => isDigit_of_mem_digits mem) _
  unfold formatNumber
  split
  · next n integral =>
    split
    · -- the integer is not negative, as its sign is the one of the number
      obtain ⟨k, rfl⟩ : ∃ k : Nat, n = k := by
        unfold integer? at integral
        rw [reading] at integral
        simp only [signed, Bool.false_eq_true, if_false] at integral
        split at integral
        · exact ⟨_, (Option.some.inj integral).symm⟩
        · split at integral
          · exact ⟨_, (Option.some.inj integral).symm⟩
          · cases integral
      have written : (toString (k : Int)).toList = digits k := String.toList_ofList
      rw [written]
      exact .of_digits Nat.toDigits_ne_nil fun c mem => isDigit_of_mem_digits mem
    · exact positional
  · exact positional

/-- What a numeral denotes as a decimal is what it denotes digit by digit. -/
theorem readUnsigned?_numeral {whole fraction : List Char} (nonempty : whole ≠ [])
    (digits : ∀ c ∈ whole, c.isDigit = true) (digits' : ∀ c ∈ fraction, c.isDigit = true) :
    readUnsigned? (whole ++ Grammar.pointed fraction) = some (ofNumeral whole fraction 0) := by
  have front : splitDigits (whole ++ Grammar.pointed fraction) =
      (whole, Grammar.pointed fraction) := by
    have stops : (Grammar.pointed fraction).head?.any Char.isDigit = false := by
      unfold Grammar.pointed
      split <;> rfl
    unfold splitDigits
    rw [Parser.takeWhile_append digits stops, Parser.dropWhile_append digits stops]
  have behind : splitFraction (Grammar.pointed fraction) = (fraction, []) := by
    unfold Grammar.pointed
    split
    · next none => rw [none]; rfl
    · have ends : ([] : List Char).head?.any Char.isDigit = false := rfl
      have all := Parser.takeWhile_append digits' ends
      have rest := Parser.dropWhile_append digits' ends
      rw [List.append_nil] at all rest
      show splitDigits fraction = _
      unfold splitDigits
      rw [all, rest]
  unfold readUnsigned?
  rw [front]
  dsimp only
  rw [behind]
  cases whole with
  | nil => exact absurd rfl nonempty
  | cons c whole => rfl

theorem toLower_of_isDigit {c : Char} (digit : c.isDigit = true) : c.toLower = c := by
  have low : c.val ≤ '9'.val := of_decide_eq_true (Bool.and_eq_true_iff.mp digit).2
  have other : ¬ (c.val ≥ 'A'.val ∧ c.val ≤ 'Z'.val) := by
    rintro ⟨high, _⟩
    exact absurd (Nat.le_trans high low) (by decide)
  unfold Char.toLower
  rw [dif_neg other]

/-- A text that starts with a digit is read as an unsigned decimal. -/
theorem readDecimal?_of_digit {s : String} {c : Char} {cs : List Char} (shape : s.toList = c :: cs)
    (digit : c.isDigit = true) : readDecimal? s = readUnsigned? s.toList := by
  have unsigned : splitSign s.toList = (false, s.toList) := by
    rw [shape]
    unfold splitSign
    split
    · next same => cases same; exact absurd digit (by decide)
    · next same => cases same; exact absurd digit (by decide)
    · rfl
  have noName (word : String) (d : Char) (ds : List Char) (name : word.toList = d :: ds)
      (letter : d.isDigit = false) : String.ofList (s.toList.map Char.toLower) ≠ word := by
    rintro rfl
    rw [String.toList_ofList, shape, List.map_cons] at name
    rw [toLower_of_isDigit digit] at name
    rw [← (List.cons.inj name).1, digit] at letter
    cases letter
  unfold readDecimal?
  rw [unsigned]
  dsimp only
  rw [if_neg, if_neg (noName "nan" 'n' _ rfl rfl)]
  · cases readUnsigned? s.toList <;> rfl
  · rintro (inf | infinity)
    · exact noName "inf" 'i' _ rfl rfl inf
    · exact noName "infinity" 'i' _ rfl rfl infinity

/-- The text of the number is read as the number. -/
def ReadsBack (x : Float) : Prop :=
  (∃ mantissa exponent, read x = .finite false mantissa exponent) ∧
    readDecimal? (formatNumber x) = some x

/-- A number that its text is read back to is what its numeral denotes. -/
theorem ReadsBack.numeral (back : ReadsBack x) :
    ∃ whole fraction, whole ≠ [] ∧ (∀ c ∈ whole, c.isDigit = true) ∧
      (∀ c ∈ fraction, c.isDigit = true) ∧
      (formatNumber x).toList = whole ++ Grammar.pointed fraction ∧
      ofNumeral whole fraction 0 = x := by
  obtain ⟨⟨mantissa, exponent, reading⟩, back⟩ := back
  obtain ⟨whole, fraction, nonempty, digits, digits', shape⟩ := formatNumber_numeral reading
  refine ⟨whole, fraction, nonempty, digits, digits', shape, ?_⟩
  obtain ⟨c, cs, rfl⟩ := List.exists_cons_of_ne_nil nonempty
  rw [readDecimal?_of_digit shape (digits c List.mem_cons_self), shape,
    readUnsigned?_numeral nonempty digits digits'] at back
  exact Option.some.inj back

end Number

/-! ## Quoted texts -/

namespace Grammar

open FormLogic.Parser

variable {cs rest : List Char}

/-- Whether the character is a printable one of ASCII, a line end, a tab or NUL. -/
def isPlain (c : Char) : Bool :=
  (0x20 ≤ c.toNat && c.toNat < 0x7F) || c == '\n' || c == '\t' || c == '\r' || c == '\x00'

/-- One character is read back from its written form. -/
theorem textAfter_escape {c : Char} (plain : isPlain c = true) (content ahead : List Char) :
    textAfter '"' content (Text.escape c ++ ahead) = textAfter '"' (c :: content) ahead := by
  by_cases quote : c = '"'
  · subst quote
    rfl
  by_cases backslash : c = '\\'
  · subst backslash
    rfl
  have special (d : Char) (same : c = d) (read : textAfter '"' content (Text.escape d ++ ahead) =
      textAfter '"' (d :: content) ahead) : textAfter '"' content (Text.escape c ++ ahead) =
        textAfter '"' (c :: content) ahead := by
    rw [same, read]
  unfold isPlain at plain
  simp only [Bool.or_eq_true, Bool.and_eq_true, decide_eq_true_eq, beq_iff_eq] at plain
  rcases plain with (((⟨low, high⟩ | newline) | tab) | ret) | nul
  · rw [Text.escape_eq_self low high quote backslash, List.singleton_append, textAfter.eq_def]
    dsimp only
    rw [if_neg quote, if_neg backslash]
  · exact special _ newline rfl
  · exact special _ tab rfl
  · exact special _ ret rfl
  · exact special _ nul rfl

/-- A text is read back if each of its characters is read back from its written form. -/
theorem textAfter_flatMap {quote : Char} {form : Char → List Char} {cs : List Char}
    (each : ∀ c ∈ cs, ∀ content ahead,
      textAfter quote content (form c ++ ahead) = textAfter quote (c :: content) ahead)
    (content rest : List Char) :
    textAfter quote content (cs.flatMap form ++ quote :: rest) =
      .ok (String.ofList (content.reverse ++ cs)) rest := by
  induction cs generalizing content with
  | nil =>
    rw [List.append_nil, List.flatMap_nil, List.nil_append, textAfter.eq_def]
    exact if_pos rfl
  | cons c cs ih =>
    rw [List.flatMap_cons, List.append_assoc, each c List.mem_cons_self,
      ih fun d mem => each d (List.mem_cons_of_mem _ mem), List.reverse_cons, List.append_assoc]
    rfl

/-- A quoted text is read back. -/
theorem text_ok {s : String} (plain : ∀ c ∈ s.toList, isPlain c = true) (rest : List Char) :
    text ((Text.quote s).toList ++ rest) = .ok s rest := by
  have content := textAfter_flatMap (fun c mem => textAfter_escape (plain c mem)) [] rest
  have shape : (Text.quote s).toList ++ rest =
      '"' :: (s.toList.flatMap Text.escape ++ '"' :: rest) := by
    rw [Text.quote, String.toList_ofList, Text.quoteList, List.cons_append, List.append_assoc]
    rfl
  rw [shape, text, bind_ok (satisfy_ok rfl _), content, List.reverse_nil, List.nil_append,
    String.ofList_toList]

end Grammar

end FormLogic
