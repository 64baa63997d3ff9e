import FormLogic.Engine
import FormLogic.Proofs.Expr.Lexical
import FormLogic.Proofs.Expr.Triple

/-!
# `FormLogic.Proofs.Expr.Between` — places between the words of a text

Which slots an expression can see is found out by looking for their names as whole words in the
text. A reader of the text goes through it once, and what it starts with is not a word in itself: it
can be the rest of one. At a *place between words* it is not. Behind punctuation, white space or a
whole name there is such a place again, and a name that is read from one of them is a word of the
text if it looks like one.

## Contents
- `Between`: places of a text at which no word is cut; `Mentioned`: the words of a text.
- `token_between`, `name_mentioned`, `keyword_between`: tokens that lead from place to place.
- `number_within`, `text_within`: constants, which can end anywhere.
-/

namespace FormLogic

/-! ## Places between words -/

/-- A word does not run on from the characters in front into those ahead. -/
def Apart (front ahead : List Char) : Prop :=
  ∀ c d, front.getLast? = some c → ahead.head? = some d → isWordPart c = true →
    isWordPart d = false

/-- The characters ahead are the end of the text, and no word is cut there. -/
def Between (source ahead : List Char) : Prop :=
  ∃ front, front ++ ahead = source ∧ Apart front ahead

/-- The word, if it is one, is a word of the text. -/
def Mentioned (source : List Char) (word : String) : Prop :=
  (∀ c ∈ word.toList, isWordPart c = true) →
    word.toList ∈ source.splitOnP fun c => !isWordPart c

theorem toNat_of_isWordPart {c : Char} (part : isWordPart c = true) :
    48 ≤ c.toNat ∧ c.toNat ≤ 122 := by
  unfold isWordPart Char.isAlphanum Char.isAlpha Char.isUpper Char.isLower Char.isDigit at part
  simp only [Bool.or_eq_true, Bool.and_eq_true, decide_eq_true_eq, beq_iff_eq, ge_iff_le,
    UInt32.le_iff_toNat_le] at part
  show 48 ≤ c.val.toNat ∧ c.val.toNat ≤ 122
  rcases part with ((⟨low, high⟩ | ⟨low, high⟩) | ⟨low, high⟩) | rfl
  · exact ⟨Nat.le_trans (by decide) low, Nat.le_trans high (by decide)⟩
  · exact ⟨Nat.le_trans (by decide) low, Nat.le_trans high (by decide)⟩
  · exact ⟨low, Nat.le_trans high (by decide)⟩
  · decide

/-- White space is part of no word. -/
theorem isWordPart_of_isBlank {c : Char} (blank : Text.isBlank c = true) : isWordPart c = false := by
  cases part : isWordPart c with
  | false => rfl
  | true =>
    obtain ⟨low, high⟩ := toNat_of_isWordPart part
    obtain ⟨range, mem, inside⟩ := Text.Ranges.contains_iff.mp blank
    simp only [Text.blankRanges, List.mem_cons, List.not_mem_nil, or_false] at mem
    rcases mem with rfl | rfl | rfl | rfl | rfl | rfl | rfl | rfl | rfl | rfl <;> omega

/-- What is part of a word is part of a name. -/
theorem isNameRest_of_isWordPart {c : Char} (part : isWordPart c = true) :
    Grammar.isNameRest c = true := by
  unfold isWordPart at part
  unfold Grammar.isNameRest
  rw [part, Bool.true_or]

namespace Between

variable {source ahead : List Char}

theorem suffix (between : Between source ahead) : ahead <:+ source :=
  let ⟨front, same, _⟩ := between
  ⟨front, same⟩

theorem start (source : List Char) : Between source source :=
  ⟨[], rfl, fun _ _ last => nomatch last⟩

/-- Behind a character that is part of no word. -/
theorem behind {c : Char} (within : c :: ahead <:+ source) (other : isWordPart c = false) :
    Between source ahead := by
  obtain ⟨front, rfl⟩ := within
  refine ⟨front ++ [c], by rw [List.append_assoc, List.singleton_append], ?_⟩
  intro d _ last _ part
  rw [List.getLast?_concat] at last
  cases last
  exact absurd part (by rw [other]; exact Bool.false_ne_true)

/-- In front of a character that is part of no word. -/
theorem ahead_of (within : ahead <:+ source) (other : ∀ c, ahead.head? = some c →
    isWordPart c = false) : Between source ahead := by
  obtain ⟨front, same⟩ := within
  exact ⟨front, same, fun _ d _ first _ => other d first⟩

/-- White space can be skipped. -/
theorem dropBlank (between : Between source ahead) :
    Between source (ahead.dropWhile Text.isBlank) := by
  induction ahead with
  | nil => exact between
  | cons c ahead ih =>
    rw [List.dropWhile_cons]
    split
    · next blank => exact ih (behind between.suffix (isWordPart_of_isBlank blank))
    · exact between

end Between

/-- A word of which the text cuts none at its two ends is one of its words. -/
theorem mem_splitOnP {α : Type} {p : α → Bool} {front word rest : List α}
    (whole : ∀ a ∈ word, p a = false) (before : ∀ a, front.getLast? = some a → p a = true)
    (behind : ∀ a, rest.head? = some a → p a = true) :
    word ∈ (front ++ (word ++ rest)).splitOnP p := by
  have ends : word ∈ (word ++ rest).splitOnP p := by
    cases rest with
    | nil =>
      rw [List.append_nil, List.splitOnP_eq_singleton whole]
      exact List.mem_singleton_self word
    | cons a rest =>
      rw [List.splitOnP_append_cons_of_forall_mem whole a (behind a rfl)]
      exact List.mem_cons_self
  rcases List.eq_nil_or_concat front with rfl | ⟨front, a, rfl⟩
  · exact ends
  · rw [List.concat_eq_append] at before ⊢
    rw [List.append_assoc, List.singleton_append,
      List.splitOnP_append_cons _ _ (before a List.getLast?_concat)]
    exact List.mem_append_right _ ends

namespace Grammar

open FormLogic.Parser

variable {source : List Char}

/-! ## Tokens -/

/-- Punctuation, of which the last character is part of no word, leaves a place between words. -/
theorem token_between {text : String} (other : text.toList.getLast?.map isWordPart = some false) :
    Triple (· <:+ source) (token text) fun _ => Between source := by
  unfold token
  refine .bind (Q := fun _ => (· <:+ source)) (.blank fun cs within => ?_) fun _ => ?_
  · exact (List.dropWhile_suffix _).trans within
  · refine .literal fun cs within => ?_
    obtain ⟨c, last, part⟩ := Option.map_eq_some_iff.mp other
    obtain ⟨front, split⟩ := List.getLast?_eq_some_iff.mp last
    rw [split, List.append_assoc] at within
    exact .behind ((List.suffix_append front _).trans within) part

theorem char_between {c : Char} (other : isWordPart c = false) :
    Triple (· <:+ source) (char c) fun _ => Between source := by
  refine .satisfy fun d cs within same => ?_
  obtain rfl : d = c := beq_iff_eq.mp same
  exact .behind within other

theorem blank_between : Triple (Between source) blank fun _ => Between source :=
  .blank fun _ between => between.dropBlank

/-- What is read as a name is one. -/
theorem name_named {P : List Char → Prop} : Triple P name fun w _ => isName w = true := by
  unfold name
  refine .bind (Q := fun first _ => isNameStart first = true ∧ True)
    (.satisfy fun _ _ _ start => ⟨start, trivial⟩) fun first => .fact fun start => ?_
  refine .bind (Q := fun word _ => word.all isNameRest = true) (.span fun cs _ => ?_) fun word => ?_
  · exact List.all_takeWhile
  · refine .pure fun _ others => ?_
    unfold isName
    rw [String.toList_ofList]
    exact Bool.and_eq_true_iff.mpr ⟨start, others⟩

/-- A name that starts between words ends between words, so it is a word if it looks like one. -/
theorem name_mentioned :
    Triple (Between source) name fun word rest => Mentioned source word ∧ Between source rest := by
  unfold name
  refine .bind (Q := fun first rest => Between source (first :: rest))
    (.satisfy fun _ _ between _ => between) fun first => ?_
  refine .bind (Q := fun word rest => Between source (first :: (word ++ rest)) ∧
    ∀ c, rest.head? = some c → isWordPart c = false) (.span fun cs between => ?_) fun word => ?_
  · rw [List.takeWhile_append_dropWhile]
    -- the name ends before a character of no name, which is a character of no word
    refine ⟨between, fun c ahead => ?_⟩
    have stopped := List.head?_dropWhile_not isNameRest cs
    rw [ahead] at stopped
    cases part : isWordPart c with
    | false => rfl
    | true => simp [isNameRest_of_isWordPart part] at stopped
  · refine .pure fun rest ⟨between, stopped⟩ => ⟨fun whole => ?_, ?_⟩
    · obtain ⟨front, same, apart⟩ := between
      rw [String.toList_ofList] at whole ⊢
      rw [← same]
      show first :: word ∈ (front ++ ((first :: word) ++ rest)).splitOnP _
      -- no word is cut where the name starts, nor where it ends
      refine mem_splitOnP (fun c mem => ?_) (fun c last => ?_) fun c ahead => ?_
      · rw [whole c mem, Bool.not_true]
      · have := apart c first last rfl
        cases part : isWordPart c with
        | false => rfl
        | true =>
          rw [whole first List.mem_cons_self] at this
          cases this part
      · rw [stopped c ahead, Bool.not_false]
    · refine .ahead_of ?_ stopped
      exact (List.suffix_append (first :: word) rest).trans between.suffix

theorem keyword_between (word : String) :
    Triple (Between source) (keyword word) fun _ => Between source := by
  unfold keyword
  refine .bind name_mentioned fun found => ?_
  exact .ite (fun _ => .pure fun _ holds => holds.2) fun _ => .never fun cs => ⟨_, _, rfl⟩

/-! ## Constants -/

theorem char_within (c : Char) : Triple (· <:+ source) (char c) fun _ => (· <:+ source) :=
  .satisfy fun _ cs within _ => (List.suffix_cons _ cs).trans within

theorem digits_within : Triple (· <:+ source) (span1 Char.isDigit) fun _ => (· <:+ source) :=
  .span1 fun _ within => (List.dropWhile_suffix _).trans within

theorem number_within : Triple (· <:+ source) number fun _ => (· <:+ source) := by
  have one : ∀ good : Char → Bool, Triple (· <:+ source) (satisfy good) fun _ => (· <:+ source) :=
    fun good => .satisfy fun _ cs within _ => (List.suffix_cons _ cs).trans within
  have fraction : Triple (· <:+ source) fraction fun _ => (· <:+ source) :=
    .bind (char_within '.') fun _ => digits_within
  have exponent : Triple (· <:+ source) exponent fun _ => (· <:+ source) := by
    refine .bind (one _) fun _ => ?_
    refine .bind (Q := fun _ => (· <:+ source)) (.optional (one _) fun _ within => within) fun _ => ?_
    exact .bind digits_within fun _ => .pure fun _ within => within
  refine .bind digits_within fun _ => ?_
  refine .bind (Q := fun _ => (· <:+ source)) (.optional fraction fun _ within => within) fun _ => ?_
  refine .bind (Q := fun _ => (· <:+ source)) (.optional exponent fun _ within => within) fun _ => ?_
  exact .pure fun _ within => within

theorem textAfter_suffix {quote : Char} {content cs rest : List Char} {s : String}
    (ends : textAfter quote content cs = .ok s rest) : rest <:+ cs := by
  fun_induction textAfter quote content cs with
  | case1 => cases ends
  | case2 content cs =>
    cases ends
    exact List.suffix_cons _ _
  | case3 => cases ends
  | case4 _ _ _ _ ih =>
    exact (ih ends).trans ((List.suffix_cons _ _).trans (List.suffix_cons _ _))
  | case5 content c cs _ _ ih => exact (ih ends).trans (List.suffix_cons c cs)

theorem text_within : Triple (· <:+ source) text fun _ => (· <:+ source) := by
  unfold text
  refine .bind (Q := fun _ => (· <:+ source))
    (.satisfy fun _ cs within _ => (List.suffix_cons _ cs).trans within) fun quote => ?_
  intro cs s rest within ends
  exact (textAfter_suffix ends).trans within

end Grammar

end FormLogic
