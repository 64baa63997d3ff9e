import FormLogic.Proofs.Eval.Callback
import FormLogic.Proofs.Heap.Index
import FormLogic.Proofs.Number.Count
import FormLogic.Proofs.Text.Units

/-!
# `FormLogic.Proofs.Eval.Text` — comparing and searching texts

Programs see a text as its units: two texts are ordered by them, and a position of a text counts
them. The comparisons all ask the same order, so they agree with each other and with identity. The
methods all find the same position, the least one at which the units of their argument occur.

## Contents
- `BinaryOp.asks`, `binary_texts`: what a comparison asks of the order of two texts.
- `TextOrder`, `text_order`: the comparisons order texts totally.
- `TextMethods`, `TextReads`: the methods that search a text, and reading its units and its length.
- `text_positions`: both count in units.
-/

namespace FormLogic

/-! ## The order of texts -/

/-- The operators that compare two texts. -/
def comparisons : List BinaryOp :=
  [.lt, .le, .gt, .ge, .strictEq]

/-- What a comparison asks of the order of its operands. -/
def BinaryOp.asks : BinaryOp → Ordering → Bool
  | .lt, o => o.isLT
  | .le, o => o.isLE
  | .gt, o => o.isGT
  | .ge, o => o.isGE
  | .strictEq, o => o.isEq
  | _, _ => false

namespace Heap

variable {h : Heap} {op : BinaryOp}

/-- The operator holds of the two texts. -/
def Confirms (h : Heap) (op : BinaryOp) (s t : String) : Prop :=
  h.binary op (.string s) (.string t) = .bool true

/-- Each comparison of two texts asks the order of their units. -/
theorem binary_texts (comparison : op ∈ comparisons) (s t : String) :
    h.binary op (.string s) (.string t) = .bool (op.asks (Text.compare16 s t)) := by
  have identical : (s == t) = (Text.compare16 s t).isEq := by
    rw [Bool.eq_iff_iff, beq_iff_eq, Ordering.isEq_iff_eq_eq, Text.compare16_eq_iff]
  simp only [comparisons, List.mem_cons, List.not_mem_nil, or_false] at comparison
  rcases comparison with rfl | rfl | rfl | rfl | rfl
  · rfl
  · rfl
  · rfl
  · rfl
  · exact congrArg Value.bool identical

theorem confirms_iff (comparison : op ∈ comparisons) {s t : String} :
    h.Confirms op s t ↔ op.asks (Text.compare16 s t) = true := by
  unfold Confirms
  rw [binary_texts comparison, Value.bool.injEq]

/-- The comparisons of texts are those of one total order. -/
structure TextOrder (h : Heap) : Prop where
  answers : ∀ op ∈ comparisons, ∀ s t, ∃ b, h.binary op (.string s) (.string t) = .bool b
  /-- One text is below the other one, or they are identical, or it is above. -/
  one : ∀ s t, ∃! op, op ∈ [BinaryOp.lt, .strictEq, .gt] ∧ h.Confirms op s t
  identical : ∀ s t, h.Confirms .strictEq s t ↔ s = t
  atMost : ∀ s t, h.Confirms .le s t ↔ h.Confirms .lt s t ∨ h.Confirms .strictEq s t
  atLeast : ∀ s t, h.Confirms .ge s t ↔ h.Confirms .gt s t ∨ h.Confirms .strictEq s t
  swapped : ∀ s t, h.Confirms .lt s t ↔ h.Confirms .gt t s
  trans : ∀ r s t, h.Confirms .lt r s → h.Confirms .lt s t → h.Confirms .lt r t

/-- **Texts are totally ordered**, and the order agrees with identity. -/
theorem text_order (h : Heap) : h.TextOrder where
  answers := fun op comparison s t => ⟨_, binary_texts comparison s t⟩
  one := by
    intro s t
    have confirmed : ∀ op ∈ [BinaryOp.lt, .strictEq, .gt],
        (h.Confirms op s t ↔ op.asks (Text.compare16 s t) = true) := by
      intro op among
      apply confirms_iff
      revert op
      decide
    -- each of the three orders is what exactly one of these operators asks for
    have only : ∀ o : Ordering, ∃ op ∈ [BinaryOp.lt, .strictEq, .gt], op.asks o = true ∧
        ∀ op' ∈ [BinaryOp.lt, .strictEq, .gt], op'.asks o = true → op' = op := by
      decide
    obtain ⟨op, among, asked, unique⟩ := only (Text.compare16 s t)
    refine ⟨op, ⟨among, (confirmed op among).mpr asked⟩, ?_⟩
    rintro op' ⟨among', held⟩
    exact unique op' among' ((confirmed op' among').mp held)
  identical := by
    intro s t
    rw [confirms_iff (by decide), ← Text.compare16_eq_iff]
    exact Ordering.isEq_iff_eq_eq
  atMost := by
    intro s t
    rw [confirms_iff (by decide), confirms_iff (by decide), confirms_iff (by decide)]
    cases Text.compare16 s t <;> decide
  atLeast := by
    intro s t
    rw [confirms_iff (by decide), confirms_iff (by decide), confirms_iff (by decide)]
    cases Text.compare16 s t <;> decide
  swapped := by
    intro s t
    rw [confirms_iff (by decide), confirms_iff (by decide), Text.compare16_swap s t]
    cases Text.compare16 s t <;> decide
  trans := by
    intro r s t below above
    rw [confirms_iff (by decide)] at below above ⊢
    have first := Ordering.isLT_iff_eq_lt.mp below
    have second := Ordering.isLT_iff_eq_lt.mp above
    exact Ordering.isLT_iff_eq_lt.mpr (Text.compare16_trans first second)

/-- A character with a pair of units is below one with a single unit, although its number is
larger. -/
example (h : Heap) : h.Confirms .lt "😀" "\uFFFD" ∧ '\uFFFD' < '😀' := by
  exact ⟨rfl, by decide⟩

end Heap

/-! ## Positions of texts -/

/-- The number of a position, `-1` if there is none. -/
def Value.ofPosition : Option Nat → Value
  | some i => .ofNat i
  | none => .number (-1)

theorem Value.ofPosition_same_minus_one (found : Option Nat) :
    (Value.ofPosition found).same (.number (-1)) = !found.isSome := by
  cases found with
  | none => rfl
  | some i => exact Number.beq_ofNat_minus_one i

theorem Value.ofPosition_same_zero (found : Option Nat) :
    (Value.ofPosition found).same (.ofNat 0) = (found == some 0) := by
  cases found with
  | none => rfl
  | some i => exact Number.beq_ofNat_zero i

namespace Eval

open Text (units OccursAt charOfUnit)

/-- What calling the methods that look for the text `t` in the text `s` comes to, if `m` is the
machine that has found both. -/
structure TextMethods (s t : String) (index : Value) (m : Machine)
    (call : (method : String) → Except EvalError Value × Machine) : Prop where
  indexOf : call "indexOf" = (.ok index, m)
  /-- The index is the least position from which the units of `t` occur, or there is none. -/
  least : (∃ i, index = .ofNat i ∧ IsLeast {j | OccursAt t.toList s.toList j} i) ∨
    index = .number (-1) ∧ ∀ j, ¬ OccursAt t.toList s.toList j
  includes : call "includes" = (.ok (.bool !index.same (.number (-1))), m)
  startsWith : call "startsWith" = (.ok (.bool (index.same (.ofNat 0))), m)
  endsWith : call "endsWith" = (.ok (.bool (decide (units t.toList <:+ units s.toList))), m)

/-- What reading the properties of the text `s` comes to, if `m` is the machine that has found the
text. -/
structure TextReads (s : String) (m : Machine)
    (property : (key : Key Expr) → Except EvalError Value × Machine) : Prop where
  length : property (.named "length") = (.ok (.ofNat (units s.toList).length), m)
  /-- Below the length there is a unit at each position. -/
  inside : ∀ {key : Expr} {i : Nat} {m' : Machine}, value key m = (.ok (.ofNat i), m') →
    i < Heap.indexBound → ∀ below : i < (units s.toList).length,
      property (.computed key) =
        (.ok (.string (String.singleton (charOfUnit (units s.toList)[i]))), m')
  outside : ∀ {key : Expr} {i : Nat} {m' : Machine}, value key m = (.ok (.ofNat i), m') →
    i < Heap.indexBound → (units s.toList).length ≤ i →
      property (.computed key) = (.ok .undefined, m')

section

variable {base arg key : Expr} {args : List Argument} {m m₁ m₂ : Machine} {s t : String} {v : Value}
  {i : Nat}

/-- An argument that has a value is no callback. -/
theorem firstArgument_of_value (given : value arg m = (.ok v, m₁)) :
    firstArgument (arguments [arg]) m = (.ok v, m₁) := by
  cases arg with
  | arrow params body =>
    unfold value at given
    rw [chain_arrow] at given
    cases given
  | _ => exact given

/-- The methods that look for a text go on with their argument. -/
theorem textArgument (given : firstArgument args m = (.ok (.string t), m₁))
    (answer : String → Eval Value) :
    (do answer (← text (← firstArgument args))) m = answer t m₁ := by
  rw [bind_apply, given]
  rfl

theorem textMethods (given : firstArgument args m = (.ok (.string t), m₁)) :
    TextMethods s t (.ofPosition (Text.indexOf? s t)) m₁ fun method =>
      textMethod s method args m where
  indexOf := by
    refine (textArgument given fun needle =>
      match Text.indexOf? s needle with
      | some i => return .ofNat i
      | none => return .number (-1)).trans ?_
    cases Text.indexOf? s t <;> rfl
  least := by
    have finds := Text.finds_indexOf s t
    generalize Text.indexOf? s t = found at finds ⊢
    cases finds with
    | found least => exact .inl ⟨_, rfl, least⟩
    | missing nowhere => exact .inr ⟨rfl, nowhere⟩
  includes := by
    rw [Value.ofPosition_same_minus_one, Bool.not_not]
    exact textArgument given fun needle => return .bool (Text.indexOf? s needle).isSome
  startsWith := by
    rw [Value.ofPosition_same_zero, ← Text.startsWith_eq]
    exact textArgument given fun needle => return .bool (Text.startsWith s needle)
  endsWith := by
    rw [← Text.endsWith_eq]
    exact textArgument given fun needle => return .bool (Text.endsWith s needle)

theorem value_unit (receiver : value base m = (.ok (.string s), m₁))
    (known : value key m₁ = (.ok (.ofNat i), m₂)) (bounded : i < Heap.indexBound) (optional : Bool) :
    value (.member base (.computed key) optional) m =
      (.ok (((Text.unitAt? s i).map .string).getD .undefined), m₂) := by
  have named : keyValue (.computed key) m₁ = (.ok (.ofNat i), m₂) := by
    unfold keyValue
    exact known
  rw [value_member receiver rfl named]
  show (m₂.heap.readProperty (.string s) (.ofNat i), m₂) = _
  unfold Heap.readProperty
  dsimp only
  rw [Heap.index?_ofNat bounded]

theorem textReads (receiver : value base m = (.ok (.string s), m₁)) (optional : Bool) :
    TextReads s m₁ fun key => value (.member base key optional) m where
  length := (value_member (k := .string "length") receiver rfl rfl).trans rfl
  inside := by
    intro key i m' known bounded below
    have unit : Text.unitAt? s i = some (String.singleton (charOfUnit (units s.toList)[i])) := by
      unfold Text.unitAt?
      rw [List.getElem?_eq_getElem below]
      rfl
    rw [value_unit receiver known bounded, unit]
    rfl
  outside := by
    intro key i m' known bounded beyond
    have none : Text.unitAt? s i = none := by
      unfold Text.unitAt?
      rw [List.getElem?_eq_none beyond]
      rfl
    rw [value_unit receiver known bounded, none]
    rfl

end

/-- **Positions of texts count units.** A text is found at the least position from which its units
occur, and the other methods agree with this position; the length is the number of units, and there
is something at each position below it, and nothing behind. -/
theorem text_positions {base arg : Expr} {m m₁ m₂ : Machine} {s t : String}
    (receiver : value base m = (.ok (.string s), m₁)) (given : value arg m₁ = (.ok (.string t), m₂))
    (optional : Bool) :
    (∃ index, TextMethods s t index m₂ fun method =>
        value (.call (.member base (.named method) optional) [arg]) m) ∧
      TextReads s m₁ fun key => value (.member base key optional) m := by
  constructor
  · refine ⟨.ofPosition (Text.indexOf? s t), ?_⟩
    have called : (fun method => value (.call (.member base (.named method) optional) [arg]) m) =
        fun method => textMethod s method (arguments [arg]) m₁ := by
      funext method
      rw [value_callMember receiver rfl rfl]
      rfl
    rw [called]
    exact textMethods (firstArgument_of_value given)
  · exact textReads receiver optional

/-- A character with a pair of units is found behind the one before it, and the halves of the pair
are read one by one. -/
theorem text_positions_pair :
    let m : Machine := ⟨⟨#[]⟩, [("data", .string "a😀b"), ("x", .string "😀")]⟩
    (∃ index, TextMethods "a😀b" "😀" index m fun method =>
        value (.call (.member (.ident "data") (.named method) false) [.ident "x"]) m) ∧
      TextReads "a😀b" m (fun key => value (.member (.ident "data") key false) m) ∧
      value (.call (.member (.ident "data") (.named "indexOf") false) [.ident "x"]) m =
        (.ok (.ofNat 1), m) ∧
      value (.member (.ident "data") (.computed (.literal (.number 2))) false) m =
        (.ok (.string "\uFFFD"), m) := by
  -- the machine gets no name, since evaluating would stop at it
  exact
    have positions := text_positions (by rfl : value (.ident "data") _ = (.ok (.string "a😀b"), _))
      (by rfl : value (.ident "x") _ = (.ok (.string "😀"), _)) false
    ⟨positions.1, positions.2, by rfl, by rfl⟩

end Eval

end FormLogic
