import FormLogic.Eval.Operators
import FormLogic.Proofs.Heap.Equality

/-!
# `FormLogic.Proofs.Eval.LooseEquality` — loose equality by rules

Loose equality brings both operands into a common form and compares them once. It can also be told by
rules that change one operand at a time: a truth value becomes a number, a container that meets
something else becomes its text, and what is left is compared as numbers or by identity. It makes no
difference which rule is used first, and each rule has a counterpart for the operands exchanged.

## Contents
- `LooselyEqual`: the rules; `LooselyEqual.swap`, `LooselyEqual.of_same`: exchanged and identical
  operands.
- `looselyEqual_iff`: the rules and the comparison agree.
- `EqualityOperators`, `equality_operators`: what the four operators say of two values.
-/

namespace FormLogic

namespace Value

/-- Whether the value is a truth value. -/
def isBool : Value → Bool
  | .bool _ => true
  | _ => false

/-- Whether one of the values is a number and the other one a text. -/
def areMixed : Value → Value → Bool
  | .number _, .string _ | .string _, .number _ => true
  | _, _ => false

theorem areMixed_comm (v w : Value) : v.areMixed w = w.areMixed v := by
  cases v <;> cases w <;> rfl

/-- The values are not changed any more before they are compared. -/
structure AreSettled (v w : Value) : Prop where
  present : (v.isNullish || w.isNullish) = false
  noBool : (v.isBool || w.isBool) = false
  containers : v.isContainer = w.isContainer
  apart : v.areMixed w = false

end Value

namespace Heap

variable {h : Heap} {v w : Value} {answer : Bool}

/-- The answers of loose equality by rules, which can be used in any order. -/
inductive LooselyEqual (h : Heap) : Value → Value → Bool → Prop where
  /-- `undefined` and `null` are equal to each other, and to nothing else. -/
  | nullish {v w : Value} (either : (v.isNullish || w.isNullish) = true) :
      LooselyEqual h v w (v.isNullish && w.isNullish)
  /-- A number and a text are compared as numbers. -/
  | numbers {v w : Value} (mixed : v.areMixed w = true) :
      LooselyEqual h v w (h.number v == h.number w)
  /-- A truth value counts as a number. -/
  | boolLeft {b : Bool} {w : Value} {answer : Bool}
      (rest : LooselyEqual h (.number (h.number (.bool b))) w answer) :
      LooselyEqual h (.bool b) w answer
  | boolRight {v : Value} {b : Bool} {answer : Bool}
      (rest : LooselyEqual h v (.number (h.number (.bool b))) answer) :
      LooselyEqual h v (.bool b) answer
  /-- A container that is compared with something else counts as its text. -/
  | textLeft {r : Ref} {w : Value} {answer : Bool} (other : w.isContainer = false)
      (rest : LooselyEqual h (h.primitive (.container r)) w answer) :
      LooselyEqual h (.container r) w answer
  | textRight {v : Value} {r : Ref} {answer : Bool} (other : v.isContainer = false)
      (rest : LooselyEqual h v (h.primitive (.container r)) answer) :
      LooselyEqual h v (.container r) answer
  /-- In the end identity decides. -/
  | identity {v w : Value} (settled : v.AreSettled w) : LooselyEqual h v w (v.same w)

namespace LooselyEqual

/-- Each rule has a counterpart for the operands exchanged. -/
theorem swap (loosely : h.LooselyEqual v w answer) : h.LooselyEqual w v answer := by
  induction loosely with
  | nullish either =>
    rw [Bool.and_comm]
    rw [Bool.or_comm] at either
    exact .nullish either
  | numbers mixed =>
    rw [BEq.comm]
    rw [Value.areMixed_comm] at mixed
    exact .numbers mixed
  | boolLeft _ ih => exact .boolRight ih
  | boolRight _ ih => exact .boolLeft ih
  | textLeft other _ ih => exact .textRight other ih
  | textRight other _ ih => exact .textLeft other ih
  | identity settled =>
    obtain ⟨present, noBool, containers, apart⟩ := settled
    rw [Bool.or_comm] at present noBool
    rw [Value.areMixed_comm] at apart
    rw [Value.same_comm]
    exact .identity ⟨present, noBool, containers.symm, apart⟩

/-- Identical values are loosely equal. -/
theorem of_same (same : v.same w = true) : h.LooselyEqual v w true := by
  rcases Value.same_iff.mp same with ⟨x, y, rfl, rfl, _⟩ | ⟨_, rfl⟩
  · exact same ▸ .identity ⟨rfl, rfl, rfl, rfl⟩
  · cases v with
    | undefined | null => exact .nullish rfl
    | bool b =>
      have one : ∀ b : Bool, ((if b then 1 else 0 : Float) == if b then 1 else 0) = true := by decide
      exact .boolLeft (.boolRight (one b ▸ .identity ⟨rfl, rfl, rfl, rfl⟩))
    | number _ | string _ | container _ | foreign _ =>
      exact same ▸ .identity ⟨rfl, rfl, rfl, rfl⟩

end LooselyEqual

/-! ## The rules and the comparison -/

theorem withoutBool_eq_self (noBool : v.isBool = false) : withoutBool v = v := by
  cases v with
  | bool b => cases noBool
  | _ => rfl

theorem withoutContainer_eq_self (leaf : v.isContainer = false) : h.withoutContainer v = v := by
  unfold withoutContainer
  rw [leaf]
  rfl

/-- Identity decides, unless a number meets a text. -/
theorem scalarEqual_eq_same (apart : v.areMixed w = false) : h.scalarEqual v w = v.same w := by
  cases v with
  | number x =>
    cases w with
    | string s => cases apart
    | _ => rfl
  | string s =>
    cases w with
    | number x => cases apart
    | _ => rfl
  | _ => rfl

/-- Values that are settled are compared as they are. -/
theorem looseEqual_of_settled (settled : v.AreSettled w) : h.looseEqual v w = v.same w := by
  obtain ⟨present, noBool, containers, apart⟩ := settled
  obtain ⟨plain, plain'⟩ := Bool.or_eq_false_iff.mp noBool
  unfold looseEqual
  rw [present, withoutBool_eq_self plain, withoutBool_eq_self plain']
  dsimp only
  rw [if_neg Bool.false_ne_true, containers, Bool.and_self]
  split
  · rfl
  · next leaf =>
    have leaf : w.isContainer = false := Bool.eq_false_iff.mpr leaf
    rw [withoutContainer_eq_self leaf, withoutContainer_eq_self (containers.trans leaf)]
    exact scalarEqual_eq_same apart

/-- A container that meets something else is compared as its text. -/
theorem looseEqual_text_left {r : Ref} (other : w.isContainer = false) :
    h.looseEqual (.container r) w = h.looseEqual (h.primitive (.container r)) w := by
  cases w with
  | container s => cases other
  | _ => rfl

theorem looseEqual_text_right {r : Ref} (other : v.isContainer = false) :
    h.looseEqual v (.container r) = h.looseEqual v (h.primitive (.container r)) := by
  cases v with
  | container s => cases other
  | _ => rfl

/-- The comparison gives the answer of the rules, in whatever order they are used. -/
theorem LooselyEqual.looseEqual_eq (loosely : h.LooselyEqual v w answer) :
    h.looseEqual v w = answer := by
  induction loosely with
  | nullish either => exact if_pos either
  | @numbers v w mixed =>
    cases v with
    | number x =>
      cases w with
      | string s => rfl
      | _ => cases mixed
    | string s =>
      cases w with
      | number x => rfl
      | _ => cases mixed
    | _ => cases mixed
  | boolLeft _ ih => exact ih
  | boolRight _ ih => exact ih
  | textLeft other _ ih => exact (looseEqual_text_left other).trans ih
  | textRight other _ ih => exact (looseEqual_text_right other).trans ih
  | identity settled => exact looseEqual_of_settled settled

/-- Values that are neither nullish nor truth values have an answer: only containers change. -/
theorem exists_looselyEqual_of_noBool (present : (v.isNullish || w.isNullish) = false)
    (noBool : (v.isBool || w.isBool) = false) : ∃ answer, h.LooselyEqual v w answer := by
  have alike : ∀ {v w : Value}, (v.isNullish || w.isNullish) = false →
      (v.isBool || w.isBool) = false → v.isContainer = w.isContainer →
      ∃ answer, h.LooselyEqual v w answer := by
    intro v w present noBool containers
    cases mixed : v.areMixed w with
    | true => exact ⟨_, .numbers mixed⟩
    | false => exact ⟨_, .identity ⟨present, noBool, containers, mixed⟩⟩
  rcases v.leaf_or_container with leaf | ⟨r, rfl⟩
  · rcases w.leaf_or_container with leaf' | ⟨s, rfl⟩
    · exact alike present noBool (leaf.trans leaf'.symm)
    · obtain ⟨answer, rest⟩ := alike (w := h.primitive (.container s)) present noBool leaf
      exact ⟨answer, .textRight leaf rest⟩
  · rcases w.leaf_or_container with leaf' | ⟨s, rfl⟩
    · obtain ⟨answer, rest⟩ := alike (v := h.primitive (.container r)) present noBool leaf'.symm
      exact ⟨answer, .textLeft leaf' rest⟩
    · exact alike present noBool rfl

theorem isNullish_withoutBool (v : Value) : (withoutBool v).isNullish = v.isNullish := by
  cases v <;> rfl

theorem isBool_withoutBool (v : Value) : (withoutBool v).isBool = false := by
  cases v <;> rfl

theorem LooselyEqual.of_withoutBool (loosely : h.LooselyEqual (withoutBool v) w answer) :
    h.LooselyEqual v w answer := by
  cases v with
  | bool b => exact .boolLeft loosely
  | _ => exact loosely

/-- The rules have an answer for any two values. -/
theorem exists_looselyEqual (h : Heap) (v w : Value) : ∃ answer, h.LooselyEqual v w answer := by
  cases present : v.isNullish || w.isNullish with
  | true => exact ⟨_, .nullish present⟩
  | false =>
    rw [← isNullish_withoutBool v, ← isNullish_withoutBool w] at present
    have noBool : ((withoutBool v).isBool || (withoutBool w).isBool) = false := by
      rw [isBool_withoutBool, isBool_withoutBool]
      rfl
    obtain ⟨answer, rest⟩ := exists_looselyEqual_of_noBool (h := h) present noBool
    exact ⟨answer, rest.of_withoutBool.swap.of_withoutBool.swap⟩

theorem looselyEqual_iff : h.LooselyEqual v w answer ↔ h.looseEqual v w = answer := by
  refine ⟨LooselyEqual.looseEqual_eq, ?_⟩
  rintro rfl
  obtain ⟨answer, loosely⟩ := exists_looselyEqual h v w
  rwa [loosely.looseEqual_eq]

/-! ## The operators -/

/-- What the equality operators say of two values: whether they are loosely equal, and whether they
are identical. -/
structure EqualityOperators (h : Heap) (v w : Value) (loose strict : Bool) : Prop where
  rules : h.LooselyEqual v w loose
  eq : h.binary .eq v w = .bool loose
  ne : h.binary .ne v w = .bool !loose
  strictEq : h.binary .strictEq v w = .bool strict
  strictNe : h.binary .strictNe v w = .bool !strict
  /-- The operands can be exchanged. -/
  swapped : h.binary .eq w v = .bool loose
  /-- Identical values are loosely equal. -/
  contained : strict = true → loose = true

/-- **Loose equality is symmetric and contains identity**, and the negated operators say the
opposite. -/
theorem equality_operators (h : Heap) (v w : Value) :
    ∃ loose strict, h.EqualityOperators v w loose strict := by
  have rules : h.LooselyEqual v w (h.looseEqual v w) := looselyEqual_iff.mpr rfl
  have swapped : h.looseEqual w v = h.looseEqual v w := rules.swap.looseEqual_eq
  refine ⟨h.looseEqual v w, v.same w, ?_⟩
  exact
    { rules
      eq := rfl
      ne := rfl
      strictEq := rfl
      strictNe := rfl
      swapped := congrArg Value.bool swapped
      contained := fun same => (LooselyEqual.of_same same).looseEqual_eq }

end Heap

end FormLogic
