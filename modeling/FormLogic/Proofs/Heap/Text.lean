import FormLogic.Heap.Coercion
import FormLogic.Proofs.Heap.Renaming
import Mathlib.Data.Fintype.Card

/-!
# `FormLogic.Proofs.Heap.Text` — texts and numbers do not see references

The text of a value is found by a recursion whose bound is the number of containers. The bound does
not show: a value that has a text under any bound has the same text under this one, because every
round but the last must give a text to a sequence that had none before. So related values have equal
texts although their heaps can differ in size.

## Contents
- `textWithin?_mono`, `text_of_within`: the bound does not show.
- `Heaps.text_eq`, `number_eq`, `primitive_eq`, `joined_eq`: coercions of related values are equal.
-/

namespace FormLogic

/-- Functions that agree on related elements agree on related lists. -/
theorem map_eq_of_forall₂ {α β γ : Type} {R : α → β → Prop} {f : α → γ} {g : β → γ}
    (agree : ∀ a b, R a b → f a = g b) {as : List α} {bs : List β}
    (related : List.Forall₂ R as bs) : as.map f = bs.map g := by
  induction related with
  | nil => rfl
  | cons pair _ ih => rw [List.map_cons, List.map_cons, agree _ _ pair, ih]

/-- The same for functions that can fail. -/
theorem mapM_eq_of_forall₂ {α β γ : Type} {R : α → β → Prop} {f : α → Option γ}
    {g : β → Option γ} (agree : ∀ a b, R a b → f a = g b) {as : List α} {bs : List β}
    (related : List.Forall₂ R as bs) : as.mapM f = bs.mapM g := by
  induction related with
  | nil => rfl
  | cons pair _ ih => rw [List.mapM_cons, List.mapM_cons, agree _ _ pair, ih]

/-- What is found under one map is found under a map that finds more. -/
theorem mapM_some_of_imp {α γ : Type} {f g : α → Option γ} {as : List α} {cs : List γ}
    (more : ∀ a ∈ as, ∀ c, f a = some c → g a = some c) (found : as.mapM f = some cs) :
    as.mapM g = some cs := by
  induction as generalizing cs with
  | nil => exact found
  | cons a rest ih =>
    rw [List.mapM_cons] at found ⊢
    cases first : f a with
    | none =>
      rw [first] at found
      cases found
    | some c =>
      cases others : rest.mapM f with
      | none =>
        rw [first, others] at found
        cases found
      | some ds =>
        rw [first, others] at found
        rw [more a List.mem_cons_self c first,
          ih (fun a mem => more a (List.mem_cons_of_mem _ mem)) others]
        exact found

namespace Heap

variable {h : Heap} {v : Value} {s : String}

/-! ## The bound does not show -/

theorem textWithin?_mapping {r : Ref} {fields : Fields Value} (source : h.cell r = .mapping fields)
    (n : Nat) : h.textWithin? (n + 1) (.container r) = some "[object Object]" := by
  unfold textWithin?
  simp only [source]

theorem textWithin?_sequence {r : Ref} {items : Array Value} (source : h.cell r = .sequence items)
    (n : Nat) : h.textWithin? (n + 1) (.container r) =
      (items.toList.mapM fun (item : Value) =>
        if item.isNullish then some "" else h.textWithin? n item).map (",".intercalate ·) := by
  conv_lhs => unfold textWithin?
  simp only [source]

/-- One more round finds what a round found before, if this holds of the rounds below. -/
theorem textWithin?_succ_of_imp {n m : Nat}
    (below : ∀ v s, h.textWithin? n v = some s → h.textWithin? m v = some s)
    (found : h.textWithin? (n + 1) v = some s) : h.textWithin? (m + 1) v = some s := by
  cases v with
  | container r =>
    cases source : h.cell r with
    | mapping fields =>
      rw [textWithin?_mapping source] at found ⊢
      exact found
    | sequence items =>
      rw [textWithin?_sequence source, Option.map_eq_some_iff] at found ⊢
      obtain ⟨texts, each, joined⟩ := found
      refine ⟨texts, mapM_some_of_imp (fun item _ text => ?_) each, joined⟩
      by_cases nullish : item.isNullish
      · rw [if_pos nullish, if_pos nullish]
        exact id
      · rw [if_neg nullish, if_neg nullish]
        exact below item text
  | _ => exact found

/-- A larger bound finds at least as much. -/
theorem textWithin?_mono {n m : Nat} (le : n ≤ m) (found : h.textWithin? n v = some s) :
    h.textWithin? m v = some s := by
  induction n generalizing m v s with
  | zero => cases found
  | succ n ih =>
    obtain ⟨m, rfl⟩ : ∃ k, m = k + 1 := ⟨m - 1, by omega⟩
    exact textWithin?_succ_of_imp (fun _ _ => ih (Nat.le_of_succ_le_succ le)) found

/-- A round gives no value a text that it had not had before. -/
def Settled (h : Heap) (n : Nat) : Prop :=
  ∀ v, (h.textWithin? (n + 1) v).isSome → (h.textWithin? n v).isSome

/-- Where a round is settled, what is found by the next one has been found already. -/
theorem Settled.eq_some {n : Nat} (settled : h.Settled n)
    (found : h.textWithin? (n + 1) v = some s) : h.textWithin? n v = some s := by
  obtain ⟨t, earlier⟩ := Option.isSome_iff_exists.mp (settled v (by rw [found]; rfl))
  rw [textWithin?_mono (Nat.le_succ n) earlier] at found
  exact earlier.trans found

/-- After a settled round nothing more is found. -/
theorem Settled.eq_some_of_within {n m : Nat} (settled : h.Settled n)
    (found : h.textWithin? m v = some s) : h.textWithin? n v = some s := by
  induction m generalizing v s with
  | zero => cases found
  | succ m ih => exact settled.eq_some (textWithin?_succ_of_imp (fun _ _ => ih) found)

/-- A round that is not settled gives a container its first text. -/
theorem exists_new_of_not_settled {n : Nat} (unsettled : ¬ h.Settled (n + 1)) :
    ∃ r, r < h.size ∧ (h.textWithin? (n + 2) (.container r)).isSome ∧
      ¬ (h.textWithin? (n + 1) (.container r)).isSome := by
  unfold Settled at unsettled
  push Not at unsettled
  obtain ⟨v, now, before⟩ := unsettled
  cases v with
  | container r =>
    refine ⟨r, ?_, now, before⟩
    by_contra outside
    -- a reference that dangles reads as an empty mapping, which has a text at once
    rw [textWithin?_mapping (cell_of_size_le (Nat.le_of_not_lt outside))] at before
    exact before rfl
  | _ => exact absurd rfl before

/-- Some round up to the number of containers is settled: otherwise each would give a text to a
container of its own. -/
theorem exists_settled (h : Heap) : ∃ n, n ≤ h.size + 1 ∧ h.Settled n := by
  by_contra none
  push Not at none
  -- each of the rounds from the second on would have a container that gets its text just then
  have new : ∀ i : Fin (h.size + 1), ∃ r : Fin h.size,
      (h.textWithin? (i + 2) (.container r.val)).isSome ∧
        ¬ (h.textWithin? (i + 1) (.container r.val)).isSome := by
    intro i
    obtain ⟨r, inside, now, before⟩ := exists_new_of_not_settled (none (i + 1) (by omega))
    exact ⟨⟨r, inside⟩, now, before⟩
  choose first now before using new
  have later : ∀ i j, i < j → first i ≠ first j := by
    intro i j less same
    -- a container that has its text keeps it, so it is not the first of a later round
    obtain ⟨s, found⟩ := Option.isSome_iff_exists.mp (now i)
    have : i.val + 2 ≤ j.val + 1 := by
      have := Fin.lt_def.mp less
      omega
    apply before j
    rw [← same, textWithin?_mono this found]
    rfl
  have injective : Function.Injective first := by
    intro i j same
    rcases lt_trichotomy i j with less | equal | less
    · exact absurd same (later i j less)
    · exact equal
    · exact absurd same.symm (later j i less)
  have := Fintype.card_le_of_injective first injective
  simp only [Fintype.card_fin] at this
  omega

/-- The text of a value is what any bound finds. -/
theorem text_of_within {n : Nat} (found : h.textWithin? n v = some s) : h.text v = s := by
  obtain ⟨m, le, settled⟩ := h.exists_settled
  unfold text
  rw [textWithin?_mono le (settled.eq_some_of_within found)]
  rfl

/-- A value for which no bound finds a text counts as empty. -/
theorem text_of_forall_none (none : ∀ n, h.textWithin? n v = none) : h.text v = "" := by
  unfold text
  rw [none]
  rfl

end Heap

namespace Renaming.Heaps

variable {ρ : Renaming} {h h' : Heap} {v w : Value}

/-! ## Coercions of related values -/

theorem textWithin?_eq (heaps : ρ.Heaps h h') (same : ρ.Values v w) (n : Nat) :
    h.textWithin? n v = h'.textWithin? n w := by
  induction n generalizing v w with
  | zero => rfl
  | succ n ih =>
    cases same with
    | @container r s paired =>
      rcases heaps.cell_cases paired with ⟨a, b, source, source', _⟩ | ⟨a, b, source, source', items⟩
      · rw [Heap.textWithin?_mapping source, Heap.textWithin?_mapping source']
      · rw [Heap.textWithin?_sequence source, Heap.textWithin?_sequence source']
        refine congrArg (Option.map _) (mapM_eq_of_forall₂ (fun item item' pair => ?_) items)
        rw [pair.isNullish_eq, ih pair]
    | _ => rfl

theorem text_eq (heaps : ρ.Heaps h h') (same : ρ.Values v w) : h.text v = h'.text w := by
  by_cases bounded : ∃ n s, h.textWithin? n v = some s
  · obtain ⟨n, s, found⟩ := bounded
    rw [Heap.text_of_within found]
    rw [heaps.textWithin?_eq same] at found
    rw [Heap.text_of_within found]
  · have none : ∀ n, h.textWithin? n v = none :=
      fun n => Option.eq_none_iff_forall_not_mem.mpr fun s found => bounded ⟨n, s, found⟩
    rw [Heap.text_of_forall_none none, Heap.text_of_forall_none fun n => by
      rw [← heaps.textWithin?_eq same, none]]

theorem number_eq (heaps : ρ.Heaps h h') (same : ρ.Values v w) : h.number v = h'.number w := by
  have texts := heaps.text_eq same
  cases same with
  | @container r s paired =>
    unfold Heap.number
    rcases heaps.cell_cases paired with ⟨a, b, source, source', _⟩ | ⟨a, b, source, source', _⟩
    · simp only [source, source']
    · simp only [source, source', texts]
  | _ => rfl

theorem primitive_eq (heaps : ρ.Heaps h h') (same : ρ.Values v w) :
    h.primitive v = h'.primitive w := by
  have texts := heaps.text_eq same
  cases same with
  | container _ => exact congrArg Value.string texts
  | foreign _ => exact congrArg Value.string texts
  | _ => rfl

theorem itemText_eq (heaps : ρ.Heaps h h') (same : ρ.Values v w) :
    h.itemText v = h'.itemText w := by
  unfold Heap.itemText
  rw [same.isNullish_eq, heaps.text_eq same]

theorem joined_eq (heaps : ρ.Heaps h h') (separator : String) {a b : Array Value}
    (same : List.Forall₂ ρ.Values a.toList b.toList) :
    h.joined separator a = h'.joined separator b := by
  have texts : a.toList.map h.itemText = b.toList.map h'.itemText :=
    map_eq_of_forall₂ (fun _ _ pair => heaps.itemText_eq pair) same
  unfold Heap.joined
  rw [texts]

end Renaming.Heaps

end FormLogic
