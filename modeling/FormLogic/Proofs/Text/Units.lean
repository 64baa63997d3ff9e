import FormLogic.Text.Units
import Mathlib.Order.Bounds.Basic

/-!
# `FormLogic.Proofs.Text.Units` — texts and their units

A character has one unit or a pair of them, and the second unit of a pair is of a kind that no
character begins with. So the units of one character are never the beginning of those of another
one, which makes a text known by its units; and where the units of a text occur in those of another
one, they begin between two of its characters. That is why texts can be compared, searched and cut
by characters although their positions count units.

## Contents
- `IsTrail`, `unitsOf_cases`: the second units of pairs; the units of a character.
- `units_prefix_iff`, `units_suffix_iff`, `units_injective`: beginnings, ends and equality by units.
- `exists_split`: a text can be cut before every unit that is not the second one of a pair.
- `OccursAt`, `Finds`: the positions of a text in another one, and the least of them; `finds_indexOf`:
  the search finds it.
- `compare16_eq_iff`, `compare16_swap`, `compare16_trans`: the order of texts.
-/

namespace FormLogic.Text

variable {c d : Char} {cs ds needle : List Char} {us vs : List Nat} {i j u : Nat}

/-! ## The units of a character -/

/-- The unit is the second one of a pair. -/
def IsTrail (u : Nat) : Prop :=
  0xDC00 ≤ u ∧ u < 0xE000

/-- A character has one unit, which is no half of a pair, or a pair of units. -/
theorem unitsOf_cases (c : Char) :
    (unitsOf c = [c.toNat] ∧ (c.toNat < 0xD800 ∨ 0xE000 ≤ c.toNat)) ∨
      ∃ x y, unitsOf c = [0xD800 + x, 0xDC00 + y] ∧ x < 0x400 ∧ y < 0x400 ∧
        c.toNat = 0x10000 + 0x400 * x + y := by
  have valid : c.toNat < 0xD800 ∨ 0xDFFF < c.toNat ∧ c.toNat < 0x110000 := c.valid
  unfold unitsOf
  by_cases small : c.toNat < 0x10000
  · rw [if_pos small]
    exact .inl ⟨rfl, by omega⟩
  · rw [if_neg small]
    exact .inr ⟨_, _, rfl, by omega, by omega, by omega⟩

/-- No character begins with the second unit of a pair. -/
theorem exists_unitsOf_eq_cons (c : Char) : ∃ u us, unitsOf c = u :: us ∧ ¬ IsTrail u := by
  unfold IsTrail
  obtain ⟨single, range⟩ | ⟨x, y, pair, high, -⟩ := unitsOf_cases c
  · exact ⟨_, _, single, by omega⟩
  · exact ⟨_, _, pair, by omega⟩

/-- Behind the first unit of a character only the second one of a pair can follow. -/
theorem isTrail_of_lt (later : 0 < i) (inside : i < (unitsOf c).length) :
    ∃ u, (unitsOf c).drop i = [u] ∧ IsTrail u := by
  obtain ⟨single, -⟩ | ⟨x, y, pair, -, low, -⟩ := unitsOf_cases c
  · rw [single, List.length_singleton] at inside
    omega
  · rw [pair] at inside ⊢
    obtain rfl : i = 1 := by
      simp only [List.length_cons, List.length_nil] at inside
      omega
    exact ⟨_, rfl, by unfold IsTrail; omega⟩

/-- The units of a character are no beginning of those of another one. -/
theorem unitsOf_append_inj (same : unitsOf c ++ us = unitsOf d ++ vs) : c = d ∧ us = vs := by
  have alike : unitsOf c = unitsOf d ∧ c.toNat = d.toNat := by
    obtain ⟨single, range⟩ | ⟨x, y, pair, high, low, code⟩ := unitsOf_cases c <;>
      obtain ⟨single', range'⟩ | ⟨x', y', pair', high', low', code'⟩ := unitsOf_cases d
    · rw [single, single'] at same ⊢
      have head := (List.cons.inj same).1
      exact ⟨congrArg (fun n => [n]) head, head⟩
    · rw [single, pair'] at same
      have head := (List.cons.inj same).1
      omega
    · rw [pair, single'] at same
      have head := (List.cons.inj same).1
      omega
    · rw [pair, pair'] at same ⊢
      obtain ⟨first, rest⟩ := List.cons.inj same
      have second := (List.cons.inj rest).1
      obtain rfl : x = x' := by omega
      obtain rfl : y = y' := by omega
      exact ⟨rfl, code.trans code'.symm⟩
  obtain ⟨equal, code⟩ := alike
  rw [equal] at same
  exact ⟨Char.toNat_inj.mp code, List.append_cancel_left same⟩

/-! ## The units of a text -/

@[simp]
theorem units_nil : units [] = [] :=
  rfl

theorem units_cons (c : Char) (cs : List Char) : units (c :: cs) = unitsOf c ++ units cs :=
  List.flatMap_cons

theorem units_append (cs ds : List Char) : units (cs ++ ds) = units cs ++ units ds :=
  List.flatMap_append

theorem drop_units_cons (c : Char) (cs : List Char) (j : Nat) :
    (units (c :: cs)).drop ((unitsOf c).length + j) = (units cs).drop j := by
  rw [units_cons, List.drop_length_add_append]

/-- No text begins with the second unit of a pair. -/
theorem not_isTrail_of_units_eq_cons (begins : units cs = u :: us) : ¬ IsTrail u := by
  cases cs with
  | nil => cases begins
  | cons c cs =>
    obtain ⟨v, vs, first, leads⟩ := exists_unitsOf_eq_cons c
    rw [units_cons, first] at begins
    exact (List.cons.inj begins).1 ▸ leads

theorem units_eq_nil_iff : units cs = [] ↔ cs = [] := by
  cases cs with
  | nil => exact iff_of_true rfl rfl
  | cons c cs =>
    obtain ⟨u, us, first, -⟩ := exists_unitsOf_eq_cons c
    rw [units_cons, first]
    exact iff_of_false nofun nofun

/-- A text begins with another one if its units do. -/
theorem units_prefix_iff : units cs <+: units ds ↔ cs <+: ds := by
  constructor
  · intro begins
    induction cs generalizing ds with
    | nil => exact List.nil_prefix
    | cons c cs ih =>
      obtain ⟨rest, whole⟩ := begins
      cases ds with
      | nil =>
        rw [units_nil, List.append_eq_nil_iff, units_eq_nil_iff] at whole
        cases whole.1
      | cons d ds =>
        rw [units_cons, units_cons, List.append_assoc] at whole
        obtain ⟨rfl, others⟩ := unitsOf_append_inj whole
        exact (List.prefix_cons_inj c).mpr (ih ⟨rest, others⟩)
  · rintro ⟨rest, rfl⟩
    exact ⟨units rest, (units_append cs rest).symm⟩

/-- A text is known by its units. -/
theorem units_injective (same : units cs = units ds) : cs = ds := by
  have begins : cs <+: ds := units_prefix_iff.mp (same ▸ List.prefix_rfl)
  have begins' : ds <+: cs := units_prefix_iff.mp (same ▸ List.prefix_rfl)
  exact begins.eq_of_length (Nat.le_antisymm begins.length_le begins'.length_le)

/-- A text can be cut before every unit that is not the second one of a pair. -/
theorem exists_split (found : (units cs).drop i = u :: us) (leads : ¬ IsTrail u) :
    ∃ before after, cs = before ++ after ∧ (units before).length = i := by
  induction cs generalizing i with
  | nil =>
    rw [units_nil, List.drop_nil] at found
    cases found
  | cons c cs ih =>
    rcases Nat.eq_zero_or_pos i with rfl | later
    · exact ⟨[], c :: cs, rfl, rfl⟩
    · by_cases inside : i < (unitsOf c).length
      · -- a cut within a character would be before the second unit of its pair
        obtain ⟨v, second, trails⟩ := isTrail_of_lt later inside
        rw [units_cons, List.drop_append_of_le_length inside.le, second] at found
        exact absurd ((List.cons.inj found).1 ▸ trails) leads
      · obtain ⟨j, rfl⟩ := Nat.exists_eq_add_of_le (Nat.le_of_not_lt inside)
        rw [drop_units_cons] at found
        obtain ⟨before, after, rfl, length⟩ := ih found
        refine ⟨c :: before, after, rfl, ?_⟩
        rw [units_cons, List.length_append, length]

/-- A text ends with another one if its units do. -/
theorem units_suffix_iff : units cs <:+ units ds ↔ cs <:+ ds := by
  constructor
  · rintro ⟨vs, whole⟩
    cases found : units cs with
    | nil =>
      rw [units_eq_nil_iff.mp found]
      exact List.nil_suffix
    | cons u us =>
      have rest : (units ds).drop vs.length = units cs := by rw [← whole, List.drop_left]
      obtain ⟨before, after, rfl, length⟩ :=
        exists_split (rest.trans found) (not_isTrail_of_units_eq_cons found)
      rw [units_append, ← length, List.drop_left] at rest
      rw [units_injective rest]
      exact List.suffix_append before cs
  · rintro ⟨before, rfl⟩
    exact ⟨units before, (units_append before cs).symm⟩

/-! ## Positions -/

/-- The units of `needle` occur in those of `cs` from the position on. -/
def OccursAt (needle cs : List Char) (i : Nat) : Prop :=
  units needle <+: (units cs).drop i

instance : DecidablePred (OccursAt needle cs) :=
  fun i => inferInstanceAs (Decidable (units needle <+: (units cs).drop i))

theorem occursAt_zero_iff : OccursAt needle cs 0 ↔ needle <+: cs :=
  units_prefix_iff

/-- A text that does not begin here occurs in what is behind the first character, or nowhere. -/
theorem occursAt_cons_iff (miss : ¬ needle <+: c :: cs) :
    OccursAt needle (c :: cs) i ↔ ∃ j, i = (unitsOf c).length + j ∧ OccursAt needle cs j := by
  constructor
  · rintro ⟨rest, whole⟩
    cases begins : units needle with
    | nil =>
      rw [units_eq_nil_iff.mp begins] at miss
      exact absurd List.nil_prefix miss
    | cons u us =>
      -- the first unit of the text says that it occurs between two characters
      have found : (units (c :: cs)).drop i = u :: (us ++ rest) := by
        rw [← whole, begins, List.cons_append]
      obtain ⟨before, after, cut, rfl⟩ :=
        exists_split found (not_isTrail_of_units_eq_cons begins)
      cases before with
      | nil => exact absurd (occursAt_zero_iff.mp ⟨rest, whole⟩) miss
      | cons d before =>
        obtain ⟨rfl, -⟩ := List.cons.inj cut
        rw [units_cons c before, List.length_append] at whole ⊢
        rw [drop_units_cons] at whole
        exact ⟨_, rfl, rest, whole⟩
  · rintro ⟨j, rfl, rest, whole⟩
    exact ⟨rest, whole.trans (drop_units_cons c cs j).symm⟩

/-- The answer to a search for the least position. -/
inductive Finds (needle cs : List Char) : Option Nat → Prop where
  | found {i : Nat} (least : IsLeast {j | OccursAt needle cs j} i) : Finds needle cs (some i)
  | missing (nowhere : ∀ j, ¬ OccursAt needle cs j) : Finds needle cs none

namespace Finds

variable {found : Option Nat}

theorem front (begins : needle <+: cs) : Finds needle cs (some 0) :=
  .found ⟨occursAt_zero_iff.mpr begins, fun i _ => Nat.zero_le i⟩

/-- What is found behind the first character is as many positions further. -/
theorem cons (miss : ¬ needle <+: c :: cs) (rest : Finds needle cs found) :
    Finds needle (c :: cs) (found.map ((unitsOf c).length + ·)) := by
  cases rest with
  | found least =>
    refine .found ⟨(occursAt_cons_iff miss).mpr ⟨_, rfl, least.1⟩, fun i occurs => ?_⟩
    obtain ⟨j, rfl, behind⟩ := (occursAt_cons_iff miss).mp occurs
    exact Nat.add_le_add_left (least.2 behind) _
  | missing nowhere =>
    refine .missing fun i occurs => ?_
    obtain ⟨j, -, behind⟩ := (occursAt_cons_iff miss).mp occurs
    exact nowhere j behind

theorem eq_some_zero_iff (finds : Finds needle cs found) : found = some 0 ↔ needle <+: cs := by
  constructor
  · rintro rfl
    cases finds with
    | found least => exact occursAt_zero_iff.mp least.1
  · intro begins
    have occurs := occursAt_zero_iff.mpr begins
    cases finds with
    | found least => exact congrArg some (Nat.le_zero.mp (least.2 occurs))
    | missing nowhere => exact absurd occurs (nowhere 0)

end Finds

/-- The search answers with the least position, counted from its start. -/
theorem finds_indexFrom (needle : List Char) (start : Nat) (cs : List Char) :
    ∃ found, indexFrom? needle start cs = found.map (start + ·) ∧ Finds needle cs found := by
  induction cs generalizing start with
  | nil =>
    unfold indexFrom?
    cases needle with
    | nil => exact ⟨some 0, rfl, .front List.nil_prefix⟩
    | cons c needle =>
      refine ⟨none, rfl, .missing fun i occurs => ?_⟩
      unfold OccursAt at occurs
      rw [units_nil, List.drop_nil, List.prefix_nil, units_eq_nil_iff] at occurs
      cases occurs
  | cons c cs ih =>
    unfold indexFrom?
    by_cases begins : needle <+: c :: cs
    · rw [if_pos (List.isPrefixOf_iff_prefix.mpr begins)]
      exact ⟨some 0, rfl, .front begins⟩
    · rw [if_neg (mt List.isPrefixOf_iff_prefix.mp begins)]
      obtain ⟨found, same, finds⟩ := ih (start + (unitsOf c).length)
      refine ⟨_, ?_, finds.cons begins⟩
      rw [same, Option.map_map]
      exact congrArg (found.map ·) (funext fun i => Nat.add_assoc start _ i)

/-- **The search finds the least position in units.** -/
theorem finds_indexOf (s t : String) : Finds t.toList s.toList (indexOf? s t) := by
  obtain ⟨found, same, finds⟩ := finds_indexFrom t.toList 0 s.toList
  have zero : (0 + · : Nat → Nat) = id := funext Nat.zero_add
  rw [zero, Option.map_id] at same
  unfold indexOf?
  rwa [same]

theorem startsWith_eq (s t : String) : startsWith s t = (indexOf? s t == some 0) := by
  unfold startsWith
  rw [Bool.eq_iff_iff, List.isPrefixOf_iff_prefix, beq_iff_eq, (finds_indexOf s t).eq_some_zero_iff]

theorem endsWith_eq (s t : String) :
    endsWith s t = decide (units t.toList <:+ units s.toList) := by
  unfold endsWith
  rw [Bool.eq_iff_iff, List.isSuffixOf_iff_suffix, decide_eq_true_iff, units_suffix_iff]

/-! ## The order of texts -/

/-- Texts that are equal in the order are equal. -/
theorem compare16_eq_iff {s t : String} : compare16 s t = .eq ↔ s = t := by
  unfold compare16
  rw [Std.compare_eq_iff_eq]
  exact ⟨fun same => String.toList_inj.mp (units_injective same), fun same => same ▸ rfl⟩

theorem compare16_swap (s t : String) : compare16 t s = (compare16 s t).swap :=
  Std.OrientedOrd.eq_swap

theorem compare16_trans {r s t : String} (below : compare16 r s = .lt)
    (above : compare16 s t = .lt) : compare16 r t = .lt := by
  unfold compare16 at *
  exact Std.TransCmp.lt_trans below above

end FormLogic.Text
