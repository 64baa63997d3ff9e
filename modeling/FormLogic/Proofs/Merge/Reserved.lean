import FormLogic.Proofs.Clone.Unseen
import FormLogic.Proofs.Heap.Reading
import FormLogic.Proofs.Merge.InPlace

/-!
# `FormLogic.Proofs.Merge.Reserved` — reserved keys that a merge brings in

A merge never stores anything under a reserved key. But where the target has no container to merge
into, the container of a source is stored as it is, and the elements of its sequences are handed on as
they are; what is below them is not looked at. So a reserved key can come into the target, though only
together with the whole mapping that has it.

To say where that mapping was, the values are followed that the target leads to and those that a
source can hand on. A merge writes only to containers that are among them, and writes only values that
are among them. So it stays within what they led to in the beginning, whatever is shared and however
the merge ends.

## Contents
- `Heap.HasKey`, `Handed`: mappings with a key, and what sources hand on.
- `Enclosed`, `Sifted`: values that are closed under the merge, and what it does to the heap.
- `sifted_entries`, `sifted_pair`, `sifted_sources`: entries, containers and all sources.
- `merge_reserved`: mappings with reserved keys after a merge.
- `merge_brings_reserved`: a merge that brings one in.
-/

namespace FormLogic

/-- The container is a mapping with this key. -/
def Heap.HasKey (h : Heap) (r : Ref) (key : String) : Prop :=
  ∃ fields, h.cell r = .mapping fields ∧ key ∈ fields.keys

theorem Heap.FreeOfReserved.not_hasKey {h : Heap} {v : Value} {r : Ref} {key : String}
    (free : h.FreeOfReserved v) (reached : h.Reach {v} (.container r))
    (reserved : isReserved key = true) : ¬ h.HasKey r key := by
  rintro ⟨fields, cell, mem⟩
  rw [free r fields reached cell key mem] at reserved
  cases reserved

namespace Merge

variable {options : Options} {h g k : Heap} {R : Set Value} {v w : Value} {r : Ref}

/-- The value is one that the source can hand on: an element, or what it has under a key that is not
reserved. -/
def Handed (h : Heap) (source v : Value) : Prop :=
  ∃ r, source = .container r ∧ v ∈ (h.cell r).unreserved.children

/-! ## Values that a merge keeps to -/

/-- The containers among the values hold only what is among them. -/
def Enclosed (h : Heap) (R : Set Value) : Prop :=
  ∀ r, .container r ∈ R → ∀ v ∈ (h.cell r).children, v ∈ R

/-- From `h` to `g` only containers among the values have been changed, and only values among them
have been stored, none of them under a reserved key. -/
structure Sifted (R : Set Value) (h g : Heap) : Prop where
  enclosed : Enclosed h R → Enclosed g R
  keys : ∀ {r key}, isReserved key = true → g.HasKey r key → h.HasKey r key
  frame : ∀ {r}, .container r ∉ R → g.cell r = h.cell r

namespace Sifted

theorem refl (R : Set Value) (h : Heap) : Sifted R h h :=
  ⟨id, fun _ has => has, fun _ => rfl⟩

theorem trans (first : Sifted R h g) (second : Sifted R g k) : Sifted R h k where
  enclosed closed := second.enclosed (first.enclosed closed)
  keys reserved has := first.keys reserved (second.keys reserved has)
  frame out := (second.frame out).trans (first.frame out)

/-- One container among the values gets values that are among them. -/
theorem update {f : Cell → Cell} (inside : .container r ∈ R)
    (held : (∀ v ∈ (h.cell r).children, v ∈ R) → ∀ v ∈ (f (h.cell r)).children, v ∈ R)
    (keys : ∀ fields, f (h.cell r) = .mapping fields → ∀ key ∈ fields.keys, isReserved key = true →
      h.HasKey r key) : Sifted R h (h.update r f) where
  enclosed closed s here v mem := by
    rw [Heap.cell_update] at mem
    split at mem
    · next same =>
      rw [same.1] at mem
      exact held (closed r inside) v mem
    · exact closed s here v mem
  keys {s key} reserved has := by
    obtain ⟨fields, cell, mem⟩ := has
    rw [Heap.cell_update] at cell
    split at cell
    · next same =>
      obtain ⟨rfl, -⟩ := same
      exact keys fields cell key mem reserved
    · exact ⟨fields, cell, mem⟩
  frame {s} out := by
    rw [Heap.cell_update, if_neg]
    rintro ⟨rfl, -⟩
    exact out inside

/-- A value is stored under a key that is not reserved. -/
theorem insert {key : String} (inside : .container r ∈ R) (stored : v ∈ R)
    (free : ¬ isReserved key = true) :
    Sifted R h (h.update r (.mapFields (·.insert key v))) := by
  cases source : h.cell r with
  | sequence items =>
    refine update inside (fun held => ?_) fun fields cell => ?_
    · rw [source] at held ⊢
      exact held
    · rw [source] at cell
      cases cell
  | mapping fields =>
    refine update inside (fun held => ?_) fun fields' cell k mem reserved => ?_
    · intro u mem
      rw [source] at held mem
      obtain ⟨entry, entered, rfl⟩ := List.mem_map.mp mem
      rcases mem_insertEntry entered with rfl | old
      · exact stored
      · exact held _ (List.mem_map_of_mem old)
    · rw [source] at cell
      cases cell
      rw [Fields.keys_insert] at mem
      split at mem
      · exact ⟨fields, source, mem⟩
      · rcases List.mem_append.mp mem with old | new
        · exact ⟨fields, source, old⟩
        · exact absurd (List.mem_singleton.mp new ▸ reserved) free

/-- The elements of a source are combined with those of a sequence. -/
theorem combine {items : Array Value}
    (plain : options.arrayMerger = .overwrite ∨ options.arrayMerger = .append)
    (inside : .container r ∈ R) (handed : ∀ v ∈ items.toList, v ∈ R) :
    Sifted R h (Merge.combine options r items h).2 := by
  refine update inside (fun held v mem => ?_) fun fields cell => ?_
  · cases source : h.cell r with
    | mapping fields =>
      rw [source] at held mem
      exact held v mem
    | sequence old =>
      rw [source] at held mem
      rcases plain with plain | plain <;> rw [plain] at mem
      · exact handed v mem
      · replace mem : v ∈ (old ++ items).toList := mem
        rw [Array.toList_append] at mem
        rcases List.mem_append.mp mem with mem | mem
        · exact held v mem
        · exact handed v mem
  · cases source : h.cell r with
    | mapping fields' =>
      rw [source] at cell
      cases cell
      exact fun key mem _ => ⟨fields, source, mem⟩
    | sequence old =>
      rw [source] at cell
      cases cell

/-- What a source can hand on stays among the values: either the source is not changed, or all that
it holds is among them. -/
theorem handed (sifted : Sifted R h g) (closed : Enclosed h R)
    (before : ∀ v, Handed h w v → v ∈ R) : ∀ v, Handed g w v → v ∈ R := by
  rintro v ⟨r, rfl, held⟩
  by_cases inside : .container r ∈ R
  · exact sifted.enclosed closed r inside v (Cell.mem_children_unreserved held)
  · rw [sifted.frame inside] at held
    exact before v ⟨r, rfl, held⟩

end Sifted

/-! ## Merging -/

/-- What an entry under a key holds is a child of its mapping, or the mark of absence. -/
theorem lookup_mem (closed : Enclosed h R) (inside : .container r ∈ R) {key : String}
    (container : (h.lookup (.container r) key).isContainer = true) :
    h.lookup (.container r) key ∈ R := by
  rcases h.lookup_cases (.container r) key with absent | ⟨s, same, held⟩
  · rw [absent] at container
    cases container
  · obtain rfl := Value.container.inj same
    exact closed r inside _ held

theorem sifted_entries {deeper : Value → Value → HeapM RecursionLimit Unit}
    (below : ∀ v w h, v ∈ R → w ∈ R → Enclosed h R → Sifted R h (deeper v w h).2)
    (inside : .container r ∈ R) {incoming : List (String × Value)}
    (handed : ∀ entry ∈ incoming, ¬ isReserved entry.1 = true → entry.2 ∈ R)
    (closed : Enclosed h R) : Sifted R h (entries options deeper r incoming h).2 := by
  induction incoming generalizing h with
  | nil => exact .refl R h
  | cons entry rest ih =>
    obtain ⟨key, v⟩ := entry
    have others := fun entry mem => handed entry (List.mem_cons_of_mem (key, v) mem)
    unfold entries
    split
    · exact ih others closed
    · next free =>
      have new : v ∈ R := handed _ List.mem_cons_self free
      -- what this entry does is followed by what the others do
      have next {p : HeapM RecursionLimit Unit} (first : Sifted R h (p h).2) :
          Sifted R h ((p >>= fun _ => entries options deeper r rest) h).2 :=
        bind_ends (R := Sifted R) .trans first fun _ k ends =>
          ih others ((of_ends first ends).enclosed closed)
      rw [bind_apply]
      dsimp only [HeapM.lookup]
      split
      · next both =>
        obtain ⟨container, -⟩ := Bool.and_eq_true_iff.mp both
        split
        · exact next (below _ _ _ (lookup_mem closed inside container) new closed)
        · exact ih others closed
      · split
        · exact next (.insert inside new free)
        · exact ih others closed

/-- **One value is merged into another**, by induction on the levels there is room for. -/
theorem sifted_pair (plain : options.arrayMerger = .overwrite ∨ options.arrayMerger = .append)
    (room : Nat) (target source : Value) (inside : target ∈ R)
    (handed : ∀ v, Handed h source v → v ∈ R) (closed : Enclosed h R) :
    Sifted R h (pair options room target source h).2 := by
  induction room generalizing target source h with
  | zero => exact .refl R h
  | succ room ih =>
    by_cases other : (target.isContainer && source.isContainer) = false
    · rw [pair_scalar other]
      exact .refl R h
    cases target with
    | container r =>
      cases source with
      | container s =>
        rw [pair]
        simp only [bind_apply, HeapM.cell]
        cases h.cell r with
        | mapping old =>
          cases cell : h.cell s with
          | mapping fields =>
            -- a source below the top is among the values itself, so all that it holds is as well
            refine sifted_entries (fun v w h inV inW closed => ?_) inside (fun entry mem free => ?_)
              closed
            · refine ih v w inV ?_ closed
              rintro u ⟨q, rfl, held⟩
              exact closed q inW u (Cell.mem_children_unreserved held)
            · refine handed _ ⟨s, rfl, ?_⟩
              rw [cell]
              refine List.mem_map_of_mem (List.mem_filter.mpr ⟨mem, ?_⟩)
              simp [free]
          | sequence items => exact .refl R h
        | sequence old =>
          cases cell : h.cell s with
          | mapping fields => exact .refl R h
          | sequence items =>
            refine .combine plain inside fun v mem => handed v ⟨s, rfl, ?_⟩
            rw [cell]
            exact mem
      | _ => exact absurd (Bool.and_false _) other
    | _ => exact absurd rfl other

/-- **All sources are merged**, one after the other. -/
theorem sifted_sources (plain : options.arrayMerger = .overwrite ∨ options.arrayMerger = .append)
    {target : Value} (inside : target ∈ R) {values : List Value}
    (handed : ∀ s ∈ values, ∀ v, Handed h s v → v ∈ R) (closed : Enclosed h R) :
    Sifted R h (sources options target values h).2 := by
  induction values generalizing h with
  | nil => exact .refl R h
  | cons s rest ih =>
    have first := handed s List.mem_cons_self
    have others := fun t mem => handed t (List.mem_cons_of_mem s mem)
    unfold sources
    split
    · have merged := sifted_pair plain options.maxDepth target s inside first closed
      refine bind_ends (R := Sifted R) .trans merged fun _ k ends => ?_
      have merged := of_ends merged ends
      exact ih (fun t mem => merged.handed closed (others t mem)) (merged.enclosed closed)
    · exact ih others closed

/-- What the target leads to, and what the sources can hand on with all that is below it. -/
def Reachable (h : Heap) (target : Value) (values : List Value) : Set Value :=
  {v | h.Reach {target} v ∨ ∃ s ∈ values, ∃ u, Handed h s u ∧ h.Reach {u} v}

theorem enclosed_reachable (h : Heap) (target : Value) (values : List Value) :
    Enclosed h (Reachable h target values) := by
  rintro r (before | ⟨s, mem, u, handed, before⟩) v held
  · exact Or.inl (before.child held)
  · exact Or.inr ⟨s, mem, u, handed, before.child held⟩

theorem sifted_merge (plain : options.arrayMerger = .overwrite ∨ options.arrayMerger = .append)
    (target : Value) (values : List Value) (h : Heap) :
    Sifted (Reachable h target values) h (merge options target values h).2 := by
  have merged := sifted_sources plain (Or.inl (.root rfl))
    (fun s mem v handed => Or.inr ⟨s, mem, v, handed, .root rfl⟩) (enclosed_reachable h target values)
  exact bind_ends (R := Sifted _) .trans merged fun _ k _ => .refl _ k

/-- **Reserved keys come in only with the mappings that have them.** However a merge ends: if the
target then leads to a mapping with a reserved key, the mapping has had the key before, and was led to
by the target or by something that a source has under a key that is not reserved, or as an element. So
if none of these has a reserved key below it, the target does not get one. -/
theorem merge_reserved (plain : options.arrayMerger = .overwrite ∨ options.arrayMerger = .append)
    (target : Value) (values : List Value) (h : Heap) :
    (∀ r key, isReserved key = true →
      (merge options target values h).2.Reach {target} (.container r) →
      (merge options target values h).2.HasKey r key →
        h.HasKey r key ∧ (h.Reach {target} (.container r) ∨
          ∃ s ∈ values, ∃ v, Handed h s v ∧ h.Reach {v} (.container r))) ∧
    (h.FreeOfReserved target → (∀ s ∈ values, ∀ v, Handed h s v → h.FreeOfReserved v) →
      (merge options target values h).2.FreeOfReserved target) := by
  have sifted := sifted_merge plain target values h
  have origin : ∀ r key, isReserved key = true →
      (merge options target values h).2.Reach {target} (.container r) →
      (merge options target values h).2.HasKey r key →
        h.HasKey r key ∧ .container r ∈ Reachable h target values := by
    intro r key reserved reached has
    refine ⟨sifted.keys reserved has, ?_⟩
    refine reached.within ?_ (sifted.enclosed (enclosed_reachable h target values))
    rintro _ rfl
    exact Or.inl (.root rfl)
  refine ⟨origin, fun free handed r fields reached cell key mem => ?_⟩
  by_contra reserved
  have reserved : isReserved key = true := Bool.not_eq_false _ ▸ reserved
  obtain ⟨had, before | ⟨s, mem, v, given, before⟩⟩ := origin r key reserved reached ⟨fields, cell, mem⟩
  · exact free.not_hasKey before reserved had
  · exact (handed s mem v given).not_hasKey before reserved had

/-- The source has reserved keys of its own, but nothing that it can hand on has one. -/
theorem merge_reserved_top :
    let h : Heap := ⟨#[.mapping (.ofList [("b", .container 1)]), .mapping .empty,
      .mapping (.ofList [("__proto__", .container 2), ("a", .container 3), ("b", .container 4),
        ("constructor", .null)]),
      .sequence #[.container 4], .mapping (.ofList [("x", .bool true)])]⟩
    let ends := merge {} (.container 0) [.container 2] h
    h.FreeOfReserved (.container 0) ∧
      (∀ s ∈ [Value.container 2], ∀ v, Handed h s v → h.FreeOfReserved v) ∧
      ends.1 = .ok (.container 0) ∧ ends.2.FreeOfReserved (.container 0) := by
  intro h ends
  -- nothing but the source itself leads to the source
  have inner : ∀ v, v ≠ .container 2 → h.FreeOfReserved v := by
    intro v other r fields reached cell
    have apart : Value.container r ≠ .container 2 := by
      refine reached.within (P := (· ≠ .container 2)) ?_ ?_
      · rintro _ rfl
        exact other
      · rintro (_ | _ | _ | _ | _ | r) here
        · decide
        · decide
        · exact absurd rfl here
        · decide
        · decide
        · exact fun _ held => nomatch held
    revert apart
    rcases r with _ | _ | _ | _ | _ | r <;> cases cell
    · decide
    · decide
    · decide
    · decide
    · exact fun _ _ mem => nomatch mem
  have free : h.FreeOfReserved (.container 0) := inner _ (by decide)
  have handed : ∀ s ∈ [Value.container 2], ∀ v, Handed h s v → h.FreeOfReserved v := by
    rintro s mem v ⟨r, rfl, held⟩
    obtain rfl := Value.container.inj (List.mem_singleton.mp mem)
    refine inner v ?_
    rintro rfl
    exact absurd held (by decide)
  exact ⟨free, handed, by rfl, (merge_reserved (Or.inl rfl) _ _ h).2 free handed⟩

/-- **A reserved key can come in.** The mapping that the source has under a key is stored in the target
as it is. -/
theorem merge_brings_reserved :
    let h : Heap := ⟨#[.mapping .empty, .mapping (.ofList [("a", .container 2)]),
      .mapping (.ofList [("__proto__", .bool true)])]⟩
    let ends := merge {} (.container 0) [.container 1] h
    h.FreeOfReserved (.container 0) ∧ ends.1 = .ok (.container 0) ∧
      ¬ ends.2.FreeOfReserved (.container 0) := by
  intro h ends
  refine ⟨?_, by rfl, fun free => ?_⟩
  · intro r fields reached cell key mem
    rcases reached.eq_or_below with same | ⟨w, held, -⟩
    · obtain rfl := Value.container.inj same
      cases cell
      cases mem
    · cases held
  · have reached : ends.2.Reach {.container 0} (.container 2) :=
      .child (.root rfl) (List.mem_singleton_self _)
    have reserved := free 2 _ reached rfl "__proto__" (List.mem_singleton_self _)
    exact absurd reserved (by decide)

end Merge

end FormLogic
