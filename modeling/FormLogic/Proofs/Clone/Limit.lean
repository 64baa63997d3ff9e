import FormLogic.Proofs.Clone.Copied
import FormLogic.Proofs.Heap.Forest
import Mathlib.Data.List.Perm.Subperm

/-!
# `FormLogic.Proofs.Clone.Limit` — when copying is too deep

The limit of copying is about one way down at a time. A container that is shared is copied once for
each way to it, and a reference back to a container on the way ends the way, so the ways that copying
goes down are those that meet no container twice. If one of them is longer than the limit, copying
fails; otherwise it succeeds, whatever is shared and whatever contains itself.

The copies are taken one after the other on heaps that grow. Each heap extends the first one, so a
verdict on a value is given in terms of the first heap and holds on all of them.

## Contents
- `SimplePath`: containers below each other, none of them twice; `exists_path_iff`.
- `Exceeds`: a value with a way down that is too long.
- `Verdict`, `Verdict.bind`: an action that fails under one condition only.
- `verdict_value`: copying a value below ancestors.
- `deep_fails_iff`: when a deep copy fails; `deep_ok`: values that nest within the limit.
-/

namespace FormLogic

/-! ## Ways that are too long -/

namespace Heap

/-- Containers below each other, none of them twice: the first is the value itself, and each of the
others is held by the one before it. -/
structure SimplePath (h : Heap) (v : Value) (refs : List Ref) : Prop where
  start : refs.head?.map Value.container = some v
  distinct : refs.Nodup
  held : refs.IsChain fun r s => .container s ∈ (h.cell r).children

/-- From the value there is a way down, past none of the containers `passed`, on which there are more
than `room` containers. -/
def Exceeds (h : Heap) (passed : List Ref) (room : Nat) (v : Value) : Prop :=
  ∃ places refs, h.Path passed v places refs ∧ room < refs.length

variable {h : Heap} {passed : List Ref} {room : Nat} {v : Value} {r : Ref} {places : List Place}
  {refs : List Ref}

namespace Path

theorem start (path : h.Path passed v places refs) : refs.head?.map Value.container = some v := by
  cases path <;> rfl

/-- Each container on a path is held by the one before it. -/
theorem isChain (path : h.Path passed v places refs) :
    refs.IsChain fun r s => .container s ∈ (h.cell r).children := by
  induction path with
  | stop _ => exact .singleton _
  | step _ held rest ih =>
    have next := Cell.mem_children_of_at? held
    cases rest with
    | stop _ => exact .cons_cons next (.singleton _)
    | step _ _ _ => exact .cons_cons next ih

end Path

/-- What a simple path meets can be gone through place by place. -/
theorem SimplePath.exists_path (simple : h.SimplePath v refs) (new : ∀ r ∈ refs, r ∉ passed) :
    ∃ places, h.Path passed v places refs := by
  induction refs generalizing v passed with
  | nil => cases simple.start
  | cons r refs ih =>
    obtain rfl : .container r = v := Option.some.inj simple.start
    have unmet := new r List.mem_cons_self
    obtain ⟨single, distinct⟩ := List.nodup_cons.mp simple.distinct
    cases refs with
    | nil => exact ⟨[], .stop unmet⟩
    | cons s refs =>
      obtain ⟨next, held⟩ := List.isChain_cons_cons.mp simple.held
      obtain ⟨place, here⟩ := Cell.exists_at?_of_mem next
      have below : h.SimplePath (.container s) (s :: refs) := ⟨rfl, distinct, held⟩
      have unmet' : ∀ t ∈ s :: refs, t ∉ r :: passed := by
        intro t mem old
        rcases List.mem_cons.mp old with rfl | old
        · exact single mem
        · exact new t (List.mem_cons_of_mem _ mem) old
      obtain ⟨places, path⟩ := ih below unmet'
      exact ⟨place :: places, .step unmet here path⟩

/-- The simple paths are what is met on paths. -/
theorem exists_path_iff : (∃ places, h.Path [] v places refs) ↔ h.SimplePath v refs := by
  constructor
  · rintro ⟨places, path⟩
    exact ⟨path.start, path.nodup, path.isChain⟩
  · intro simple
    exact simple.exists_path fun _ _ => List.not_mem_nil

theorem exceeds_iff : h.Exceeds [] room v ↔ ∃ refs, h.SimplePath v refs ∧ room < refs.length := by
  constructor
  · rintro ⟨places, refs, path, long⟩
    exact ⟨refs, exists_path_iff.mp ⟨places, path⟩, long⟩
  · rintro ⟨refs, simple, long⟩
    obtain ⟨places, path⟩ := exists_path_iff.mpr simple
    exact ⟨places, refs, path, long⟩

/-- There is no way down from a scalar or handle. -/
theorem not_exceeds_of_leaf (leaf : v.isContainer = false) : ¬ h.Exceeds passed room v := by
  rintro ⟨_, _, path, _⟩
  cases path <;> cases leaf

theorem not_exceeds_of_mem (met : r ∈ passed) : ¬ h.Exceeds passed room (.container r) := by
  rintro ⟨_, _, path, _⟩
  exact path.start_not_passed met

theorem exceeds_zero (new : r ∉ passed) : h.Exceeds passed 0 (.container r) :=
  ⟨[], [r], .stop new, Nat.one_pos⟩

/-- A way down is too long if it is below one of the values that the container holds. -/
theorem exceeds_succ (new : r ∉ passed) :
    h.Exceeds passed (room + 1) (.container r) ↔
      ∃ w ∈ (h.cell r).children, h.Exceeds (r :: passed) room w := by
  constructor
  · rintro ⟨_, _, path, long⟩
    cases path with
    | stop _ => exact absurd long (Nat.not_lt.mpr (Nat.le_add_left 1 room))
    | step _ held rest =>
      exact ⟨_, Cell.mem_children_of_at? held, _, _, rest, Nat.lt_of_succ_lt_succ long⟩
  · rintro ⟨w, mem, places, refs, path, long⟩
    obtain ⟨place, held⟩ := Cell.exists_at?_of_mem mem
    exact ⟨place :: places, r :: refs, .step new held path, Nat.succ_lt_succ long⟩

/-- What nests within a depth has no longer ways down. -/
theorem NestsWithin.not_exceeds (nests : h.NestsWithin room v) : ¬ h.Exceeds passed room v := by
  induction room generalizing v passed with
  | zero => exact not_exceeds_of_leaf nests
  | succ room ih =>
    rcases v.leaf_or_container with leaf | ⟨r, rfl⟩
    · exact not_exceeds_of_leaf leaf
    · by_cases met : r ∈ passed
      · exact not_exceeds_of_mem met
      · rw [exceeds_succ met]
        rintro ⟨w, held, long⟩
        exact ih (nests r rfl w held) long

/-- Without some of its entries a graph does not nest deeper. -/
theorem NestsWithin.unreserved (nests : h.NestsWithin room v) : h.unreserved.NestsWithin room v := by
  induction room generalizing v with
  | zero => exact nests
  | succ room ih =>
    intro r same w held
    rw [cell_unreserved] at held
    exact ih (nests r same w (Cell.mem_children_unreserved held))

/-- There are no more containers on a way down than the value leads to. -/
theorem not_exceeds_of_reach {all : List Ref}
    (reached : ∀ r, h.Reach {v} (.container r) → r ∈ all) : ¬ h.Exceeds [] all.length v := by
  rintro ⟨_, refs, path, long⟩
  have within : refs ⊆ all := fun r mem => reached r (path.reach mem)
  exact absurd (List.subperm_of_subset path.nodup within).length_le (Nat.not_le.mpr long)

end Heap

namespace Clone

/-! ## Actions that fail under one condition -/

/-- The end of an action that fails with the limit if the condition holds, and succeeds
otherwise. -/
inductive Verdict {α : Type} (limit : RecursionLimit) (P : Prop) : Except RecursionLimit α → Prop where
  | exceeded (long : P) : Verdict limit P (.error limit)
  | within (short : ¬ P) (a : α) : Verdict limit P (.ok a)

section

variable {α β : Type} {limit : RecursionLimit} {P Q : Prop}

namespace Verdict

variable {ends : Except RecursionLimit α}

theorem congr (verdict : Verdict limit P ends) (same : P ↔ Q) : Verdict limit Q ends := by
  rw [← same]
  exact verdict

theorem error_iff (verdict : Verdict limit P ends) : ends = .error limit ↔ P := by
  cases verdict with
  | exceeded long => exact iff_of_true rfl long
  | within short a => exact iff_of_false nofun short

theorem exists_ok (verdict : Verdict limit P ends) (short : ¬ P) : ∃ a, ends = .ok a := by
  cases verdict with
  | exceeded long => exact absurd long short
  | within _ a => exact ⟨a, rfl⟩

/-- Two actions fail one after the other if the first does, or the second after it. -/
theorem bind {p : HeapM RecursionLimit α} {f : α → HeapM RecursionLimit β} {k : Heap}
    (first : Verdict limit P (p k).1)
    (second : ∀ a g, p k = (.ok a, g) → Verdict limit Q (f a g).1) :
    Verdict limit (P ∨ Q) ((p >>= f) k).1 := by
  rw [bind_apply]
  cases ends : p k with
  | mk result g =>
    rw [ends] at first
    cases first with
    | exceeded long => exact .exceeded (Or.inl long)
    | within short a => exact (second a g ends).congr (or_iff_right short).symm

end Verdict

end

/-! ## Copying values -/

section

variable {h k : Heap} {limit : RecursionLimit} {Long : Value → Prop}
  {copy : Value → HeapM RecursionLimit Value}

theorem verdict_items (keeps : ∀ v k, Heap.Extends k (copy v k).2) {rest : List Value}
    (each : ∀ v ∈ rest, ∀ k, h.Extends k → Verdict limit (Long v) (copy v k).1) (made : Array Value)
    (here : h.Extends k) : Verdict limit (∃ v ∈ rest, Long v) (items copy made rest k).1 := by
  induction rest generalizing made k with
  | nil => exact .within (by simp) made
  | cons v rest ih =>
    unfold items
    refine ((each v List.mem_cons_self k here).bind fun w g first => ?_).congr
      (List.exists_mem_cons_iff ..).symm
    exact ih (fun v mem => each v (List.mem_cons_of_mem _ mem)) _
      (here.trans (of_ends (keeps v k) first))

/-- Entries under reserved keys are left out, so they do not count. -/
theorem verdict_entries (keeps : ∀ v k, Heap.Extends k (copy v k).2) {rest : List (String × Value)}
    (each : ∀ entry ∈ rest, ∀ k, h.Extends k → Verdict limit (Long entry.2) (copy entry.2 k).1)
    (made : Fields Value) (here : h.Extends k) :
    Verdict limit (∃ v ∈ (rest.filter fun entry => !isReserved entry.1).map Prod.snd, Long v)
      (entries copy made rest k).1 := by
  induction rest generalizing made k with
  | nil => exact .within (by simp) made
  | cons entry rest ih =>
    obtain ⟨key, v⟩ := entry
    have each' := fun entry mem => each entry (List.mem_cons_of_mem (key, v) mem)
    unfold entries
    by_cases reserved : isReserved key = true
    · rw [if_pos reserved, List.filter_cons_of_neg (by simp [reserved])]
      exact ih each' made here
    · rw [if_neg reserved, List.filter_cons_of_pos (by simp [reserved]), List.map_cons]
      refine ((each _ List.mem_cons_self k here).bind fun w g first => ?_).congr
        (List.exists_mem_cons_iff ..).symm
      exact ih each' _ (here.trans (of_ends (keeps v k) first))

theorem verdict_contents (keeps : ∀ v k, Heap.Extends k (copy v k).2) {c : Cell}
    (each : ∀ v ∈ c.children, ∀ k, h.Extends k → Verdict limit (Long v) (copy v k).1)
    (here : h.Extends k) :
    Verdict limit (∃ v ∈ c.unreserved.children, Long v) (contents copy c k).1 := by
  cases c with
  | mapping fields =>
    have copies := verdict_entries keeps (fun entry mem => each entry.2 (List.mem_map_of_mem mem))
      .empty here
    exact (copies.bind fun all g _ => .within not_false (Cell.mapping all)).congr (or_iff_left id)
  | sequence elements =>
    have copies := verdict_items keeps each #[] here
    exact (copies.bind fun all g _ => .within not_false (Cell.sequence all)).congr (or_iff_left id)

/-- The ancestors are the containers that have been passed on the way down. -/
theorem lookup_eq_none_iff {ancestors : Ancestors} {r : Ref} :
    ancestors.lookup r = none ↔ r ∉ ancestors.map Prod.fst := by
  simp only [List.lookup_eq_none_iff, List.mem_map, bne_iff_ne]
  grind

/-- **Copying a value** fails if there is a way down, past none of the ancestors, that is longer than
the room. -/
theorem verdict_value (closed : h.Closed) (limit : RecursionLimit) (room : Nat)
    (ancestors : Ancestors) {v : Value} (live : h.Live v) (here : h.Extends k) :
    Verdict limit (h.unreserved.Exceeds (ancestors.map Prod.fst) room v)
      (value limit room ancestors v k).1 := by
  induction room generalizing ancestors v k with
  | zero =>
    rcases classify ancestors v with leaf | ⟨r, c, rfl, known⟩ | ⟨r, rfl, new⟩
    · rw [value_leaf leaf]
      exact .within (Heap.not_exceeds_of_leaf leaf) v
    · rw [value_back known]
      exact .within (Heap.not_exceeds_of_mem (List.mem_map_of_mem (mem_of_lookup known))) _
    · rw [value_full new]
      exact .exceeded (Heap.exceeds_zero (lookup_eq_none_iff.mp new))
  | succ room ih =>
    rcases classify ancestors v with leaf | ⟨r, c, rfl, known⟩ | ⟨r, rfl, new⟩
    · rw [value_leaf leaf]
      exact .within (Heap.not_exceeds_of_leaf leaf) v
    · rw [value_back known]
      exact .within (Heap.not_exceeds_of_mem (List.mem_map_of_mem (mem_of_lookup known))) _
    · have old : r < h.size := Heap.live_container.mp live
      have started := here.trans (.alloc k (emptied (h.cell r)))
      have below := verdict_contents (value_extends limit room ((r, k.size) :: ancestors))
        (fun w held _ later => ih ((r, k.size) :: ancestors) (closed r w held) later) started
      rw [← Heap.cell_unreserved] at below
      have verdict := below.congr (Heap.exceeds_succ (lookup_eq_none_iff.mp new)).symm
      rw [value_made new, here.cells old]
      generalize contents _ _ _ = x at verdict
      obtain ⟨result, g⟩ := x
      cases verdict with
      | exceeded long => exact .exceeded long
      | within short _ => exact .within short _

/-! ## Deep copies -/

variable {options : Options} {v : Value}

theorem verdict_deep (closed : h.Closed) (live : h.Live v) (options : Options) :
    Verdict ⟨.clone, options.maxDepth⟩ (h.unreserved.Exceeds [] options.maxDepth v)
      (deep options v h).1 :=
  verdict_value closed _ _ [] live (.refl h)

/-- What nests within the limit has a deep copy. -/
theorem deep_ok (closed : h.Closed) (live : h.Live v) (options : Options)
    (nests : h.NestsWithin options.maxDepth v) : ∃ copy g, deep options v h = (.ok copy, g) := by
  obtain ⟨copy, ends⟩ := (verdict_deep closed live options).exists_ok nests.unreserved.not_exceeds
  exact ⟨copy, _, Prod.ext ends rfl⟩

/-- **A deep copy fails exactly if some simple path is too long.** Otherwise there is one; so a graph
with no more containers than the limit has one, whatever contains itself in it. -/
theorem deep_fails_iff (closed : h.Closed) (live : h.Live v) :
    ((deep options v h).1 = .error ⟨.clone, options.maxDepth⟩ ↔
        ∃ refs, h.unreserved.SimplePath v refs ∧ options.maxDepth < refs.length) ∧
      ((∀ refs, h.unreserved.SimplePath v refs → refs.length ≤ options.maxDepth) →
        ∃ copy, (deep options v h).1 = .ok copy) ∧
      ∀ all : List Ref, (∀ r, h.unreserved.Reach {v} (.container r) → r ∈ all) →
        all.length ≤ options.maxDepth → ∃ copy, (deep options v h).1 = .ok copy := by
  have verdict := (verdict_deep closed live options).congr Heap.exceeds_iff
  refine ⟨verdict.error_iff, fun short => ?_, fun all reached few => ?_⟩
  · refine verdict.exists_ok ?_
    rintro ⟨refs, simple, long⟩
    exact absurd (short refs simple) (Nat.not_le.mpr long)
  · refine (verdict_deep closed live options).exists_ok ?_
    rintro ⟨places, refs, path, long⟩
    exact Heap.not_exceeds_of_reach reached ⟨places, refs, path, Nat.lt_of_le_of_lt few long⟩

/-- Three containers that all contain themselves, the last of them under a reserved key as well. -/
theorem deep_fails_iff_cycle :
    let h : Heap := ⟨#[
      .mapping (.ofList [("__proto__", .container 2), ("a", .container 1)]),
      .sequence #[.container 0, .container 2],
      .mapping (.ofList [("b", .container 1)])]⟩
    h.Closed ∧ h.Live (.container 0) ∧
      (deep ⟨2⟩ (.container 0) h).1 = .error ⟨.clone, 2⟩ ∧
      ∃ copy, (deep ⟨3⟩ (.container 0) h).1 = .ok copy := by
  intro h
  have closed : h.Closed := by decide
  have live : h.Live (.container 0) := by decide
  have first : .container 1 ∈ (h.unreserved.cell 0).children := by
    rw [Heap.cell_unreserved]
    exact List.mem_of_getElem? (i := 0) rfl
  have second : .container 2 ∈ (h.unreserved.cell 1).children := by
    rw [Heap.cell_unreserved]
    exact List.mem_of_getElem? (i := 1) rfl
  have simple : h.unreserved.SimplePath (.container 0) [0, 1, 2] :=
    ⟨rfl, by decide, .cons_cons first (.cons_cons second (.singleton 2))⟩
  have inside : ∀ r, h.unreserved.Reach {.container 0} (.container r) → r ∈ List.range h.size :=
    fun r reached => List.mem_range.mpr (reached.of_unreserved.live_of_value closed live r rfl)
  exact ⟨closed, live, (deep_fails_iff closed live).1.mpr ⟨_, simple, by decide⟩,
    (deep_fails_iff closed live).2.2 _ inside (by decide)⟩

end

end Clone

end FormLogic
