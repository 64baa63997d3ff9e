import FormLogic.Proofs.Clone.Kept
import FormLogic.Proofs.Clone.Limit
import FormLogic.Proofs.Heap.Layout

/-!
# `FormLogic.Proofs.Clone.Plain` — copies through plain trees

The two ways of copying stop at the same limit for different reasons. A plain tree cannot be drawn
if some way down is too long, even one that comes to a container twice; a deep copy fails only if a
way down is too long that meets no container twice. In a graph that does not contain itself no way
down meets a container twice, so there the two fail together. Where both succeed, the copies have the
same plain tree, namely that of the value, so they are equal if the tree loses nothing.

## Contents
- `Route.nodup`: ways down in graphs that do not contain themselves; `Acyclic.exceeds_iff`.
- `verdict_plain`, `verdict_deep_of_acyclic`: when the two copies fail.
- `PlainCopies`, `plain_copies`: what a copy through a plain tree is, beside the deep one.
-/

namespace FormLogic

namespace Heap

variable {h : Heap} {v w : Value} {r s : Ref} {refs : List Ref} {depth : Nat}

/-! ## Ways down in graphs that end -/

theorem Below.reach (below : h.Below r v) : h.Reach {.container r} v := by
  obtain ⟨s, leads, held⟩ := below
  exact leads.child held

theorem Below.trans (first : h.Below r (.container s)) (second : h.Below s v) : h.Below r v := by
  obtain ⟨t, leads, held⟩ := second
  refine ⟨t, leads.trans ?_, held⟩
  rintro _ rfl
  exact first.reach

theorem Acyclic.child (acyclic : h.Acyclic (.container r)) (held : v ∈ (h.cell r).children) :
    h.Acyclic v :=
  fun s reached => acyclic s (reached.of_child held)

/-- The first container of a way down has all others below it. -/
theorem Route.below (route : h.Route v (r :: refs)) (mem : s ∈ refs) :
    h.Below r (.container s) := by
  induction refs generalizing v r with
  | nil => cases mem
  | cons t refs ih =>
    obtain ⟨-, held, rest⟩ := route.tail
    rcases List.mem_cons.mp mem with rfl | later
    · exact .of_held held
    · exact (Below.of_held held).trans (ih rest later)

/-- In a graph that does not contain itself, no way down meets a container twice. -/
theorem Route.nodup (route : h.Route v refs) (acyclic : h.Acyclic v) : refs.Nodup := by
  induction refs generalizing v with
  | nil => exact List.nodup_nil
  | cons r refs ih =>
    obtain rfl : .container r = v := Option.some.inj route.start
    refine List.nodup_cons.mpr ⟨fun again => acyclic r (.root rfl) (route.below again), ?_⟩
    cases refs with
    | nil => exact List.nodup_nil
    | cons s refs =>
      obtain ⟨-, held, rest⟩ := route.tail
      exact ih rest (acyclic.child held)

/-- There is a way down of different containers that is too long, if containers nest too deep. -/
theorem Acyclic.exceeds_iff (acyclic : h.Acyclic v) :
    h.Exceeds [] depth v ↔ ¬ h.NestsWithin depth v := by
  constructor
  · intro long nests
    exact nests.not_exceeds long
  · intro deep
    obtain ⟨refs, route, long⟩ := not_nestsWithin_iff.mp deep
    exact Heap.exceeds_iff.mpr ⟨refs, ⟨route.start, route.nodup acyclic, route.held⟩, long⟩

/-- A graph without some of its entries does not contain itself either. -/
theorem Acyclic.unreserved (acyclic : h.Acyclic v) : h.unreserved.Acyclic v := by
  rintro r reached ⟨s, leads, held⟩
  rw [cell_unreserved] at held
  exact acyclic r reached.of_unreserved ⟨s, leads.of_unreserved, Cell.mem_children_unreserved held⟩

theorem Alike.nestsWithin_iff {k : Heap} (alike : h.Alike k v w) :
    k.NestsWithin depth w ↔ h.NestsWithin depth v :=
  ⟨fun nests => nests.of_alike alike.symm, fun nests => nests.of_alike alike⟩

/-- Where no container holds anything that plain trees lose, nothing is lost. -/
theorem PlainThroughout.of_cells (plain : v.isPlain = true)
    (held : ∀ r, r < h.size → ∀ w ∈ (h.cell r).children, w.isPlain = true) :
    h.PlainThroughout v := by
  intro w reached
  refine reached.within ?_ fun r _ u below => held r (lt_size_of_mem_children below) u below
  rintro _ rfl
  exact plain

end Heap

namespace Clone

open RefTree

variable {h g k : Heap} {v a b : Value} {options : Options}

/-! ## When the copies fail -/

section

variable (present : v ≠ .undefined)

include present

theorem plain_apply : plain options v h =
    match h.plainWithin options.maxDepth v with
    | some tree => (.ok (h.ofPlain tree).1, (h.ofPlain tree).2)
    | none => (.error ⟨.clone, options.maxDepth⟩, h) := by
  have known : ¬ v.isUndefined = true := by
    cases v with
    | undefined => exact absurd rfl present
    | _ => exact nofun
  unfold plain
  exact congrFun (if_neg known) h

/-- A copy through a plain tree fails if containers nest too deep. -/
theorem verdict_plain : Verdict ⟨.clone, options.maxDepth⟩ (¬ h.NestsWithin options.maxDepth v)
    (plain options v h).1 := by
  rw [plain_apply present, ← Heap.exists_plainWithin_iff]
  cases h.plainWithin options.maxDepth v with
  | none => exact .exceeded (by simp)
  | some tree => exact .within (by simp) _

/-- A copy through a plain tree that succeeds is the plain tree of the value, laid out. -/
theorem plain_row (ends : plain options v h = (.ok a, g)) :
    ∃ tree t, h.plainWithin options.maxDepth v = some tree ∧ t.value = a ∧
      Heap.Row options.maxDepth h g [t] [tree] := by
  rw [plain_apply present] at ends
  cases found : h.plainWithin options.maxDepth v with
  | none =>
    rw [found] at ends
    cases ends
  | some tree =>
    obtain ⟨t, g', made, row⟩ := Heap.ofPlain_laysOut found h
    rw [found] at ends
    dsimp only at ends
    rw [made] at ends
    cases ends
    exact ⟨tree, t, rfl, rfl, row⟩

/-- Copying through a plain tree changes no container, also when it fails. -/
theorem plain_extends : h.Extends (plain options v h).2 := by
  cases ends : plain options v h with
  | mk result g =>
    cases result with
    | ok a =>
      obtain ⟨tree, t, -, -, row⟩ := plain_row present ends
      exact row.extended
    | error e =>
      rw [plain_apply present] at ends
      split at ends
      · cases ends
      · cases ends
        exact .refl h

end

/-- Without cycles and reserved keys, a deep copy fails if containers nest too deep. -/
theorem verdict_deep_of_acyclic (closed : h.Closed) (live : h.Live v) (acyclic : h.Acyclic v)
    (free : h.FreeOfReserved v) :
    Verdict ⟨.clone, options.maxDepth⟩ (¬ h.NestsWithin options.maxDepth v)
      (deep options v h).1 := by
  have alike : h.Alike h.unreserved v v := free.unfold_eq
  refine (verdict_deep closed live options).congr ?_
  rw [acyclic.unreserved.exceeds_iff, alike.nestsWithin_iff]

/-! ## Equal copies -/

/-- In the heap the value has the plain tree, which loses nothing of it. -/
structure DrawnAs (h : Heap) (depth : Nat) (v : Value) (tree : Json) : Prop where
  closed : h.Closed
  live : h.Live v
  plain : h.PlainThroughout v
  drawn : h.plainWithin depth v = some tree

namespace DrawnAs

variable {depth : Nat} {tree : Json}

theorem extend (drawn : DrawnAs h depth v tree) (closed : g.Closed) (extended : h.Extends g) :
    DrawnAs g depth v tree := by
  have alike := (Unseen.of_extends drawn.closed extended).alike v drawn.live
  exact ⟨closed, drawn.live.mono extended.grown, drawn.plain.of_alike alike,
    (Heap.plainWithin_of_alike alike depth).trans drawn.drawn⟩

theorem equal (first : DrawnAs h depth a tree) (second : DrawnAs h depth b tree) :
    h.equal a b = true :=
  Heap.equal_of_plainWithin first.closed first.live second.live first.plain second.plain first.drawn
    second.drawn

/-- The deep copy has the plain tree of the value. -/
theorem deep (drawn : DrawnAs h depth v tree) (free : h.FreeOfReserved v)
    (ends : Clone.deep options v h = (.ok a, g)) : DrawnAs g depth a tree := by
  have alike := deep_alike drawn.closed drawn.live free ends
  have live := (deep_new drawn.closed drawn.live ends).1
  exact ⟨deep_closed drawn.closed drawn.live ends, fun r same => (live r same).2,
    drawn.plain.of_alike alike, (Heap.plainWithin_of_alike alike depth).trans drawn.drawn⟩

/-- The copy through the plain tree has the plain tree of the value. -/
theorem plain_copy (drawn : DrawnAs h options.maxDepth v tree) (present : v ≠ .undefined)
    (ends : Clone.plain options v h = (.ok a, g)) : DrawnAs g options.maxDepth a tree := by
  obtain ⟨tree', t, found, rfl, row⟩ := plain_row present ends
  obtain rfl := Option.some.inj (found.symm.trans drawn.drawn)
  have holds := row.holds t List.mem_cons_self
  obtain ⟨shows, -⟩ := List.forall₂_cons.mp row.shows
  exact ⟨row.closed drawn.closed, holds.live, holds.plainThroughout shows, holds.plainWithin shows⟩

end DrawnAs

/-- One after the other, both ways of copying succeed, and the copies are equal. -/
def EqualCopies (first second : Value → HeapM RecursionLimit Value) (v : Value) (h : Heap) : Prop :=
  ∃ a g b k, first v h = (.ok a, g) ∧ second v g = (.ok b, k) ∧
    k.equal a b = true ∧ k.equal b a = true

/-- What copying a value through its plain tree does, by itself and beside a deep copy. -/
structure PlainCopies (options : Options) (h : Heap) (v : Value) : Prop where
  /-- It fails exactly if some way down, past any keys, is too long. -/
  fails_iff : (plain options v h).1 = .error ⟨.clone, options.maxDepth⟩ ↔
    ∃ refs, h.Route v refs ∧ options.maxDepth < refs.length
  /-- Otherwise it succeeds. -/
  succeeds : (∀ refs, h.Route v refs → refs.length ≤ options.maxDepth) →
    ∃ copy, (plain options v h).1 = .ok copy
  /-- So it fails if the value leads to a container that contains itself. -/
  fails_of_cycle : ¬ h.Acyclic v → (plain options v h).1 = .error ⟨.clone, options.maxDepth⟩
  /-- No container changes. -/
  extended : h.Extends (plain options v h).2
  /-- The copy is a tree of new containers. -/
  tree : ∀ copy g, plain options v h = (.ok copy, g) →
    ∃ t : RefTree, g.LaidOut copy t ∧ t.refs.Nodup ∧ ∀ r ∈ t.refs, h.size ≤ r ∧ r < g.size
  /-- If the value does not contain itself and neither copy leaves anything out, then the two fail
  together, or the copies are equal, whichever is made first. -/
  agrees : h.Closed → h.Live v → h.Acyclic v → h.PlainThroughout v → h.FreeOfReserved v →
    (deep options v h).1 = .error ⟨.clone, options.maxDepth⟩ ∧
        (plain options v h).1 = .error ⟨.clone, options.maxDepth⟩ ∨
      EqualCopies (deep options) (plain options) v h ∧
        EqualCopies (plain options) (deep options) v h

section

variable {tree : Json} (present : v ≠ .undefined)

include present

theorem plain_ok (drawn : DrawnAs h options.maxDepth v tree) :
    ∃ copy g, plain options v h = (.ok copy, g) := by
  have nests := Heap.exists_plainWithin_iff.mp ⟨tree, drawn.drawn⟩
  obtain ⟨copy, ends⟩ := (verdict_plain present).exists_ok (not_not_intro nests)
  exact ⟨copy, _, Prod.ext ends rfl⟩

/-- A copy through a plain tree beside a deep copy that was made before. -/
theorem equalCopies_deep_plain (drawn : DrawnAs h options.maxDepth v tree)
    (free : h.FreeOfReserved v) : EqualCopies (deep options) (plain options) v h := by
  have nests := Heap.exists_plainWithin_iff.mp ⟨tree, drawn.drawn⟩
  obtain ⟨a, g, first⟩ := deep_ok drawn.closed drawn.live options nests
  -- containers are only added, so the value still has its tree when the second copy is made
  have still := drawn.extend (deep_closed drawn.closed drawn.live first) (deep_extends_of_ok first)
  obtain ⟨b, k, second⟩ := plain_ok present still
  have copy := still.plain_copy present second
  have other := (drawn.deep free first).extend copy.closed (of_ends (plain_extends present) second)
  exact ⟨a, g, b, k, first, second, other.equal copy, copy.equal other⟩

/-- A deep copy beside a copy through a plain tree that was made before. -/
theorem equalCopies_plain_deep (drawn : DrawnAs h options.maxDepth v tree)
    (free : h.FreeOfReserved v) : EqualCopies (plain options) (deep options) v h := by
  obtain ⟨a, g, first⟩ := plain_ok present drawn
  have copy := drawn.plain_copy present first
  have extended : h.Extends g := of_ends (plain_extends present) first
  have still := drawn.extend copy.closed extended
  have alike := (Unseen.of_extends drawn.closed extended).alike v drawn.live
  have nests := Heap.exists_plainWithin_iff.mp ⟨tree, still.drawn⟩
  obtain ⟨b, k, second⟩ := deep_ok still.closed still.live options nests
  have other := still.deep (free.of_alike alike) second
  have copy := copy.extend other.closed (deep_extends_of_ok second)
  exact ⟨a, g, b, k, first, second, copy.equal other, other.equal copy⟩

/-- **Copies through plain trees agree with deep copies.** -/
theorem plain_copies (options : Options) : PlainCopies options h v where
  fails_iff := (verdict_plain present).error_iff.trans Heap.not_nestsWithin_iff
  succeeds short := by
    refine (verdict_plain present).exists_ok fun deep => ?_
    obtain ⟨refs, route, long⟩ := Heap.not_nestsWithin_iff.mp deep
    exact absurd (short refs route) (Nat.not_le.mpr long)
  fails_of_cycle cyclic := (verdict_plain present).error_iff.mpr fun nests => cyclic nests.acyclic
  extended := plain_extends present
  tree copy g ends := by
    obtain ⟨_, t, -, top, row⟩ := plain_row present ends
    have refs : refsOfItems [t] = t.refs := List.append_nil _
    exact ⟨t, ⟨top, row.holds t List.mem_cons_self⟩, refs ▸ row.nodup, refs ▸ row.new⟩
  agrees closed live acyclic lossless free := by
    by_cases nests : h.NestsWithin options.maxDepth v
    · obtain ⟨tree, found⟩ := Heap.exists_plainWithin_iff.mpr nests
      have drawn : DrawnAs h options.maxDepth v tree := ⟨closed, live, lossless, found⟩
      exact .inr ⟨equalCopies_deep_plain present drawn free,
        equalCopies_plain_deep present drawn free⟩
    · exact .inl ⟨(verdict_deep_of_acyclic closed live acyclic free).error_iff.mpr nests,
        (verdict_plain present).error_iff.mpr nests⟩

end

/-- A mapping that holds a sequence under two keys, and an empty mapping; the copies are trees. -/
theorem plain_copies_shared :
    let h : Heap := ⟨#[
      .mapping (.ofList [("none", .container 2), ("rows", .container 1), ("same", .container 1)]),
      .sequence #[.number (-0), .number (Float.ofBits 0x3FE0000000000000), .null],
      .mapping (.ofList [])]⟩
    (plain ⟨1⟩ (.container 0) h).1 = .error ⟨.clone, 1⟩ ∧
      EqualCopies (deep ⟨2⟩) (plain ⟨2⟩) (.container 0) h ∧
        EqualCopies (plain ⟨2⟩) (deep ⟨2⟩) (.container 0) h := by
  intro h
  have present : Value.container 0 ≠ .undefined := nofun
  have nests : h.NestsWithin 2 (.container 0) := by decide
  have lossless : h.PlainThroughout (.container 0) := .of_cells rfl (by decide)
  have free : h.FreeOfReserved (.container 0) := by
    rintro (_ | _ | _ | r) fields - cell <;> cases cell <;> decide
  have route : h.Route (.container 0) [0, 1] := ⟨rfl, by decide⟩
  refine ⟨(plain_copies present ⟨1⟩).fails_iff.mpr ⟨_, route, by decide⟩, ?_⟩
  refine ((plain_copies present ⟨2⟩).agrees (by decide) (by decide) nests.acyclic lossless
    free).resolve_left ?_
  rintro ⟨-, fails⟩
  exact (verdict_plain present).error_iff.mp fails nests

end Clone

end FormLogic
