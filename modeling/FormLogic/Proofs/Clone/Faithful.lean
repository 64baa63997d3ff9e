import FormLogic.Proofs.Clone.Paths
import Mathlib.Data.List.Nodup

/-!
# `FormLogic.Proofs.Clone.Faithful` — deep copies are faithful and disjoint

A deep copy looks like the value without the keys that copies leave out, shares no container with
it, and has the form of a tree with references back to ancestors. That it looks the same is a
bisimulation: below ancestors that have all been filled, a value and its copy show the same shape,
and what they hold is again below such ancestors.

## Contents
- `Ancestry`: ancestors that have been filled; `Copied.unfold_eq`: the same unfolding.
- `Faithful`: what a deep copy is; `deep_faithful`: a deep copy that is returned is one.
-/

namespace FormLogic.Clone

variable {h g : Heap} {v copy : Value}

/-! ## The unfolding of a copy -/

/-- Each of the ancestors has been filled below the ones before it. -/
inductive Ancestry (h g : Heap) : Ancestors → Prop where
  | root : Ancestry h g []
  | deeper {ancestors : Ancestors} {r c n m : Ref} {depth : Nat} (above : Ancestry h g ancestors)
      (filled : Filled (Copied h g depth ((r, c) :: ancestors)) (h.cell r) (g.cell c) n m) :
      Ancestry h g ((r, c) :: ancestors)

/-- The copy of an ancestor has been filled below filled ancestors. -/
theorem Ancestry.filled {ancestors : Ancestors} (ancestry : Ancestry h g ancestors) {r c : Ref}
    (known : ancestors.lookup r = some c) :
    ∃ above depth n m, Ancestry h g ((r, c) :: above) ∧
      Filled (Copied h g depth ((r, c) :: above)) (h.cell r) (g.cell c) n m := by
  induction ancestry with
  | root => cases known
  | @deeper ancestors q d n m depth above filled ih =>
    rw [List.lookup_cons] at known
    split at known
    · next same =>
      obtain rfl := beq_iff_eq.mp same
      obtain rfl := Option.some.inj known
      exact ⟨ancestors, depth, n, m, .deeper above filled, filled⟩
    · exact ih known

theorem Threaded.map_eq {P : Value → Value → Ref → Ref → Prop} {α : Type} {f f' : Value → α}
    {vs ws : List Value} {n m : Ref} (threaded : Threaded P vs ws n m)
    (same : ∀ v w a b, P v w a b → f' w = f v) : ws.map f' = vs.map f := by
  induction threaded with
  | nil => rfl
  | cons first _ _ ih => rw [List.map_cons, List.map_cons, same _ _ _ _ first, ih]

/-- Below filled ancestors, a copy looks like its value. -/
theorem Copied.unfold_eq {depth : Nat} {ancestors : Ancestors} {v w : Value} {n m : Ref}
    (copied : Copied h g depth ancestors v w n m) (ancestry : Ancestry h g ancestors) (level : Nat) :
    g.unfold level w = h.unfold level v := by
  induction level generalizing depth ancestors v w n m with
  | zero =>
    cases depth with
    | zero => cases copied
    | succ depth =>
      cases copied with
      | leaf leaf => rw [Heap.unfold_leaf leaf, Heap.unfold_leaf leaf]
      | back | made => rfl
  | succ level ih =>
    -- a container and its copy have the same shape, and below them all is as deep as in `ih`
    have node : ∀ {ancestors r c depth n m}, Ancestry h g ((r, c) :: ancestors) →
        Filled (Copied h g depth ((r, c) :: ancestors)) (h.cell r) (g.cell c) n m →
        g.unfold (level + 1) (.container c) = h.unfold (level + 1) (.container r) := by
      intro ancestors r c depth n m ancestry filled
      unfold Heap.unfold
      rw [filled.shape, filled.children.map_eq fun v w a b inner => ih inner ancestry]
    cases depth with
    | zero => cases copied
    | succ depth =>
      cases copied with
      | leaf leaf => rw [Heap.unfold_leaf leaf, Heap.unfold_leaf leaf]
      | back known =>
        obtain ⟨above, _, _, _, ancestry, filled⟩ := ancestry.filled known
        exact node ancestry filled
      | made new filled => exact node (.deeper ancestry filled) filled

/-! ## Faithful copies -/

/-- In `g`, the copy of a value of `h` is faithful, and shares nothing with what was there. -/
structure Faithful (h g : Heap) (v copy : Value) : Prop where
  /-- Every container that was there holds what it held. -/
  unchanged : ∀ r, r < h.size → g.cell r = h.cell r
  /-- The copy reaches new containers only. -/
  fresh : ∀ r, g.Reach {copy} (.container r) → h.size ≤ r ∧ r < g.size
  /-- The copy unfolds to the tree of the value without reserved keys. -/
  unfolding : ∀ level, g.unfold level copy = h.unreserved.unfold level v
  /-- Each path of the value leads to a container of the copy through the same places, and wherever
  the last container holds a reference back to one on the path, that one's copy is held. -/
  wired : ∀ places refs, h.unreserved.Path [] v places refs →
    ∃ copies, g.Path [] copy places copies ∧ copies.length = refs.length ∧
      ∀ r c place (i : Nat) s, refs.getLast? = some r → copies.getLast? = some c →
        (h.unreserved.cell r).at? place = some (.container s) → refs[i]? = some s →
        ∃ t, copies[i]? = some t ∧ (g.cell c).at? place = some (.container t)
  /-- A container of the copy is referenced from one place only, but for references back from
  containers below it. -/
  separate : ∀ c c' place place' t,
    g.Reach {copy} (.container c) → g.Reach {copy} (.container c') →
    (g.cell c).at? place = some (.container t) → (g.cell c').at? place' = some (.container t) →
    ¬ g.OnWay copy t c → ¬ g.OnWay copy t c' → c = c' ∧ place = place'

/-- In a list of pairs with different first parts, each pair is found by its first part. -/
theorem lookup_of_mem {pairs : Ancestors} (nodup : (pairs.map Prod.fst).Nodup) {r c : Ref}
    (mem : (r, c) ∈ pairs) : pairs.lookup r = some c := by
  induction pairs with
  | nil => cases mem
  | cons pair rest ih =>
    obtain ⟨q, d⟩ := pair
    obtain ⟨single, nodup⟩ := List.nodup_cons.mp nodup
    rcases List.mem_cons.mp mem with same | later
    · cases same
      exact List.lookup_cons_self
    · have found : r ∈ rest.map Prod.fst := List.mem_map.mpr ⟨(r, c), later, rfl⟩
      have other : r ≠ q := by
        rintro rfl
        exact single found
      rw [List.lookup_cons, beq_false_of_ne other]
      exact ih nodup later

/-- References back are wired to the copies of the containers on the path. -/
theorem Copied.wired {depth : Nat} {n m : Ref} {places : List Place} {refs : List Ref}
    (copied : Copied h g depth [] v copy n m) (path : h.Path [] v places refs) :
    ∃ copies, g.Path [] copy places copies ∧ copies.length = refs.length ∧
      ∀ r c place (i : Nat) s, refs.getLast? = some r → copies.getLast? = some c →
        (h.cell r).at? place = some (.container s) → refs[i]? = some s →
        ∃ t, copies[i]? = some t ∧ (g.cell c).at? place = some (.container t) := by
  obtain ⟨copies, path', length, r, c, depth, n, m, last, last', filled⟩ :=
    copied.follow (fun _ mem => absurd mem List.not_mem_nil) path
  refine ⟨copies, path', length, ?_⟩
  intro r' c' place i s here here' held back
  cases last.symm.trans here
  cases last'.symm.trans here'
  have bound : i < copies.length := length ▸ (List.getElem?_eq_some_iff.mp back).1
  refine ⟨copies[i], List.getElem?_eq_getElem bound, ?_⟩
  obtain ⟨w, a, b, there, copied, _⟩ := filled.at_source held
  -- a path meets no container twice, so each is found with its own copy
  have known : ((refs.zip copies).reverse ++ []).lookup s = some copies[i] := by
    rw [List.append_nil]
    apply lookup_of_mem
    · rw [List.map_reverse, List.map_fst_zip (Nat.le_of_eq length.symm)]
      exact List.nodup_reverse.mpr path.nodup
    · rw [List.mem_reverse]
      refine List.mem_of_getElem? (i := i) ?_
      rw [List.getElem?_zip_eq_some]
      exact ⟨back, List.getElem?_eq_getElem bound⟩
  cases depth with
  | zero => cases copied
  | succ depth =>
    cases copied with
    | back known' =>
      cases known.symm.trans known'
      exact there
    | made new _ => cases known.symm.trans new
    | leaf leaf => cases leaf

/-- Two references to one container of a copy stand at the same place, unless one leads back. -/
theorem Copied.separate {depth : Nat} {n m : Ref} (copied : Copied h g depth [] v copy n m)
    {c c' t : Ref} {place place' : Place} (reached : g.Reach {copy} (.container c))
    (reached' : g.Reach {copy} (.container c')) (held : (g.cell c).at? place = some (.container t))
    (held' : (g.cell c').at? place' = some (.container t)) (forward : ¬ g.OnWay copy t c)
    (forward' : ¬ g.OnWay copy t c') : c = c' ∧ place = place' := by
  obtain ⟨places, refs, path, last⟩ := Heap.exists_path_of_reach reached
  obtain ⟨places', refs', path', last'⟩ := Heap.exists_path_of_reach reached'
  have longer := path.extend last held List.not_mem_nil
    fun met => forward ⟨places, refs, path, last, met⟩
  have longer' := path'.extend last' held' List.not_mem_nil
    fun met => forward' ⟨places', refs', path', last', met⟩
  have same := copied.path_unique longer longer' List.getLast?_concat List.getLast?_concat
  -- the two paths are one, so their last places and the containers there are the same
  obtain ⟨rfl, place_eq⟩ := List.append_inj' same rfl
  refine ⟨?_, (List.cons.inj place_eq).1⟩
  rw [path.refs_eq path', last'] at last
  exact (Option.some.inj last).symm

/-- **A deep copy is faithful and disjoint**, whether the graph is shared or contains itself. -/
theorem deep_faithful {options : Options} {h g : Heap} {v copy : Value} (closed : h.Closed)
    (live : h.Live v) (ends : deep options v h = (.ok copy, g)) : Faithful h g v copy where
  unchanged _ old := (deep_extends_of_ok ends).cells old
  fresh _ reached := deep_fresh closed live ends reached
  unfolding level := (deep_copied closed live ends).unfold_eq .root level
  wired _ _ path := (deep_copied closed live ends).wired path
  separate _ _ _ _ _ reached reached' held held' forward forward' :=
    (deep_copied closed live ends).separate reached reached' held held' forward forward'

/-- A mapping that holds one sequence twice, which holds the mapping again. -/
theorem deep_faithful_shared_cycle :
    let h : Heap := ⟨#[
      .mapping (.ofList [("a", .container 1), ("__proto__", .container 0), ("b", .container 1)]),
      .sequence #[.container 0]]⟩
    let g : Heap := ⟨h.cells ++ #[
      .mapping (.ofList [("a", .container 3), ("b", .container 4)]),
      .sequence #[.container 2], .sequence #[.container 2]]⟩
    h.Closed ∧ h.Live (.container 0) ∧
      deep {} (.container 0) h = (.ok (.container 2), g) ∧
      Faithful h g (.container 0) (.container 2) := by
  intro h g
  have closed : h.Closed := by decide
  have live : h.Live (.container 0) := by decide
  have ends : deep {} (.container 0) h = (.ok (.container 2), g) := by rfl
  exact ⟨closed, live, ends, deep_faithful closed live ends⟩

end FormLogic.Clone
