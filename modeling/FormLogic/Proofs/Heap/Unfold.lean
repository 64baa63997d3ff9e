import FormLogic.Proofs.Heap.Place
import FormLogic.Proofs.Heap.Reach

/-!
# `FormLogic.Proofs.Heap.Unfold` — paths and unfoldings

A graph is looked at in two ways. A *path* goes from a value down through places of containers and
meets no container twice; so it ends where it would close a cycle. The *unfolding* forgets which
containers are the same: it is the possibly infinite tree that one sees by following references,
and is given here by its pieces of each depth.

## Contents
- `Path`: the ways from a value to containers; `exists_path_of_reach`: every container that is
  reached is on one.
- `Tree`, `unfold`: the unfolding down to a depth; `unfold_congr`: it depends on what is reached.
-/

namespace FormLogic

namespace Heap

/-! ## Paths -/

/-- The containers `refs` are met one after the other on the way from a value through `places`, and
none of them twice, nor one of those in `passed`. -/
inductive Path (h : Heap) : (passed : List Ref) → Value → (places : List Place) →
    (refs : List Ref) → Prop where
  | stop {passed : List Ref} {r : Ref} (new : r ∉ passed) : Path h passed (.container r) [] [r]
  | step {passed : List Ref} {r : Ref} {place : Place} {v : Value} {places : List Place}
      {refs : List Ref} (new : r ∉ passed) (held : (h.cell r).at? place = some v)
      (rest : Path h (r :: passed) v places refs) :
      Path h passed (.container r) (place :: places) (r :: refs)

namespace Path

variable {h : Heap} {passed : List Ref} {v : Value} {places places' : List Place}
  {refs refs' : List Ref} {r s : Ref}

/-- A path does not start at a container that is passed. -/
theorem start_not_passed (path : h.Path passed (.container r) places refs) : r ∉ passed := by
  cases path with
  | stop new | step new => exact new

/-- The places determine the containers. -/
theorem refs_eq (path : h.Path passed v places refs) (path' : h.Path passed v places refs') :
    refs = refs' := by
  induction path generalizing refs' with
  | stop _ =>
    cases path'
    rfl
  | step _ held _ ih =>
    cases path' with
    | step _ held' rest' =>
      cases held.symm.trans held'
      rw [ih rest']

/-- The last container of a longer path is the last one of its rest. -/
theorem getLast?_cons (path : h.Path passed v places refs) (r : Ref) :
    (r :: refs).getLast? = refs.getLast? := by
  cases path <;> rfl

theorem not_mem_passed (path : h.Path passed v places refs) (mem : r ∈ refs) : r ∉ passed := by
  induction path with
  | stop new => exact List.mem_singleton.mp mem ▸ new
  | step new _ _ ih =>
    rcases List.mem_cons.mp mem with rfl | deeper
    · exact new
    · exact fun old => ih deeper (List.mem_cons_of_mem _ old)

theorem nodup (path : h.Path passed v places refs) : refs.Nodup := by
  induction path with
  | stop _ => exact List.nodup_cons.mpr ⟨List.not_mem_nil, List.nodup_nil⟩
  | step _ _ rest ih =>
    exact List.nodup_cons.mpr ⟨fun again => rest.not_mem_passed again List.mem_cons_self, ih⟩

/-- A path goes on to a container that it has not met. -/
theorem extend {place : Place} (path : h.Path passed v places refs)
    (last : refs.getLast? = some r) (held : (h.cell r).at? place = some (.container s))
    (unmet : s ∉ passed) (unmet' : s ∉ refs) :
    h.Path passed v (places ++ [place]) (refs ++ [s]) := by
  induction path with
  | @stop passed q new =>
    obtain rfl : q = r := Option.some.inj last
    refine .step new held (.stop fun old => ?_)
    rcases List.mem_cons.mp old with rfl | old
    · exact unmet' List.mem_cons_self
    · exact unmet old
  | @step passed q _ _ _ refs new here rest ih =>
    rw [rest.getLast?_cons] at last
    refine .step new here (ih last (fun old => ?_) fun deeper =>
      unmet' (List.mem_cons_of_mem _ deeper))
    rcases List.mem_cons.mp old with rfl | old
    · exact unmet' List.mem_cons_self
    · exact unmet old

/-- A path to a container that it meets on the way. -/
theorem upto (path : h.Path passed v places refs) (mem : r ∈ refs) :
    ∃ places refs, h.Path passed v places refs ∧ refs.getLast? = some r := by
  induction path with
  | stop new =>
    obtain rfl := List.mem_singleton.mp mem
    exact ⟨[], [r], .stop new, rfl⟩
  | @step passed q place _ _ _ new held _ ih =>
    rcases List.mem_cons.mp mem with rfl | deeper
    · exact ⟨[], [r], .stop new, rfl⟩
    · obtain ⟨places, refs, path, last⟩ := ih deeper
      exact ⟨place :: places, q :: refs, .step new held path, (path.getLast?_cons q).trans last⟩

/-- A path is a way of reaching. -/
theorem reach (path : h.Path passed v places refs) (mem : r ∈ refs) :
    h.Reach {v} (.container r) := by
  induction path with
  | stop _ =>
    obtain rfl := List.mem_singleton.mp mem
    exact .root rfl
  | @step _ q _ v _ _ _ held _ ih =>
    rcases List.mem_cons.mp mem with rfl | deeper
    · exact .root rfl
    · exact (ih deeper).of_child (Cell.mem_children_of_at? held)

/-- A container that a path meets leads to the last one. -/
theorem reach_last (path : h.Path passed v places refs) (last : refs.getLast? = some r)
    (mem : s ∈ refs) : h.Reach {.container s} (.container r) := by
  induction path with
  | @stop _ q _ =>
    obtain rfl := List.mem_singleton.mp mem
    obtain rfl : s = r := Option.some.inj last
    exact .root rfl
  | @step _ q _ v _ _ new held rest ih =>
    rw [rest.getLast?_cons] at last
    rcases List.mem_cons.mp mem with rfl | deeper
    · exact (rest.reach (List.mem_of_getLast? last)).of_child (Cell.mem_children_of_at? held)
    · exact ih last deeper

end Path

/-- On the way from a value to the container `r` one meets the container `s`, which can be `r`
itself. -/
def OnWay (h : Heap) (v : Value) (s r : Ref) : Prop :=
  ∃ places refs, h.Path [] v places refs ∧ refs.getLast? = some r ∧ s ∈ refs

/-- A container that is reached from a value is at the end of a path. -/
theorem exists_path_of_reach {h : Heap} {v : Value} {r : Ref}
    (reached : h.Reach {v} (.container r)) :
    ∃ places refs, h.Path [] v places refs ∧ refs.getLast? = some r := by
  refine reached.within (P := fun w => ∀ r, w = .container r →
    ∃ places refs, h.Path [] v places refs ∧ refs.getLast? = some r) ?_ ?_ r rfl
  · rintro _ rfl r rfl
    exact ⟨[], [r], .stop List.not_mem_nil, rfl⟩
  · rintro q before _ held s rfl
    obtain ⟨places, refs, path, last⟩ := before q rfl
    obtain ⟨place, held⟩ := Cell.exists_at?_of_mem held
    -- a reference back leads to a container that the path has met already
    by_cases met : s ∈ refs
    · exact path.upto met
    · exact ⟨_, _, path.extend last held List.not_mem_nil met, List.getLast?_concat⟩

end Heap

/-! ## Unfoldings -/

/-- The unfolding of a value down to some depth: what is seen without telling containers apart. -/
inductive Tree where
  /-- A container below the depth. -/
  | cut
  | leaf (v : Value)
  | node (shape : Shape) (children : List Tree)

namespace Heap

/-- The unfolding of a value, down to `depth` containers below each other. -/
def unfold (h : Heap) : (depth : Nat) → Value → Tree
  | 0, .container _ => .cut
  | depth + 1, .container r =>
    .node (h.cell r).shape ((h.cell r).children.map (h.unfold depth))
  | _, v => .leaf v

theorem unfold_leaf {v : Value} (leaf : v.isContainer = false) (h : Heap) (depth : Nat) :
    h.unfold depth v = .leaf v := by
  cases v with
  | container r => cases leaf
  | _ => cases depth <;> rfl

/-- The unfolding of a value is the same in a heap in which it leads to the same containers. -/
theorem unfold_congr {h k : Heap} {v : Value}
    (same : ∀ r, h.Reach {v} (.container r) → k.cell r = h.cell r) (depth : Nat) :
    k.unfold depth v = h.unfold depth v := by
  induction depth generalizing v with
  | zero => cases v <;> rfl
  | succ depth ih =>
    rcases v.leaf_or_container with leaf | ⟨r, rfl⟩
    · rw [unfold_leaf leaf, unfold_leaf leaf]
    · have below : ∀ w ∈ (h.cell r).children, k.unfold depth w = h.unfold depth w := by
        intro w held
        exact ih fun s reached => same s (reached.of_child held)
      unfold unfold
      rw [same r (.root rfl), List.map_congr_left below]

end Heap

end FormLogic
