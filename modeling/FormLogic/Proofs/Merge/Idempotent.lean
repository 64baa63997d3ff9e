import FormLogic.Proofs.Heap.Reach
import FormLogic.Proofs.Merge.InPlace

/-!
# `FormLogic.Proofs.Merge.Idempotent` — merging a source again

After a source has been merged, the target holds containers of it, so a second merge no longer runs on
two trees that share nothing. But nothing is left for it to do. At each entry the target holds either
the container of the source itself, which is passed over, or the value that would be stored, or a
container of its own in which the source has been merged already. The levels are those of the first
merge, so the limit is not met either.

The heap of the second merge need not be the one that the first has left: any heap in which the target
is laid out as the merged tree, and the source as it was, is left as it is. This is what the induction
carries, since the merge of an entry is followed by those of the entries behind it.

## Contents
- `Heap.update_eq_self`: a change that changes nothing.
- `TreeStep.again`, `settled_entries`, `settles_pair`: entries and trees that have been merged before.
- `merge_idempotent`: a source that has been merged before.
-/

namespace FormLogic

open RefTree

/-- Putting back what a container holds leaves the heap as it is. -/
theorem Heap.update_eq_self {h : Heap} {r : Ref} {f : Cell → Cell} (same : f (h.cell r) = h.cell r) :
    h.update r f = h := by
  have cells : h.cells.modify r f = h.cells := by
    refine Array.ext_getElem? fun i => ?_
    rw [Array.getElem?_modify]
    split
    · next here =>
      subst here
      cases held : h.cells[r]? with
      | none => rfl
      | some c =>
        have top : h.cell r = c := by
          unfold cell
          rw [held, Option.getD_some]
        rw [Option.map_some, ← top, same]
    · rfl
  exact congrArg Heap.mk cells

namespace Merge

variable {options : Options} {deeper : Value → Value → HeapM RecursionLimit Unit} {h g k : Heap}
  {key : String} {s t : RefTree} {r : Ref} {entries final incoming : List (String × RefTree)}

/-! ## One entry -/

/-- After the first entry the others are merged. -/
theorem EntryStep.entries_cons {target : Ref} {v : Value} {rest : List (String × Value)}
    (step : EntryStep options deeper target key v h k) :
    Merge.entries options deeper target ((key, v) :: rest) h =
      Merge.entries options deeper target rest k := by
  rw [Merge.entries]
  cases step with
  | reserved reserved => rw [if_pos reserved]
  | shared free both same =>
    rw [if_neg free, bind_apply]
    simp only [HeapM.lookup, both, same, Bool.not_true, Bool.false_eq_true, if_true, if_false]
  | inside free both differ run =>
    rw [if_neg free, bind_apply]
    simp only [HeapM.lookup, both, differ, Bool.not_false, if_true]
    rw [bind_apply, run]
  | skipped free other skipped =>
    rw [if_neg free, bind_apply]
    simp only [HeapM.lookup, other, skipped, Bool.not_true, Bool.false_eq_true, if_false]
  | stored free other stored =>
    rw [if_neg free, bind_apply]
    simp only [HeapM.lookup, other, stored, Bool.not_false, Bool.false_eq_true, if_true, if_false]
    rfl

/-- A merge of the values at the top that has been made once has nothing left to do where the target
is laid out as the merged tree and the source as it was. -/
def Settles (options : Options) (deeper : Value → Value → HeapM RecursionLimit Unit) : Prop :=
  ∀ {s t h g k}, h.Holds t → h.Holds s → (∀ q, t.refs.count q + s.refs.count q ≤ 1) →
    deeper t.value s.value h = (.ok (), g) → k.Holds (s.mergeInto options t) → k.Holds s →
      deeper t.value s.value k = (.ok (), k)

/-- Two containers that the target and the source have by now are one, or have been merged before. -/
theorem EntryStep.of_settled (free : ¬ isReserved key = true) {v : Value}
    (both : ((k.lookup (.container r) key).isContainer && v.isContainer) = true)
    (settled : deeper (k.lookup (.container r) key) v k = (.ok (), k)) :
    EntryStep options deeper r key v k k := by
  by_cases same : (k.lookup (.container r) key).same v = true
  · exact .shared free both same
  · exact .inside free both same settled

/-- A value that the mapping has under the key already can be stored again, or is passed over. -/
theorem EntryStep.of_stored (free : ¬ isReserved key = true) (after : k.Holds (.mapping r final))
    (still : k.Holds s) (there : valueAt? key final = some s)
    (stored : ¬ (options.skipUndefined && s.isUndefined) = true) :
    EntryStep options deeper r key s.value k k := by
  have looked : k.lookup (.container r) key = s.value := by
    rw [after.lookup_eq, there, Option.getD_some]
  -- a scalar is stored again, a container is the very one that has been stored
  rcases s.value.leaf_or_container with leaf | ⟨q, top⟩
  · have again : k.update r (.mapFields (·.insert key s.value)) = k := by
      cases after with
      | mapping inside cell shown below =>
        refine Heap.update_eq_self ?_
        rw [cell]
        refine congrArg Cell.mapping (Fields.ext (insertEntry_eq_self ?_))
        rw [shown, valueAt?_valuesOf, there, Option.map_some]
    have step : EntryStep options deeper r key s.value k
        (k.update r (.mapFields (·.insert key s.value))) := by
      refine .stored free ?_ ?_
      · rw [leaf, Bool.and_false]
      · rw [still.value_isUndefined]
        exact stored
    rw [again] at step
    exact step
  · refine .shared free ?_ ?_
    · rw [looked, top]
      rfl
    · rw [looked, top]
      exact beq_self_eq_true q

/-- **One entry of a source that has been merged before** changes nothing. -/
theorem TreeStep.again (settles : Settles options deeper) (given : h.Holds s)
    (disjoint : ∀ q, (RefTree.mapping r entries).refs.count q + s.refs.count q ≤ 1)
    (step : TreeStep options deeper r entries key s h g) (after : k.Holds (.mapping r final))
    (there : valueAt? key final =
      valueAt? key (mergeEntry options key s (fun t => s.mergeInto options t) entries))
    (still : k.Holds s) : EntryStep options deeper r key s.value k k := by
  cases step with
  | reserved reserved => exact .reserved reserved
  | @inside g t free found container container' held run =>
    rw [mergeEntry_containers free found container container', Fields.valueAt?_insertEntry,
      if_pos rfl] at there
    have merged : k.Holds (s.mergeInto options t) := after.entry_holds (mem_of_valueAt? there)
    have looked : k.lookup (.container r) key = t.value := by
      rw [after.lookup_eq, there, Option.getD_some, value_mergeInto]
    refine .of_settled free ?_ ?_
    · rw [looked, held.value_isContainer, given.value_isContainer, container, container']
      rfl
    · rw [looked]
      exact settles held given (count_below disjoint found) run merged still
  | skipped free other skipped =>
    rw [mergeEntry_other free other, if_pos skipped] at there
    refine .skipped free ?_ ?_
    · rw [after.lookup_eq, there]
      cases found : valueAt? key entries with
      | none => rfl
      | some t =>
        rw [found] at there
        have held : k.Holds t := after.entry_holds (mem_of_valueAt? there)
        rw [Option.getD_some, held.value_isContainer, still.value_isContainer]
        exact other t found
    · rw [still.value_isUndefined]
      exact skipped
  | stored free other stored =>
    rw [mergeEntry_other free other, if_neg stored, Fields.valueAt?_insertEntry, if_pos rfl] at there
    exact .of_stored free after still there stored

/-- **All entries of a source that has been merged before** change nothing, by induction on those that
are still to come. What the mapping has under their keys in the end is what each of them has made of
it, since no later entry has the same key. -/
theorem settled_entries (correct : Merges options deeper) (settles : Settles options deeper)
    (ready : Ready h r entries incoming)
    (run : Merge.entries options deeper r (valuesOf incoming) h = (.ok (), g))
    (after : k.Holds (.mapping r (mergeEntries options incoming entries)))
    (still : ∀ entry ∈ incoming, k.Holds entry.2) :
    Merge.entries options deeper r (valuesOf incoming) k = (.ok (), k) := by
  induction incoming generalizing entries h with
  | nil => rfl
  | cons entry rest ih =>
    obtain ⟨key, s⟩ := entry
    obtain ⟨h', step, run⟩ := entries_cons_ok run
    have given := ready.given _ List.mem_cons_self
    have step := step.onTrees ready.holds given ready.first
    have absent : valueAt? key rest = none :=
      valueAt?_eq_none_iff.mpr (List.nodup_cons.mp ready.nodup).1
    have again := step.again settles given ready.first after (valueAt?_mergeEntries_none absent)
      (still _ List.mem_cons_self)
    show Merge.entries options deeper r ((key, s.value) :: valuesOf rest) k = (.ok (), k)
    rw [again.entries_cons]
    exact ih (ready.next correct step) run after fun entry mem => still entry (List.mem_cons_of_mem _ mem)

/-! ## Whole trees -/

/-- **One tree that has been merged into another** can be merged into it again, by induction on the
levels there is room for. -/
theorem settles_pair (overwrite : options.arrayMerger = .overwrite) (room : Nat) :
    Settles options fun v w => pair options room v w := by
  induction room with
  | zero =>
    intro s t h g k holds given disjoint run after still
    cases run
  | succ room ih =>
    intro s t h g k holds given disjoint run after still
    replace run : pair options (room + 1) t.value s.value h = (.ok (), g) := run
    show pair options (room + 1) t.value s.value k = (.ok (), k)
    by_cases kind : SameKind t s
    · cases kind with
      | mapping r r' entries incoming =>
        rw [value, value, pair_mapping holds given] at run
        rw [value, value, pair_mapping after still]
        exact settled_entries (merges_pair (.inl overwrite) room) ih (.of_holds holds given disjoint)
          run after fun entry mem => still.entry_holds mem
      | sequence r r' items incoming =>
        rw [mergeInto, overwrite] at after
        rw [value, value, pair_sequence after still]
        cases after with
        | sequence inside cell below =>
          refine congrArg (Prod.mk _) (Heap.update_eq_self ?_)
          rw [cell, overwrite]
          rfl
    · rw [mergeInto_other kind] at after
      exact pair_other after still kind

/-- **Overwriting merges are idempotent.** If a source that shares nothing with the target has been
merged into it, a second merge succeeds as well, and the heap stays as the first one has left it. -/
theorem merge_idempotent {target source result : Value}
    (overwrite : options.arrayMerger = .overwrite) (laid : h.LaidOut target t)
    (given : h.LaidOut source s) (disjoint : (t.refs ++ s.refs).Nodup)
    (run : merge options target [source] h = (.ok result, g)) :
    merge options target [source] g = (.ok target, g) := by
  obtain ⟨rfl, holds⟩ := laid
  obtain ⟨rfl, held⟩ := given
  have once (q : Ref) : t.refs.count q + s.refs.count q ≤ 1 := by
    rw [← List.count_append]
    exact List.nodup_iff_count.mp disjoint q
  obtain ⟨⟨⟩, k, run, ends⟩ := bind_eq_ok_iff.mp run
  cases ends
  refine bind_eq_ok_iff.mpr ⟨(), g, ?_, rfl⟩
  unfold sources at run ⊢
  by_cases same : s.value.same t.value = true
  · simp only [same, Bool.not_true, Bool.false_eq_true, if_false]
    rfl
  · have differ : (!s.value.same t.value) = true := by simp [same]
    rw [if_pos differ] at run ⊢
    obtain ⟨⟨⟩, k, first, run⟩ := bind_eq_ok_iff.mp run
    cases run
    have merged := merges_pair (.inl overwrite) options.maxDepth holds held once first
    have still : g.Holds s := merged.holds_other held fun q inner => not_mem_of_count (once q) inner
    refine bind_eq_ok_iff.mpr ⟨(), g, ?_, rfl⟩
    exact settles_pair overwrite options.maxDepth holds held once first merged.holds still

/-- Under its keys the source has a mapping that is merged, a sequence whose elements replace those of
the target, a mapping where the target has a sequence, a value in place of a container, a new
container, and a mark of absence. -/
theorem merge_idempotent_kinds :
    let h : Heap := ⟨#[
      .mapping (.ofList [("deep", .container 1), ("rows", .container 2), ("kind", .container 3),
        ("flat", .container 4), ("none", .null)]),
      .mapping (.ofList [("x", .bool true)]), .sequence #[.null], .sequence #[], .mapping .empty,
      .mapping (.ofList [("new", .container 10), ("none", .undefined), ("flat", .bool false),
        ("kind", .container 8), ("rows", .container 7), ("deep", .container 6)]),
      .mapping (.ofList [("y", .container 9)]), .sequence #[.bool true, .undefined],
      .mapping .empty, .sequence #[], .mapping .empty]⟩
    let t : RefTree := .mapping 0 [("deep", .mapping 1 [("x", .leaf (.bool true))]),
      ("rows", .sequence 2 [.leaf .null]), ("kind", .sequence 3 []), ("flat", .mapping 4 []),
      ("none", .leaf .null)]
    let s : RefTree := .mapping 5 [("new", .mapping 10 []), ("none", .leaf .undefined),
      ("flat", .leaf (.bool false)), ("kind", .mapping 8 []),
      ("rows", .sequence 7 [.leaf (.bool true), .leaf .undefined]),
      ("deep", .mapping 6 [("y", .sequence 9 [])])]
    let options : Options := ⟨.overwrite, true, 2⟩
    let ends := merge options (.container 0) [.container 5] h
    h.LaidOut (.container 0) t ∧ h.LaidOut (.container 5) s ∧ (t.refs ++ s.refs).Nodup ∧
      ends.1 = .ok (.container 0) ∧
      merge options (.container 0) [.container 5] ends.2 = (.ok (.container 0), ends.2) := by
  intro h t s options ends
  have laid : h.LaidOut (.container 0) t := by
    refine ⟨rfl, .mapping (by decide) rfl rfl ?_⟩
    simp only [List.forall_mem_cons, List.not_mem_nil, false_implies, implies_true, and_true]
    refine ⟨.mapping (by decide) rfl rfl ?_, .sequence (by decide) rfl ?_, .sequence (by decide) rfl ?_,
      .mapping (by decide) rfl rfl ?_, .leaf rfl⟩
    · exact List.forall_mem_singleton.mpr (.leaf rfl)
    · exact List.forall_mem_singleton.mpr (.leaf rfl)
    · exact List.forall_mem_nil _
    · exact List.forall_mem_nil _
  have given : h.LaidOut (.container 5) s := by
    refine ⟨rfl, .mapping (by decide) rfl rfl ?_⟩
    simp only [List.forall_mem_cons, List.not_mem_nil, false_implies, implies_true, and_true]
    refine ⟨.mapping (by decide) rfl rfl (List.forall_mem_nil _), .leaf rfl, .leaf rfl,
      .mapping (by decide) rfl rfl (List.forall_mem_nil _), .sequence (by decide) rfl ?_,
      .mapping (by decide) rfl rfl (List.forall_mem_singleton.mpr ?_)⟩
    · exact List.forall_mem_cons.mpr ⟨.leaf rfl, List.forall_mem_singleton.mpr (.leaf rfl)⟩
    · exact .sequence (by decide) rfl (List.forall_mem_nil _)
  have disjoint : (t.refs ++ s.refs).Nodup := by decide
  exact ⟨laid, given, disjoint, by rfl, merge_idempotent rfl laid given disjoint (by rfl)⟩

end Merge

end FormLogic
