import FormLogic.Proofs.Heap.Action
import FormLogic.Proofs.Merge.Tree

/-!
# `FormLogic.Proofs.Merge.InPlace` — merging in place is merging trees

The containers of a source enter the target by reference, so a later source can write into them. As
long as no container occurs twice this does no harm to the target: at every moment each container
belongs to one place of the target or of a source that is still to come. So the target grows into the
fold of the trees.

## Contents
- `EntryStep`, `entries_cons_ok`: what one entry of a source does; `TreeStep`: on trees.
- `Merged`, `Ready`, `merges_pair`: one tree merged into another, and the containers written to.
- `merged_sources`, `merge_folds`: all sources, and what is left of the target.
- `Shielded`, `merge_leaves_sources`: when the sources stay as they are.
-/

namespace FormLogic

open RefTree

namespace Merge

variable {options : Options} {deeper : Value → Value → HeapM RecursionLimit Unit} {h g k : Heap}
  {key : String} {s s' t : RefTree} {r : Ref} {entries incoming : List (String × RefTree)}

/-! ## One entry -/

/-- What one entry of a source does to the heap. -/
inductive EntryStep (options : Options) (deeper : Value → Value → HeapM RecursionLimit Unit)
    (target : Ref) (key : String) (incoming : Value) (h : Heap) : Heap → Prop where
  | reserved (reserved : isReserved key = true) : EntryStep options deeper target key incoming h h
  | shared (free : ¬ isReserved key = true)
      (both : ((h.lookup (.container target) key).isContainer && incoming.isContainer) = true)
      (same : (h.lookup (.container target) key).same incoming = true) :
      EntryStep options deeper target key incoming h h
  | inside {k : Heap} (free : ¬ isReserved key = true)
      (both : ((h.lookup (.container target) key).isContainer && incoming.isContainer) = true)
      (differ : ¬ (h.lookup (.container target) key).same incoming = true)
      (run : deeper (h.lookup (.container target) key) incoming h = (.ok (), k)) :
      EntryStep options deeper target key incoming h k
  | skipped (free : ¬ isReserved key = true)
      (other : ((h.lookup (.container target) key).isContainer && incoming.isContainer) = false)
      (skipped : (options.skipUndefined && incoming.isUndefined) = true) :
      EntryStep options deeper target key incoming h h
  | stored (free : ¬ isReserved key = true)
      (other : ((h.lookup (.container target) key).isContainer && incoming.isContainer) = false)
      (stored : ¬ (options.skipUndefined && incoming.isUndefined) = true) :
      EntryStep options deeper target key incoming h
        (h.update target (.mapFields (·.insert key incoming)))

/-- The entries of a source are merged one after the other. -/
theorem entries_cons_ok {target : Ref} {v : Value} {rest : List (String × Value)}
    (run : Merge.entries options deeper target ((key, v) :: rest) h = (.ok (), g)) :
    ∃ k, EntryStep options deeper target key v h k ∧
      Merge.entries options deeper target rest k = (.ok (), g) := by
  unfold Merge.entries at run
  by_cases reserved : isReserved key = true
  · rw [if_pos reserved] at run
    exact ⟨h, .reserved reserved, run⟩
  rw [if_neg reserved] at run
  obtain ⟨existing, k, looked, run⟩ := bind_eq_ok_iff.mp run
  cases looked
  by_cases both : ((h.lookup (.container target) key).isContainer && v.isContainer) = true
  · rw [if_pos both] at run
    by_cases same : (h.lookup (.container target) key).same v = true
    · simp only [same, Bool.not_true, Bool.false_eq_true, if_false] at run
      exact ⟨h, .shared reserved both same, run⟩
    · have differ : (!(h.lookup (.container target) key).same v) = true := by simp [same]
      rw [if_pos differ] at run
      obtain ⟨⟨⟩, k, inside, run⟩ := bind_eq_ok_iff.mp run
      exact ⟨k, .inside reserved both same inside, run⟩
  · rw [if_neg both] at run
    have other := Bool.eq_false_iff.mpr both
    by_cases skipped : (options.skipUndefined && v.isUndefined) = true
    · simp only [skipped, Bool.not_true, Bool.false_eq_true, if_false] at run
      exact ⟨h, .skipped reserved other skipped, run⟩
    · have kept : (!(options.skipUndefined && v.isUndefined)) = true := by simp [skipped]
      rw [if_pos kept] at run
      obtain ⟨⟨⟩, k, store, run⟩ := bind_eq_ok_iff.mp run
      cases store
      exact ⟨_, .stored reserved other skipped, run⟩

/-! ## Two trees -/

/-- What merging one tree into another leaves. -/
structure Merged (options : Options) (s t : RefTree) (h g : Heap) : Prop where
  holds : g.Holds (s.mergeInto options t)
  size_eq : g.size = h.size
  /-- Only containers of the target that meet one of the source are written to. -/
  frame : ∀ {q}, g.cell q ≠ h.cell q → Writes s t q

/-- The merge of the values at the top does what merging trees says, for trees in which no container
occurs twice. -/
def Merges (options : Options) (deeper : Value → Value → HeapM RecursionLimit Unit) : Prop :=
  ∀ {s t h g}, h.Holds t → h.Holds s → (∀ q, t.refs.count q + s.refs.count q ≤ 1) →
    deeper t.value s.value h = (.ok (), g) → Merged options s t h g

/-- Nothing is written, and the merged tree is the target. -/
theorem Merged.still (holds : h.Holds t) (same : s.mergeInto options t = t) :
    Merged options s t h h where
  holds := by
    rw [same]
    exact holds
  size_eq := rfl
  frame changed := absurd rfl changed

/-- A tree in which the source does not occur and none of the target is as it was. -/
theorem Merged.holds_other {u : RefTree} (merged : Merged options s t h g) (holds : h.Holds u)
    (apart : ∀ q ∈ t.refs, q ∉ u.refs) : g.Holds u := by
  refine holds.congr (Nat.le_of_eq merged.size_eq.symm) fun q mem => ?_
  by_contra changed
  exact apart q (merged.frame changed).mem_refs mem

/-- The mapping above the target has the merged tree under the key, and beside it what it had. -/
theorem Merged.holds_parent (merged : Merged options s t h g) (holds : h.Holds (.mapping r entries))
    (once : ∀ q, (RefTree.mapping r entries).refs.count q ≤ 1)
    (found : valueAt? key entries = some t) :
    g.Holds (.mapping r (insertEntry key (s.mergeInto options t) entries)) := by
  have mem := mem_of_valueAt? found
  refine holds.replace found merged.holds (value_mergeInto options s t)
    (Nat.le_of_eq merged.size_eq.symm) ?_ fun entry mem' other => ?_
  · -- the mapping itself is not part of the tree below it
    by_contra changed
    have one := once r
    have inner := List.count_pos_iff.mpr (merged.frame changed).mem_refs
    have part : t.refs.count r ≤ (refsOfEntries entries).count r := count_le_of_mem mem r
    rw [refs, List.count_cons_self] at one
    omega
  · refine merged.holds_other (holds.entry_holds mem') fun q inner => ?_
    have one := once q
    have parts := count_add_le_of_mem mem mem' other q
    refine not_mem_of_count ?_ inner
    rw [refs, List.count_cons] at one
    omega

/-- A container that a mapping has under a key is the top of a tree. -/
theorem lookup_container (holds : h.Holds (.mapping r entries))
    (container : (h.lookup (.container r) key).isContainer = true) :
    ∃ t, valueAt? key entries = some t ∧ h.lookup (.container r) key = t.value ∧
      t.isContainer = true ∧ h.Holds t := by
  rw [holds.lookup_eq] at container ⊢
  cases found : valueAt? key entries with
  | none =>
    rw [found] at container
    cases container
  | some t =>
    rw [found, Option.getD_some] at container
    have below : h.Holds t := holds.entry_holds (mem_of_valueAt? found)
    refine ⟨t, rfl, rfl, ?_, below⟩
    rw [← below.value_isContainer]
    exact container

/-- What one entry of a source does where the mapping at the top and the entry are laid out as
trees. -/
inductive TreeStep (options : Options) (deeper : Value → Value → HeapM RecursionLimit Unit) (r : Ref)
    (entries : List (String × RefTree)) (key : String) (s : RefTree) (h : Heap) : Heap → Prop where
  | reserved (reserved : isReserved key = true) : TreeStep options deeper r entries key s h h
  | inside {k : Heap} {t : RefTree} (free : ¬ isReserved key = true)
      (found : valueAt? key entries = some t) (container : t.isContainer = true)
      (container' : s.isContainer = true) (held : h.Holds t)
      (run : deeper t.value s.value h = (.ok (), k)) : TreeStep options deeper r entries key s h k
  | skipped (free : ¬ isReserved key = true)
      (other : ∀ t, valueAt? key entries = some t → (t.isContainer && s.isContainer) = false)
      (skipped : (options.skipUndefined && s.isUndefined) = true) :
      TreeStep options deeper r entries key s h h
  | stored (free : ¬ isReserved key = true)
      (other : ∀ t, valueAt? key entries = some t → (t.isContainer && s.isContainer) = false)
      (stored : ¬ (options.skipUndefined && s.isUndefined) = true) :
      TreeStep options deeper r entries key s h
        (h.update r (.mapFields (·.insert key s.value)))

/-- The target that an entry of a source meets, and the entry, have no reference in common. -/
theorem count_below {t : RefTree}
    (disjoint : ∀ q, (RefTree.mapping r entries).refs.count q + s.refs.count q ≤ 1)
    (found : valueAt? key entries = some t) (q : Ref) : t.refs.count q + s.refs.count q ≤ 1 := by
  have one := disjoint q
  have part : t.refs.count q ≤ (refsOfEntries entries).count q :=
    count_le_of_mem (mem_of_valueAt? found) q
  rw [refs, List.count_cons] at one
  omega

/-- On trees no entry of a source is the container that the target has there. -/
theorem EntryStep.onTrees (holds : h.Holds (.mapping r entries)) (given : h.Holds s)
    (disjoint : ∀ q, (RefTree.mapping r entries).refs.count q + s.refs.count q ≤ 1)
    (step : EntryStep options deeper r key s.value h k) :
    TreeStep options deeper r entries key s h k := by
  -- where the values are not both containers, neither are the trees
  have single (other : ((h.lookup (.container r) key).isContainer && s.value.isContainer) = false) :
      ∀ t, valueAt? key entries = some t → (t.isContainer && s.isContainer) = false := by
    intro t found
    rw [holds.lookup_eq, found, Option.getD_some] at other
    rw [← (holds.entry_holds (mem_of_valueAt? found)).value_isContainer, ← given.value_isContainer]
    exact other
  cases step with
  | reserved reserved => exact .reserved reserved
  | shared free both same =>
    -- one container in both trees: there is none
    obtain ⟨first, second⟩ := Bool.and_eq_true_iff.mp both
    obtain ⟨t, found, looked, container, held⟩ := lookup_container holds first
    rw [given.value_isContainer] at second
    rw [looked] at same
    exact absurd same (not_same_of_count (count_below disjoint found) container second)
  | inside free both _ run =>
    obtain ⟨first, second⟩ := Bool.and_eq_true_iff.mp both
    obtain ⟨t, found, looked, container, held⟩ := lookup_container holds first
    rw [given.value_isContainer] at second
    rw [looked] at run
    exact .inside free found container second held run
  | skipped free other skipped =>
    rw [given.value_isUndefined] at skipped
    exact .skipped free (single other) skipped
  | stored free other stored =>
    rw [given.value_isUndefined] at stored
    exact .stored free (single other) stored

/-- **One entry of a source.** The mapping at the top becomes what the entry makes of the tree. -/
theorem TreeStep.merged (correct : Merges options deeper) (holds : h.Holds (.mapping r entries))
    (given : h.Holds s)
    (disjoint : ∀ q, (RefTree.mapping r entries).refs.count q + s.refs.count q ≤ 1)
    (step : TreeStep options deeper r entries key s h k) :
    k.Holds (.mapping r (mergeEntry options key s (fun t => s.mergeInto options t) entries)) ∧
      k.size = h.size ∧
      ∀ q, k.cell q ≠ h.cell q → q = r ∨
        isReserved key = false ∧ ∃ t, valueAt? key entries = some t ∧ Writes s t q := by
  cases step with
  | reserved reserved =>
    rw [mergeEntry_reserved reserved]
    exact ⟨holds, rfl, fun q changed => absurd rfl changed⟩
  | @inside k t free found container container' held run =>
    have merged := correct held given (count_below disjoint found) run
    have once (q : Ref) : (RefTree.mapping r entries).refs.count q ≤ 1 := by
      have one := disjoint q
      omega
    rw [mergeEntry_containers free found container container']
    exact ⟨merged.holds_parent holds once found, merged.size_eq, fun q changed =>
      Or.inr ⟨Bool.eq_false_iff.mpr free, t, found, merged.frame changed⟩⟩
  | skipped free other skipped =>
    rw [mergeEntry_other free other, if_pos skipped]
    exact ⟨holds, rfl, fun q changed => absurd rfl changed⟩
  | stored free other stored =>
    rw [mergeEntry_other free other, if_neg stored]
    have one := disjoint r
    rw [refs, List.count_cons_self] at one
    refine ⟨holds.store given ?_ ?_, Heap.size_update _ _ _, fun q changed => Or.inl ?_⟩
    · exact List.count_eq_zero.mp (by omega)
    · exact List.count_eq_zero.mp (by omega)
    · by_contra other
      rw [Heap.cell_update, if_neg fun same => other same.1] at changed
      exact changed rfl

/-- What the later entries write to, the source writes to with all its entries. -/
theorem writes_of_later {q r' : Ref} (absent : key ∉ keysOf incoming)
    (writes : Writes (.mapping r' incoming) (.mapping r
      (mergeEntry options key s (fun t => s.mergeInto options t) entries)) q) :
    Writes (.mapping r' ((key, s) :: incoming)) (.mapping r entries) q := by
  obtain ⟨path, u, v, free, found, found', same, top⟩ := writes
  cases path with
  | nil =>
    cases found
    exact Writes.top (.mapping _ _ _ _) top
  | cons k path =>
    rw [at?_cons] at found found'
    obtain ⟨t, here, found⟩ := Option.bind_eq_some_iff.mp found
    obtain ⟨source, there, found'⟩ := Option.bind_eq_some_iff.mp found'
    have other : k ≠ key := by
      rintro rfl
      rw [valueAt?_eq_none_iff.mpr absent] at there
      cases there
    rw [valueAt?_mergeEntry_ne other] at here
    refine Writes.below (free k List.mem_cons_self) (s := source) ?_ here
      ⟨path, u, v, fun k mem => free k (List.mem_cons_of_mem _ mem), found, found', same, top⟩ _ _
    rw [valueAt?_cons, if_neg fun same => other same.symm]
    exact there

/-- A mapping and the entries of a source that are to be merged into it: all of them are laid out, and
no container occurs twice. -/
structure Ready (h : Heap) (r : Ref) (entries incoming : List (String × RefTree)) : Prop where
  holds : h.Holds (.mapping r entries)
  given : ∀ entry ∈ incoming, h.Holds entry.2
  nodup : (keysOf incoming).Nodup
  disjoint : ∀ q, (RefTree.mapping r entries).refs.count q + (refsOfEntries incoming).count q ≤ 1

/-- The first entry shares nothing with the mapping. -/
theorem Ready.first (ready : Ready h r entries ((key, s) :: incoming)) (q : Ref) :
    (RefTree.mapping r entries).refs.count q + s.refs.count q ≤ 1 := by
  have one := ready.disjoint q
  rw [refsOfEntries, List.count_append] at one
  omega

/-- Where two mappings are merged, the entries of the source are ready for the target. -/
theorem Ready.of_holds {r' : Ref} (holds : h.Holds (.mapping r entries))
    (given : h.Holds (.mapping r' incoming))
    (disjoint : ∀ q, (RefTree.mapping r entries).refs.count q +
      (RefTree.mapping r' incoming).refs.count q ≤ 1) : Ready h r entries incoming where
  holds := holds
  given _ mem := given.entry_holds mem
  nodup := given.nodup_keys
  disjoint q := by
    have one := disjoint q
    simp only [refs, List.count_cons] at one ⊢
    omega

/-- The first entry is merged; the others are as they were, for nothing of them has entered the target
yet. -/
theorem Ready.next (ready : Ready h r entries ((key, s) :: incoming)) (correct : Merges options deeper)
    (step : TreeStep options deeper r entries key s h k) :
    Ready k r (mergeEntry options key s (fun t => s.mergeInto options t) entries) incoming := by
  obtain ⟨held, size_eq, frame⟩ :=
    step.merged correct ready.holds (ready.given _ List.mem_cons_self) ready.first
  refine ⟨held, fun entry mem => ?_, (List.nodup_cons.mp ready.nodup).2, fun q => ?_⟩
  · refine (ready.given entry (List.mem_cons_of_mem _ mem)).congr (Nat.le_of_eq size_eq.symm) ?_
    intro q inner
    by_contra changed
    have one := ready.disjoint q
    have top : q ∈ (RefTree.mapping r entries).refs := by
      rcases frame q changed with rfl | ⟨_, t, found, writes⟩
      · exact List.mem_cons_self
      · refine List.mem_cons_of_mem _ (mem_refsOfEntries.mpr ⟨_, mem_of_valueAt? found, ?_⟩)
        exact writes.mem_refs
    refine not_mem_of_count one top ?_
    rw [refsOfEntries]
    exact List.mem_append_right _ (mem_refsOfEntries.mpr ⟨entry, mem, inner⟩)
  · have one := ready.disjoint q
    have grown : (refsOfEntries (mergeEntry options key s
        (fun t => s.mergeInto options t) entries)).count q ≤
          (refsOfEntries entries).count q + s.refs.count q :=
      count_mergeEntry_le options key entries q (count_mergeInto_le options q s)
    rw [refsOfEntries, List.count_append] at one
    simp only [refs, List.count_cons] at one ⊢
    omega

/-- **All entries of a source**, by induction on those that are still to come. -/
theorem merged_entries (correct : Merges options deeper) (r' : Ref)
    (ready : Ready h r entries incoming)
    (run : Merge.entries options deeper r (valuesOf incoming) h = (.ok (), g)) :
    Merged options (.mapping r' incoming) (.mapping r entries) h g := by
  induction incoming generalizing entries h with
  | nil =>
    cases run
    exact Merged.still ready.holds rfl
  | cons entry rest ih =>
    obtain ⟨key, s⟩ := entry
    obtain ⟨k, step, run⟩ := entries_cons_ok run
    have given := ready.given _ List.mem_cons_self
    have step := step.onTrees ready.holds given ready.first
    obtain ⟨-, size_eq, frame⟩ := step.merged correct ready.holds given ready.first
    have later := ih (ready.next correct step) run
    refine ⟨later.holds, later.size_eq.trans size_eq, fun {q} changed => ?_⟩
    by_cases before : k.cell q = h.cell q
    · rw [← before] at changed
      exact writes_of_later (List.nodup_cons.mp ready.nodup).1 (later.frame changed)
    · rcases frame q before with rfl | ⟨free, t, found, writes⟩
      · exact Writes.top (.mapping _ _ _ _) rfl
      · refine Writes.below free ?_ found writes _ _
        rw [valueAt?_cons, if_pos rfl]

/-! ## One tree into another -/

section

variable {room : Nat} {r' : Ref} {items others : List RefTree}

/-- Two mappings merge entry by entry. -/
theorem pair_mapping (holds : h.Holds (.mapping r entries)) (given : h.Holds (.mapping r' incoming)) :
    pair options (room + 1) (.container r) (.container r') h =
      Merge.entries options (fun v w => pair options room v w) r (valuesOf incoming) h := by
  cases holds with
  | mapping inside cell shown below =>
    cases given with
    | mapping inside' cell' shown' below' =>
      rw [pair]
      simp only [bind_apply, HeapM.cell, cell, cell', shown']

/-- Two sequences are combined. -/
theorem pair_sequence (holds : h.Holds (.sequence r items)) (given : h.Holds (.sequence r' others)) :
    pair options (room + 1) (.container r) (.container r') h =
      combine options r (others.map value).toArray h := by
  cases holds with
  | sequence inside cell below =>
    cases given with
    | sequence inside' cell' below' =>
      unfold pair
      simp only [bind_apply, HeapM.cell, cell, cell']

/-- Two values that are not both containers are left as they are. -/
theorem pair_scalar {v w : Value} (other : (v.isContainer && w.isContainer) = false) :
    pair options (room + 1) v w h = (.ok (), h) := by
  cases v with
  | container a =>
    cases w with
    | container b => cases other
    | _ => rfl
  | _ => rfl

/-- What is not of the same kind is left as it is. -/
theorem pair_other (holds : h.Holds t) (given : h.Holds s) (other : ¬ SameKind t s) :
    pair options (room + 1) t.value s.value h = (.ok (), h) := by
  cases holds with
  | leaf scalar => exact pair_scalar (by rw [value, scalar, Bool.false_and])
  | mapping inside cell shown below =>
    cases given with
    | leaf scalar => exact pair_scalar (by rw [value, value, scalar, Bool.and_false])
    | mapping => exact absurd (.mapping _ _ _ _) other
    | sequence inside' cell' below' =>
      unfold pair
      simp only [value, bind_apply, HeapM.cell, cell, cell']
      rfl
  | sequence inside cell below =>
    cases given with
    | leaf scalar => exact pair_scalar (by rw [value, value, scalar, Bool.and_false])
    | sequence => exact absurd (.sequence _ _ _ _) other
    | mapping inside' cell' shown' below' =>
      unfold pair
      simp only [value, bind_apply, HeapM.cell, cell, cell']
      rfl

end

/-- **One tree into another**, by induction on the levels there is room for. -/
theorem merges_pair (plain : options.arrayMerger = .overwrite ∨ options.arrayMerger = .append)
    (room : Nat) : Merges options fun v w => pair options room v w := by
  induction room with
  | zero =>
    intro s t h g holds given disjoint run
    cases run
  | succ room ih =>
    intro s t h g holds given disjoint run
    replace run : pair options (room + 1) t.value s.value h = (.ok (), g) := run
    by_cases kind : SameKind t s
    · cases kind with
      | mapping r r' entries incoming =>
        rw [value, value, pair_mapping holds given] at run
        exact merged_entries ih r' (.of_holds holds given disjoint) run
      | sequence r r' items incoming =>
        rw [value, value, pair_sequence holds given] at run
        cases run
        have one := disjoint r
        have combined := count_combineTrees_le options.arrayMerger r items incoming
        rw [refs, refs, List.count_cons_self, List.count_cons] at one
        refine ⟨holds.setItems ?_ (fun t mem => ?_) (List.count_eq_zero.mp (by omega)),
          Heap.size_update _ _ _, fun {q} changed => ?_⟩
        · rcases plain with plain | plain <;>
            simp [plain, ArrayMerger.combine, ArrayMerger.combineTrees]
        · exact (mem_combineTrees mem).elim holds.item_holds given.item_holds
        · refine Writes.top (.sequence _ _ _ _) (congrArg Value.container ?_)
          by_contra other
          rw [Heap.cell_update, if_neg fun same => other same.1.symm] at changed
          exact changed rfl
    · rw [pair_other holds given kind] at run
      cases run
      exact .still holds (mergeInto_other kind)

/-! ## All sources -/

/-- The first of the sources is merged, or it is the target and nothing is done; then the others. -/
theorem sources_cons_ok (plain : options.arrayMerger = .overwrite ∨ options.arrayMerger = .append)
    {rest : List Value} (holds : h.Holds t) (given : h.Holds s)
    (disjoint : ∀ q, t.refs.count q + s.refs.count q ≤ 1)
    (run : sources options t.value (s.value :: rest) h = (.ok (), g)) :
    ∃ k, Merged options s t h k ∧ sources options t.value rest k = (.ok (), g) := by
  unfold sources at run
  by_cases same : s.value.same t.value = true
  · simp only [same, Bool.not_true, Bool.false_eq_true, if_false] at run
    refine ⟨h, .still holds (mergeInto_other fun kind => ?_), run⟩
    -- two containers with one reference would be one that occurs twice
    refine not_same_of_count (fun q => ?_) kind.isContainer_right kind.isContainer same
    have once := disjoint q
    omega
  · have differ : (!s.value.same t.value) = true := by simp [same]
    rw [if_pos differ] at run
    obtain ⟨⟨⟩, k, first, run⟩ := bind_eq_ok_iff.mp run
    exact ⟨k, merges_pair plain options.maxDepth holds given disjoint first, run⟩

/-- **All sources, one after the other.** The target becomes the fold, and a container that is
written to is one that the target has by then where a source has one of the same kind. -/
theorem merged_sources (plain : options.arrayMerger = .overwrite ∨ options.arrayMerger = .append)
    {trees : List RefTree} (holds : h.Holds t) (given : ∀ s ∈ trees, h.Holds s)
    (disjoint : ∀ q, t.refs.count q + (refsOfItems trees).count q ≤ 1)
    (run : sources options t.value (trees.map value) h = (.ok (), g)) :
    g.Holds (t.mergeAll options trees) ∧
      ∀ q, g.cell q ≠ h.cell q → ∃ before s after, trees = before ++ s :: after ∧
        Writes s (t.mergeAll options before) q := by
  induction trees generalizing t h with
  | nil =>
    cases run
    exact ⟨holds, fun q changed => absurd rfl changed⟩
  | cons s rest ih =>
    have once (q : Ref) :
        t.refs.count q + (s.refs.count q + (refsOfItems rest).count q) ≤ 1 := by
      have once := disjoint q
      rw [refsOfItems, List.count_append] at once
      exact once
    obtain ⟨k, merged, run⟩ := sources_cons_ok plain holds (given s List.mem_cons_self)
      (fun q => by have once := once q; omega) run
    rw [← value_mergeInto options s t] at run
    have others : ∀ u ∈ rest, k.Holds u := by
      -- the sources to come have nothing in common with the target so far
      intro u mem
      refine merged.holds_other (given u (List.mem_cons_of_mem _ mem)) fun q inner outer => ?_
      have once := disjoint q
      refine not_mem_of_count once inner (mem_refsOfItems.mpr ⟨u, ?_, outer⟩)
      exact List.mem_cons_of_mem _ mem
    have apart : ∀ q,
        (s.mergeInto options t).refs.count q + (refsOfItems rest).count q ≤ 1 := by
      intro q
      have once := once q
      have grown := count_mergeInto_le options q s t
      omega
    obtain ⟨final, frame⟩ := ih merged.holds others apart run
    refine ⟨final, fun q changed => ?_⟩
    by_cases early : k.cell q = h.cell q
    · rw [← early] at changed
      obtain ⟨before, source, after, split, writes⟩ := frame q changed
      exact ⟨s :: before, source, after, congrArg (s :: ·) split, writes⟩
    · exact ⟨[], s, rest, rfl, merged.frame early⟩

/-! ## The merged tree -/

/-- What merging leaves of the target, told by its tree and those of the sources. -/
structure Folded (options : Options) (t : RefTree) (trees : List RefTree) (target result : Value)
    (g : Heap) : Prop where
  /-- The result is the handle of the target. -/
  result_eq : result = target
  /-- The target has become the fold over the sources. -/
  laidOut : g.LaidOut target (t.mergeAll options trees)
  /-- Wherever a mapping of a source meets one of the target, the keys there keep their places and
  the new ones follow in the order of the source. -/
  keys : ∀ {before s after path r r' entries incoming}, trees = before ++ s :: after →
    Free path → (t.mergeAll options before).at? path = some (.mapping r entries) →
    s.at? path = some (.mapping r' incoming) →
    ∃ entries', (t.mergeAll options (before ++ [s])).at? path = some (.mapping r entries') ∧
      keysOf entries' = keysOf entries ++ keysOf (incoming.filter (enters options entries))
  /-- A container that the keys of mappings lead to keeps its handle, unless a source stores a value
  that is no container at its path or at a prefix of it. -/
  kept : ∀ {path u}, t.at? path = some u → u.isContainer = true →
    (∃ s ∈ trees, ∃ q, q <+: path ∧ Stores options s q) ∨
      ∃ u', (t.mergeAll options trees).at? path = some u' ∧ SameTop u u'

/-- A laid out tree has its keys once. -/
theorem keyed_of_holds (holds : h.Holds t) : t.Keyed :=
  fun _ _ _ found => (holds.at? found).nodup_keys

/-- The target and the sources together have no reference twice. -/
theorem count_of_nodup {trees : List RefTree} (disjoint : (t.refs ++ refsOfItems trees).Nodup)
    (q : Ref) : t.refs.count q + (refsOfItems trees).count q ≤ 1 := by
  rw [← List.count_append]
  exact List.nodup_iff_count.mp disjoint q

/-- **Merging in place is merging trees.** If no container occurs twice in the target and the
sources, the target becomes the fold of the sources' trees over its own. -/
theorem merge_folds {target result : Value} {values : List Value} {trees : List RefTree}
    (plain : options.arrayMerger = .overwrite ∨ options.arrayMerger = .append)
    (laid : h.LaidOut target t) (given : List.Forall₂ h.LaidOut values trees)
    (disjoint : (t.refs ++ refsOfItems trees).Nodup)
    (run : merge options target values h = (.ok result, g)) :
    Folded options t trees target result g := by
  obtain ⟨rfl, holds⟩ := laid
  obtain ⟨rfl, held⟩ := Heap.laidOut_all_iff.mp given
  obtain ⟨⟨⟩, k, run, ends⟩ := bind_eq_ok_iff.mp run
  cases ends
  obtain ⟨final, -⟩ := merged_sources plain holds held (count_of_nodup disjoint) run
  refine ⟨rfl, ⟨value_mergeAll _ _ _, final⟩, ?_, ?_⟩
  · intro before s after path r r' entries incoming split free here there
    have source : s.Keyed := by
      refine keyed_of_holds (held s ?_)
      rw [split]
      exact List.mem_append_right _ List.mem_cons_self
    refine ⟨mergeEntries options incoming entries, ?_, ?_⟩
    · rw [mergeAll_append, at?_mergeInto options source free here rfl there rfl]
      rfl
    · exact keysOf_mergeEntries (source path r' incoming there)
  · intro path u found container
    by_cases stored : ∃ s ∈ trees, ∃ q, q <+: path ∧ Stores options s q
    · exact Or.inl stored
    · refine Or.inr (kept_mergeAll (fun s mem => keyed_of_holds (held s mem)) found container ?_)
      intro s mem q before stores
      exact stored ⟨s, mem, q, before, stores⟩

/-- An empty target and two sources that have a mapping under the same key. -/
def crossing : Heap :=
  ⟨#[.mapping .empty, .mapping (.ofList [("a", .container 2)]), .mapping .empty,
    .mapping (.ofList [("a", .container 4)]), .mapping (.ofList [("x", .bool true)])]⟩

/-- The two sources as trees. -/
def crossingSources : List RefTree :=
  [.mapping 1 [("a", .mapping 2 [])], .mapping 3 [("a", .mapping 4 [("x", .leaf (.bool true))])]]

theorem laidOut_crossing : crossing.LaidOut (.container 0) (.mapping 0 []) :=
  ⟨rfl, .mapping (by decide) rfl rfl (by simp)⟩

theorem laidOut_crossingSources :
    List.Forall₂ crossing.LaidOut [.container 1, .container 3] crossingSources := by
  refine .cons ⟨rfl, ?_⟩ (.cons ⟨rfl, ?_⟩ .nil)
  · refine .mapping (by decide) rfl rfl (List.forall_mem_singleton.mpr ?_)
    exact .mapping (by decide) rfl rfl (by simp)
  · refine .mapping (by decide) rfl rfl (List.forall_mem_singleton.mpr ?_)
    refine .mapping (by decide) rfl rfl (List.forall_mem_singleton.mpr ?_)
    exact .leaf rfl

/-- The second source is merged into the mapping that the first one has brought. -/
theorem merge_folds_crossing :
    let ends := merge {} (.container 0) [.container 1, .container 3] crossing
    crossing.LaidOut (.container 0) (.mapping 0 []) ∧
      List.Forall₂ crossing.LaidOut [.container 1, .container 3] crossingSources ∧
      ((RefTree.mapping 0 []).refs ++ refsOfItems crossingSources).Nodup ∧
      ends.1 = .ok (.container 0) ∧
      Folded {} (.mapping 0 []) crossingSources (.container 0) (.container 0) ends.2 := by
  intro ends
  have disjoint : ((RefTree.mapping 0 []).refs ++ refsOfItems crossingSources).Nodup := by decide
  exact ⟨laidOut_crossing, laidOut_crossingSources, disjoint, by rfl,
    merge_folds (Or.inl rfl) laidOut_crossing laidOut_crossingSources disjoint (by rfl)⟩

/-! ## The sources -/

/-- Wherever a source has a container of the kind of one that an earlier source has at the same path,
the target has a container of its own there, and no source stores a value on the way to it that is no
container. The sources' own containers are then never reached by a later source. -/
def Shielded (options : Options) (t : RefTree) (trees : List RefTree) : Prop :=
  ∀ {before s after}, trees = before ++ s :: after → ∀ source ∈ before, ∀ {path u v}, path ≠ [] →
    Free path → source.at? path = some u → s.at? path = some v → SameKind u v →
    ∃ w, t.at? path = some w ∧ w.isContainer = true ∧
      ∀ s ∈ trees, ∀ q, q <+: path → ¬ Stores options s q

/-- Of two sources the second one can only reach the containers of the first. -/
theorem shielded_pair (met : ∀ {path u v}, path ≠ [] → Free path → s.at? path = some u →
      s'.at? path = some v → SameKind u v →
      ∃ w, t.at? path = some w ∧ w.isContainer = true ∧
        ∀ source ∈ [s, s'], ∀ q, q <+: path → ¬ Stores options source q) :
    Shielded options t [s, s'] := by
  intro before source' after split source mem path u v nonempty free here there same
  cases before with
  | nil => cases mem
  | cons first rest =>
    obtain ⟨rfl, later⟩ := List.cons.inj split
    have alone : rest = [] ∧ s' = source' := by
      cases rest with
      | nil => exact ⟨rfl, (List.cons.inj later).1⟩
      | cons second others => simp at later
    obtain ⟨rfl, rfl⟩ := alone
    obtain rfl := List.mem_singleton.mp mem
    exact met nonempty free here there same

/-- A container that is written to is one of the target's own if the sources are shielded. -/
theorem mem_refs_of_writes {trees before after : List RefTree} (shielded : Shielded options t trees)
    (keyed : ∀ s ∈ trees, s.Keyed) (split : trees = before ++ s :: after)
    (writes : Writes s (t.mergeAll options before) r) : r ∈ t.refs := by
  obtain ⟨path, u, v, free, found, found', same, top⟩ := writes
  have early : ∀ source ∈ before, source ∈ trees := by
    intro source mem
    rw [split]
    exact List.mem_append_left _ mem
  rcases origin_mergeAll (fun s mem => keyed s (early s mem)) found same.isContainer with
    ⟨w, here, same'⟩ | ⟨source, mem, w, here, same'⟩
  · exact mem_refs_of_at? here (mem_refs_of_value (same'.value_eq.trans top) same'.isContainer)
  cases path with
  | nil =>
    cases found
    rw [value_mergeAll] at top
    have container := same.isContainer
    rw [isContainer_mergeAll] at container
    exact mem_refs_of_value top container
  | cons key path =>
    obtain ⟨w', own, container, unstored⟩ := shielded split source mem (List.cons_ne_nil key path)
      free here found' (same'.sameKind same)
    obtain ⟨u', kept, top'⟩ := kept_mergeAll (fun s mem => keyed s (early s mem)) own container
      fun s mem => unstored s (early s mem)
    obtain rfl := Option.some.inj (found.symm.trans kept)
    exact mem_refs_of_at? own (mem_refs_of_value (top'.value_eq.trans top) container)

/-- **Merging leaves shielded sources as they are.** -/
theorem merge_leaves_sources {target result : Value} {values : List Value} {trees : List RefTree}
    (plain : options.arrayMerger = .overwrite ∨ options.arrayMerger = .append)
    (laid : h.LaidOut target t) (given : List.Forall₂ h.LaidOut values trees)
    (disjoint : (t.refs ++ refsOfItems trees).Nodup) (shielded : Shielded options t trees)
    (run : merge options target values h = (.ok result, g)) :
    ∀ s ∈ trees, ∀ r ∈ s.refs, g.cell r = h.cell r := by
  intro s mem r inner
  by_contra changed
  obtain ⟨rfl, holds⟩ := laid
  obtain ⟨rfl, held⟩ := Heap.laidOut_all_iff.mp given
  obtain ⟨⟨⟩, k, run, ends⟩ := bind_eq_ok_iff.mp run
  cases ends
  obtain ⟨-, frame⟩ := merged_sources plain holds held (count_of_nodup disjoint) run
  obtain ⟨before, source, after, split, writes⟩ := frame r changed
  have own := mem_refs_of_writes shielded (fun s mem => keyed_of_holds (held s mem)) split writes
  exact not_mem_of_count (count_of_nodup disjoint r) own (mem_refsOfItems.mpr ⟨s, mem, inner⟩)

/-- The target has a mapping of its own under the key that both sources have. -/
theorem merge_leaves_sources_own :
    let h : Heap := ⟨#[.mapping (.ofList [("a", .container 1)]), .mapping .empty,
      .mapping (.ofList [("a", .container 3)]), .mapping .empty,
      .mapping (.ofList [("a", .container 5)]), .mapping (.ofList [("x", .bool true)])]⟩
    let t : RefTree := .mapping 0 [("a", .mapping 1 [])]
    let first : RefTree := .mapping 2 [("a", .mapping 3 [])]
    let second : RefTree := .mapping 4 [("a", .mapping 5 [("x", .leaf (.bool true))])]
    let ends := merge {} (.container 0) [.container 2, .container 4] h
    h.LaidOut (.container 0) t ∧
      List.Forall₂ h.LaidOut [.container 2, .container 4] [first, second] ∧
      (t.refs ++ refsOfItems [first, second]).Nodup ∧ Shielded {} t [first, second] ∧
      ends.1 = .ok (.container 0) ∧
      ∀ s ∈ [first, second], ∀ r ∈ s.refs, ends.2.cell r = h.cell r := by
  intro h t first second ends
  have laid : h.LaidOut (.container 0) t := by
    refine ⟨rfl, .mapping (by decide) rfl rfl (List.forall_mem_singleton.mpr ?_)⟩
    exact .mapping (by decide) rfl rfl (by simp)
  have given : List.Forall₂ h.LaidOut [.container 2, .container 4] [first, second] := by
    refine .cons ⟨rfl, ?_⟩ (.cons ⟨rfl, ?_⟩ .nil)
    · refine .mapping (by decide) rfl rfl (List.forall_mem_singleton.mpr ?_)
      exact .mapping (by decide) rfl rfl (by simp)
    · refine .mapping (by decide) rfl rfl (List.forall_mem_singleton.mpr ?_)
      refine .mapping (by decide) rfl rfl (List.forall_mem_singleton.mpr ?_)
      exact .leaf rfl
  have disjoint : (t.refs ++ refsOfItems [first, second]).Nodup := by decide
  have shielded : Shielded {} t [first, second] := by
    refine shielded_pair fun {path u v} nonempty _ here _ same => ?_
    -- below the key the first source has nothing
    have only : path = ["a"] := by
      obtain ⟨key, path, rfl⟩ := List.exists_cons_of_ne_nil nonempty
      obtain ⟨w, found, here⟩ := Option.bind_eq_some_iff.mp here
      obtain ⟨rfl, rfl⟩ := Prod.mk.inj (List.mem_singleton.mp (mem_of_valueAt? found))
      cases path with
      | nil => rfl
      | cons key path => cases here
    subst only
    refine ⟨.mapping 1 [], rfl, rfl, fun s mem q before stores => ?_⟩
    obtain ⟨nonempty, -, u, found, single, -⟩ := stores
    have whole : q = ["a"] := by
      rcases List.prefix_cons_iff.mp before with rfl | ⟨q, rfl, rest⟩
      · exact absurd rfl nonempty
      · rw [List.prefix_nil.mp rest]
    subst whole
    rcases List.mem_cons.mp mem with rfl | mem
    · cases found
      cases single
    · obtain rfl := List.mem_singleton.mp mem
      cases found
      cases single
  exact ⟨laid, given, disjoint, shielded, by rfl,
    merge_leaves_sources (Or.inl rfl) laid given disjoint shielded (by rfl)⟩

/-- **Sources that are not shielded can change**: the second source is merged into the mapping of the
first one. -/
theorem merge_changes_source :
    let ends := merge {} (.container 0) [.container 1, .container 3] crossing
    crossing.LaidOut (.container 0) (.mapping 0 []) ∧
      List.Forall₂ crossing.LaidOut [.container 1, .container 3] crossingSources ∧
      ((RefTree.mapping 0 []).refs ++ refsOfItems crossingSources).Nodup ∧
      ends.1 = .ok (.container 0) ∧
      ¬ ∀ s ∈ crossingSources, ∀ r ∈ s.refs, ends.2.cell r = crossing.cell r := by
  intro ends
  refine ⟨laidOut_crossing, laidOut_crossingSources, by decide, by rfl, fun unchanged => ?_⟩
  have same := unchanged _ List.mem_cons_self 2 (by decide)
  have grown : (ends.2.cell 2).children = [.bool true] := by rfl
  rw [same] at grown
  cases grown

end Merge

end FormLogic
