import FormLogic.Merge
import FormLogic.Proofs.Heap.RefTree

/-!
# `FormLogic.Proofs.Merge.Tree` — merging trees

What merging does to trees, without a heap. Two mappings merge entry by entry, in the order of the
source; two sequences are combined; everything else leaves the target as it is. A tree says which
container stands at each node, so the merged tree also says which containers are kept and which ones
come from the source.

## Contents
- `mergeInto`, `mergeEntries`, `mergeAll`: the merged tree, and a fold over the sources.
- `keysOf_mergeEntries`: old keys keep their places, new ones follow in the order of the source.
- `Stores`, `kept_mergeAll`: a container keeps its handle unless a scalar is stored on the way to it.
- `Writes`, `origin_mergeInto`: the containers that a merge writes to, and where those of a merged
  tree come from.
-/

namespace FormLogic

/-- The elements of a sequence after it is combined with those of another. Only the two strategies
that are given by name are meant here; a custom one need not keep to trees. -/
def ArrayMerger.combineTrees : ArrayMerger → (items incoming : List RefTree) → List RefTree
  | .overwrite, _, incoming => incoming
  | .append, items, incoming => items ++ incoming
  | .custom _, items, _ => items

namespace RefTree

/-- The entries of a mapping after one entry of a source has been merged into them. Two containers
are merged by `merged`. -/
def mergeEntry (options : Merge.Options) (key : String) (incoming : RefTree)
    (merged : RefTree → RefTree) (entries : List (String × RefTree)) : List (String × RefTree) :=
  let existing := (valueAt? key entries).getD (.leaf .undefined)
  if isReserved key then entries
  else if existing.isContainer && incoming.isContainer then insertEntry key (merged existing) entries
  else if options.skipUndefined && incoming.isUndefined then entries
  else insertEntry key incoming entries

mutual

/-- The target after the source has been merged into it. -/
def mergeInto (options : Merge.Options) : (source target : RefTree) → RefTree
  | mapping _ incoming, mapping r entries => mapping r (mergeEntries options incoming entries)
  | sequence _ incoming, sequence r items =>
    sequence r (options.arrayMerger.combineTrees items incoming)
  | _, target => target

/-- The entries of a mapping after those of a source have been merged into them, in order. -/
def mergeEntries (options : Merge.Options) :
    (incoming entries : List (String × RefTree)) → List (String × RefTree)
  | [], entries => entries
  | (key, source) :: rest, entries =>
    mergeEntries options rest
      (mergeEntry options key source (fun t => mergeInto options source t) entries)

end

/-- The target after the sources have been merged into it, one after the other. -/
def mergeAll (options : Merge.Options) (target : RefTree) (sources : List RefTree) : RefTree :=
  sources.foldl (fun t source => source.mergeInto options t) target

variable {options : Merge.Options} {key k : String} {s t u source target : RefTree}
  {merged : RefTree → RefTree} {entries incoming : List (String × RefTree)} {r : Ref}
  {path : List String}

/-- The container at the top stays. -/
theorem value_mergeInto (options : Merge.Options) (source target : RefTree) :
    (source.mergeInto options target).value = target.value := by
  cases source <;> cases target <;> rfl

theorem isContainer_mergeInto (options : Merge.Options) (source target : RefTree) :
    (source.mergeInto options target).isContainer = target.isContainer := by
  cases source <;> cases target <;> rfl

/-! ## One entry -/

theorem mergeEntry_reserved (reserved : isReserved key = true) :
    mergeEntry options key source merged entries = entries := by
  unfold mergeEntry
  rw [if_pos reserved]

/-- Two containers are merged. -/
theorem mergeEntry_containers (free : ¬ isReserved key = true) (found : valueAt? key entries = some t)
    (container : t.isContainer = true) (container' : source.isContainer = true) :
    mergeEntry options key source merged entries = insertEntry key (merged t) entries := by
  unfold mergeEntry
  rw [found, Option.getD_some, if_neg free, if_pos (by rw [container, container']; rfl)]

/-- Where not both are containers the entry of the source is stored, unless it is skipped. -/
theorem mergeEntry_other (free : ¬ isReserved key = true)
    (other : ∀ t, valueAt? key entries = some t → (t.isContainer && source.isContainer) = false) :
    mergeEntry options key source merged entries =
      if (options.skipUndefined && source.isUndefined) = true then entries
      else insertEntry key source entries := by
  have single : (((valueAt? key entries).getD (.leaf .undefined)).isContainer &&
      source.isContainer) = false := by
    cases found : valueAt? key entries with
    | none => rfl
    | some t => exact other t found
  unfold mergeEntry
  rw [if_neg free, if_neg (by rw [single]; exact Bool.false_ne_true)]

/-- What one entry of a source does: nothing, or two containers are merged, or it is stored. -/
theorem mergeEntry_cases (options : Merge.Options) (key : String) (source : RefTree)
    (merged : RefTree → RefTree) (entries : List (String × RefTree)) :
    mergeEntry options key source merged entries = entries ∨
      isReserved key = false ∧
        ((∃ t, valueAt? key entries = some t ∧ t.isContainer = true ∧ source.isContainer = true ∧
            mergeEntry options key source merged entries = insertEntry key (merged t) entries) ∨
          mergeEntry options key source merged entries = insertEntry key source entries ∧
            (options.skipUndefined && source.isUndefined) = false ∧
            ∀ t, valueAt? key entries = some t → (t.isContainer && source.isContainer) = false) := by
  by_cases reserved : isReserved key = true
  · exact Or.inl (mergeEntry_reserved reserved)
  have free : isReserved key = false := Bool.eq_false_iff.mpr reserved
  by_cases both : ∃ t, valueAt? key entries = some t ∧ (t.isContainer && source.isContainer) = true
  · obtain ⟨t, found, both⟩ := both
    obtain ⟨container, container'⟩ := Bool.and_eq_true_iff.mp both
    exact Or.inr ⟨free, Or.inl ⟨t, found, container, container',
      mergeEntry_containers reserved found container container'⟩⟩
  · have other : ∀ t, valueAt? key entries = some t →
        (t.isContainer && source.isContainer) = false := by
      intro t found
      exact Bool.eq_false_iff.mpr fun both' => both ⟨t, found, both'⟩
    rw [mergeEntry_other reserved other]
    by_cases skipped : (options.skipUndefined && source.isUndefined) = true
    · exact Or.inl (if_pos skipped)
    · exact Or.inr ⟨free, Or.inr ⟨if_neg skipped, Bool.eq_false_iff.mpr skipped, other⟩⟩

/-- One entry of a source touches no other key. -/
theorem valueAt?_mergeEntry_ne (other : k ≠ key) :
    valueAt? k (mergeEntry options key source merged entries) = valueAt? k entries := by
  have kept (t : RefTree) : valueAt? k (insertEntry key t entries) = valueAt? k entries := by
    rw [Fields.valueAt?_insertEntry, if_neg fun same => other same.symm]
  rcases mergeEntry_cases options key source merged entries with
    same | ⟨_, ⟨t, _, _, _, same⟩ | ⟨same, _⟩⟩
  · rw [same]
  · rw [same, kept]
  · rw [same, kept]

/-- The value under a key depends on the value there and on the entry of the source alone. -/
theorem valueAt?_mergeEntry_congr {entries' : List (String × RefTree)}
    (same : valueAt? key entries' = valueAt? key entries) :
    valueAt? key (mergeEntry options key source merged entries') =
      valueAt? key (mergeEntry options key source merged entries) := by
  unfold mergeEntry
  rw [same]
  simp only [apply_ite (valueAt? key), Fields.valueAt?_insertEntry, if_true, same]

/-! ## All entries -/

/-- A key that the source does not have stays as it is. -/
theorem valueAt?_mergeEntries_none (absent : valueAt? k incoming = none) :
    valueAt? k (mergeEntries options incoming entries) = valueAt? k entries := by
  induction incoming generalizing entries with
  | nil => rfl
  | cons entry rest ih =>
    obtain ⟨key, source⟩ := entry
    rw [valueAt?_cons] at absent
    have other : k ≠ key := by
      rintro rfl
      rw [if_pos rfl] at absent
      cases absent
    rw [if_neg fun same => other same.symm] at absent
    rw [mergeEntries, ih absent, valueAt?_mergeEntry_ne other]

/-- What stands under a key of the source is what its one entry makes of it. -/
theorem valueAt?_mergeEntries (nodup : (keysOf incoming).Nodup)
    (found : valueAt? k incoming = some s) :
    valueAt? k (mergeEntries options incoming entries) =
      valueAt? k (mergeEntry options k s (fun t => s.mergeInto options t) entries) := by
  induction incoming generalizing entries with
  | nil => cases found
  | cons entry rest ih =>
    obtain ⟨key, source⟩ := entry
    obtain ⟨absent, nodup⟩ := List.nodup_cons.mp nodup
    rw [mergeEntries]
    rw [valueAt?_cons] at found
    by_cases here : key = k
    · subst here
      rw [if_pos rfl] at found
      cases found
      exact valueAt?_mergeEntries_none (valueAt?_eq_none_iff.mpr absent)
    · rw [if_neg here] at found
      rw [ih nodup found]
      exact valueAt?_mergeEntry_congr (valueAt?_mergeEntry_ne fun same => here same.symm)

/-- The entries of a source that come behind those of the target: under new keys that are not
reserved, and not skipped. -/
def enters (options : Merge.Options) (entries : List (String × RefTree))
    (entry : String × RefTree) : Bool :=
  !isReserved entry.1 && !(options.skipUndefined && entry.2.isUndefined) &&
    !(keysOf entries).contains entry.1

theorem keysOf_mergeEntry (options : Merge.Options) (key : String) (source : RefTree)
    (merged : RefTree → RefTree) (entries : List (String × RefTree)) :
    keysOf (mergeEntry options key source merged entries) =
      keysOf entries ++ if enters options entries (key, source) then [key] else [] := by
  by_cases reserved : isReserved key = true
  · rw [mergeEntry_reserved reserved]
    simp [enters, reserved]
  by_cases present : key ∈ keysOf entries
  · have stays (t : RefTree) : keysOf (insertEntry key t entries) = keysOf entries := by
      rw [keysOf_insertEntry, if_pos present]
    have out : enters options entries (key, source) = false := by simp [enters, present]
    rw [out, if_neg Bool.false_ne_true, List.append_nil]
    rcases mergeEntry_cases options key source merged entries with
      same | ⟨_, ⟨t, _, _, _, same⟩ | ⟨same, _⟩⟩
    · rw [same]
    · rw [same, stays]
    · rw [same, stays]
  · have missing : valueAt? key entries = none := valueAt?_eq_none_iff.mpr present
    rw [mergeEntry_other reserved fun t found => by rw [missing] at found; cases found]
    by_cases skipped : (options.skipUndefined && source.isUndefined) = true
    · rw [if_pos skipped]
      simp [enters, skipped]
    · have free : isReserved key = false := Bool.eq_false_iff.mpr reserved
      have stored : (options.skipUndefined && source.isUndefined) = false :=
        Bool.eq_false_iff.mpr skipped
      rw [if_neg skipped, keysOf_insertEntry, if_neg present]
      simp [enters, free, stored, present]

/-- **Old keys keep their places, new ones follow in the order of the source.** -/
theorem keysOf_mergeEntries (nodup : (keysOf incoming).Nodup) :
    keysOf (mergeEntries options incoming entries) =
      keysOf entries ++ keysOf (incoming.filter (enters options entries)) := by
  induction incoming generalizing entries with
  | nil => simp [mergeEntries, keysOf]
  | cons entry rest ih =>
    obtain ⟨key, source⟩ := entry
    obtain ⟨absent, nodup⟩ := List.nodup_cons.mp nodup
    -- whether a later entry is new does not depend on this one, which has another key
    have later : ∀ entry ∈ rest,
        enters options (mergeEntry options key source (fun t => source.mergeInto options t) entries)
          entry = enters options entries entry := by
      intro entry mem
      have other : entry.1 ≠ key := by
        rintro rfl
        exact absent (List.mem_map.mpr ⟨entry, mem, rfl⟩)
      unfold enters
      rw [keysOf_mergeEntry]
      by_cases new : enters options entries (key, source) = true
      · rw [if_pos new]
        simp [other]
      · rw [if_neg new, List.append_nil]
    rw [mergeEntries, ih nodup, List.filter_congr later, keysOf_mergeEntry, List.append_assoc,
      List.filter_cons]
    by_cases new : enters options entries (key, source) = true
    · rw [if_pos new, if_pos new]
      rfl
    · rw [if_neg new, if_neg new]
      rfl

/-! ## References of a merged tree -/

theorem mem_combineTrees {merger : ArrayMerger} {items incoming : List RefTree}
    (mem : t ∈ merger.combineTrees items incoming) : t ∈ items ∨ t ∈ incoming := by
  cases merger with
  | overwrite => exact Or.inr mem
  | append => exact List.mem_append.mp mem
  | custom combine => exact Or.inl mem

theorem count_combineTrees_le (merger : ArrayMerger) (r : Ref) (items incoming : List RefTree) :
    (refsOfItems (merger.combineTrees items incoming)).count r ≤
      (refsOfItems items).count r + (refsOfItems incoming).count r := by
  cases merger with
  | overwrite => exact Nat.le_add_left _ _
  | append =>
    have whole : refsOfItems (items ++ incoming) = refsOfItems items ++ refsOfItems incoming :=
      refsOfItems_append items incoming
    exact Nat.le_of_eq ((congrArg (List.count r) whole).trans List.count_append)
  | custom combine => exact Nat.le_add_right _ _

theorem count_mergeEntry_le (options : Merge.Options) (key : String)
    (entries : List (String × RefTree)) (r : Ref)
    (below : ∀ t, (merged t).refs.count r ≤ t.refs.count r + source.refs.count r) :
    (refsOfEntries (mergeEntry options key source merged entries)).count r ≤
      (refsOfEntries entries).count r + source.refs.count r := by
  rcases mergeEntry_cases options key source merged entries with
    same | ⟨_, ⟨t, found, _, _, same⟩ | ⟨same, _⟩⟩
  · rw [same]
    exact Nat.le_add_right _ _
  · have counted := count_insertEntry r key (merged t) entries
    have below := below t
    rw [found, Option.map_some, Option.getD_some] at counted
    rw [same]
    omega
  · have counted := count_insertEntry r key source entries
    rw [same]
    omega

/-- A merged tree has no reference more often than its two parts together. -/
theorem count_mergeInto_le (options : Merge.Options) (r : Ref) (source target : RefTree) :
    (source.mergeInto options target).refs.count r ≤
      target.refs.count r + source.refs.count r := by
  induction source using RefTree.induction generalizing target with
  | leaf v => cases target <;> exact Nat.le_add_right _ _
  | sequence s incoming ih =>
    cases target with
    | leaf v => exact Nat.le_add_right _ _
    | mapping q entries => exact Nat.le_add_right _ _
    | sequence q items =>
      have combined := count_combineTrees_le options.arrayMerger r items incoming
      rw [mergeInto]
      simp only [refs, List.count_cons]
      omega
  | mapping s incoming ih =>
    cases target with
    | leaf v => exact Nat.le_add_right _ _
    | sequence q items => exact Nat.le_add_right _ _
    | mapping q entries =>
      have all : (refsOfEntries (mergeEntries options incoming entries)).count r ≤
          (refsOfEntries entries).count r + (refsOfEntries incoming).count r := by
        induction incoming generalizing entries with
        | nil => exact Nat.le_add_right _ _
        | cons entry rest inner =>
          obtain ⟨key, source⟩ := entry
          have first : (refsOfEntries (mergeEntry options key source
              (fun t => source.mergeInto options t) entries)).count r ≤
                (refsOfEntries entries).count r + source.refs.count r :=
            count_mergeEntry_le options key entries r (ih (key, source) List.mem_cons_self)
          have others := inner (fun entry mem => ih entry (List.mem_cons_of_mem _ mem))
            (mergeEntry options key source (fun t => source.mergeInto options t) entries)
          rw [mergeEntries]
          simp only [refsOfEntries, List.count_append]
          omega
      rw [mergeInto]
      simp only [refs, List.count_cons]
      omega

/-! ## Several sources -/

theorem mergeAll_append (options : Merge.Options) (target : RefTree) (sources : List RefTree)
    (s : RefTree) : target.mergeAll options (sources ++ [s]) =
      s.mergeInto options (target.mergeAll options sources) := by
  unfold mergeAll
  rw [List.foldl_append]
  rfl

theorem value_mergeAll (options : Merge.Options) (target : RefTree) (sources : List RefTree) :
    (target.mergeAll options sources).value = target.value := by
  induction sources generalizing target with
  | nil => rfl
  | cons s rest ih => exact (ih (s.mergeInto options target)).trans (value_mergeInto options s target)

theorem isContainer_mergeAll (options : Merge.Options) (target : RefTree) (sources : List RefTree) :
    (target.mergeAll options sources).isContainer = target.isContainer := by
  induction sources generalizing target with
  | nil => rfl
  | cons s rest ih =>
    exact (ih (s.mergeInto options target)).trans (isContainer_mergeInto options s target)

/-! ## Containers that keep their handles -/

/-- The same container is at the top of both trees, as a mapping or as a sequence. -/
inductive SameTop : RefTree → RefTree → Prop where
  | mapping (r : Ref) (a b : List (String × RefTree)) : SameTop (.mapping r a) (.mapping r b)
  | sequence (r : Ref) (a b : List RefTree) : SameTop (.sequence r a) (.sequence r b)

theorem SameTop.refl (container : t.isContainer = true) : SameTop t t := by
  cases t with
  | leaf v => cases container
  | mapping r entries => exact .mapping r _ _
  | sequence r items => exact .sequence r _ _

theorem SameTop.trans {u' : RefTree} (first : SameTop t u) (second : SameTop u u') :
    SameTop t u' := by
  cases first <;> cases second
  · exact .mapping _ _ _
  · exact .sequence _ _ _

theorem SameTop.value_eq (same : SameTop t u) : t.value = u.value := by
  cases same <;> rfl

theorem SameTop.isContainer (same : SameTop t u) : t.isContainer = true := by
  cases same <;> rfl

theorem SameTop.isContainer_right (same : SameTop t u) : u.isContainer = true := by
  cases same <;> rfl

theorem sameTop_mergeInto (options : Merge.Options) (source : RefTree)
    (container : target.isContainer = true) :
    SameTop target (source.mergeInto options target) := by
  cases target with
  | leaf v => cases container
  | mapping r entries => cases source <;> exact .mapping r _ _
  | sequence r items => cases source <;> exact .sequence r _ _

/-- Merging goes down along these keys. -/
def Free (path : List String) : Prop :=
  ∀ key ∈ path, isReserved key = false

/-- The source has a value that is no container at the path, and merging stores it there: the path
is not the empty one, no key on it is reserved, and the value is not skipped. -/
def Stores (options : Merge.Options) (source : RefTree) (path : List String) : Prop :=
  path ≠ [] ∧ Free path ∧ ∃ u, source.at? path = some u ∧ u.isContainer = false ∧
    (options.skipUndefined && u.isUndefined) = false

theorem at?_cons {rest : List String} :
    (mapping r entries).at? (key :: rest) = (valueAt? key entries).bind (at? rest) :=
  rfl

/-- What is on the way to a container is a container. -/
theorem isContainer_of_at? (found : t.at? path = some u) (container : u.isContainer = true) :
    t.isContainer = true := by
  cases path with
  | nil =>
    cases found
    exact container
  | cons key path =>
    cases t with
    | leaf v => cases found
    | mapping r entries => rfl
    | sequence r items => rfl

/-- The mappings that are reached by keys have pairwise different keys. -/
def Keyed (t : RefTree) : Prop :=
  ∀ path r entries, t.at? path = some (.mapping r entries) → (keysOf entries).Nodup

theorem Keyed.nodup (keyed : Keyed (.mapping r entries)) : (keysOf entries).Nodup :=
  keyed [] r entries rfl

theorem Keyed.below (keyed : Keyed (.mapping r entries)) (found : valueAt? key entries = some t) :
    Keyed t := by
  intro path s others at_path
  refine keyed (key :: path) s others ?_
  rw [at?_cons, found]
  exact at_path

theorem Stores.single (free : isReserved key = false) (found : valueAt? key incoming = some s)
    (scalar : s.isContainer = false) (stored : (options.skipUndefined && s.isUndefined) = false) :
    Stores options (.mapping r incoming) [key] := by
  refine ⟨List.cons_ne_nil _ _, ?_, s, ?_, scalar, stored⟩
  · intro k mem
    obtain rfl := List.mem_singleton.mp mem
    exact free
  · rw [at?_cons, found]
    rfl

theorem Stores.cons {rest : List String} (free : isReserved key = false)
    (found : valueAt? key incoming = some s) (stores : Stores options s rest) :
    Stores options (.mapping r incoming) (key :: rest) := by
  obtain ⟨_, frees, u, here, single, stored⟩ := stores
  refine ⟨List.cons_ne_nil _ _, ?_, u, ?_, single, stored⟩
  · intro k mem
    rcases List.mem_cons.mp mem with rfl | mem
    · exact free
    · exact frees k mem
  · rw [at?_cons, found]
    exact here

/-- Along keys that are not reserved, a container of the target is merged with the one that the
source has at the same path. -/
theorem at?_mergeInto (options : Merge.Options) {source target : RefTree} {path : List String}
    {s t : RefTree} (keyed : source.Keyed) (free : Free path) (found : target.at? path = some t)
    (container : t.isContainer = true) (given : source.at? path = some s)
    (container' : s.isContainer = true) :
    (source.mergeInto options target).at? path = some (s.mergeInto options t) := by
  induction path generalizing source target with
  | nil =>
    cases found
    cases given
    rfl
  | cons key path ih =>
    cases target with
    | leaf v => cases found
    | sequence r items => cases found
    | mapping r entries =>
      cases source with
      | leaf v => cases given
      | sequence r items => cases given
      | mapping r' incoming =>
        rw [at?_cons] at found given
        obtain ⟨u, here, found⟩ := Option.bind_eq_some_iff.mp found
        obtain ⟨v, there, given⟩ := Option.bind_eq_some_iff.mp given
        have free_key : ¬ isReserved key = true := by
          rw [free key List.mem_cons_self]
          exact Bool.false_ne_true
        rw [mergeInto, at?_cons, valueAt?_mergeEntries keyed.nodup there,
          mergeEntry_containers free_key here (isContainer_of_at? found container)
            (isContainer_of_at? given container'), Fields.valueAt?_insertEntry, if_pos rfl]
        exact ih (keyed.below there) (fun k mem => free k (List.mem_cons_of_mem _ mem)) found given

/-- **A container that is reached by keys keeps its handle** unless the source stores a value that is
no container at its path or at a prefix of it. -/
theorem kept_mergeInto (options : Merge.Options) {source target : RefTree} {path : List String}
    {u : RefTree} (keyed : source.Keyed) (found : target.at? path = some u)
    (container : u.isContainer = true)
    (unstored : ∀ q, q <+: path → ¬ Stores options source q) :
    ∃ u', (source.mergeInto options target).at? path = some u' ∧ SameTop u u' := by
  induction path generalizing source target with
  | nil =>
    cases found
    exact ⟨_, rfl, sameTop_mergeInto options source container⟩
  | cons key path ih =>
    cases target with
    | leaf v => cases found
    | sequence r items => cases found
    | mapping r entries =>
      have still : ∃ u', (mapping r entries).at? (key :: path) = some u' ∧ SameTop u u' :=
        ⟨u, found, .refl container⟩
      cases source with
      | leaf v => exact still
      | sequence r items => exact still
      | mapping s incoming =>
        obtain ⟨t, here, below⟩ := Option.bind_eq_some_iff.mp found
        have inner := isContainer_of_at? below container
        -- what the merge leaves under the key decides, and it is found by the rest of the path
        suffices ∃ t', valueAt? key (mergeEntries options incoming entries) = some t' ∧
            ∃ u', t'.at? path = some u' ∧ SameTop u u' by
          obtain ⟨t', there, u', below', same⟩ := this
          refine ⟨u', ?_, same⟩
          rw [mergeInto, at?_cons, there]
          exact below'
        cases given : valueAt? key incoming with
        | none => exact ⟨t, (valueAt?_mergeEntries_none given).trans here, u, below, .refl container⟩
        | some source =>
          rw [valueAt?_mergeEntries keyed.nodup given]
          rcases mergeEntry_cases options key source (fun t => source.mergeInto options t) entries with
            same | ⟨free, ⟨t', here', _, _, same⟩ | ⟨_, stored, other⟩⟩
          · rw [same]
            exact ⟨t, here, u, below, .refl container⟩
          · obtain rfl := Option.some.inj (here.symm.trans here')
            rw [same, Fields.valueAt?_insertEntry, if_pos rfl]
            refine ⟨_, rfl, ih (keyed.below given) below fun q before stores => ?_⟩
            exact unstored (key :: q) (List.cons_prefix_cons.mpr ⟨rfl, before⟩)
              (stores.cons free given)
          · -- a scalar of the source would take the place of the container
            have single := other t here
            rw [inner, Bool.true_and] at single
            exact absurd (Stores.single free given single stored)
              (unstored [key] (List.cons_prefix_cons.mpr ⟨rfl, List.nil_prefix⟩))

/-- Sources that store no scalar on the way to a container leave it its handle. -/
theorem kept_mergeAll {sources : List RefTree} (keyed : ∀ source ∈ sources, source.Keyed)
    (found : target.at? path = some u) (container : u.isContainer = true)
    (unstored : ∀ source ∈ sources, ∀ q, q <+: path → ¬ Stores options source q) :
    ∃ u', (target.mergeAll options sources).at? path = some u' ∧ SameTop u u' := by
  induction sources generalizing target u with
  | nil => exact ⟨u, found, .refl container⟩
  | cons source rest ih =>
    obtain ⟨t, there, first⟩ := kept_mergeInto options (keyed source List.mem_cons_self) found
      container (unstored source List.mem_cons_self)
    obtain ⟨u', later, second⟩ := ih (fun s mem => keyed s (List.mem_cons_of_mem _ mem)) there
      first.isContainer_right fun s mem => unstored s (List.mem_cons_of_mem _ mem)
    exact ⟨u', later, first.trans second⟩

/-! ## Containers of a merged tree -/

/-- **A container of a merged tree** is the one that the target has there, or the one that the source
has there. -/
theorem origin_mergeInto (options : Merge.Options) {source target : RefTree} {path : List String}
    {u : RefTree} (keyed : source.Keyed)
    (found : (source.mergeInto options target).at? path = some u) (container : u.isContainer = true) :
    (∃ t, target.at? path = some t ∧ SameTop t u) ∨ source.at? path = some u := by
  induction path generalizing source target with
  | nil =>
    cases found
    rw [isContainer_mergeInto] at container
    exact Or.inl ⟨target, rfl, sameTop_mergeInto options source container⟩
  | cons key path ih =>
    have still (same : source.mergeInto options target = target) :
        ∃ t, target.at? (key :: path) = some t ∧ SameTop t u := by
      rw [same] at found
      exact ⟨u, found, .refl container⟩
    cases source with
    | leaf v => exact Or.inl (still (by cases target <;> rfl))
    | sequence r items =>
      cases target with
      | leaf v => cases found
      | mapping s entries => exact Or.inl (still rfl)
      | sequence s others => cases found
    | mapping r incoming =>
      cases target with
      | leaf v => cases found
      | sequence s others => cases found
      | mapping s entries =>
        rw [mergeInto, at?_cons] at found
        obtain ⟨t, here, below⟩ := Option.bind_eq_some_iff.mp found
        rw [at?_cons, at?_cons]
        cases given : valueAt? key incoming with
        | none =>
          rw [valueAt?_mergeEntries_none given] at here
          rw [here]
          exact Or.inl ⟨u, below, .refl container⟩
        | some source =>
          rw [valueAt?_mergeEntries keyed.nodup given] at here
          rcases mergeEntry_cases options key source (fun t => source.mergeInto options t) entries with
            same | ⟨_, ⟨t', here', _, _, same⟩ | ⟨same, _⟩⟩
          · rw [same] at here
            rw [here]
            exact Or.inl ⟨u, below, .refl container⟩
          · rw [same, Fields.valueAt?_insertEntry, if_pos rfl] at here
            cases here
            rw [here']
            exact ih (keyed.below given) below
          · rw [same, Fields.valueAt?_insertEntry, if_pos rfl] at here
            cases here
            exact Or.inr below

/-- A container that is reached by keys after merging all sources is one that the target or a source
has at the same path. -/
theorem origin_mergeAll {sources : List RefTree} (keyed : ∀ source ∈ sources, source.Keyed)
    (found : (target.mergeAll options sources).at? path = some u)
    (container : u.isContainer = true) :
    (∃ t, target.at? path = some t ∧ SameTop t u) ∨
      ∃ source ∈ sources, ∃ t, source.at? path = some t ∧ SameTop t u := by
  induction sources generalizing target with
  | nil => exact Or.inl ⟨u, found, .refl container⟩
  | cons source rest ih =>
    rcases ih (fun s mem => keyed s (List.mem_cons_of_mem _ mem)) found with
      ⟨t, here, same⟩ | ⟨s, mem, t, here, same⟩
    · rcases origin_mergeInto options (keyed source List.mem_cons_self) here same.isContainer with
        ⟨t', here', same'⟩ | here'
      · exact Or.inl ⟨t', here', same'.trans same⟩
      · exact Or.inr ⟨source, List.mem_cons_self, t, here', same⟩
    · exact Or.inr ⟨s, List.mem_cons_of_mem _ mem, t, here, same⟩

/-! ## Containers that are written to -/

/-- Both are mappings, or both are sequences. -/
inductive SameKind : RefTree → RefTree → Prop where
  | mapping (r s : Ref) (a b : List (String × RefTree)) : SameKind (.mapping r a) (.mapping s b)
  | sequence (r s : Ref) (a b : List RefTree) : SameKind (.sequence r a) (.sequence s b)

theorem SameKind.isContainer (same : SameKind t u) : t.isContainer = true := by
  cases same <;> rfl

theorem SameKind.isContainer_right (same : SameKind t u) : u.isContainer = true := by
  cases same <;> rfl

/-- What is not of the kind of the source is left as it is. -/
theorem mergeInto_other (other : ¬ SameKind target source) :
    source.mergeInto options target = target := by
  cases source with
  | leaf v => cases target <;> rfl
  | mapping r incoming =>
    cases target with
    | leaf | sequence => rfl
    | mapping => exact absurd (.mapping _ _ _ _) other
  | sequence r incoming =>
    cases target with
    | leaf | mapping => rfl
    | sequence => exact absurd (.sequence _ _ _ _) other

/-- A container of the same kind as one has the kind of all that share its top. -/
theorem SameTop.sameKind (same : SameTop t u) (kind : SameKind u s) : SameKind t s := by
  cases same <;> cases kind
  · exact .mapping _ _ _ _
  · exact .sequence _ _ _ _

/-- Merging the source into the target can write to the container: at one path on which no key is
reserved the target has this container, and the source one of the same kind. -/
def Writes (source target : RefTree) (r : Ref) : Prop :=
  ∃ path t s, Free path ∧ target.at? path = some t ∧ source.at? path = some s ∧ SameKind t s ∧
    t.value = .container r

theorem Writes.top (same : SameKind target source) (top : target.value = .container r) :
    Writes source target r :=
  ⟨[], target, source, fun _ mem => (nomatch mem), rfl, rfl, same, top⟩

/-- What is written below a key of both mappings. -/
theorem Writes.below {q : Ref} (free : isReserved key = false) (given : valueAt? key incoming = some s)
    (here : valueAt? key entries = some t) (writes : Writes s t q) (r r' : Ref) :
    Writes (.mapping r' incoming) (.mapping r entries) q := by
  obtain ⟨path, u, u', frees, found, found', same, top⟩ := writes
  refine ⟨key :: path, u, u', ?_, ?_, ?_, same, top⟩
  · intro k mem
    rcases List.mem_cons.mp mem with rfl | mem
    · exact free
    · exact frees k mem
  · rw [at?_cons, here]
    exact found
  · rw [at?_cons, given]
    exact found'

/-- Only containers of the target are written to. -/
theorem Writes.mem_refs (writes : Writes source target r) : r ∈ target.refs := by
  obtain ⟨path, t, s, _, found, _, same, top⟩ := writes
  exact mem_refs_of_at? found (mem_refs_of_value top same.isContainer)

end RefTree

end FormLogic
