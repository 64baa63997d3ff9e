import FormLogic.Proofs.Clone.Unseen

/-!
# `FormLogic.Proofs.Clone.Kept` — what children of their own keep

The children of a container are replaced one after the other, and one of them can be nested too
deeply. The ones before it have been replaced then, the others have not; and as any of them may refer
back to the container, later copies are taken of a container that is half replaced. What makes this
harmless is that at each moment the whole graph means what it meant: apart from reserved keys, every
value unfolds as it did at first. So a later copy looks like the child did at first, and storing it
changes the meaning of nothing again. What a copy leads to is never written to afterwards.

## Contents
- `Cell.unreserved_put_of_kept`, `Heap.unfold_unreserved_put`: storing, and reserved keys.
- `Replacement`: values made of new containers that unfold like others without reserved keys.
- `Keeps`: what has become of a container; `Keeps.extend`, `Keeps.put`: the two steps.
- `children_keeps`: the children of a container, however far replacing them gets.
-/

namespace FormLogic

/-! ## Storing, and reserved keys -/

/-- Whether copies leave out what stands at the place. -/
def Place.isReserved : Place → Bool
  | .key name => FormLogic.isReserved name
  | .index _ => false

section

variable {α : Type} {key : String}

/-- Among the other entries, one under a reserved key is not seen. -/
theorem filter_insertEntry_of_reserved (reserved : isReserved key = true) (a : α)
    (entries : List (String × α)) :
    (insertEntry key a entries).filter (fun entry => !isReserved entry.1) =
      entries.filter fun entry => !isReserved entry.1 := by
  induction entries with
  | nil => simp [insertEntry, reserved]
  | cons entry rest ih =>
    obtain ⟨k, b⟩ := entry
    unfold insertEntry
    split
    · next same => simp [same, reserved]
    · simp only [List.filter_cons, ih]

theorem filter_insertEntry_of_kept (kept : isReserved key = false) (a : α)
    (entries : List (String × α)) :
    (insertEntry key a entries).filter (fun entry => !isReserved entry.1) =
      insertEntry key a (entries.filter fun entry => !isReserved entry.1) := by
  induction entries with
  | nil => simp [insertEntry, kept]
  | cons entry rest ih =>
    obtain ⟨k, b⟩ := entry
    by_cases same : k = key
    · simp [insertEntry, same, kept]
    · cases reserved : isReserved k <;> simp [insertEntry, same, reserved, ih]

theorem valueAt?_filter_of_kept (kept : isReserved key = false) (entries : List (String × α)) :
    valueAt? key (entries.filter fun entry => !isReserved entry.1) = valueAt? key entries := by
  rw [valueAt?_filter_keys fun k => !isReserved k]
  exact if_pos (by rw [kept, Bool.not_false])

end

namespace Cell

variable {place : Place}

/-- Storing under a reserved key is not seen without reserved keys. -/
theorem unreserved_put_of_reserved (reserved : place.isReserved = true) (c : Cell) (v : Value) :
    (c.put place v).unreserved = c.unreserved := by
  cases c with
  | mapping fields =>
    cases place with
    | key key =>
      exact congrArg mapping (Fields.ext (filter_insertEntry_of_reserved reserved v fields.entries))
    | index i => rfl
  | sequence items =>
    cases place with
    | key key => rfl
    | index i => cases reserved

theorem unreserved_put_of_kept (kept : place.isReserved = false) (c : Cell) (v : Value) :
    (c.put place v).unreserved = c.unreserved.put place v := by
  cases c with
  | mapping fields =>
    cases place with
    | key key => exact congrArg mapping (Fields.ext (filter_insertEntry_of_kept kept v fields.entries))
    | index i => rfl
  | sequence items => cases place <;> rfl

/-- A place that is not reserved holds what it holds with reserved keys. -/
theorem at?_unreserved_of_kept (kept : place.isReserved = false) (c : Cell) :
    c.unreserved.at? place = c.at? place := by
  cases c with
  | mapping fields =>
    cases place with
    | key key => exact valueAt?_filter_of_kept kept fields.entries
    | index i => rfl
  | sequence items => rfl

end Cell

namespace Heap

variable {h : Heap} {r : Ref} {place : Place} {v w : Value}

@[simp]
theorem size_unreserved (h : Heap) : h.unreserved.size = h.size :=
  Array.size_map

/-- Without reserved keys nothing has a reserved key. -/
theorem freeOfReserved_unreserved (h : Heap) (v : Value) : h.unreserved.FreeOfReserved v := by
  intro r fields _ cell key mem
  rw [cell_unreserved] at cell
  cases source : h.cell r with
  | mapping fields' =>
    rw [source] at cell
    cases cell
    obtain ⟨entry, kept, rfl⟩ := List.mem_map.mp mem
    simpa using (List.mem_filter.mp kept).2
  | sequence items =>
    rw [source] at cell
    cases cell

/-- Apart from reserved keys, storing what looks the same is not seen. -/
theorem unfold_unreserved_put (held : (h.cell r).at? place = some v)
    (alike : h.unreserved.Alike h.unreserved v w) (apart : ¬ h.Reach {w} (.container r))
    (depth : Nat) (u : Value) :
    (h.update r (.put place w)).unreserved.unfold depth u = h.unreserved.unfold depth u := by
  have inside : r < h.size := lt_size_of_mem_children (Cell.mem_children_of_at? held)
  by_cases reserved : place.isReserved = true
  · refine unfold_congr (fun s _ => ?_) depth
    rw [cell_unreserved, cell_unreserved, cell_update]
    split
    · exact Cell.unreserved_put_of_reserved reserved _ w
    · rfl
  · have kept := Bool.not_eq_true _ ▸ reserved
    have cells : ∀ s, (h.update r (.put place w)).unreserved.cell s =
        (h.unreserved.update r (.put place w)).cell s := by
      intro s
      rw [cell_unreserved, cell_update, cell_update, cell_unreserved, size_unreserved]
      split
      · exact Cell.unreserved_put_of_kept kept _ w
      · rfl
    rw [unfold_congr (fun s _ => cells s) depth]
    refine unfold_put (by rwa [size_unreserved]) ?_ alike (fun reached => apart reached.of_unreserved)
      depth u
    rw [cell_unreserved, Cell.at?_unreserved_of_kept kept]
    exact held

end Heap

namespace Clone

variable {h k g : Heap} {r : Ref} {place : Place} {v w copy : Value} {options : Options}

/-! ## Values that stand for others -/

/-- In `k` the value stands for one of `h`: all its containers are new, and it unfolds to the tree of
the other without reserved keys. -/
structure Replacement (h k : Heap) (v w : Value) : Prop where
  fresh : ∀ s, k.Reach {w} (.container s) → h.size ≤ s
  alike : h.unreserved.Alike k v w

namespace Replacement

/-- Nothing that the value leads to has a reserved key. -/
theorem unfold_unreserved (replacement : Replacement h k v w) :
    h.unreserved.Alike k.unreserved v w := by
  have free := (h.freeOfReserved_unreserved v).of_alike replacement.alike
  exact fun depth => (free.unfold_eq depth).trans (replacement.alike depth)

/-- The value still stands for the other as long as its containers stay as they are. -/
theorem congr (replacement : Replacement h k v w)
    (same : ∀ s, k.Reach {w} (.container s) → g.cell s = k.cell s) : Replacement h g v w where
  fresh s reached := by
    refine replacement.fresh s (reached.within (fun u here => .root here) fun t before u held => ?_)
    rw [same t before] at held
    exact before.child held
  alike depth := (Heap.unfold_congr same depth).trans (replacement.alike depth)

end Replacement

/-! ## What is kept -/

/-- From `h` to `k`, some containers that `r` holds may have been replaced. -/
structure Keeps (h : Heap) (r : Ref) (k : Heap) : Prop where
  grown : h.size ≤ k.size
  /-- Every other container that was there holds what it held. -/
  frame : ∀ s, s < h.size → s ≠ r → k.cell s = h.cell s
  /-- The container has the same keys in the same order, or the same length. -/
  shape : (k.cell r).shape = (h.cell r).shape
  /-- Each place holds what it held, or a new container in place of the one it held. -/
  places : ∀ place v, (h.cell r).at? place = some v →
    ∃ w, (k.cell r).at? place = some w ∧
      (w = v ∨ ∃ s t, v = .container s ∧ w = .container t ∧ Replacement h k v w)
  /-- Apart from reserved keys, every value unfolds as before. -/
  meaning : ∀ v, h.Live v → h.unreserved.Alike k.unreserved v v

namespace Keeps

theorem refl (h : Heap) (r : Ref) : Keeps h r h where
  grown := Nat.le_refl _
  frame _ _ _ := rfl
  shape := rfl
  places _ v held := ⟨v, held, Or.inl rfl⟩
  meaning v _ := .refl _ v

/-- A deep copy adds containers. -/
theorem extend (keeps : Keeps h r k) (inside : r < h.size) (closed : k.Closed)
    (extended : k.Extends g) : Keeps h r g := by
  have cell : g.cell r = k.cell r := extended.cells (Nat.lt_of_lt_of_le inside keeps.grown)
  refine ⟨Nat.le_trans keeps.grown extended.grown, ?_, ?_, ?_, ?_⟩
  · intro s old other
    rw [extended.cells (Nat.lt_of_lt_of_le old keeps.grown), keeps.frame s old other]
  · rw [cell, keeps.shape]
  · intro place v held
    obtain ⟨w, here, same⟩ := keeps.places place v held
    refine ⟨w, cell ▸ here, same.imp_right ?_⟩
    rintro ⟨s, t, rfl, rfl, replacement⟩
    have live := closed r _ (Cell.mem_children_of_at? here)
    exact ⟨s, t, rfl, rfl, replacement.congr fun u reached =>
      extended.cells (reached.live_of_value closed live u rfl)⟩
  · intro v live
    refine (keeps.meaning v live).trans (Heap.unfold_congr fun s reached => ?_)
    have inside := reached.of_unreserved.live_of_value closed (live.mono keeps.grown) s rfl
    rw [Heap.cell_unreserved, Heap.cell_unreserved, extended.cells inside]

/-- A value that stands for a child is stored in its place. -/
theorem put (keeps : Keeps h r k) (inside : r < h.size) (live : h.Live v)
    (before : (h.cell r).at? place = some v) (held : (k.cell r).at? place = some v)
    (replacement : Replacement h k v w) : Keeps h r (k.update r (.put place w)) := by
  have cell : (k.update r (.put place w)).cell r = (k.cell r).put place w := by
    rw [Heap.cell_update, if_pos ⟨rfl, Nat.lt_of_lt_of_le inside keeps.grown⟩]
  have others : ∀ s, s ≠ r → (k.update r (.put place w)).cell s = k.cell s := by
    intro s other
    rw [Heap.cell_update, if_neg fun same => other same.1]
  -- what stands for a child leads to new containers only, so not to the one that is changed
  have untouched : ∀ {u x}, Replacement h k u x → Replacement h (k.update r (.put place w)) u x := by
    intro u x other
    refine other.congr fun s reached => others s ?_
    rintro rfl
    exact absurd inside (Nat.not_lt.mpr (other.fresh s reached))
  refine ⟨?_, ?_, ?_, ?_, ?_⟩
  · rw [Heap.size_update]
    exact keeps.grown
  · intro s old other
    rw [others s other, keeps.frame s old other]
  · rw [cell, Cell.shape_put held, keeps.shape]
  · intro q u there
    rw [cell, Cell.at?_put held]
    by_cases here : q = place
    · subst here
      cases before.symm.trans there
      refine ⟨w, if_pos rfl, ?_⟩
      rcases v.leaf_or_container with leaf | ⟨s, rfl⟩
      · exact Or.inl (replacement.alike.eq_of_leaf leaf)
      · obtain ⟨t, rfl⟩ := replacement.alike.exists_container
        exact Or.inr ⟨s, t, rfl, rfl, untouched replacement⟩
    · obtain ⟨x, there, same⟩ := keeps.places q u there
      refine ⟨x, by rw [if_neg here, there], same.imp_right ?_⟩
      rintro ⟨s, t, rfl, rfl, other⟩
      exact ⟨s, t, rfl, rfl, untouched other⟩
  · intro u liveU
    refine (keeps.meaning u liveU).trans fun depth => ?_
    refine Heap.unfold_unreserved_put held ?_ (fun reached => ?_) depth u
    · exact (keeps.meaning v live).symm.trans replacement.unfold_unreserved
    · exact absurd inside (Nat.not_lt.mpr (replacement.fresh r reached))

/-- A deep copy of a child is stored in its place. -/
theorem replace (keeps : Keeps h r k) (closed : h.Closed) (closed' : k.Closed)
    (before : (h.cell r).at? place = some v) (held : (k.cell r).at? place = some v)
    (ends : deep options v k = (.ok copy, g)) : Keeps h r (g.update r (.put place copy)) := by
  have child := Cell.mem_children_of_at? before
  have inside := Heap.lt_size_of_mem_children child
  have live := closed r v child
  have live' : k.Live v := live.mono keeps.grown
  have extended := deep_extends_of_ok ends
  have replacement : Replacement h g v copy := by
    refine ⟨fun s reached => ?_, fun depth => ?_⟩
    · exact Nat.le_trans keeps.grown (deep_fresh closed' live' ends reached).1
    · rw [(deep_copied closed' live' ends).unfold_eq .root depth, keeps.meaning v live depth]
  refine (keeps.extend inside closed' extended).put inside live before ?_ replacement
  rw [extended.cells (Nat.lt_of_lt_of_le inside keeps.grown)]
  exact held

end Keeps

/-! ## The children of a container -/

/-- **Replacing the children of a container keeps it and what it means**, however far that gets. If
nothing fails, every child that is a container has been replaced. -/
theorem children_keeps (closed : h.Closed) (inside : r < h.size) (options : Options) :
    Keeps h r (children options (.container r) h).2 ∧
      ((children options (.container r) h).1 = .ok () →
        ∀ place s, (h.cell r).at? place = some (.container s) →
          ∃ t, ((children options (.container r) h).2.cell r).at? place = some (.container t) ∧
            Replacement h (children options (.container r) h).2 (.container s) (.container t)) := by
  have keeps : Keeps h r (children options (.container r) h).2 := by
    rw [children_container]
    refine replaceAll_keeps (I := Keeps h r) (.refl h r) closed
      (fun slot mem => Cell.mem_slots.mp mem) ?_ ?_ ?_
    · rw [Cell.map_fst_slots]
      exact Cell.nodup_places _
    · intro g v before closed' _
      exact before.extend inside closed' (deep_extends options v g)
    · intro g g' place v copy before closed' slot held ends
      exact before.replace closed closed' (Cell.mem_slots.mp slot) held ends
  refine ⟨keeps, fun done place s held => ?_⟩
  have live : h.Live (.container s) := closed r _ (Cell.mem_children_of_at? held)
  obtain ⟨w, here, same⟩ := keeps.places place _ held
  -- a container that has not been replaced is an old one, and none of those is left
  have detached := (children_isolates closed (Heap.live_container.mpr inside)
    (Set.mem_singleton (Value.container r)) (Prod.ext done rfl)).2
  rcases same with rfl | ⟨_, t, ⟨⟩, rfl, replacement⟩
  · have new := detached r rfl _ (Cell.mem_children_of_at? here) s rfl
    exact absurd (live s rfl) (Nat.not_lt.mpr new)
  · exact ⟨t, here, replacement⟩

/-- A mapping whose second child contains it again, and with it the copy of the first, so that there
are too many containers below each other. -/
theorem children_keeps_half_way :
    let h : Heap := ⟨#[
      .mapping (.ofList [("a", .container 1), ("b", .container 2)]),
      .sequence #[.null],
      .mapping (.ofList [("up", .container 0), ("__proto__", .container 2)])]⟩
    let k : Heap := ⟨#[
      .mapping (.ofList [("a", .container 3), ("b", .container 2)]),
      .sequence #[.null],
      .mapping (.ofList [("up", .container 0), ("__proto__", .container 2)]),
      .sequence #[.null], .mapping .empty, .mapping .empty]⟩
    h.Closed ∧ 0 < h.size ∧
      children ⟨2⟩ (.container 0) h = (.error ⟨.clone, 2⟩, k) ∧ Keeps h 0 k := by
  intro h k
  have closed : h.Closed := by decide
  have inside : 0 < h.size := by decide
  have ends : children ⟨2⟩ (.container 0) h = (.error ⟨.clone, 2⟩, k) := by rfl
  have keeps : Keeps h 0 (children ⟨2⟩ (.container 0) h).2 := (children_keeps closed inside ⟨2⟩).1
  exact ⟨closed, inside, ends, of_ends keeps ends⟩

end Clone

end FormLogic
