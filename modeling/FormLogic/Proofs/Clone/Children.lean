import FormLogic.Proofs.Clone.Building

/-!
# `FormLogic.Proofs.Clone.Children` — containers with children of their own

When the children of some containers are replaced by deep copies, these containers are the only ones
that change, and whatever a container comes to hold is new. If nothing fails, every child has been
replaced in the end, so none of them is shared any more.

## Contents
- `Touches`: only the containers of some slots are changed.
- `Isolating`: moreover, what is held was held before or is new.
- `replaceAll`: the one loop behind the children of mappings and of sequences; `replaceAll_keeps`:
  what it keeps, however far it gets.
- `children_isolating`: the children of a container, also on failure.
- `Detached`: a container that holds no old container; `children_isolates`: what the children of a
  container become.
-/

namespace FormLogic.Clone

/-- From `h` to `k` no container has been changed but for those of the slots. -/
structure Touches (slots : Set Value) (h k : Heap) : Prop where
  grown : h.size ≤ k.size
  frame : ∀ r, r < h.size → Value.container r ∉ slots → k.cell r = h.cell r

/-- From `h` to `k` containers of the slots have come to hold new values in place of some. -/
structure Isolating (slots : Set Value) (h k : Heap) : Prop extends Touches slots h k where
  closed : k.Closed
  held : ∀ r, ∀ v ∈ (k.cell r).children, v ∈ (h.cell r).children ∨ h.New v

/-- The value holds no containers of `h`. -/
def Detached (h k : Heap) (v : Value) : Prop :=
  ∀ r, v = .container r → ∀ w ∈ (k.cell r).children, h.New w

variable {slots : Set Value} {h k g : Heap} {options : Options} {r : Ref} {v copy : Value}

theorem new_mono (grown : h.size ≤ k.size) (new : k.New v) : h.New v :=
  fun r same => Nat.le_trans grown (new r same)

namespace Touches

theorem refl (slots : Set Value) (h : Heap) : Touches slots h h :=
  ⟨Nat.le_refl _, fun _ _ _ => rfl⟩

theorem trans (first : Touches slots h k) (second : Touches slots k g) : Touches slots h g where
  grown := Nat.le_trans first.grown second.grown
  frame r old other := by
    rw [second.frame r (Nat.lt_of_lt_of_le old first.grown) other, first.frame r old other]

theorem of_extends (extended : h.Extends k) : Touches slots h k :=
  ⟨extended.grown, fun _ old _ => extended.cells old⟩

theorem update (slot : .container r ∈ slots) (f : Cell → Cell) (h : Heap) :
    Touches slots h (h.update r f) where
  grown := Nat.le_of_eq (Heap.size_update h r f).symm
  frame s _ other := by
    rw [Heap.cell_update, if_neg]
    rintro ⟨rfl, _⟩
    exact other slot

end Touches

namespace Isolating

theorem refl (slots : Set Value) (closed : h.Closed) : Isolating slots h h :=
  ⟨.refl slots h, closed, fun _ _ held => Or.inl held⟩

theorem trans (first : Isolating slots h k) (second : Isolating slots k g) :
    Isolating slots h g where
  toTouches := first.toTouches.trans second.toTouches
  closed := second.closed
  held r v held := by
    rcases second.held r v held with before | new
    · exact first.held r v before
    · exact Or.inr (new_mono first.grown new)

/-- A deep copy changes nothing, and what has been made for it holds nothing old, however far copying
has got. -/
theorem deep (closed : h.Closed) (live : h.Live v) (options : Options) (slots : Set Value) :
    Isolating slots h (deep options v h).2 where
  toTouches := .of_extends (deep_extends options v h)
  closed := (deep_building closed live options).closed closed
  held r w held := by
    by_cases old : r < h.size
    · rw [(deep_extends options v h).cells old] at held
      exact Or.inl held
    · exact Or.inr ((deep_building closed live options).held r (Nat.le_of_not_lt old) w held).1

/-- A container that held nothing new comes to hold something that is new in `h`. -/
theorem update (before : Isolating slots h k) (slot : .container r ∈ slots) {f : Cell → Cell}
    (fills : ∀ w ∈ (f (k.cell r)).children, w ∈ (k.cell r).children ∨ (h.New w ∧ k.Live w)) :
    Isolating slots h (k.update r f) where
  toTouches := before.toTouches.trans (.update slot f k)
  closed := by
    intro s w held
    rw [Heap.cell_update] at held
    refine Heap.Live.mono ?_ (Nat.le_of_eq (Heap.size_update k r f).symm)
    split at held
    · next same =>
      rw [same.1] at held
      rcases fills w held with old | ⟨_, live⟩
      · exact before.closed r w old
      · exact live
    · exact before.closed s w held
  held s w held := by
    rw [Heap.cell_update] at held
    split at held
    · next same =>
      rw [same.1] at held ⊢
      rcases fills w held with old | ⟨new, _⟩
      · exact before.held r w old
      · exact Or.inr new
    · exact before.held s w held

/-- What some roots lead to they have led to before, or it is new. -/
theorem reach_before (isolating : Isolating slots h k) {roots : Set Value}
    (reached : k.Reach roots v) : h.Reach roots v ∨ h.New v := by
  refine reached.within (fun v rooted => Or.inl (.root rooted)) fun r before w held => ?_
  rcases isolating.held r w held with old | new
  · rcases before with reached | outside
    · exact Or.inl (reached.child old)
    · rw [Heap.children_of_size_le (outside r rfl)] at old
      cases old
  · exact Or.inr new

end Isolating

/-- Containers that hold no old container do not come to hold one. -/
theorem Detached.later (detached : Detached h k v) (grown : h.size ≤ k.size)
    (later : Isolating slots k g) : Detached h g v := by
  intro r same w held
  rcases later.held r w held with before | new
  · exact detached r same w before
  · exact new_mono grown new

/-! ## The values at some places -/

/-- Replaces the values at some places of a container by deep copies, one after the other. -/
def replaceAll (options : Options) (r : Ref) : List (Place × Value) → HeapM RecursionLimit Unit
  | [] => return
  | (place, v) :: rest => do
    let copy ← deep options v
    HeapM.update r (.put place copy)
    replaceAll options r rest

/-- If copying succeeds, the copy is stored before the values that follow are replaced. -/
theorem replaceAll_cons {place : Place} {rest : List (Place × Value)} :
    replaceAll options r ((place, v) :: rest) k = (.ok (), g) ↔
      ∃ copy k', deep options v k = (.ok copy, k') ∧
        replaceAll options r rest (k'.update r (.put place copy)) = (.ok (), g) := by
  rw [replaceAll, bind_eq_ok_iff]
  refine exists_congr fun copy => exists_congr fun k' => and_congr_right fun _ => ?_
  rw [bind_apply]
  rfl

theorem childEntries_eq_replaceAll (options : Options) (r : Ref) (rest : List (String × Value)) :
    childEntries options r rest =
      replaceAll options r (((keysOf rest).map .key).zip (rest.map Prod.snd)) := by
  induction rest with
  | nil => rfl
  | cons entry rest ih =>
    unfold childEntries
    rw [ih]
    rfl

theorem childItems_eq_replaceAll (options : Options) (r : Ref) (index : Nat) (rest : List Value) :
    childItems options r index rest =
      replaceAll options r (((List.range' index rest.length).map .index).zip rest) := by
  induction rest generalizing index with
  | nil => rfl
  | cons v rest ih =>
    unfold childItems
    rw [ih]
    rfl

/-- The children of a container are the values at its places. -/
theorem children_container (options : Options) (r : Ref) (h : Heap) :
    children options (.container r) h = replaceAll options r (h.cell r).slots h := by
  unfold children
  dsimp only
  rw [bind_apply]
  dsimp only [HeapM.cell]
  cases h.cell r with
  | mapping fields =>
    dsimp only
    rw [childEntries_eq_replaceAll]
    rfl
  | sequence elements =>
    dsimp only
    rw [childItems_eq_replaceAll, ← List.range_eq_range']
    rfl

theorem children_leaf (leaf : v.isContainer = false) (options : Options) (h : Heap) :
    children options v h = (.ok (), h) := by
  cases v with
  | container r => cases leaf
  | _ => rfl

/-! ## One value -/

/-- A deep copy of the value at a place is stored there. -/
theorem cell_replaced {place : Place} (inside : r < k.size)
    (ends : deep options v k = (.ok copy, g)) :
    (g.update r (.put place copy)).cell r = (k.cell r).put place copy := by
  have extended := deep_extends_of_ok ends
  rw [Heap.cell_update, if_pos ⟨rfl, Nat.lt_of_lt_of_le inside extended.grown⟩,
    extended.cells inside]

/-- The values at the places that follow are still there. -/
theorem held_replaced {place : Place} {rest : List (Place × Value)} (inside : r < k.size)
    (held : ∀ slot ∈ (place, v) :: rest, (k.cell r).at? slot.1 = some slot.2)
    (nodup : (((place, v) :: rest).map Prod.fst).Nodup)
    (ends : deep options v k = (.ok copy, g)) :
    ∀ slot ∈ rest, ((g.update r (.put place copy)).cell r).at? slot.1 = some slot.2 := by
  intro slot later
  have single := (List.nodup_cons.mp nodup).1
  have other : slot.1 ≠ place := by
    rintro rfl
    exact single (List.mem_map.mpr ⟨slot, later, rfl⟩)
  rw [cell_replaced inside ends, Cell.at?_put (held _ List.mem_cons_self), if_neg other]
  exact held slot (List.mem_cons_of_mem _ later)

/-- What a container of the slots comes to hold in place of a value is new. -/
theorem Isolating.replace {place : Place} (closed : k.Closed) (inside : r < k.size)
    (held : (k.cell r).at? place = some v) (ends : Clone.deep options v k = (.ok copy, g))
    (slot : .container r ∈ slots) : Isolating slots k (g.update r (.put place copy)) := by
  have live := closed r v (Cell.mem_children_of_at? held)
  have extended := deep_extends_of_ok ends
  have copied : Isolating slots k g := of_ends (Isolating.deep closed live options slots) ends
  refine copied.update slot fun w mem => ?_
  rw [extended.cells inside] at mem ⊢
  rcases Cell.mem_children_put held mem with before | rfl
  · exact Or.inl before
  · have new := (deep_new closed live ends).1
    exact Or.inr ⟨fun c same => (new c same).1, fun c same => (new c same).2⟩

/-! ## The children of one container -/

/-- What holds before, and is kept by copying and by storing each copy, holds when the values at some
places have been replaced, however far that gets. -/
theorem replaceAll_keeps {I : Heap → Prop} {rest : List (Place × Value)} (start : I k)
    (closed : k.Closed) (held : ∀ slot ∈ rest, (k.cell r).at? slot.1 = some slot.2)
    (nodup : (rest.map Prod.fst).Nodup)
    (fails : ∀ g v, I g → g.Closed → g.Live v → I (Clone.deep options v g).2)
    (stores : ∀ g g' place v copy, I g → g.Closed → (place, v) ∈ rest →
      (g.cell r).at? place = some v → Clone.deep options v g = (.ok copy, g') →
      I (g'.update r (.put place copy))) : I (replaceAll options r rest k).2 := by
  induction rest generalizing k with
  | nil => exact start
  | cons first rest ih =>
    obtain ⟨place, v⟩ := first
    have atFirst := held (place, v) List.mem_cons_self
    have child := Cell.mem_children_of_at? atFirst
    have inside := Heap.lt_size_of_mem_children child
    unfold replaceAll
    rw [bind_apply]
    cases copied : Clone.deep options v k with
    | mk result g =>
      cases result with
      | error e => exact of_ends (fails k v start closed (closed r v child)) copied
      | ok copy =>
        have here := Isolating.replace closed inside atFirst copied (Set.mem_univ _)
        refine ih (stores k g place v copy start closed List.mem_cons_self atFirst copied)
          here.closed (held_replaced inside held nodup copied) (List.nodup_cons.mp nodup).2 ?_
        intro g g' q w copy kept closed later
        exact stores g g' q w copy kept closed (List.mem_cons_of_mem _ later)

/-- Replacing the values at some places of a container by deep copies, however far it gets. -/
theorem replaceAll_isolating {rest : List (Place × Value)} (slot : .container r ∈ slots)
    (closed : k.Closed) (held : ∀ slot ∈ rest, (k.cell r).at? slot.1 = some slot.2)
    (nodup : (rest.map Prod.fst).Nodup) : Isolating slots k (replaceAll options r rest k).2 := by
  refine replaceAll_keeps (I := Isolating slots k) (.refl slots closed) closed held nodup ?_ ?_
  · intro g v before closed live
    exact before.trans (Isolating.deep closed live options slots)
  · intro g g' place v copy before closed _ held ends
    have inside := Heap.lt_size_of_mem_children (Cell.mem_children_of_at? held)
    exact before.trans (Isolating.replace closed inside held ends slot)

/-- **The children of a container are replaced**, however far that gets: what it and all other
containers hold was held before or is new. -/
theorem children_isolating (closed : h.Closed) (slot : v ∈ slots) (options : Options) :
    Isolating slots h (children options v h).2 := by
  rcases v.leaf_or_container with leaf | ⟨r, rfl⟩
  · rw [children_leaf leaf]
    exact .refl slots closed
  · rw [children_container]
    refine replaceAll_isolating slot closed (fun slot mem => Cell.mem_slots.mp mem) ?_
    rw [Cell.map_fst_slots]
    exact Cell.nodup_places _

/-- The values not yet replaced are those at the places still to come. -/
theorem replaceAll_isolates {rest : List (Place × Value)} (slot : .container r ∈ slots)
    (inside : r < k.size) (grown : h.size ≤ k.size) (closed : k.Closed)
    (held : ∀ slot ∈ rest, (k.cell r).at? slot.1 = some slot.2) (nodup : (rest.map Prod.fst).Nodup)
    (pending : ∀ place v, (k.cell r).at? place = some v → h.New v ∨ place ∈ rest.map Prod.fst)
    (ends : replaceAll options r rest k = (.ok (), g)) :
    Isolating slots k g ∧ Detached h g (.container r) := by
  induction rest generalizing k with
  | nil =>
    cases ends
    refine ⟨.refl slots closed, ?_⟩
    rintro _ ⟨⟩ w mem
    obtain ⟨place, here⟩ := Cell.exists_at?_of_mem mem
    exact (pending place w here).resolve_right List.not_mem_nil
  | cons first rest ih =>
    obtain ⟨place, v⟩ := first
    obtain ⟨copy, k', copied, ends⟩ := replaceAll_cons.mp ends
    have atFirst := held (place, v) List.mem_cons_self
    have here := Isolating.replace closed inside atFirst copied slot
    -- the place has a new value now, and the others wait as before
    have pending' : ∀ q w, ((k'.update r (.put place copy)).cell r).at? q = some w →
        h.New w ∨ q ∈ rest.map Prod.fst := by
      intro q w there
      rw [cell_replaced inside copied, Cell.at?_put atFirst] at there
      split at there
      · cases there
        have live := closed r v (Cell.mem_children_of_at? atFirst)
        exact Or.inl fun c same => Nat.le_trans grown ((deep_new closed live copied).1 c same).1
      · next other =>
        exact (pending q w there).imp_right fun later => (List.mem_cons.mp later).resolve_left other
    obtain ⟨isolating, detached⟩ := ih (Nat.lt_of_lt_of_le inside here.grown)
      (Nat.le_trans grown here.grown) here.closed (held_replaced inside held nodup copied)
      (List.nodup_cons.mp nodup).2 pending' ends
    exact ⟨here.trans isolating, detached⟩

/-- **A container gets children of its own**: what it and all other containers hold was held before
or is new, and it holds no old container any more. -/
theorem children_isolates (closed : h.Closed) (live : h.Live v) (slot : v ∈ slots)
    (ends : children options v h = (.ok (), g)) : Isolating slots h g ∧ Detached h g v := by
  rcases v.leaf_or_container with leaf | ⟨r, rfl⟩
  · rw [children_leaf leaf] at ends
    cases ends
    refine ⟨.refl slots closed, ?_⟩
    rintro r rfl
    cases leaf
  · rw [children_container] at ends
    refine replaceAll_isolates slot (Heap.live_container.mp live) (Nat.le_refl _) closed
      (fun slot mem => Cell.mem_slots.mp mem) ?_ (fun place v here => Or.inr ?_) ends
    · rw [Cell.map_fst_slots]
      exact Cell.nodup_places _
    · rw [Cell.map_fst_slots]
      exact Cell.place_mem here

end FormLogic.Clone
