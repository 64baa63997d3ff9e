import FormLogic.Proofs.Clone.Copied
import FormLogic.Proofs.Heap.RefTree

/-!
# `FormLogic.Proofs.Clone.Building` — copies that are not finished

A copy that fails leaves behind what it has made up to then. Nothing can be said of the shape of
that: some containers have been filled, the ones on the way down are still empty. But each of them
holds only containers that have been made since the copying began. This is the invariant of copying
at any moment, so it holds however copying ends.

## Contents
- `Building`: what has been made up to a moment; `Building.alloc`, `Building.fill`: its two steps.
- `Attempt`, `Attempt.bind`: an action that goes on building, whatever becomes of it.
- `attempts_value`, `deep_building`: copying a value.
-/

namespace FormLogic.Clone

/-! ## What has been made up to a moment -/

/-- The value is no container, or one that has been made since `h`. -/
def Owned (h k : Heap) (v : Value) : Prop :=
  h.New v ∧ k.Live v

/-- Copying from `h` on has got to `k`: no container of `h` has been changed, and what has been made
since then holds only what has been made since then. -/
structure Building (h k : Heap) : Prop where
  extended : h.Extends k
  held : ∀ r, h.size ≤ r → ∀ v ∈ (k.cell r).children, Owned h k v

variable {h k g : Heap} {v : Value} {r : Ref}

theorem Owned.mono (owned : Owned h k v) (grown : k.size ≤ g.size) : Owned h g v :=
  ⟨owned.1, owned.2.mono grown⟩

theorem Owned.of_leaf (leaf : v.isContainer = false) : Owned h k v := by
  have other : ∀ r, v ≠ .container r := by
    rintro r rfl
    cases leaf
  exact ⟨fun r same => absurd same (other r), fun r same => absurd same (other r)⟩

theorem owned_container : Owned h k (.container r) ↔ h.size ≤ r ∧ r < k.size := by
  refine and_congr ⟨fun new => new r rfl, fun le => ?_⟩ Heap.live_container
  rintro _ ⟨⟩
  exact le

namespace Building

/-- Nothing has been made when copying begins. -/
theorem start (h : Heap) : Building h h where
  extended := .refl h
  held _ new _ mem := absurd (Heap.lt_size_of_mem_children mem) (Nat.not_lt.mpr new)

/-- An empty container is made. -/
theorem alloc (building : Building h k) {c : Cell} (empty : c.children = []) :
    Building h (k.alloc c).2 where
  extended := building.extended.trans (.alloc k c)
  held r new v mem := by
    rw [Heap.cell_alloc] at mem
    split at mem
    · rw [empty] at mem
      cases mem
    · exact (building.held r new v mem).mono (Heap.Extends.alloc k c).grown

/-- A container that has been made is filled. -/
theorem fill (building : Building h k) (new : h.size ≤ r) {c : Cell}
    (owned : ∀ v ∈ c.children, Owned h k v) : Building h (k.update r fun _ => c) where
  extended := building.extended.update new _
  held s new' v mem := by
    have grown := Nat.le_of_eq (Heap.size_update k r fun _ => c).symm
    rw [Heap.cell_update] at mem
    split at mem
    · exact (owned v mem).mono grown
    · exact (building.held s new' v mem).mono grown

theorem closed (building : Building h k) (closed : h.Closed) : k.Closed := by
  intro r v mem
  by_cases old : r < h.size
  · rw [building.extended.cells old] at mem
    exact (closed r v mem).mono building.extended.grown
  · exact (building.held r (Nat.le_of_not_lt old) v mem).2

end Building

/-! ## Actions that go on building -/

/-- From `k` on an action has gone on building a copy of containers of `h`. If it has succeeded, its
answer has the property in the heap that it leaves. -/
structure Attempt {α : Type} (h k : Heap) (P : Heap → α → Prop)
    (ends : Except RecursionLimit α × Heap) : Prop where
  building : Building h ends.2
  grown : k.size ≤ ends.2.size
  answer : ∀ a, ends.1 = .ok a → P ends.2 a

section

variable {α β : Type} {P : Heap → α → Prop} {Q : Heap → β → Prop} {p : HeapM RecursionLimit α}
  {f : α → HeapM RecursionLimit β}

theorem Attempt.pure {a : α} (building : Building h k) (answer : P k a) :
    Attempt h k P ((Pure.pure a : HeapM RecursionLimit α) k) where
  building := building
  grown := Nat.le_refl _
  answer _ same := by
    cases same
    exact answer

theorem Attempt.throw {e : RecursionLimit} (building : Building h k) :
    Attempt h k P ((MonadExcept.throw e : HeapM RecursionLimit α) k) where
  building := building
  grown := Nat.le_refl _
  answer _ same := nomatch same

theorem Attempt.bind (first : Attempt h k P (p k))
    (next : ∀ a g, k.size ≤ g.size → Building h g → P g a → Attempt h g Q (f a g)) :
    Attempt h k Q ((p >>= f) k) := by
  rw [bind_apply]
  generalize p k = x at first
  obtain ⟨_ | a, g⟩ := x
  · exact ⟨first.building, first.grown, fun _ same => nomatch same⟩
  · have second := next a g first.grown first.building (first.answer a rfl)
    exact ⟨second.building, Nat.le_trans first.grown second.grown, second.answer⟩

end

/-! ## Copying values -/

/-- While there are at least so many containers, copying values of `h` goes on building, and the
copies have been made since. -/
def Attempts (h : Heap) (n : Nat) (copy : Value → HeapM RecursionLimit Value) : Prop :=
  ∀ v k, h.Live v → n ≤ k.size → Building h k → Attempt h k (Owned h) (copy v k)

section

variable {copy : Value → HeapM RecursionLimit Value} {n : Nat}

theorem attempt_entries (attempts : Attempts h n copy) {rest : List (String × Value)}
    (live : ∀ entry ∈ rest, h.Live entry.2) (le : n ≤ k.size) (building : Building h k)
    {made : Fields Value} (owned : ∀ entry ∈ made.entries, Owned h k entry.2) :
    Attempt h k (fun g all => ∀ entry ∈ all.entries, Owned h g entry.2)
      (entries copy made rest k) := by
  induction rest generalizing made k with
  | nil => exact .pure building owned
  | cons entry rest ih =>
    obtain ⟨key, v⟩ := entry
    have live' : ∀ entry ∈ rest, h.Live entry.2 := fun entry mem =>
      live entry (List.mem_cons_of_mem _ mem)
    unfold entries
    split
    · exact ih live' le building owned
    · refine .bind (attempts v k (live _ List.mem_cons_self) le building) fun w g grown building' new => ?_
      refine ih live' (Nat.le_trans le grown) building' fun entry mem => ?_
      rcases mem_insertEntry mem with rfl | old
      · exact new
      · exact (owned entry old).mono grown

theorem attempt_items (attempts : Attempts h n copy) {rest : List Value}
    (live : ∀ v ∈ rest, h.Live v) (le : n ≤ k.size) (building : Building h k) {made : Array Value}
    (owned : ∀ v ∈ made.toList, Owned h k v) :
    Attempt h k (fun g all => ∀ v ∈ all.toList, Owned h g v) (items copy made rest k) := by
  induction rest generalizing made k with
  | nil => exact .pure building owned
  | cons v rest ih =>
    unfold items
    refine .bind (attempts v k (live v List.mem_cons_self) le building) fun w g grown building' new => ?_
    refine ih (fun v mem => live v (List.mem_cons_of_mem _ mem)) (Nat.le_trans le grown) building' ?_
    intro u mem
    rw [Array.toList_push] at mem
    rcases List.mem_append.mp mem with old | same
    · exact (owned u old).mono grown
    · rw [List.mem_singleton.mp same]
      exact new

theorem attempt_contents (attempts : Attempts h n copy) {c : Cell}
    (live : ∀ v ∈ c.children, h.Live v) (le : n ≤ k.size) (building : Building h k) :
    Attempt h k (fun g filled => ∀ v ∈ filled.children, Owned h g v) (contents copy c k) := by
  cases c with
  | mapping fields =>
    have live' : ∀ entry ∈ fields.entries, h.Live entry.2 := fun entry mem =>
      live entry.2 (List.mem_map_of_mem mem)
    refine .bind (attempt_entries attempts live' le building fun _ mem => nomatch mem) ?_
    intro all g _ building' owned
    refine .pure building' fun v mem => ?_
    obtain ⟨entry, held, rfl⟩ := List.mem_map.mp mem
    exact owned entry held
  | sequence elements =>
    refine .bind (attempt_items attempts live le building fun _ mem => nomatch mem) ?_
    intro all g _ building' owned
    exact .pure building' owned

theorem children_emptied (c : Cell) : (emptied c).children = [] := by
  cases c <;> rfl

variable {limit : RecursionLimit} {room : Nat} {ancestors : Ancestors}

/-- Scalars, handles and references back need nothing new. -/
theorem attempts_of_new (owned : ∀ pair ∈ ancestors, h.size ≤ pair.2 ∧ pair.2 < n)
    (made : ∀ r k, ancestors.lookup r = none → h.Live (.container r) → n ≤ k.size →
      Building h k → Attempt h k (Owned h) (value limit room ancestors (.container r) k)) :
    Attempts h n (value limit room ancestors) := by
  intro v k live le building
  rcases classify ancestors v with leaf | ⟨r, c, rfl, known⟩ | ⟨r, rfl, new⟩
  · rw [value_leaf leaf]
    exact .pure building (.of_leaf leaf)
  · rw [value_back known]
    obtain ⟨since, upto⟩ := owned _ (mem_of_lookup known)
    exact .pure building (owned_container.mpr ⟨since, Nat.lt_of_lt_of_le upto le⟩)
  · exact made r k new live le building

/-- **Copying a value goes on building**, by induction on the room. The copies of the containers on
the way down have been made since the copying began. -/
theorem attempts_value (closed : h.Closed) (limit : RecursionLimit) (room : Nat)
    {ancestors : Ancestors} (owned : ∀ pair ∈ ancestors, h.size ≤ pair.2 ∧ pair.2 < n) :
    Attempts h n (value limit room ancestors) := by
  induction room generalizing ancestors n with
  | zero =>
    refine attempts_of_new owned fun r k new _ _ building => ?_
    rw [value_full new]
    exact .throw building
  | succ room ih =>
    refine attempts_of_new owned fun r k new live le building => ?_
    have since : h.size ≤ k.size := building.extended.grown
    have old : r < h.size := Heap.live_container.mp live
    -- from here on the new copy is one of those on the way down
    have owned' : ∀ pair ∈ (r, k.size) :: ancestors, h.size ≤ pair.2 ∧ pair.2 < k.size + 1 := by
      intro pair mem
      rcases List.mem_cons.mp mem with rfl | mem
      · exact ⟨since, Nat.lt_succ_self _⟩
      · obtain ⟨since', upto⟩ := owned pair mem
        exact ⟨since', Nat.lt_succ_of_lt (Nat.lt_of_lt_of_le upto le)⟩
    have live' : ∀ v ∈ (k.cell r).children, h.Live v := by
      rw [building.extended.cells old]
      exact closed r
    have filling := attempt_contents (ih owned') live' (Nat.le_of_eq (Heap.size_alloc k _).symm)
      (building.alloc (children_emptied (k.cell r)))
    rw [value_made new]
    generalize contents _ _ _ = x at filling
    obtain ⟨building', grown, filled⟩ := filling
    rw [Heap.size_alloc] at grown
    obtain ⟨_ | c, g⟩ := x
    · exact ⟨building', Nat.le_of_succ_le grown, fun _ same => nomatch same⟩
    · have size : (g.update k.size fun _ => c).size = g.size := Heap.size_update g k.size _
      refine ⟨building'.fill since (filled c rfl), ?_, ?_⟩
      · exact Nat.le_of_succ_le (size ▸ grown)
      · rintro _ ⟨⟩
        exact owned_container.mpr ⟨since, size ▸ grown⟩

/-- **A deep copy**, however far it gets. -/
theorem deep_building (closed : h.Closed) (live : h.Live v) (options : Options) :
    Building h (deep options v h).2 := by
  have attempts : Attempts h h.size (deep options) :=
    attempts_value closed _ _ (List.forall_mem_nil _)
  exact (attempts v h live (Nat.le_refl _) (.start h)).building

end

end FormLogic.Clone
