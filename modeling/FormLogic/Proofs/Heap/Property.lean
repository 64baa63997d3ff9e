import FormLogic.Eval.Property

/-!
# `FormLogic.Proofs.Heap.Property` — properties after writing and deleting

Reading, writing and deleting each sort a key on their own: a mapping takes every text, a sequence
the positions written in full and `length`. They sort it alike, because a position has one text only
and `length` is none. So what a container has under its keys after a change is said key by key, and
the padding behind the last element of a sequence shows nowhere.

## Contents
- `index?_injective`, `index?_length`: the keys of sequences.
- `size_storeAt`, `getD_storeAt`, `size_padTo`, `getD_padTo`: elements after a change.
- `Cell.property`: what a container has under a key.
- `Cell.Written`, `Cell.Erased`: what a write and a deletion make of a container;
  `writeProperty_container`, `deleteProperty_container`: nothing else happens.
-/

namespace FormLogic

namespace Heap

/-! ## The keys of sequences -/

/-- `length` names no position. -/
theorem index?_length : index? (.string "length") = none := by
  decide +kernel

/-- A text that names a position is not `length`. -/
theorem ne_length_of_index? {k : String} {i : Nat} (named : index? (.string k) = some i) :
    k ≠ "length" := by
  rintro rfl
  rw [index?_length] at named
  cases named

/-- The position that a number names is the integer that it is. -/
theorem indexOfNumber?_eq_some {x : Float} {i : Nat} (named : indexOfNumber? x = some i) :
    Number.integer? x = some (i : Int) ∧ i < indexBound := by
  unfold indexOfNumber? at named
  generalize Number.integer? x = whole at named
  rcases whole with _ | n | n
  · cases named
  · dsimp only at named
    split at named
    · next inside =>
      cases named
      exact ⟨rfl, inside⟩
    · cases named
  · cases named

/-- A text that names a position is the decimal of this position. -/
theorem eq_toString_of_index? {k : String} {i : Nat} (named : index? (.string k) = some i) :
    k = toString (i : Int) := by
  unfold index? at named
  dsimp only at named
  split at named
  · next x _ =>
    split at named
    · next written =>
      -- positions are small enough to be written as integers
      obtain ⟨whole, inside⟩ := indexOfNumber?_eq_some named
      have short : (i : Int).natAbs < Number.tenTo 15 :=
        Nat.lt_trans inside (by decide)
      rw [← written]
      unfold Number.formatNumber
      rw [whole]
      exact if_pos short
    · cases named
  · cases named

/-- Different texts name different positions. -/
theorem index?_injective {k j : String} {i : Nat} (first : index? (.string k) = some i)
    (second : index? (.string j) = some i) : k = j :=
  (eq_toString_of_index? first).trans (eq_toString_of_index? second).symm

example : index? (.string "4294967294") = some 4294967294 ∧ index? (.string "4294967295") = none ∧
    index? (.string "01") = none ∧ index? (.string "-0") = none ∧ index? (.string "1e3") = none := by
  decide +kernel

/-! ## Elements after a change -/

section

variable (n i j : Nat) (v : Value) (items : Array Value)

theorem size_padTo : (padTo n items).size = n := by
  unfold padTo
  split
  · next shorter => simp [Nat.min_eq_left shorter]
  · next longer =>
    simp only [Array.size_append, Array.size_replicate]
    omega

/-- What is padded reads as what is not there. -/
theorem getD_padTo :
    (padTo n items)[j]?.getD .undefined = if j < n then items[j]?.getD .undefined else .undefined := by
  unfold padTo
  split
  · next shorter =>
    rw [Array.take_eq_extract, Array.getElem?_extract]
    by_cases below : j < n
    · rw [if_pos below, if_pos (by omega), Nat.zero_add]
    · rw [if_neg below, if_neg (by omega)]
      rfl
  · next longer =>
    rw [Array.getElem?_append]
    by_cases old : j < items.size
    · rw [if_pos old, if_pos (by omega)]
    · rw [if_neg old, Array.getElem?_eq_none (Nat.le_of_not_lt old), Array.getElem?_replicate]
      split <;> simp

theorem size_storeAt : (storeAt i v items).size = max items.size (i + 1) := by
  unfold storeAt
  split
  · next inside =>
    rw [Array.size_setIfInBounds]
    omega
  · next outside =>
    rw [Array.size_push, size_padTo]
    omega

/-- Storing shows at one position only. -/
theorem getD_storeAt :
    (storeAt i v items)[j]?.getD .undefined = if j = i then v else items[j]?.getD .undefined := by
  unfold storeAt
  split
  · next inside =>
    rw [Array.getElem?_setIfInBounds]
    by_cases same : j = i
    · subst same
      simp [inside]
    · rw [if_neg fun e => same e.symm, if_neg same]
  · next outside =>
    -- the padding up to position `i` reads as the nothing that was there
    rw [Array.getElem?_push, size_padTo]
    by_cases same : j = i
    · rw [if_pos same, if_pos same, Option.getD_some]
    · rw [if_neg same, if_neg same, getD_padTo]
      split
      · rfl
      · next behind =>
        rw [Array.getElem?_eq_none (by omega)]
        rfl

end

end Heap

/-! ## What a container has under a key -/

namespace Cell

/-- What the container has under a key, `undefined` if nothing. -/
def property : Cell → String → Value
  | .mapping fields, k => (fields.get? k).getD .undefined
  | .sequence items, k =>
    match Heap.index? (.string k) with
    | some i => items[i]?.getD .undefined
    | none => if k = "length" then .ofNat items.size else .undefined

section

variable {fields : Fields Value} {items : Array Value} {k j : String} {v : Value} {i n : Nat}

theorem property_index (named : Heap.index? (.string k) = some i) :
    (sequence items).property k = items[i]?.getD .undefined := by
  simp only [property, named]

theorem property_length : (sequence items).property "length" = .ofNat items.size := by
  simp only [property, Heap.index?_length, if_true]

theorem property_other (unnamed : Heap.index? (.string k) = none) (other : k ≠ "length") :
    (sequence items).property k = .undefined := by
  simp only [property, unnamed, other, if_false]

theorem property_insert :
    (mapping (fields.insert k v)).property j = if j = k then v else (mapping fields).property j := by
  show ((fields.insert k v).get? j).getD .undefined = _
  rw [Fields.get?_insert]
  by_cases same : k = j
  · rw [if_pos same, if_pos same.symm, Option.getD_some]
  · rw [if_neg same, if_neg fun e => same e.symm]
    rfl

theorem property_erase :
    (mapping (fields.erase k)).property j =
      if j = k then .undefined else (mapping fields).property j := by
  show ((fields.erase k).get? j).getD .undefined = _
  rw [Fields.get?_erase]
  by_cases same : k = j
  · rw [if_pos same, if_pos same.symm, Option.getD_none]
  · rw [if_neg same, if_neg fun e => same e.symm]
    rfl

/-- A sequence has nothing under a key that names no position in it. -/
theorem property_outside (other : k ≠ "length")
    (outside : ∀ i, Heap.index? (.string k) = some i → items.size ≤ i) :
    (sequence items).property k = .undefined := by
  cases named : Heap.index? (.string k) with
  | none => exact property_other named other
  | some i =>
    rw [property_index named, Array.getElem?_eq_none (outside i named)]
    rfl

/-- Storing an element shows under its key and in the length. -/
theorem property_storeAt (named : Heap.index? (.string k) = some i) (other : j ≠ "length") :
    (sequence (Heap.storeAt i v items)).property j =
      if j = k then v else (sequence items).property j := by
  cases found : Heap.index? (.string j) with
  | none =>
    have differ : j ≠ k := by
      rintro rfl
      rw [found] at named
      cases named
    rw [if_neg differ, property_other found other, property_other found other]
  | some l =>
    rw [property_index found, property_index found, Heap.getD_storeAt]
    by_cases same : j = k
    · subst same
      rw [if_pos rfl, if_pos (Option.some.inj (found.symm.trans named))]
    · -- no other key names the position
      rw [if_neg same, if_neg]
      rintro rfl
      exact same (Heap.index?_injective found named)

/-- Elements below the new length stay. -/
theorem property_padTo (named : Heap.index? (.string j) = some i) :
    (sequence (Heap.padTo n items)).property j =
      if i < n then (sequence items).property j else .undefined := by
  rw [property_index named, property_index named, Heap.getD_padTo]

end

/-! ## Changes of a container -/

/-- What writing `v` under `k` makes of a container, where `x` is the number of `v`. -/
inductive Written (k : String) (v : Value) (x : Float) : Cell → Cell → Prop where
  | entry (fields : Fields Value) :
      Written k v x (.mapping fields) (.mapping (fields.insert k v))
  | element {items : Array Value} {i : Nat} (named : Heap.index? (.string k) = some i)
      (near : i + 1 ≤ items.size + Heap.maxGrowth) :
      Written k v x (.sequence items) (.sequence (Heap.storeAt i v items))
  | length {items : Array Value} {n : Nat} (named : k = "length")
      (whole : Number.integer? x = some (n : Int)) (near : n ≤ items.size + Heap.maxGrowth) :
      Written k v x (.sequence items) (.sequence (Heap.padTo n items))

/-- What deleting `k` makes of a container. -/
inductive Erased (k : String) : Cell → Cell → Prop where
  | entry (fields : Fields Value) : Erased k (.mapping fields) (.mapping (fields.erase k))
  | element {items : Array Value} {i : Nat} (named : Heap.index? (.string k) = some i)
      (inside : i < items.size) :
      Erased k (.sequence items) (.sequence (Heap.storeAt i .undefined items))
  | absent {items : Array Value}
      (outside : ∀ i, Heap.index? (.string k) = some i → items.size ≤ i) :
      Erased k (.sequence items) (.sequence items)

end Cell

namespace Heap

/-- The heaps have the same containers, and at most the one at `r` differs. -/
structure SameBut (r : Ref) (h g : Heap) : Prop where
  size : g.size = h.size
  cells : ∀ s, s ≠ r → g.cell s = h.cell s

theorem sameBut_refl (r : Ref) (h : Heap) : SameBut r h h :=
  ⟨rfl, fun _ _ => rfl⟩

theorem sameBut_update (h : Heap) (r : Ref) (f : Cell → Cell) : SameBut r h (h.update r f) where
  size := size_update h r f
  cells s other := by
    rw [cell_update, if_neg fun same => other same.1]

variable {h : Heap} {r : Ref} {k : String} {v : Value}

theorem cell_update_self (inside : r < h.size) (f : Cell → Cell) :
    (h.update r f).cell r = f (h.cell r) := by
  rw [cell_update, if_pos ⟨rfl, inside⟩]

theorem readProperty_container (h : Heap) (r : Ref) (k : String) :
    h.readProperty (.container r) (.string k) = .ok ((h.cell r).property k) := by
  unfold readProperty
  dsimp only
  rcases h.cell r with fields | items
  · rfl
  · simp only [Cell.property, Value.string.injEq]
    cases index? (.string k) <;> rfl

/-! ## What writing and deleting do -/

/-- A change passes the check if it lets the sequence grow within the bound. -/
theorem checkGrowth_eq_ok_iff {α : Type} {property : String} {size length : Nat} {a b : α} :
    (do checkGrowth property size length; return a) = Except.ok b ↔
      length ≤ size + maxGrowth ∧ a = b := by
  unfold checkGrowth
  split
  · next far =>
    constructor
    · intro passed
      cases passed
    · rintro ⟨near, _⟩
      omega
  · next near =>
    show Except.ok a = Except.ok b ↔ _
    rw [Except.ok.injEq]
    exact ⟨fun same => ⟨Nat.le_of_not_lt near, same⟩, And.right⟩

/-- A sequence takes elements at positions that are near enough and lengths that are. -/
theorem sequenceWrite_eq_ok_iff {size : Nat} {change : Array Value → Array Value} :
    h.sequenceWrite size (.string k) v = .ok change ↔
      (∃ i, index? (.string k) = some i ∧ i + 1 ≤ size + maxGrowth ∧ storeAt i v = change) ∨
      (k = "length" ∧ ∃ n : Nat, Number.integer? (h.number v) = some (n : Int) ∧
        n ≤ size + maxGrowth ∧ padTo n = change) := by
  unfold sequenceWrite
  cases named : index? (.string k) with
  | some i =>
    dsimp only
    rw [checkGrowth_eq_ok_iff]
    simp [ne_length_of_index? named]
  | none =>
    show (if k = "length" then _ else _) = _ ↔ _
    by_cases length : k = "length"
    · rw [if_pos length]
      unfold newLength
      rcases Number.integer? (h.number v) with _ | n | n
      · simp [bind, Except.bind]
      · show (do checkGrowth _ size n; return padTo n) = _ ↔ _
        rw [checkGrowth_eq_ok_iff]
        constructor
        · rintro ⟨near, rfl⟩
          exact .inr ⟨length, n, rfl, near, rfl⟩
        · rintro (⟨i, position, -⟩ | ⟨-, m, same, near, rfl⟩)
          · cases position
          · obtain rfl := Int.ofNat_inj.mp (Option.some.inj same)
            exact ⟨near, rfl⟩
      · simp [bind, Except.bind]
    · rw [if_neg length]
      simp [length, throw, throwThe, MonadExceptOf.throw]

/-- The write that is found for a container makes of it what its kind has it make. -/
theorem written_of_propertyWrite {s : Ref} {change : Cell → Cell}
    (found : h.propertyWrite (.container r) (.string k) v = .ok (s, change)) :
    s = r ∧ (h.cell r).Written k v (h.number v) (change (h.cell r)) := by
  unfold propertyWrite at found
  dsimp only at found
  rcases held : h.cell r with fields | items <;> rw [held] at found
  · cases found
    exact ⟨rfl, .entry fields⟩
  · dsimp only at found
    rcases write : h.sequenceWrite items.size (.string k) v with e | change <;> rw [write] at found
    · cases found
    · cases found
      refine ⟨rfl, ?_⟩
      obtain ⟨i, named, near, rfl⟩ | ⟨named, n, whole, near, rfl⟩ := sequenceWrite_eq_ok_iff.mp write
      · exact .element named near
      · exact .length named whole near

/-- What a container can become by a write, some write makes of it. -/
theorem exists_propertyWrite {c : Cell} (written : (h.cell r).Written k v (h.number v) c) :
    ∃ change, h.propertyWrite (.container r) (.string k) v = .ok (r, change) := by
  unfold propertyWrite
  dsimp only
  rcases held : h.cell r with fields | items <;> rw [held] at written
  · exact ⟨_, rfl⟩
  · suffices accepted : ∃ change, h.sequenceWrite items.size (.string k) v = .ok change by
      obtain ⟨change, write⟩ := accepted
      dsimp only
      rw [write]
      exact ⟨_, rfl⟩
    cases written with
    | element named near =>
      exact ⟨_, sequenceWrite_eq_ok_iff.mpr (.inl ⟨_, named, near, rfl⟩)⟩
    | length named whole near =>
      exact ⟨_, sequenceWrite_eq_ok_iff.mpr (.inr ⟨named, _, whole, near, rfl⟩)⟩

/-- A write changes one container as its kind has it, or is refused and changes nothing. -/
theorem writeProperty_container (inside : r < h.size) (k : String) (v : Value) :
    (∃ g, writeProperty (.container r) (.string k) v h = (.ok (), g) ∧
        (h.cell r).Written k v (h.number v) (g.cell r) ∧ SameBut r h g) ∨
      ((∃ e, writeProperty (.container r) (.string k) v h = (.error e, h)) ∧
        ∀ c, ¬ (h.cell r).Written k v (h.number v) c) := by
  unfold writeProperty
  rcases found : h.propertyWrite (.container r) (.string k) v with e | ⟨s, change⟩
  · refine .inr ⟨⟨e, rfl⟩, fun c written => ?_⟩
    obtain ⟨change, other⟩ := exists_propertyWrite written
    rw [found] at other
    cases other
  · obtain ⟨rfl, written⟩ := written_of_propertyWrite found
    refine .inl ⟨_, rfl, ?_, sameBut_update h s change⟩
    rw [cell_update_self inside]
    exact written

/-- A deletion is never refused, and changes one container at most. -/
theorem deleteProperty_container (inside : r < h.size) (k : String) :
    ∃ g, deleteProperty (.container r) (.string k) h = (.ok (), g) ∧
      (h.cell r).Erased k (g.cell r) ∧ SameBut r h g := by
  unfold deleteProperty
  dsimp only
  cases held : h.cell r with
  | mapping fields =>
    refine ⟨_, rfl, ?_, sameBut_update h r _⟩
    rw [cell_update_self inside, held]
    exact .entry fields
  | sequence items =>
    dsimp only
    cases named : index? (.string k) with
    | none =>
      refine ⟨h, rfl, ?_, sameBut_refl r h⟩
      rw [held]
      refine .absent fun i other => ?_
      rw [named] at other
      cases other
    | some i =>
      by_cases stored : i < items.size
      · refine ⟨_, if_pos stored, ?_, sameBut_update h r _⟩
        rw [cell_update_self inside, held]
        exact .element named stored
      · refine ⟨h, if_neg stored, ?_, sameBut_refl r h⟩
        rw [held]
        refine .absent fun j other => ?_
        rw [named] at other
        cases other
        exact Nat.le_of_not_lt stored

end Heap

end FormLogic
