import FormLogic.Heap.Equality
import FormLogic.Proofs.Heap.Forest
import FormLogic.Proofs.Number.Integer

/-!
# `FormLogic.Proofs.Heap.Equality` — deep equality and unfoldings

Deep equality compares two values of one heap. To compare a value with what it was before, the heap
from before and the heap from after are put side by side in one heap, with the references of the
second moved up. A value that unfolds to the same tree in both is then equal to what it was, unless
the tree has a NaN, which equals nothing, or does not end. A graph that does not contain itself ends:
on the way down no container is met twice, so that there are at most as many below each other as
there are in the heap.

## Contents
- `Heap.Acyclic`: graphs that do not contain themselves; `Acyclic.nestsWithin`: they end.
- `Value.same_iff`, `same_comm`, `same_trans`: identity.
- `Cell.SamePlaces`, `equalWithin_container_iff`: containers are compared place by place.
- `Heap.beside`: two heaps in one; `alike_left`, `alike_right`: where their values are in it.
- `Heap.FreeOfNaN`, `equalWithin_of_alike`, `equal_beside`: equality of values that unfold alike.
-/

namespace FormLogic

/-! ## Graphs that do not contain themselves -/

namespace Heap

/-- The container holds the value, or leads to one that does. -/
def Below (h : Heap) (r : Ref) (v : Value) : Prop :=
  ∃ s, h.Reach {.container r} (.container s) ∧ v ∈ (h.cell s).children

/-- No container that the value leads to is below itself. -/
def Acyclic (h : Heap) (v : Value) : Prop :=
  ∀ r, h.Reach {v} (.container r) → ¬ h.Below r (.container r)

variable {h k : Heap} {v w : Value} {r : Ref} {depth : Nat}

theorem Below.of_held (held : v ∈ (h.cell r).children) : h.Below r v :=
  ⟨r, .root rfl, held⟩

theorem Below.child {s : Ref} (below : h.Below r (.container s)) (held : v ∈ (h.cell s).children) :
    h.Below r v := by
  obtain ⟨t, leads, here⟩ := below
  exact ⟨s, leads.child here, held⟩

theorem NestsWithin.acyclic (nests : h.NestsWithin depth v) : h.Acyclic v := by
  rintro r reached ⟨s, leads, held⟩
  exact (nests.reach reached).no_cycle leads held

/-- Different containers are at most as many as the heap has. -/
theorem length_le_size {refs : List Ref} (nodup : refs.Nodup) (inside : ∀ r ∈ refs, r < h.size) :
    refs.length ≤ h.size := by
  have within : refs ⊆ List.range h.size := fun r mem => List.mem_range.mpr (inside r mem)
  have le := (List.subperm_of_subset nodup within).length_le
  rwa [List.length_range] at le

/-- On the way from `v` down to `w` the containers `passed` have been met, none of them twice. -/
structure Descent (h : Heap) (v : Value) (passed : List Ref) (w : Value) : Prop where
  reached : h.Reach {v} w
  below : ∀ r ∈ passed, h.Below r w
  nodup : passed.Nodup
  inside : ∀ r ∈ passed, r < h.size

namespace Descent

variable {passed : List Ref}

theorem start (h : Heap) (v : Value) : h.Descent v [] v :=
  ⟨.root rfl, List.forall_mem_nil _, List.nodup_nil, List.forall_mem_nil _⟩

/-- In a graph that does not contain itself, the container that comes next has not been passed. -/
theorem meets (descent : h.Descent v passed (.container r)) (acyclic : h.Acyclic v)
    (live : h.Live (.container r)) : (r :: passed).Nodup ∧ ∀ s ∈ r :: passed, s < h.size := by
  have new : r ∉ passed := fun old => acyclic r descent.reached (descent.below r old)
  refine ⟨List.nodup_cons.mpr ⟨new, descent.nodup⟩, ?_⟩
  exact List.forall_mem_cons.mpr ⟨Heap.live_container.mp live, descent.inside⟩

theorem next (descent : h.Descent v passed (.container r)) (acyclic : h.Acyclic v)
    (live : h.Live (.container r)) (held : w ∈ (h.cell r).children) :
    h.Descent v (r :: passed) w where
  reached := descent.reached.child held
  below := List.forall_mem_cons.mpr ⟨.of_held held, fun s old => (descent.below s old).child held⟩
  nodup := (descent.meets acyclic live).1
  inside := (descent.meets acyclic live).2

end Descent

/-- Below the containers that have been passed, at most all others nest. -/
theorem Acyclic.nestsWithin_of_descent {room : Nat} {passed : List Ref} (acyclic : h.Acyclic v)
    (closed : h.Closed) (live : h.Live w) (descent : h.Descent v passed w)
    (enough : h.size ≤ room + passed.length) : h.NestsWithin room w := by
  induction room generalizing w passed with
  | zero =>
    rcases w.leaf_or_container with leaf | ⟨r, rfl⟩
    · exact leaf
    · obtain ⟨nodup, inside⟩ := descent.meets acyclic live
      have more := length_le_size nodup inside
      rw [List.length_cons] at more
      omega
  | succ room ih =>
    rintro r rfl u held
    refine ih (closed r u held) (descent.next acyclic live held) ?_
    rw [List.length_cons]
    omega

/-- **A graph that does not contain itself ends**, within as many levels as there are containers. -/
theorem Acyclic.nestsWithin (acyclic : h.Acyclic v) (closed : h.Closed) (live : h.Live v) :
    h.NestsWithin h.size v :=
  acyclic.nestsWithin_of_descent closed live (.start h v) (Nat.le_refl _)

end Heap

/-! ## Values -/

namespace Value

variable {u v w : Value}

/-- Whether the value is NaN. -/
def isNaN : Value → Bool
  | .number x => x.isNaN
  | _ => false

/-- A value that is not NaN is identical to itself. -/
theorem same_self (notNaN : v.isNaN = false) : v.same v = true := by
  cases v with
  | number x => exact Number.beq_self_of_not_isNaN notNaN
  | _ => simp [same]

/-- Numbers are identical if they compare equal, and everything else to itself only. -/
theorem same_iff : v.same w = true ↔
    (∃ x y, v = .number x ∧ w = .number y ∧ (x == y) = true) ∨
      (∀ x, v ≠ .number x) ∧ v = w := by
  cases v <;> cases w <;> simp [same]

theorem same_comm (v w : Value) : v.same w = w.same v := by
  cases v <;> cases w <;> simp [same, BEq.comm]

theorem same_trans (first : u.same v = true) (second : v.same w = true) : u.same w = true := by
  rcases same_iff.mp first with ⟨x, y, rfl, rfl, equal⟩ | ⟨_, rfl⟩
  · rcases same_iff.mp second with ⟨y', z, same, rfl, equal'⟩ | ⟨other, _⟩
    · obtain rfl := Value.number.inj same
      exact PartialEquivBEq.trans equal equal'
    · exact absurd rfl (other y)
  · exact second

/-- A container is identical to itself only. -/
theorem eq_of_same_container {r : Ref} (same : (Value.container r).same w = true) :
    w = .container r := by
  rcases same_iff.mp same with ⟨x, _, other, _⟩ | ⟨_, rfl⟩
  · cases other
  · rfl

end Value

/-! ## The same places -/

/-- The containers are of one kind and have the same places, in whatever order. -/
inductive Cell.SamePlaces : Cell → Cell → Prop where
  | mapping {a b : Fields Value} (keys : a.keys.Perm b.keys) : SamePlaces (.mapping a) (.mapping b)
  | sequence {a b : Array Value} (sizes : a.size = b.size) : SamePlaces (.sequence a) (.sequence b)

namespace Cell.SamePlaces

variable {c d e : Cell} {place : Place} {v : Value}

theorem of_shape (shape : d.shape = c.shape) : c.SamePlaces d := by
  cases c with
  | mapping a =>
    cases d with
    | mapping b => exact .mapping (.of_eq (Shape.mapping.inj shape).symm)
    | sequence b => cases shape
  | sequence a =>
    cases d with
    | mapping b => cases shape
    | sequence b => exact .sequence (Shape.sequence.inj shape).symm

theorem symm (same : c.SamePlaces d) : d.SamePlaces c := by
  cases same with
  | mapping keys => exact .mapping keys.symm
  | sequence sizes => exact .sequence sizes.symm

theorem trans (first : c.SamePlaces d) (second : d.SamePlaces e) : c.SamePlaces e := by
  cases first with
  | mapping keys =>
    cases second with
    | mapping keys' => exact .mapping (keys.trans keys')
  | sequence sizes =>
    cases second with
    | sequence sizes' => exact .sequence (sizes.trans sizes')

/-- What the one container holds has a counterpart at the same place of the other. -/
theorem exists_at? (same : c.SamePlaces d) (held : c.at? place = some v) :
    ∃ w, d.at? place = some w := by
  have mem := place_mem held
  apply exists_at?_of_place
  cases same with
  | mapping keys => exact (keys.map Place.key).mem_iff.mp mem
  | @sequence a b sizes =>
    have shape : (Cell.sequence b).shape = (Cell.sequence a).shape :=
      congrArg Shape.sequence sizes.symm
    rwa [shape]

end Cell.SamePlaces

/-! ## Two heaps in one -/

/-- The value in a heap that has `n` containers in front of all others. -/
def Value.shift (n : Nat) : Value → Value
  | .container r => .container (n + r)
  | v => v

/-- What the container holds in a heap that has `n` containers in front of all others. -/
def Cell.shift (n : Nat) : Cell → Cell
  | .mapping fields =>
    .mapping ⟨fields.entries.map fun entry => (entry.1, entry.2.shift n), by
      simpa [keysOf, Function.comp_def] using fields.nodup⟩
  | .sequence items => .sequence (items.map (·.shift n))

theorem Value.shift_leaf {v : Value} (leaf : v.isContainer = false) (n : Nat) : v.shift n = v := by
  cases v with
  | container r => cases leaf
  | _ => rfl

@[simp]
theorem Cell.shape_shift (n : Nat) (c : Cell) : (c.shift n).shape = c.shape := by
  cases c <;> simp [shift, shape, Fields.keys, keysOf, Function.comp_def]

@[simp]
theorem Cell.children_shift (n : Nat) (c : Cell) :
    (c.shift n).children = c.children.map (·.shift n) := by
  cases c <;> simp [shift, children, Function.comp_def]

namespace Heap

variable {h k : Heap} {v w : Value} {r : Ref} {depth : Nat}

/-- The containers of `h`, and behind them those of `k`. -/
def beside (h k : Heap) : Heap :=
  ⟨h.cells ++ k.cells.map (·.shift h.size)⟩

@[simp]
theorem size_beside (h k : Heap) : (h.beside k).size = h.size + k.size := by
  simp [beside, size]

theorem cell_beside_left (inside : r < h.size) : (h.beside k).cell r = h.cell r := by
  unfold cell beside
  rw [Array.getElem?_append_left inside]

theorem cell_beside_right (h k : Heap) (r : Ref) :
    (h.beside k).cell (h.size + r) = (k.cell r).shift h.size := by
  have behind : h.cells.size ≤ h.size + r := Nat.le_add_right _ _
  have position : h.size + r - h.cells.size = r := Nat.add_sub_cancel_left _ _
  unfold cell beside
  dsimp only
  rw [Array.getElem?_append_right behind, position, Array.getElem?_map]
  cases k.cells[r]? <;> rfl

/-- The values of the first heap are there as they are. -/
theorem alike_left (closed : h.Closed) (live : h.Live v) (k : Heap) : h.Alike (h.beside k) v v :=
  unfold_congr fun r reached => cell_beside_left (reached.live_of_value closed live r rfl)

/-- The values of the second heap are there as well, with other references. -/
theorem alike_right (h k : Heap) (v : Value) : k.Alike (h.beside k) v (v.shift h.size) := by
  intro depth
  induction depth generalizing v with
  | zero => cases v <;> rfl
  | succ depth ih =>
    rcases v.leaf_or_container with leaf | ⟨r, rfl⟩
    · rw [Value.shift_leaf leaf, unfold_leaf leaf, unfold_leaf leaf]
    · show (h.beside k).unfold (depth + 1) (.container (h.size + r)) = _
      unfold unfold
      rw [cell_beside_right, Cell.shape_shift, Cell.children_shift, List.map_map]
      exact congrArg (Tree.node _) (List.map_congr_left fun w _ => ih w)

/-! ## Equality -/

/-- The value leads to no NaN. -/
def FreeOfNaN (h : Heap) (v : Value) : Prop :=
  ∀ w, h.Reach {v} w → w.isNaN = false

/-- Where no container holds NaN, a value that is not NaN does not lead to it. -/
theorem FreeOfNaN.of_cells (notNaN : v.isNaN = false)
    (held : ∀ r, r < h.size → ∀ w ∈ (h.cell r).children, w.isNaN = false) : h.FreeOfNaN v := by
  intro w reached
  refine reached.within ?_ fun r _ u below => held r (lt_size_of_mem_children below) u below
  rintro _ rfl
  exact notNaN

theorem FreeOfNaN.of_alike (free : h.FreeOfNaN v) (alike : h.Alike k v w) : k.FreeOfNaN w := by
  intro u reached
  obtain ⟨x, there, same⟩ := alike.exists_reach reached
  rcases u.leaf_or_container with leaf | ⟨r, rfl⟩
  · obtain rfl := same.symm.eq_of_leaf leaf
    exact free x there
  · rfl

theorem FreeOfNaN.child (free : h.FreeOfNaN (.container r)) (held : v ∈ (h.cell r).children) :
    h.FreeOfNaN v :=
  fun w reached => free w (reached.of_child held)

theorem equalWithin_leaf (leaf : v.isContainer = false) (free : h.FreeOfNaN v) (depth : Nat) :
    h.equalWithin (depth + 1) v v = true := by
  have same := Value.same_self (free v (.root rfl))
  cases v with
  | container r => cases leaf
  | _ => exact same

/-- Two mappings with equally many entries have the same keys if those of the first are all keys of
the second, since no mapping has a key twice. -/
theorem all_entries_iff {a b : Fields Value} {P : Value → Value → Bool} :
    (a.size == b.size && a.entries.all fun entry =>
        match b.get? entry.1 with
        | some other => P entry.2 other
        | none => false) = true ↔
      a.keys.Perm b.keys ∧
        ∀ key u x, a.get? key = some u → b.get? key = some x → P u x = true := by
  have lengths : ∀ fields : Fields Value, fields.keys.length = fields.size :=
    fun fields => List.length_map _
  rw [Bool.and_eq_true_iff, beq_iff_eq, List.all_eq_true]
  constructor
  · rintro ⟨sizes, all⟩
    have within : a.keys ⊆ b.keys := by
      intro key mem
      obtain ⟨entry, here, rfl⟩ := List.mem_map.mp mem
      have found := all entry here
      cases there : b.get? entry.1 with
      | none =>
        rw [there] at found
        cases found
      | some x => exact List.mem_map.mpr ⟨_, mem_of_valueAt? there, rfl⟩
    have counted : b.keys.length = a.keys.length := by rw [lengths, lengths, sizes]
    refine ⟨(List.subperm_of_subset a.nodup within).perm_of_length_le counted.le, ?_⟩
    intro key u x held there
    have found := all (key, u) (mem_of_valueAt? held)
    dsimp only at found
    rwa [there] at found
  · rintro ⟨keys, below⟩
    refine ⟨by rw [← lengths, ← lengths, keys.length_eq], fun entry mem => ?_⟩
    have held := Cell.at?_mapping_of_mem mem
    obtain ⟨x, there⟩ := (Cell.SamePlaces.mapping keys).exists_at? held
    rw [show b.get? entry.1 = some x from there]
    exact below _ _ _ held there

theorem all_items_iff {a b : Array Value} {P : Value → Value → Bool} :
    (a.size == b.size && (a.toList.zip b.toList).all fun pair => P pair.1 pair.2) = true ↔
      a.size = b.size ∧
        ∀ (i : Nat) u x, a[i]? = some u → b[i]? = some x → P u x = true := by
  rw [Bool.and_eq_true_iff, beq_iff_eq, List.all_eq_true]
  refine and_congr_right fun _ => ⟨fun all i u x held there => ?_, fun below pair mem => ?_⟩
  · rw [← Array.getElem?_toList] at held there
    exact all (u, x) (List.mem_of_getElem? (List.getElem?_zip_eq_some.mpr ⟨held, there⟩))
  · obtain ⟨i, here⟩ := List.getElem?_of_mem mem
    obtain ⟨left, right⟩ := List.getElem?_zip_eq_some.mp here
    rw [Array.getElem?_toList] at left right
    exact below i _ _ left right

/-- Two containers are equal if they are one, or if they have the same places and equal values at
each. -/
theorem equalWithin_container_iff {s : Ref} :
    h.equalWithin (depth + 1) (.container r) (.container s) = true ↔
      r = s ∨ (h.cell r).SamePlaces (h.cell s) ∧
        ∀ place u x, (h.cell r).at? place = some u → (h.cell s).at? place = some x →
          h.equalWithin depth u x = true := by
  conv_lhs => unfold equalWithin
  dsimp only
  rw [Bool.or_eq_true_iff, beq_iff_eq]
  refine or_congr_right ?_
  cases h.cell r with
  | mapping a =>
    cases h.cell s with
    | mapping b =>
      refine all_entries_iff.trans ⟨fun ⟨keys, below⟩ => ⟨.mapping keys, ?_⟩, fun ⟨same, below⟩ => ?_⟩
      · rintro (key | i) u x held there
        · exact below key u x held there
        · cases held
      · cases same with
        | mapping keys => exact ⟨keys, fun key => below (.key key)⟩
    | sequence b => exact ⟨fun unequal => (nomatch unequal), fun ⟨same, _⟩ => (nomatch same)⟩
  | sequence a =>
    cases h.cell s with
    | mapping b => exact ⟨fun unequal => (nomatch unequal), fun ⟨same, _⟩ => (nomatch same)⟩
    | sequence b =>
      refine all_items_iff.trans ⟨fun ⟨sizes, below⟩ => ⟨.sequence sizes, ?_⟩, fun ⟨same, below⟩ => ?_⟩
      · rintro (key | i) u x held there
        · cases held
        · exact below i u x held there
      · cases same with
        | sequence sizes => exact ⟨sizes, fun i => below (.index i)⟩

/-- Containers of the same shape are equal if their values are at each place. -/
theorem equalWithin_of_places {s : Ref} (shape : (h.cell s).shape = (h.cell r).shape)
    (below : ∀ place u x, (h.cell r).at? place = some u → (h.cell s).at? place = some x →
      h.equalWithin depth u x = true) :
    h.equalWithin (depth + 1) (.container r) (.container s) = true :=
  equalWithin_container_iff.mpr (.inr ⟨.of_shape shape, below⟩)

/-- Values that unfold alike are equal, if they end and have no NaN. -/
theorem equalWithin_of_alike (alike : h.Alike h v w) (nests : h.NestsWithin depth v)
    (free : h.FreeOfNaN v) : h.equalWithin (depth + 1) v w = true := by
  induction depth generalizing v w with
  | zero =>
    obtain rfl := alike.eq_of_leaf nests
    exact equalWithin_leaf nests free 0
  | succ depth ih =>
    rcases v.leaf_or_container with leaf | ⟨r, rfl⟩
    · obtain rfl := alike.eq_of_leaf leaf
      exact equalWithin_leaf leaf free (depth + 1)
    · obtain ⟨s, rfl⟩ := alike.exists_container
      refine equalWithin_of_places alike.shape_eq fun place u x held held' => ?_
      have child := Cell.mem_children_of_at? held
      exact ih (alike.at_place held held') (nests r rfl u child) (free.child child)

/-- **A value that unfolds as before is equal to what it was**, when what it was contains neither
itself nor NaN. -/
theorem equal_beside (closed : h.Closed) (live : h.Live v) (acyclic : h.Acyclic v)
    (free : h.FreeOfNaN v) (alike : h.Alike k v w) :
    (h.beside k).equal v (w.shift h.size) = true := by
  have left := alike_left closed live k
  have nests : h.NestsWithin ((h.beside k).size * (h.beside k).size) v := by
    refine (acyclic.nestsWithin closed live).mono ?_
    have le : h.size ≤ (h.beside k).size := by
      rw [size_beside]
      exact Nat.le_add_right _ _
    exact le.trans (Nat.le_mul_self _)
  refine equalWithin_of_alike ?_ (nests.of_alike left) (free.of_alike left)
  exact left.symm.trans (alike.trans (alike_right h k w))

end Heap

end FormLogic
