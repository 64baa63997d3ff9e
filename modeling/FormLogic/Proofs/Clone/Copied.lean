import FormLogic.Clone
import FormLogic.Proofs.Heap.Action
import FormLogic.Proofs.Heap.Unfold

/-!
# `FormLogic.Proofs.Clone.Copied` — what copying makes

Copying makes its containers one after the other, so the copy of a value takes up an interval of
references: first the copy of its container, then the intervals of its children in order. While a
copy is being filled its descendants already point at it, so nothing can be said yet of what they
lead to; the relation `Copied` therefore stops at references back and says only which container they
are wired to. It is about the finished heap, and only looks at the containers of its interval.

## Contents
- `Cell.unreserved`, `Heap.unreserved`: graphs without the keys that copies leave out.
- `Threaded`, `Filled`, `Copied`: copies and the intervals they take up; `Copied.stable`.
- `value_extends`: copying changes no container, also when it fails.
- `value_copied`: a copy that is returned is `Copied`.
- `deep_new`, `deep_closed`, `deep_fresh`: a deep copy consists of new containers.
-/

namespace FormLogic

/-! ## Reserved keys -/

/-- The fields without those under reserved keys. -/
def Fields.unreserved {α : Type} (fields : Fields α) : Fields α where
  entries := fields.entries.filter fun entry => !isReserved entry.1
  nodup := fields.nodup.sublist (List.filter_sublist.map Prod.fst)

/-- The container without entries under reserved keys. -/
def Cell.unreserved : Cell → Cell
  | .mapping fields => .mapping fields.unreserved
  | .sequence items => .sequence items

/-- The heap without entries under reserved keys, at every level. -/
def Heap.unreserved (h : Heap) : Heap :=
  ⟨h.cells.map Cell.unreserved⟩

@[simp]
theorem Heap.cell_unreserved (h : Heap) (r : Ref) : h.unreserved.cell r = (h.cell r).unreserved := by
  unfold Heap.cell Heap.unreserved
  rw [Array.getElem?_map]
  cases h.cells[r]? <;> rfl

/-- Nothing is held without reserved keys that was not held with them. -/
theorem Cell.mem_children_unreserved {c : Cell} {v : Value} (held : v ∈ c.unreserved.children) :
    v ∈ c.children := by
  cases c with
  | mapping fields => exact (List.filter_sublist.map Prod.snd).subset held
  | sequence items => exact held

/-- Without entries a value leads to nothing that it did not lead to with them. -/
theorem Heap.Reach.of_unreserved {h : Heap} {roots : Set Value} {v : Value}
    (reached : h.unreserved.Reach roots v) : h.Reach roots v := by
  refine reached.within (fun v rooted => .root rooted) fun r before v held => before.child ?_
  rw [Heap.cell_unreserved] at held
  exact Cell.mem_children_unreserved held

namespace Clone

/-! ## Copies and the references they take up -/

/-- Values and their copies, made one after the other: each takes up the references from where the
one before it ends. -/
inductive Threaded (P : Value → Value → Ref → Ref → Prop) :
    List Value → List Value → Ref → Ref → Prop where
  | nil {n : Ref} : Threaded P [] [] n n
  | cons {v w : Value} {vs ws : List Value} {n k m : Ref} (first : P v w n k) (grown : n ≤ k)
      (rest : Threaded P vs ws k m) : Threaded P (v :: vs) (w :: ws) n m

/-- A container and its copy: the same shape, and copies of the values, which take up the references
from `n` to `m`. -/
structure Filled (P : Value → Value → Ref → Ref → Prop) (source copy : Cell) (n m : Ref) : Prop where
  shape : copy.shape = source.shape
  children : Threaded P source.children copy.children n m

/-- How a value is copied below some ancestors, given how the values in it are: a scalar or handle is
its own copy, a reference back is wired to the copy of the ancestor, and any other container has a
new copy, the first of its references. -/
inductive Step (h g : Heap) (below : Ancestors → Value → Value → Ref → Ref → Prop)
    (ancestors : Ancestors) : Value → Value → Ref → Ref → Prop where
  | leaf {v : Value} {n : Ref} (leaf : v.isContainer = false) : Step h g below ancestors v v n n
  | back {r copy n : Ref} (known : ancestors.lookup r = some copy) :
      Step h g below ancestors (.container r) (.container copy) n n
  | made {r n m : Ref} (new : ancestors.lookup r = none)
      (filled : Filled (below ((r, n) :: ancestors)) (h.cell r) (g.cell n) (n + 1) m) :
      Step h g below ancestors (.container r) (.container n) n m

/-- In `g`, a copy of a value of `h`, its containers below each other less than `depth` deep. -/
def Copied (h g : Heap) : (depth : Nat) → Ancestors → Value → Value → Ref → Ref → Prop
  | 0 => fun _ _ _ _ _ => False
  | depth + 1 => Step h g (Copied h g depth)

section

variable {P Q : Value → Value → Ref → Ref → Prop} {vs ws : List Value} {n m : Ref}

theorem Threaded.le (threaded : Threaded P vs ws n m) : n ≤ m := by
  induction threaded with
  | nil => exact Nat.le_refl _
  | cons _ grown _ ih => exact Nat.le_trans grown ih

theorem Threaded.imp (threaded : Threaded P vs ws n m)
    (imp : ∀ v w a b, n ≤ a → b ≤ m → P v w a b → Q v w a b) : Threaded Q vs ws n m := by
  induction threaded with
  | nil => exact .nil
  | cons first grown rest ih =>
    refine .cons (imp _ _ _ _ (Nat.le_refl _) rest.le first) grown (ih fun v w a b above => ?_)
    exact imp v w a b (Nat.le_trans grown above)

/-- A value has its copy at the same position. -/
theorem Threaded.at_source (threaded : Threaded P vs ws n m) {i : Nat} {v : Value}
    (here : vs[i]? = some v) : ∃ w a b, ws[i]? = some w ∧ P v w a b ∧ n ≤ a ∧ b ≤ m := by
  induction threaded generalizing i with
  | nil => cases here
  | cons first grown rest ih =>
    cases i with
    | zero =>
      obtain rfl := Option.some.inj here
      exact ⟨_, _, _, rfl, first, Nat.le_refl _, rest.le⟩
    | succ i =>
      obtain ⟨w, a, b, there, copied, above, below⟩ := ih here
      exact ⟨w, a, b, there, copied, Nat.le_trans grown above, below⟩

/-- A copy is one of the value at the same position. -/
theorem Threaded.at_copy (threaded : Threaded P vs ws n m) {i : Nat} {w : Value}
    (here : ws[i]? = some w) : ∃ v a b, vs[i]? = some v ∧ P v w a b ∧ n ≤ a ∧ b ≤ m := by
  induction threaded generalizing i with
  | nil => cases here
  | cons first grown rest ih =>
    cases i with
    | zero =>
      obtain rfl := Option.some.inj here
      exact ⟨_, _, _, rfl, first, Nat.le_refl _, rest.le⟩
    | succ i =>
      obtain ⟨v, a, b, there, copied, above, below⟩ := ih here
      exact ⟨v, a, b, there, copied, Nat.le_trans grown above, below⟩

/-- Every reference that is taken up belongs to one of the copies. -/
theorem Threaded.covers (threaded : Threaded P vs ws n m) {r : Ref} (from' : n ≤ r) (upto : r < m) :
    ∃ v w a b, P v w a b ∧ n ≤ a ∧ b ≤ m ∧ a ≤ r ∧ r < b := by
  induction threaded with
  | nil => exact absurd upto (Nat.not_lt.mpr from')
  | @cons v w _ _ n k m first grown rest ih =>
    by_cases here : r < k
    · exact ⟨v, w, n, k, first, Nat.le_refl _, rest.le, from', here⟩
    · obtain ⟨v, w, a, b, copied, above, below, inside⟩ := ih (Nat.le_of_not_lt here) upto
      exact ⟨v, w, a, b, copied, Nat.le_trans grown above, below, inside⟩

/-- A later copy takes up later references. -/
theorem Threaded.apart (threaded : Threaded P vs ws n m) {i j : Nat} (before : i < j) {w w' : Value}
    (here : ws[i]? = some w) (there : ws[j]? = some w') :
    ∃ v v' a b a' b', P v w a b ∧ P v' w' a' b' ∧ b ≤ a' := by
  induction threaded generalizing i j with
  | nil => cases here
  | cons first grown rest ih =>
    cases j with
    | zero => cases before
    | succ j =>
      cases i with
      | zero =>
        obtain rfl := Option.some.inj here
        obtain ⟨v', a', b', _, copied, above, _⟩ := rest.at_copy there
        exact ⟨_, v', _, _, a', b', first, copied, above⟩
      | succ i => exact ih (Nat.lt_of_succ_lt_succ before) here there

theorem Threaded.length_eq (threaded : Threaded P vs ws n m) : ws.length = vs.length := by
  induction threaded with
  | nil => rfl
  | cons _ _ _ ih => rw [List.length_cons, List.length_cons, ih]

/-- A place of a container holds a value that its copy has a copy of at the same place. -/
theorem Filled.at_source {source copy : Cell} (filled : Filled P source copy n m) {place : Place}
    {v : Value} (held : source.at? place = some v) :
    ∃ w a b, copy.at? place = some w ∧ P v w a b ∧ n ≤ a ∧ b ≤ m := by
  obtain ⟨i, position, here⟩ := Cell.at?_eq_some_iff.mp held
  obtain ⟨w, a, b, there, copied⟩ := filled.children.at_source here
  exact ⟨w, a, b, Cell.at?_eq_some_iff.mpr ⟨i, filled.shape ▸ position, there⟩, copied⟩

theorem Filled.at_copy {source copy : Cell} (filled : Filled P source copy n m) {place : Place}
    {w : Value} (held : copy.at? place = some w) :
    ∃ v a b, source.at? place = some v ∧ P v w a b ∧ n ≤ a ∧ b ≤ m := by
  obtain ⟨i, position, here⟩ := Cell.at?_eq_some_iff.mp held
  obtain ⟨v, a, b, there, copied⟩ := filled.children.at_copy here
  exact ⟨v, a, b, Cell.at?_eq_some_iff.mpr ⟨i, filled.shape ▸ position, there⟩, copied⟩

/-- The copies at two places do not share references. -/
theorem Filled.apart {source copy : Cell} (filled : Filled P source copy n m) {place place' : Place}
    {w w' : Value} (held : copy.at? place = some w) (held' : copy.at? place' = some w') :
    place = place' ∨ ∃ v v' a b a' b', P v w a b ∧ P v' w' a' b' ∧ (b ≤ a' ∨ b' ≤ a) := by
  obtain ⟨i, position, here⟩ := Cell.at?_eq_some_iff.mp held
  obtain ⟨j, position', here'⟩ := Cell.at?_eq_some_iff.mp held'
  rcases Nat.lt_trichotomy i j with before | rfl | after
  · obtain ⟨v, v', a, b, a', b', copied, copied', le⟩ := filled.children.apart before here here'
    exact Or.inr ⟨v, v', a, b, a', b', copied, copied', Or.inl le⟩
  · exact Or.inl (Option.some.inj (position.symm.trans position'))
  · obtain ⟨v', v, a', b', a, b, copied', copied, le⟩ := filled.children.apart after here' here
    exact Or.inr ⟨v, v', a, b, a', b', copied, copied', Or.inr le⟩

end

theorem mem_of_lookup {ancestors : Ancestors} {r c : Ref} (known : ancestors.lookup r = some c) :
    (r, c) ∈ ancestors := by
  obtain ⟨before, after, rfl, _⟩ := List.lookup_eq_some_iff.mp known
  exact List.mem_append_right _ List.mem_cons_self

namespace Copied

variable {h g g' : Heap} {depth : Nat} {ancestors : Ancestors} {v w : Value} {n m : Ref}

/-- A copy is still one as long as its own containers stay as they are. -/
theorem stable (copied : Copied h g depth ancestors v w n m)
    (same : ∀ r, n ≤ r → r < m → g'.cell r = g.cell r) :
    Copied h g' depth ancestors v w n m := by
  induction depth generalizing ancestors v w n m with
  | zero => cases copied
  | succ depth ih =>
    cases copied with
    | leaf leaf => exact .leaf leaf
    | back known => exact .back known
    | made new filled =>
      refine .made new ?_
      rw [same n (Nat.le_refl _) filled.children.le]
      refine ⟨filled.shape, filled.children.imp fun v w a b above below inner => ?_⟩
      exact ih inner fun r from' upto =>
        same r (Nat.le_trans (Nat.le_of_succ_le above) from') (Nat.lt_of_lt_of_le upto below)

/-- A copy that is a container is one of its own or the copy of an ancestor. -/
theorem inside {c : Ref} (copied : Copied h g depth ancestors v (.container c) n m) :
    (n ≤ c ∧ c < m) ∨ c ∈ ancestors.map Prod.snd := by
  cases depth with
  | zero => cases copied
  | succ depth =>
    cases copied with
    | leaf leaf => cases leaf
    | back known => exact Or.inr (List.mem_map_of_mem (mem_of_lookup known))
    | made _ filled => exact Or.inl ⟨Nat.le_refl _, filled.children.le⟩

/-- The containers of a copy hold containers of the copy, and copies of ancestors. -/
theorem held (copied : Copied h g depth ancestors v w n m) {r c : Ref} (from' : n ≤ r)
    (upto : r < m) (mem : .container c ∈ (g.cell r).children) :
    (n ≤ c ∧ c < m) ∨ c ∈ ancestors.map Prod.snd := by
  induction depth generalizing ancestors v w n m with
  | zero => cases copied
  | succ depth ih =>
    cases copied with
    | leaf | back => exact absurd upto (Nat.not_lt.mpr from')
    | made _ filled =>
      -- the references behind the first belong to the copies of the values
      have inner : ∃ a b, n + 1 ≤ a ∧ b ≤ m ∧
          ((a ≤ c ∧ c < b) ∨ c = n ∨ c ∈ ancestors.map Prod.snd) := by
        rcases Nat.lt_or_eq_of_le from' with later | rfl
        · obtain ⟨v, w, a, b, copied, above, below, from', upto⟩ := filled.children.covers later upto
          exact ⟨a, b, above, below, (ih copied from' upto).imp_right List.mem_cons.mp⟩
        · obtain ⟨i, here⟩ := List.getElem?_of_mem mem
          obtain ⟨v, a, b, _, copied, above, below⟩ := filled.children.at_copy here
          exact ⟨a, b, above, below, copied.inside.imp_right List.mem_cons.mp⟩
      obtain ⟨a, b, above, below, ⟨from', upto⟩ | rfl | old⟩ := inner
      · exact Or.inl ⟨Nat.le_trans (Nat.le_of_succ_le above) from', Nat.lt_of_lt_of_le upto below⟩
      · exact Or.inl ⟨Nat.le_refl _, filled.children.le⟩
      · exact Or.inr old

end Copied

/-! ## Copying changes nothing that is there -/

section

variable {limit : RecursionLimit} {room : Nat} {ancestors : Ancestors}
  {copy : Value → HeapM RecursionLimit Value}

/-- The three ways in which a value is copied. -/
theorem classify (ancestors : Ancestors) (v : Value) :
    v.isContainer = false ∨ (∃ r c, v = .container r ∧ ancestors.lookup r = some c) ∨
      ∃ r, v = .container r ∧ ancestors.lookup r = none := by
  cases v with
  | container r =>
    cases known : ancestors.lookup r with
    | some c => exact Or.inr (Or.inl ⟨r, c, rfl, known⟩)
    | none => exact Or.inr (Or.inr ⟨r, rfl, known⟩)
  | _ => exact Or.inl rfl

theorem value_leaf {v : Value} (leaf : v.isContainer = false) :
    value limit room ancestors v = pure v := by
  cases v with
  | container r => cases leaf
  | _ =>
    unfold value
    rfl

theorem value_back {r c : Ref} (known : ancestors.lookup r = some c) :
    value limit room ancestors (.container r) = pure (.container c) := by
  unfold value
  rw [known]

theorem value_full {r : Ref} (new : ancestors.lookup r = none) :
    value limit 0 ancestors (.container r) = throw limit := by
  unfold value
  rw [new]

/-- A new container is made, and filled when the copies of its values are there. -/
theorem value_made {r : Ref} (new : ancestors.lookup r = none) (h : Heap) :
    value limit (room + 1) ancestors (.container r) h =
      match contents (value limit room ((r, h.size) :: ancestors)) (h.cell r)
          (h.alloc (emptied (h.cell r))).2 with
      | (.ok filled, g) => (.ok (.container h.size), g.update h.size fun _ => filled)
      | (.error e, g) => (.error e, g) := by
  unfold value
  simp only [new]
  show ((contents (value limit room ((r, h.size) :: ancestors)) (h.cell r) >>= fun filled => do
    HeapM.update h.size fun _ => filled
    return .container h.size) : HeapM RecursionLimit Value) (h.alloc (emptied (h.cell r))).2 = _
  rw [bind_apply]
  generalize contents _ _ _ = x
  rcases x with ⟨_ | _, _⟩ <;> rfl

theorem entries_extends (each : ∀ v h, Heap.Extends h (copy v h).2) (made : Fields Value)
    (rest : List (String × Value)) (h : Heap) : h.Extends (entries copy made rest h).2 := by
  induction rest generalizing made h with
  | nil => exact .refl h
  | cons entry rest ih =>
    obtain ⟨key, v⟩ := entry
    unfold entries
    split
    · exact ih made h
    · exact bind_ends (R := Heap.Extends) .trans (each v h) fun w g _ => ih _ g

theorem items_extends (each : ∀ v h, Heap.Extends h (copy v h).2) (made : Array Value)
    (rest : List Value) (h : Heap) : h.Extends (items copy made rest h).2 := by
  induction rest generalizing made h with
  | nil => exact .refl h
  | cons v rest ih =>
    unfold items
    exact bind_ends (R := Heap.Extends) .trans (each v h) fun w g _ => ih _ g

theorem contents_extends (each : ∀ v h, Heap.Extends h (copy v h).2) (c : Cell) (h : Heap) :
    h.Extends (contents copy c h).2 := by
  cases c with
  | mapping fields =>
    exact bind_ends (R := Heap.Extends) .trans (entries_extends each _ _ h) fun _ g _ => .refl g
  | sequence elements =>
    exact bind_ends (R := Heap.Extends) .trans (items_extends each _ _ h) fun _ g _ => .refl g

/-- Copying changes no container that was there, also when it fails. -/
theorem value_extends (limit : RecursionLimit) (room : Nat) (ancestors : Ancestors) (v : Value)
    (h : Heap) : h.Extends (value limit room ancestors v h).2 := by
  induction room generalizing ancestors v h with
  | zero =>
    rcases classify ancestors v with leaf | ⟨r, c, rfl, known⟩ | ⟨r, rfl, new⟩
    · rw [value_leaf leaf]
      exact .refl h
    · rw [value_back known]
      exact .refl h
    · rw [value_full new]
      exact .refl h
  | succ room ih =>
    rcases classify ancestors v with leaf | ⟨r, c, rfl, known⟩ | ⟨r, rfl, new⟩
    · rw [value_leaf leaf]
      exact .refl h
    · rw [value_back known]
      exact .refl h
    · rw [value_made new]
      have filling := (Heap.Extends.alloc h (emptied (h.cell r))).trans
        (contents_extends (ih ((r, h.size) :: ancestors)) (h.cell r) _)
      generalize contents _ _ _ = x at filling
      obtain ⟨_ | filled, g⟩ := x
      · exact filling
      · exact filling.update (Nat.le_refl _) _

end

/-! ## What a copy is that is returned -/

/-- On heaps that extend `h`, copying a value gives a copy in the sense of `P`, which is about the
containers made for it. -/
structure Copies (h : Heap) (P : Heap → Value → Value → Ref → Ref → Prop)
    (copy : Value → HeapM RecursionLimit Value) : Prop where
  keeps : ∀ v k, Heap.Extends k (copy v k).2
  made : ∀ v w k g, h.Live v → h.Extends k → copy v k = (.ok w, g) → P g v w k.size g.size
  stable : ∀ {v w n m g g'}, P g v w n m → (∀ r, n ≤ r → r < m → g'.cell r = g.cell r) →
    P g' v w n m

namespace Copies

variable {h : Heap} {P : Heap → Value → Value → Ref → Ref → Prop}
  {copy : Value → HeapM RecursionLimit Value}

theorem keeps_of_ok (copies : Copies h P copy) {v w : Value} {k g : Heap}
    (ends : copy v k = (.ok w, g)) : k.Extends g :=
  of_ends (copies.keeps v k) ends

/-- The first copy is still one after the later copies have been made. -/
theorem made_before (copies : Copies h P copy) {v w : Value} {k k' g : Heap} (live : h.Live v)
    (here : h.Extends k) (first : copy v k = (.ok w, k')) (later : k'.Extends g) :
    P g v w k.size k'.size :=
  copies.stable (copies.made v w k k' live here first) fun _ _ upto => later.cells upto

theorem items (copies : Copies h P copy) {rest : List Value} (live : ∀ v ∈ rest, h.Live v)
    {made all : Array Value} {k g : Heap} (here : h.Extends k)
    (ends : Clone.items copy made rest k = (.ok all, g)) :
    ∃ ws, all.toList = made.toList ++ ws ∧ Threaded (P g) rest ws k.size g.size := by
  induction rest generalizing made k with
  | nil =>
    cases ends
    exact ⟨[], (List.append_nil _).symm, .nil⟩
  | cons v rest ih =>
    obtain ⟨w, k', first, ends⟩ := bind_eq_ok_iff.mp ends
    have grown := copies.keeps_of_ok first
    have later : k'.Extends g := of_ends (items_extends copies.keeps (made.push w) rest k') ends
    obtain ⟨ws, all_eq, threaded⟩ :=
      ih (fun v mem => live v (List.mem_cons_of_mem _ mem)) (here.trans grown) ends
    refine ⟨w :: ws, ?_, .cons ?_ grown.grown threaded⟩
    · rw [all_eq, Array.toList_push, List.append_assoc, List.singleton_append]
    · exact copies.made_before (live v List.mem_cons_self) here first later

theorem entries (copies : Copies h P copy) {rest : List (String × Value)}
    (live : ∀ entry ∈ rest, h.Live entry.2) (nodup : (keysOf rest).Nodup)
    {made all : Fields Value} (new : ∀ key ∈ keysOf rest, key ∉ made.keys) {k g : Heap}
    (here : h.Extends k) (ends : Clone.entries copy made rest k = (.ok all, g)) :
    ∃ copied, all.entries = made.entries ++ copied ∧
      keysOf copied = keysOf (rest.filter fun entry => !isReserved entry.1) ∧
      Threaded (P g) ((rest.filter fun entry => !isReserved entry.1).map Prod.snd)
        (copied.map Prod.snd) k.size g.size := by
  induction rest generalizing made k with
  | nil =>
    cases ends
    exact ⟨[], (List.append_nil _).symm, rfl, .nil⟩
  | cons entry rest ih =>
    obtain ⟨key, v⟩ := entry
    obtain ⟨single, nodup⟩ := List.nodup_cons.mp nodup
    have live' : ∀ entry ∈ rest, h.Live entry.2 := fun entry mem =>
      live entry (List.mem_cons_of_mem _ mem)
    have new' : ∀ k ∈ keysOf rest, k ∉ made.keys := fun k mem => new k (List.mem_cons_of_mem _ mem)
    unfold Clone.entries at ends
    -- an entry that is left out takes up no references
    by_cases reserved : isReserved key = true
    · rw [if_pos reserved] at ends
      rw [List.filter_cons_of_neg (by simp [reserved])]
      exact ih live' nodup new' here ends
    · rw [if_neg reserved] at ends
      rw [List.filter_cons_of_pos (by simp [reserved])]
      obtain ⟨w, k', first, ends⟩ := bind_eq_ok_iff.mp ends
      have grown := copies.keeps_of_ok first
      have later : k'.Extends g :=
        of_ends (entries_extends copies.keeps (made.insert key w) rest k') ends
      have absent : key ∉ made.keys := new key List.mem_cons_self
      obtain ⟨copied, all_eq, keys, threaded⟩ := ih live' nodup (fun k mem old => by
        rw [Fields.keys_insert, if_neg absent] at old
        rcases List.mem_append.mp old with old | same
        · exact new' k mem old
        · exact single (List.mem_singleton.mp same ▸ mem)) (here.trans grown) ends
      refine ⟨(key, w) :: copied, ?_, ?_, .cons ?_ grown.grown threaded⟩
      · show all.entries = _
        rw [all_eq]
        show insertEntry key w made.entries ++ copied = _
        rw [insertEntry_eq_append absent, List.append_assoc, List.singleton_append]
      · show key :: keysOf copied = _
        rw [keys]
        rfl
      · exact copies.made_before (live _ List.mem_cons_self) here first later

theorem contents (copies : Copies h P copy) {c filled : Cell} (live : ∀ v ∈ c.children, h.Live v)
    {k g : Heap} (here : h.Extends k) (ends : Clone.contents copy c k = (.ok filled, g)) :
    Filled (P g) c.unreserved filled k.size g.size := by
  cases c with
  | mapping fields =>
    obtain ⟨all, g', ends, done⟩ := bind_eq_ok_iff.mp ends
    cases done
    obtain ⟨copied, all_eq, keys, threaded⟩ := copies.entries
      (fun entry mem => live entry.2 (List.mem_map_of_mem mem)) fields.nodup
      (fun _ _ => List.not_mem_nil) here ends
    obtain rfl : all.entries = copied := all_eq
    exact ⟨congrArg Shape.mapping keys, threaded⟩
  | sequence elements =>
    obtain ⟨all, g', ends, done⟩ := bind_eq_ok_iff.mp ends
    cases done
    obtain ⟨ws, all_eq, threaded⟩ := copies.items live here ends
    obtain rfl : all.toList = ws := all_eq
    exact ⟨congrArg Shape.sequence threaded.length_eq, threaded⟩

end Copies

/-- Once the copy of a container is filled with the copies of its values, it is a copy. -/
theorem Copied.of_filled {h g : Heap} {depth : Nat} {ancestors : Ancestors} {r n m : Ref} {c : Cell}
    (new : ancestors.lookup r = none) (inside : n < g.size)
    (filled : Filled (Copied h g depth ((r, n) :: ancestors)) (h.cell r) c (n + 1) m) :
    Copied h (g.update n fun _ => c) (depth + 1) ancestors (.container r) (.container n) n m := by
  refine .made new ?_
  rw [Heap.cell_update, if_pos ⟨rfl, inside⟩]
  -- filling the copy leaves the copies of its values as they are, since they come after it
  refine ⟨filled.shape, filled.children.imp fun v w a b above _ copied => ?_⟩
  refine copied.stable fun s from' _ => ?_
  have other : s ≠ n := (Nat.ne_of_lt (Nat.lt_of_succ_le (Nat.le_trans above from'))).symm
  rw [Heap.cell_update, if_neg fun same => other same.1]

/-- A container that is copied has a new copy, which is filled last. -/
theorem value_made_eq_ok {limit : RecursionLimit} {room : Nat} {ancestors : Ancestors} {r : Ref}
    {w : Value} {k g : Heap} (new : ancestors.lookup r = none)
    (ends : value limit (room + 1) ancestors (.container r) k = (.ok w, g)) :
    ∃ filled g', contents (value limit room ((r, k.size) :: ancestors)) (k.cell r)
        (k.alloc (emptied (k.cell r))).2 = (.ok filled, g') ∧
      w = .container k.size ∧ g = g'.update k.size fun _ => filled := by
  rw [value_made new] at ends
  generalize contents _ _ _ = x at ends ⊢
  obtain ⟨_ | filled, g'⟩ := x
  · cases ends
  · cases ends
    exact ⟨filled, g', rfl, rfl, rfl⟩

/-- **A copy that is returned is a copy**, made from the containers behind those of the heap. -/
theorem value_copied {h : Heap} (closed : h.Closed) (limit : RecursionLimit) (room : Nat)
    (ancestors : Ancestors) : Copies h (fun g => Copied h.unreserved g (room + 1) ancestors)
      (value limit room ancestors) where
  keeps := value_extends limit room ancestors
  stable copied := copied.stable
  made := by
    induction room generalizing ancestors with
    | zero =>
      intro v w k g live here ends
      rcases classify ancestors v with leaf | ⟨r, c, rfl, known⟩ | ⟨r, rfl, new⟩
      · rw [value_leaf leaf] at ends
        cases ends
        exact .leaf leaf
      · rw [value_back known] at ends
        cases ends
        exact .back known
      · rw [value_full new] at ends
        cases ends
    | succ room ih =>
      intro v w k g live here ends
      rcases classify ancestors v with leaf | ⟨r, c, rfl, known⟩ | ⟨r, rfl, new⟩
      · rw [value_leaf leaf] at ends
        cases ends
        exact .leaf leaf
      · rw [value_back known] at ends
        cases ends
        exact .back known
      · have old : r < h.size := Heap.live_container.mp live
        obtain ⟨filled, g', filling, rfl, rfl⟩ := value_made_eq_ok new ends
        rw [here.cells old] at filling
        have copies : Copies h (fun g => Copied h.unreserved g (room + 1) ((r, k.size) :: ancestors))
            (value limit room ((r, k.size) :: ancestors)) :=
          ⟨value_extends limit room _, ih _, fun copied => copied.stable⟩
        have inner := copies.contents (closed r) (here.trans (.alloc k _)) filling
        have grown := (of_ends (contents_extends copies.keeps (h.cell r) _) filling).grown
        rw [Heap.size_alloc] at inner grown
        rw [← Heap.cell_unreserved] at inner
        rw [Heap.size_update]
        exact .of_filled new grown inner

/-! ## Deep copies -/

section

variable {options : Options} {h g : Heap} {v copy : Value}

theorem deep_extends (options : Options) (v : Value) (h : Heap) : h.Extends (deep options v h).2 :=
  value_extends _ _ _ v h

theorem deep_extends_of_ok (ends : deep options v h = (.ok copy, g)) : h.Extends g :=
  of_ends (deep_extends options v h) ends

theorem deep_copied (closed : h.Closed) (live : h.Live v)
    (ends : deep options v h = (.ok copy, g)) :
    Copied h.unreserved g (options.maxDepth + 1) [] v copy h.size g.size :=
  (value_copied closed _ _ []).made v copy h g live (.refl h) ends

/-- A deep copy that is a container is new, and new containers hold new ones only. -/
theorem deep_new (closed : h.Closed) (live : h.Live v) (ends : deep options v h = (.ok copy, g)) :
    (∀ c, copy = .container c → h.size ≤ c ∧ c < g.size) ∧
      ∀ r c, h.size ≤ r → .container c ∈ (g.cell r).children → h.size ≤ c ∧ c < g.size := by
  have copied := deep_copied closed live ends
  constructor
  · rintro c rfl
    exact copied.inside.resolve_right List.not_mem_nil
  · intro r c new mem
    exact (copied.held new (Heap.lt_size_of_mem_children mem) mem).resolve_right List.not_mem_nil

/-- No reference dangles after copying. -/
theorem deep_closed (closed : h.Closed) (live : h.Live v)
    (ends : deep options v h = (.ok copy, g)) : g.Closed := by
  have extended := deep_extends_of_ok ends
  rintro r v' held s rfl
  by_cases old : r < h.size
  · rw [extended.cells old] at held
    exact Nat.lt_of_lt_of_le (closed r _ held s rfl) extended.grown
  · exact ((deep_new closed live ends).2 r s (Nat.le_of_not_lt old) held).2

/-- The containers that a deep copy reaches are new. -/
theorem deep_fresh (closed : h.Closed) (live : h.Live v) (ends : deep options v h = (.ok copy, g))
    {c : Ref} (reached : g.Reach {copy} (.container c)) : h.size ≤ c ∧ c < g.size := by
  obtain ⟨root, below⟩ := deep_new closed live ends
  refine reached.within (P := fun w => ∀ c, w = .container c → h.size ≤ c ∧ c < g.size) ?_ ?_ c rfl
  · rintro _ rfl
    exact root
  · rintro r inside _ held c rfl
    exact below r c (inside r rfl).1 held

end

end Clone

end FormLogic
