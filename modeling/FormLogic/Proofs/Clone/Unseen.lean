import FormLogic.Proofs.Clone.Children
import FormLogic.Proofs.Clone.Faithful
import FormLogic.Proofs.Heap.Forest

/-!
# `FormLogic.Proofs.Clone.Unseen` — children of their own that are not noticed

A child and its deep copy unfold to the same tree, unless something below the child has a reserved
key. Then storing the copy in place of the child cannot be seen from anywhere: what unfolds through
the place unfolds as before, and so does every other value, whatever it shares. This also holds of
graphs that contain themselves, since the copy does not lead back to where it is stored.

## Contents
- `Heap.FreeOfReserved`: values without reserved keys; `deep_alike`: their copies.
- `Heap.unfold_put`: storing what looks the same.
- `Unseen`: containers may have changed, but no value looks different.
- `children_unseen`: the children of one container.
-/

namespace FormLogic

/-! ## Copies that look the same -/

/-- No mapping that the value leads to has a reserved key. -/
def Heap.FreeOfReserved (h : Heap) (v : Value) : Prop :=
  ∀ r fields, h.Reach {v} (.container r) → h.cell r = .mapping fields →
    ∀ key ∈ fields.keys, isReserved key = false

/-- Without reserved keys, leaving them out changes nothing. -/
theorem Cell.unreserved_eq {c : Cell}
    (free : ∀ fields, c = .mapping fields → ∀ key ∈ fields.keys, isReserved key = false) :
    c.unreserved = c := by
  cases c with
  | mapping fields =>
    refine congrArg Cell.mapping (Fields.ext (List.filter_eq_self.mpr fun entry mem => ?_))
    rw [free fields rfl entry.1 (List.mem_map_of_mem mem)]
    rfl
  | sequence items => rfl

namespace Heap.FreeOfReserved

variable {h k : Heap} {v w : Value}

theorem unfold_eq (free : h.FreeOfReserved v) (depth : Nat) :
    h.unreserved.unfold depth v = h.unfold depth v := by
  apply unfold_congr
  intro r reached
  rw [cell_unreserved]
  exact Cell.unreserved_eq fun fields => free r fields reached

theorem of_alike (free : h.FreeOfReserved v) (alike : h.Alike k v w) : k.FreeOfReserved w := by
  intro s fields reached cell key mem
  obtain ⟨x, there, same⟩ := alike.exists_reach reached
  obtain ⟨r, rfl⟩ := same.symm.exists_container
  have shape := same.shape_eq
  rw [cell] at shape
  cases source : h.cell r with
  | mapping fields' =>
    rw [source] at shape
    have keys : fields.keys = fields'.keys := Shape.mapping.inj shape
    exact free r fields' there source key (keys ▸ mem)
  | sequence items =>
    rw [source] at shape
    cases shape

end Heap.FreeOfReserved

theorem Clone.deep_alike {h g : Heap} {v copy : Value} {options : Options} (closed : h.Closed)
    (live : h.Live v) (free : h.FreeOfReserved v) (ends : deep options v h = (.ok copy, g)) :
    h.Alike g v copy := by
  intro level
  rw [(deep_copied closed live ends).unfold_eq .root level, free.unfold_eq level]

/-! ## Storing what looks the same -/

/-- A value that looks like the one at a place, and does not lead back to the container, can be
stored there without being seen. -/
theorem Heap.unfold_put {h : Heap} {r : Ref} {place : Place} {v w : Value} (inside : r < h.size)
    (held : (h.cell r).at? place = some v) (alike : h.Alike h v w)
    (apart : ¬ h.Reach {w} (.container r)) (depth : Nat) (u : Value) :
    (h.update r (.put place w)).unfold depth u = h.unfold depth u := by
  -- what is stored is itself not touched by storing it
  have stored : ∀ depth, (h.update r (.put place w)).unfold depth w = h.unfold depth v := by
    intro depth
    rw [unfold_congr (fun s reached => ?_), alike depth]
    rw [cell_update, if_neg]
    rintro ⟨rfl, _⟩
    exact apart reached
  induction depth generalizing u with
  | zero => cases u <;> rfl
  | succ depth ih =>
    rcases u.leaf_or_container with leaf | ⟨s, rfl⟩
    · rw [unfold_leaf leaf, unfold_leaf leaf]
    · unfold unfold
      by_cases here : s = r
      · subst here
        have cell : (h.update s (.put place w)).cell s = (h.cell s).put place w := by
          rw [cell_update, if_pos ⟨rfl, inside⟩]
        have shape := Cell.shape_put held w
        rw [cell, shape]
        refine congrArg (Tree.node _) (Cell.map_children_eq shape ?_)
        intro q x y before after
        rw [Cell.at?_put held] at after
        split at after
        · next same =>
          subst same
          cases held.symm.trans before
          cases after
          exact stored depth
        · cases before.symm.trans after
          exact ih x
      · have cell : (h.update r (.put place w)).cell s = h.cell s := by
          rw [cell_update, if_neg fun same => here same.1]
        rw [cell, List.map_congr_left fun x _ => ih x]

namespace Clone

variable {h k g : Heap} {r : Ref} {place : Place} {v w copy : Value} {options : Options}

/-! ## Changes that are not seen -/

/-- From `h` to `k` containers may have changed, but no value of `h` looks different. -/
structure Unseen (h k : Heap) : Prop where
  grown : h.size ≤ k.size
  alike : ∀ v, h.Live v → h.Alike k v v

namespace Unseen

theorem refl (h : Heap) : Unseen h h :=
  ⟨Nat.le_refl _, fun v _ => .refl h v⟩

theorem trans (first : Unseen h k) (second : Unseen k g) : Unseen h g where
  grown := Nat.le_trans first.grown second.grown
  alike v live := (first.alike v live).trans (second.alike v (live.mono first.grown))

theorem of_extends (closed : h.Closed) (extended : h.Extends k) : Unseen h k where
  grown := extended.grown
  alike _ live := Heap.unfold_congr fun r reached =>
    extended.cells (reached.live_of_value closed live r rfl)

theorem put (inside : r < h.size) (held : (h.cell r).at? place = some v) (alike : h.Alike h v w)
    (apart : ¬ h.Reach {w} (.container r)) : Unseen h (h.update r (.put place w)) where
  grown := Nat.le_of_eq (Heap.size_update h r _).symm
  alike u _ depth := Heap.unfold_put inside held alike apart depth u

/-- A deep copy is stored in place of a child. -/
theorem replace (closed : h.Closed) (held : (h.cell r).at? place = some v)
    (free : h.FreeOfReserved v) (ends : deep options v h = (.ok copy, g)) :
    Unseen h (g.update r (.put place copy)) := by
  have child := Cell.mem_children_of_at? held
  have inside := Heap.lt_size_of_mem_children child
  have live := closed r v child
  have extended := deep_extends_of_ok ends
  have copied := of_extends closed extended
  refine copied.trans (put (Nat.lt_of_lt_of_le inside extended.grown) (v := v) ?_ ?_ ?_)
  · rw [extended.cells inside]
    exact held
  · exact (copied.alike v live).symm.trans (deep_alike closed live free ends)
  · -- the copy leads to new containers only
    intro reached
    exact absurd inside (Nat.not_lt.mpr (deep_fresh closed live ends reached).1)

end Unseen

/-! ## The children of one container -/

/-- Nothing is seen of it when the values at some places are replaced, even if it fails half-way. -/
theorem replaceAll_unseen {rest : List (Place × Value)} (closed : h.Closed)
    (held : ∀ slot ∈ rest, (h.cell r).at? slot.1 = some slot.2) (nodup : (rest.map Prod.fst).Nodup)
    (free : ∀ slot ∈ rest, h.FreeOfReserved slot.2) :
    Unseen h (replaceAll options r rest h).2 := by
  refine replaceAll_keeps (I := Unseen h) (.refl h) closed held nodup ?_ ?_
  · intro g v before closed _
    exact before.trans (.of_extends closed (deep_extends options v g))
  · intro g g' place v copy before closed' slot here ends
    -- the value has looked the same since the beginning, so there are still no reserved keys in it
    have live := closed r v (Cell.mem_children_of_at? (held _ slot))
    have stillFree := (free _ slot).of_alike (before.alike v live)
    exact before.trans (.replace closed' here stillFree ends)

/-- **A container gets children of its own, and nothing is seen of it.** -/
theorem children_unseen (closed : h.Closed)
    (free : ∀ r, v = .container r → ∀ w ∈ (h.cell r).children, h.FreeOfReserved w) :
    Unseen h (children options v h).2 := by
  rcases v.leaf_or_container with leaf | ⟨r, rfl⟩
  · rw [children_leaf leaf]
    exact .refl h
  · rw [children_container]
    refine replaceAll_unseen closed (fun slot mem => Cell.mem_slots.mp mem) ?_ fun slot mem => ?_
    · rw [Cell.map_fst_slots]
      exact Cell.nodup_places _
    · exact free r rfl slot.2 (Cell.mem_children_of_at? (Cell.mem_slots.mp mem))

end Clone

end FormLogic
