import FormLogic.Proofs.Heap.Renaming
import FormLogic.Proofs.Heap.Unfold

/-!
# `FormLogic.Proofs.Heap.Forest` — slots that share nothing

In a forest every container that the slots lead to is referred to from one spot only, which is a slot
or a place in a container. Then there is one way to each container, and the trees that the slots
unfold to tell all there is to tell: two forests whose slots unfold alike are the same up to a
one-to-one renaming. It pairs the containers that are met when both are walked in step.

## Contents
- `Spot`, `Context.Holds`, `Context.Forest`: forests.
- `Heap.Alike`: values that unfold alike, in two heaps.
- `Heap.NestsWithin`: how deep containers nest; `no_cycle`: nothing that nests contains itself.
- `InStep`, `Renaming.inStep`, `heaps_inStep`: forests that unfold alike.
-/

namespace FormLogic

/-! ## Forests -/

/-- Where a value is referred to: from a slot, or from a place in a container. -/
inductive Spot where
  | slot (name : String)
  | inside (r : Ref) (place : Place)
  deriving DecidableEq

namespace Context

/-- The values of all slots. -/
def values (ctx : Context) : Set Value :=
  ctx.valuesOf bindingNames

/-- From the spot, which the slots lead to, the value is referred to. -/
inductive Holds (ctx : Context) (h : Heap) : Spot → Value → Prop where
  | slot {name : String} {v : Value} (bound : ctx.binding? name = some v) : Holds ctx h (.slot name) v
  | inside {r : Ref} {place : Place} {v : Value} (reached : h.Reach ctx.values (.container r))
      (held : (h.cell r).at? place = some v) : Holds ctx h (.inside r place) v

/-- No container is referred to from two spots. -/
def Forest (ctx : Context) (h : Heap) : Prop :=
  ∀ s t r, ctx.Holds h s (.container r) → ctx.Holds h t (.container r) → s = t

variable {ctx : Context} {h : Heap} {name : String} {r : Ref} {v : Value}

theorem mem_values (bound : ctx.binding? name = some v) : v ∈ ctx.values :=
  ⟨name, mem_bindingNames bound, bound⟩

/-- The container of a slot is held by no other that the slots lead to. -/
theorem Forest.not_held (forest : ctx.Forest h) (bound : ctx.binding? name = some (.container r)) {s : Ref}
    (reached : h.Reach ctx.values (.container s)) : .container r ∉ (h.cell s).children := by
  intro held
  obtain ⟨place, here⟩ := Cell.exists_at?_of_mem held
  have same := forest _ _ r (.slot bound) (.inside reached here)
  cases same

end Context

namespace Heap

/-! ## Values that unfold alike -/

/-- The values unfold to the same tree, one in `h`, the other in `k`. -/
def Alike (h k : Heap) (v w : Value) : Prop :=
  ∀ depth, k.unfold depth w = h.unfold depth v

namespace Alike

variable {h k g : Heap} {v w u : Value} {r s : Ref} {place : Place}

theorem refl (h : Heap) (v : Value) : h.Alike h v v :=
  fun _ => rfl

theorem symm (alike : h.Alike k v w) : k.Alike h w v :=
  fun depth => (alike depth).symm

theorem trans (first : h.Alike k v w) (second : k.Alike g w u) : h.Alike g v u :=
  fun depth => (second depth).trans (first depth)

/-- A scalar or handle is alike to itself only. -/
theorem eq_of_leaf (alike : h.Alike k v w) (leaf : v.isContainer = false) : w = v := by
  have top := alike 0
  rw [unfold_leaf leaf] at top
  rcases w.leaf_or_container with leaf' | ⟨s, rfl⟩
  · rw [unfold_leaf leaf'] at top
    exact Tree.leaf.inj top
  · cases top

theorem exists_container (alike : h.Alike k (.container r) w) : ∃ s, w = .container s := by
  have top := alike 0
  rcases w.leaf_or_container with leaf | container
  · rw [unfold_leaf leaf] at top
    cases top
  · exact container

theorem shape_eq (alike : h.Alike k (.container r) (.container s)) :
    (k.cell s).shape = (h.cell r).shape :=
  (Tree.node.inj (alike 1)).1

/-- Containers that are alike hold values that are alike. -/
theorem at_place (alike : h.Alike k (.container r) (.container s))
    (held : (h.cell r).at? place = some v) (held' : (k.cell s).at? place = some w) :
    h.Alike k v w := by
  intro depth
  have below := (Tree.node.inj (alike (depth + 1))).2
  obtain ⟨w', here, same⟩ := Cell.exists_at?_of_map_children alike.shape_eq below held
  cases held'.symm.trans here
  exact same

/-- What the one container holds has a counterpart at the same place of the other. -/
theorem exists_at (alike : h.Alike k (.container r) (.container s))
    (held : (h.cell r).at? place = some v) :
    ∃ w, (k.cell s).at? place = some w ∧ h.Alike k v w := by
  obtain ⟨w, here⟩ := Cell.exists_at?_of_shape alike.shape_eq held
  exact ⟨w, here, alike.at_place held here⟩

theorem exists_child (alike : h.Alike k (.container r) (.container s))
    (held : w ∈ (k.cell s).children) : ∃ v ∈ (h.cell r).children, h.Alike k v w := by
  obtain ⟨place, here⟩ := Cell.exists_at?_of_mem held
  obtain ⟨v, there, same⟩ := alike.symm.exists_at here
  exact ⟨v, Cell.mem_children_of_at? there, same.symm⟩

/-- What the one value leads to is alike to something that the other leads to. -/
theorem exists_reach (alike : h.Alike k v w) (reached : k.Reach {w} u) :
    ∃ x, h.Reach {v} x ∧ h.Alike k x u := by
  refine reached.within (P := fun u => ∃ x, h.Reach {v} x ∧ h.Alike k x u) ?_ ?_
  · rintro _ rfl
    exact ⟨v, .root rfl, alike⟩
  · rintro s ⟨x, before, same⟩ u held
    obtain ⟨r, rfl⟩ := same.symm.exists_container
    obtain ⟨y, below, same'⟩ := same.exists_child held
    exact ⟨y, before.child below, same'⟩

end Alike

/-! ## How deep containers nest -/

/-- At most `depth` containers are below each other in the value, its own included. -/
def NestsWithin (h : Heap) : (depth : Nat) → Value → Prop
  | 0, v => v.isContainer = false
  | depth + 1, v => ∀ r, v = .container r → ∀ w ∈ (h.cell r).children, h.NestsWithin depth w

/-- How deep containers nest can be checked level by level. -/
instance decidableNestsWithin (h : Heap) : (depth : Nat) → (v : Value) →
    Decidable (h.NestsWithin depth v)
  | 0, v => inferInstanceAs (Decidable (v.isContainer = false))
  | depth + 1, .container r =>
    have := decidableNestsWithin h depth
    decidable_of_iff (∀ w ∈ (h.cell r).children, h.NestsWithin depth w)
      ⟨fun all _ same => Value.container.inj same ▸ all, fun nests => nests r rfl⟩
  | _ + 1, .undefined | _ + 1, .null | _ + 1, .bool _ | _ + 1, .number _ | _ + 1, .string _
  | _ + 1, .foreign _ => isTrue nofun

namespace NestsWithin

variable {h k : Heap} {v w : Value} {depth : Nat} {r s : Ref}

theorem succ (nests : h.NestsWithin depth v) : h.NestsWithin (depth + 1) v := by
  induction depth generalizing v with
  | zero =>
    rintro r rfl
    cases nests
  | succ depth ih =>
    intro r same w held
    exact ih (nests r same w held)

theorem mono {depth' : Nat} (nests : h.NestsWithin depth v) (le : depth ≤ depth') :
    h.NestsWithin depth' v := by
  induction le with
  | refl => exact nests
  | step _ ih => exact ih.succ

theorem reach (nests : h.NestsWithin depth v) (reached : h.Reach {v} w) : h.NestsWithin depth w := by
  refine reached.within (P := h.NestsWithin depth) ?_ ?_
  · rintro _ rfl
    exact nests
  · intro r before w held
    cases depth with
    | zero => cases before
    | succ depth => exact (before r rfl w held).succ

/-- A container that nests is not held by what it leads to. -/
theorem no_cycle (nests : h.NestsWithin depth (.container r))
    (reached : h.Reach {.container r} (.container s)) : .container r ∉ (h.cell s).children := by
  intro held
  -- going once around the cycle comes back to the container with one level less
  induction depth with
  | zero => cases nests
  | succ depth ih =>
    obtain ⟨w, below, leads⟩ : ∃ w ∈ (h.cell r).children, h.Reach {w} (.container r) := by
      rcases reached.eq_or_below with same | ⟨w, below, leads⟩
      · obtain rfl := Value.container.inj same
        exact ⟨_, held, .root rfl⟩
      · exact ⟨w, below, leads.child held⟩
    exact ih ((nests r rfl w below).reach leads)

theorem of_alike (nests : h.NestsWithin depth v) (alike : h.Alike k v w) : k.NestsWithin depth w := by
  induction depth generalizing v w with
  | zero =>
    rw [alike.eq_of_leaf nests]
    exact nests
  | succ depth ih =>
    rintro s rfl u held
    obtain ⟨r, rfl⟩ := alike.symm.exists_container
    obtain ⟨x, below, same⟩ := alike.exists_child held
    exact ih (nests r rfl x below) same

end NestsWithin

end Heap

/-! ## Two forests in step -/

/-- The values that are met when the slots of both heaps are walked down the same places. -/
inductive InStep (ctx : Context) (h k : Heap) : Value → Value → Prop where
  | slot {name : String} {v : Value} (bound : ctx.binding? name = some v) : InStep ctx h k v v
  | step {r s : Ref} {place : Place} {v w : Value}
      (before : InStep ctx h k (.container r) (.container s)) (held : (h.cell r).at? place = some v)
      (held' : (k.cell s).at? place = some w) : InStep ctx h k v w

namespace InStep

variable {ctx : Context} {h k : Heap} {v w : Value} {r r' s s' : Ref}

theorem symm (inStep : InStep ctx h k v w) : InStep ctx k h w v := by
  induction inStep with
  | slot bound => exact .slot bound
  | step _ held held' ih => exact .step ih held' held

theorem reach (inStep : InStep ctx h k v w) : h.Reach ctx.values v := by
  induction inStep with
  | slot bound => exact .root (Context.mem_values bound)
  | step _ held _ ih => exact .child ih (Cell.mem_children_of_at? held)

/-- In step one meets values that are alike, if the slots are. -/
theorem alike (inStep : InStep ctx h k v w)
    (slots : ∀ name v, ctx.binding? name = some v → h.Alike k v v) : h.Alike k v w := by
  induction inStep with
  | slot bound => exact slots _ _ bound
  | step _ held held' ih => exact ih.at_place held held'

/-- There is one way only to a container of a forest. -/
theorem unique (forest : ctx.Forest h) (inStep : InStep ctx h k (.container r) (.container s))
    (inStep' : InStep ctx h k (.container r) (.container s')) : s = s' := by
  suffices all : ∀ v w, InStep ctx h k v w → ∀ r w', v = .container r → InStep ctx h k v w' →
      w = w' from Value.container.inj (all _ _ inStep r _ rfl inStep')
  intro v w inStep
  induction inStep with
  | slot bound =>
    rintro r w' rfl other
    cases other with
    | slot _ => rfl
    | step before held _ =>
      exact absurd (Cell.mem_children_of_at? held) (forest.not_held bound before.reach)
  | step before held held' ih =>
    rintro r w' rfl other
    cases other with
    | slot bound =>
      exact absurd (Cell.mem_children_of_at? held) (forest.not_held bound before.reach)
    | step before' held₂ held₂' =>
      -- in a forest the container itself tells from which place it was reached
      have same := forest _ _ r (.inside before.reach held) (.inside before'.reach held₂)
      obtain ⟨rfl, rfl⟩ := Spot.inside.inj same
      obtain rfl := Value.container.inj (ih _ _ rfl before')
      exact Option.some.inj (held'.symm.trans held₂')

end InStep

namespace Renaming

/-- Entries are related if they have the same keys and related values. -/
theorem forall₂_entries {R : Value → Value → Prop} {entries entries' : List (String × Value)}
    (keys : keysOf entries' = keysOf entries)
    (values : List.Forall₂ R (entries.map Prod.snd) (entries'.map Prod.snd)) :
    List.Forall₂ (fun e e' => e.1 = e'.1 ∧ R e.2 e'.2) entries entries' := by
  induction entries generalizing entries' with
  | nil =>
    cases entries' with
    | nil => exact .nil
    | cons => cases keys
  | cons entry rest ih =>
    cases entries' with
    | nil => cases keys
    | cons entry' rest' =>
      obtain ⟨first, others⟩ := List.forall₂_cons.mp values
      obtain ⟨key, keys⟩ := List.cons.inj keys
      exact .cons ⟨key.symm, first⟩ (ih keys others)

/-- Containers of the same shape are related if their values are at each place. -/
theorem cells_of_at {ρ : Renaming} {c c' : Cell} (shape : c'.shape = c.shape)
    (values : ∀ place v w, c.at? place = some v → c'.at? place = some w → ρ.Values v w) :
    ρ.Cells c c' := by
  have all := Cell.forall₂_children shape values
  cases c with
  | mapping fields =>
    cases c' with
    | mapping fields' => exact .mapping (forall₂_entries (Shape.mapping.inj shape) all)
    | sequence => cases shape
  | sequence items =>
    cases c' with
    | mapping => cases shape
    | sequence items' => exact .sequence all

/-- Pairs the containers that are met in step. Every handle is known. -/
def inStep (ctx : Context) (h k : Heap) : Renaming where
  refs r s := InStep ctx h k (.container r) (.container s)
  handles _ := True

theorem values_inStep {ctx : Context} {h k : Heap} {v w : Value} (met : InStep ctx h k v w)
    (alike : h.Alike k v w) : (inStep ctx h k).Values v w := by
  rcases v.leaf_or_container with leaf | ⟨r, rfl⟩
  · rw [alike.eq_of_leaf leaf]
    exact .self (fun r container => nomatch container ▸ leaf) fun _ _ => trivial
  · obtain ⟨s, rfl⟩ := alike.exists_container
    exact .container met

/-- **Forests that unfold alike** are the same up to a one-to-one renaming. -/
theorem heaps_inStep {ctx : Context} {h k : Heap} (closed : h.Closed) (closed' : k.Closed)
    (live : ctx.Live h) (live' : ctx.Live k) (forest : ctx.Forest h) (forest' : ctx.Forest k)
    (slots : ∀ name v, ctx.binding? name = some v → h.Alike k v v) :
    (inStep ctx h k).Heaps h k where
  oneToOne := by
    constructor
    · intro r s t paired paired'
      exact paired.symm.unique forest' paired'.symm
    · intro r s t paired paired'
      exact paired.unique forest paired'
  inside {r s} paired := by
    have here := paired.reach.live closed (live.valuesOf _)
    have there := paired.symm.reach.live closed' (live'.valuesOf _)
    exact ⟨here r rfl, there s rfl⟩
  cells {r s} paired := by
    refine cells_of_at (paired.alike slots).shape_eq fun place v w held held' => ?_
    have further := paired.step held held'
    exact values_inStep further (further.alike slots)

end Renaming

end FormLogic
