import FormLogic.Proofs.Clone.Limit
import FormLogic.Proofs.Clone.Unseen

/-!
# `FormLogic.Proofs.Clone.PlainForm` — children of their own on plain forms

A plain form shares nothing, has no reserved keys below its slots, and does not nest deeper than
copies may go. Then replacing a child of a slot by a deep copy cannot fail
(`FormLogic.Proofs.Clone.Limit`), and nothing is seen of it (`FormLogic.Proofs.Clone.Unseen`). The
form is a plain form again: the copy has come from a part without sharing, so it has none; and what it
replaces is no longer led to, so it does not matter that it is still there.

## Contents
- `PlainForm`: plain forms; `PlainForm.of_alike`: what looks like one is one.
- `Replaced`: one child has been replaced by its copy; `Replaced.forest`, `Replaced.alike_slots`.
- `SameForm`, `children_sameForm`: all children of a slot.
-/

namespace FormLogic

/-! ## Plain forms -/

/-- The slots share nothing; below their own containers there are no reserved keys, and at most
`depth` containers below each other. -/
structure PlainForm (ctx : Context) (depth : Nat) (h : Heap) : Prop where
  forest : ctx.Forest h
  unreserved : ∀ name r, ctx.binding? name = some (.container r) →
    ∀ v ∈ (h.cell r).children, h.FreeOfReserved v
  nests : ∀ name r, ctx.binding? name = some (.container r) →
    ∀ v ∈ (h.cell r).children, h.NestsWithin depth v

/-- A forest that looks like a plain form is one. -/
theorem PlainForm.of_alike {ctx : Context} {depth : Nat} {h k : Heap} (plain : PlainForm ctx depth h)
    (forest : ctx.Forest k) (slots : ∀ name v, ctx.binding? name = some v → h.Alike k v v) :
    PlainForm ctx depth k where
  forest := forest
  unreserved name r bound w held := by
    obtain ⟨v, before, alike⟩ := (slots name _ bound).exists_child held
    have free := plain.unreserved name r bound v before
    exact free.of_alike alike
  nests name r bound w held := by
    obtain ⟨v, before, alike⟩ := (slots name _ bound).exists_child held
    have nests := plain.nests name r bound v before
    exact nests.of_alike alike

namespace Clone

/-! ## One child -/

/-- In a slot's container of a plain form, the value at a place has been copied to take its place. -/
structure Replaced (ctx : Context) (depth : Nat) (h g : Heap) (r : Ref) (place : Place)
    (v copy : Value) : Prop where
  closed : h.Closed
  live : ctx.Live h
  plain : PlainForm ctx depth h
  slot : ∃ name, ctx.binding? name = some (.container r)
  held : (h.cell r).at? place = some v
  ends : deep ⟨depth⟩ v h = (.ok copy, g)

/-- The places that refer to containers of the copy: the one in the slot's container where the copy
stands, and those of the copy itself. -/
inductive InCopy (g : Heap) (r : Ref) (place : Place) (copy : Value) : Spot → Ref → Prop where
  | top {t : Ref} (same : copy = .container t) : InCopy g r place copy (.inside r place) t
  | below {s t : Ref} {q : Place} (reached : g.Reach {copy} (.container s))
      (held : (g.cell s).at? q = some (.container t)) : InCopy g r place copy (.inside s q) t

namespace Replaced

variable {ctx : Context} {depth : Nat} {h g : Heap} {r s t : Ref} {place : Place} {v copy w : Value}
  {spot spot' : Spot}

theorem slot_mem (replaced : Replaced ctx depth h g r place v copy) : .container r ∈ ctx.values := by
  obtain ⟨name, bound⟩ := replaced.slot
  exact Context.mem_values bound

theorem inside (replaced : Replaced ctx depth h g r place v copy) : r < h.size := by
  obtain ⟨name, bound⟩ := replaced.slot
  exact replaced.live name _ bound r rfl

theorem child_mem (replaced : Replaced ctx depth h g r place v copy) : v ∈ (h.cell r).children :=
  Cell.mem_children_of_at? replaced.held

theorem child_live (replaced : Replaced ctx depth h g r place v copy) : h.Live v :=
  replaced.closed r v replaced.child_mem

theorem free (replaced : Replaced ctx depth h g r place v copy) : h.FreeOfReserved v := by
  obtain ⟨name, bound⟩ := replaced.slot
  exact replaced.plain.unreserved name r bound v replaced.child_mem

theorem extended (replaced : Replaced ctx depth h g r place v copy) : h.Extends g :=
  deep_extends_of_ok replaced.ends

theorem fresh (replaced : Replaced ctx depth h g r place v copy)
    (reached : g.Reach {copy} (.container s)) : h.size ≤ s :=
  (deep_fresh replaced.closed replaced.child_live replaced.ends reached).1

theorem cell_slot (replaced : Replaced ctx depth h g r place v copy) :
    (g.update r (.put place copy)).cell r = (h.cell r).put place copy :=
  cell_replaced replaced.inside replaced.ends

theorem cell_other (other : s ≠ r) : (g.update r (.put place copy)).cell s = g.cell s := by
  rw [Heap.cell_update, if_neg fun same => other same.1]

theorem cell_old (replaced : Replaced ctx depth h g r place v copy) (old : s < h.size) (other : s ≠ r) :
    (g.update r (.put place copy)).cell s = h.cell s := by
  rw [cell_other other, replaced.extended.cells old]

theorem cell_copy (replaced : Replaced ctx depth h g r place v copy)
    (reached : g.Reach {copy} (.container s)) :
    (g.update r (.put place copy)).cell s = g.cell s := by
  apply cell_other
  rintro rfl
  exact absurd replaced.inside (Nat.not_lt.mpr (replaced.fresh reached))

/-- The copy looks like the value. -/
theorem alike (replaced : Replaced ctx depth h g r place v copy) : h.Alike g v copy :=
  deep_alike replaced.closed replaced.child_live replaced.free replaced.ends

/-- No container of the copy holds one that leads to it. -/
theorem no_cycle (replaced : Replaced ctx depth h g r place v copy)
    (reached : g.Reach {copy} (.container t)) (leads : g.Reach {.container t} (.container s)) :
    .container t ∉ (g.cell s).children := by
  obtain ⟨name, bound⟩ := replaced.slot
  have nests := replaced.plain.nests name r bound v replaced.child_mem
  exact ((nests.of_alike replaced.alike).reach reached).no_cycle leads

/-! ### Where the containers are referred to -/

/-- The slots lead to what they led to before, and to the copy. -/
theorem reach (replaced : Replaced ctx depth h g r place v copy)
    (reached : (g.update r (.put place copy)).Reach ctx.values w) :
    h.Reach ctx.values w ∨ g.Reach {copy} w := by
  refine reached.within (P := fun w => h.Reach ctx.values w ∨ g.Reach {copy} w)
    (fun w here => Or.inl (.root here)) fun s before w held => ?_
  rcases before with before | before
  · by_cases here : s = r
    · subst here
      rw [replaced.cell_slot] at held
      rcases Cell.mem_children_put replaced.held held with old | rfl
      · exact Or.inl (before.child old)
      · exact Or.inr (.root rfl)
    · have old : s < h.size := before.live replaced.closed (replaced.live.valuesOf _) s rfl
      rw [replaced.cell_old old here] at held
      exact Or.inl (before.child held)
  · rw [replaced.cell_copy before] at held
    exact Or.inr (before.child held)

/-- A container is referred to from where it was before, or it belongs to the copy. -/
theorem holds (replaced : Replaced ctx depth h g r place v copy)
    (here : ctx.Holds (g.update r (.put place copy)) spot (.container t)) :
    ctx.Holds h spot (.container t) ∨ InCopy g r place copy spot t := by
  cases here with
  | slot bound => exact Or.inl (.slot bound)
  | @inside s q _ reached held =>
    rcases replaced.reach reached with before | before
    · by_cases same : s = r
      · subst same
        rw [replaced.cell_slot, Cell.at?_put replaced.held] at held
        split at held
        · next same =>
          subst same
          exact Or.inr (.top (Option.some.inj held))
        · exact Or.inl (.inside before held)
      · have old : s < h.size := before.live replaced.closed (replaced.live.valuesOf _) s rfl
        rw [replaced.cell_old old same] at held
        exact Or.inl (.inside before held)
    · rw [replaced.cell_copy before] at held
      exact Or.inr (.below before held)

theorem lt_size (replaced : Replaced ctx depth h g r place v copy)
    (here : ctx.Holds h spot (.container t)) : t < h.size := by
  cases here with
  | slot bound => exact replaced.live _ _ bound t rfl
  | inside _ held => exact replaced.closed _ _ (Cell.mem_children_of_at? held) t rfl

theorem reach_copy (here : InCopy g r place copy spot t) : g.Reach {copy} (.container t) := by
  cases here with
  | top same => exact .root same.symm
  | below reached held => exact reached.child (Cell.mem_children_of_at? held)

/-- Each container of the copy is referred to from one place. -/
theorem spot_unique (replaced : Replaced ctx depth h g r place v copy)
    (here : InCopy g r place copy spot t) (there : InCopy g r place copy spot' t) : spot = spot' := by
  have copied := deep_copied replaced.closed replaced.child_live replaced.ends
  -- as the copy contains no container in itself, no reference in it leads back
  have forward : ∀ {s q}, g.Reach {copy} (.container s) → (g.cell s).at? q = some (.container t) →
      ¬ g.OnWay copy t s := by
    rintro s q reached held ⟨places, refs, path, last, met⟩
    exact replaced.no_cycle (reach_copy here) (path.reach_last last met)
      (Cell.mem_children_of_at? held)
  -- and so none leads to its first container
  have notTop : ∀ {s q}, copy = .container t → g.Reach {copy} (.container s) →
      (g.cell s).at? q ≠ some (.container t) := by
    rintro s q same reached held
    exact replaced.no_cycle (reach_copy here) (same ▸ reached) (Cell.mem_children_of_at? held)
  cases here with
  | top same =>
    cases there with
    | top _ => rfl
    | below reached held => exact absurd held (notTop same reached)
  | below reached held =>
    cases there with
    | top same => exact absurd held (notTop same reached)
    | below reached' held' =>
      obtain ⟨rfl, rfl⟩ := copied.separate reached reached' held held' (forward reached held)
        (forward reached' held')
      rfl

/-- **The form is still a forest.** -/
theorem forest (replaced : Replaced ctx depth h g r place v copy) :
    ctx.Forest (g.update r (.put place copy)) := by
  intro spot spot' t here there
  -- old containers are referred to as before, and new ones only from within the copy
  rcases replaced.holds here with old | new
  · rcases replaced.holds there with old' | new'
    · exact replaced.plain.forest spot spot' t old old'
    · exact absurd (replaced.lt_size old) (Nat.not_lt.mpr (replaced.fresh (reach_copy new')))
  · rcases replaced.holds there with old' | new'
    · exact absurd (replaced.lt_size old') (Nat.not_lt.mpr (replaced.fresh (reach_copy new)))
    · exact replaced.spot_unique new new'

/-- **Every slot looks as before.** -/
theorem alike_slots (replaced : Replaced ctx depth h g r place v copy) (name : String)
    (bound : ctx.binding? name = some w) : h.Alike (g.update r (.put place copy)) w w := by
  have unseen := Unseen.replace replaced.closed replaced.held replaced.free replaced.ends
  exact unseen.alike w (replaced.live name w bound)

end Replaced

/-! ## All children -/

/-- From `h` to `k` containers have been replaced, but the form is plain as before and its slots look
the same. -/
structure SameForm (ctx : Context) (depth : Nat) (h k : Heap) : Prop where
  grown : h.size ≤ k.size
  closed : k.Closed
  plain : PlainForm ctx depth k
  slots : ∀ name v, ctx.binding? name = some v → h.Alike k v v

variable {ctx : Context} {depth : Nat} {h k g : Heap} {r : Ref} {v : Value}

namespace SameForm

theorem refl (closed : h.Closed) (plain : PlainForm ctx depth h) : SameForm ctx depth h h :=
  ⟨Nat.le_refl _, closed, plain, fun _ v _ => .refl h v⟩

theorem trans (first : SameForm ctx depth h k) (second : SameForm ctx depth k g) :
    SameForm ctx depth h g where
  grown := Nat.le_trans first.grown second.grown
  closed := second.closed
  plain := second.plain
  slots name v bound := (first.slots name v bound).trans (second.slots name v bound)

end SameForm

theorem Replaced.sameForm {place : Place} {copy : Value}
    (replaced : Replaced ctx depth h g r place v copy) :
    SameForm ctx depth h (g.update r (.put place copy)) where
  grown := by
    rw [Heap.size_update]
    exact replaced.extended.grown
  closed := (Isolating.replace replaced.closed replaced.inside replaced.held replaced.ends
    replaced.slot_mem).closed
  plain := replaced.plain.of_alike replaced.forest fun name _ => replaced.alike_slots name
  slots name _ := replaced.alike_slots name

/-- Replacing the values at some places of a slot's container succeeds, one after the other. -/
theorem replaceAll_sameForm {rest : List (Place × Value)} (closed : h.Closed) (live : ctx.Live h)
    (plain : PlainForm ctx depth h) {name : String}
    (bound : ctx.binding? name = some (.container r))
    (held : ∀ slot ∈ rest, (h.cell r).at? slot.1 = some slot.2) (nodup : (rest.map Prod.fst).Nodup) :
    ∃ k, replaceAll ⟨depth⟩ r rest h = (.ok (), k) ∧ SameForm ctx depth h k := by
  induction rest generalizing h with
  | nil => exact ⟨h, rfl, .refl closed plain⟩
  | cons first rest ih =>
    obtain ⟨place, v⟩ := first
    have here := held (place, v) List.mem_cons_self
    have child := Cell.mem_children_of_at? here
    obtain ⟨copy, g, ends⟩ := deep_ok closed (closed r v child) ⟨depth⟩
      (plain.nests name r bound v child)
    have replaced : Replaced ctx depth h g r place v copy :=
      ⟨closed, live, plain, ⟨name, bound⟩, here, ends⟩
    have same := replaced.sameForm
    obtain ⟨k, others, same'⟩ := ih same.closed (live.mono same.grown) same.plain
      (held_replaced replaced.inside held nodup ends) (List.nodup_cons.mp nodup).2
    exact ⟨k, replaceAll_cons.mpr ⟨copy, g, ends, others⟩, same.trans same'⟩

/-- **The children of a slot are replaced, and nothing is seen of it.** -/
theorem children_sameForm (closed : h.Closed) (live : ctx.Live h) (plain : PlainForm ctx depth h)
    {name : String} (bound : ctx.binding? name = some v) :
    ∃ k, children ⟨depth⟩ v h = (.ok (), k) ∧ SameForm ctx depth h k := by
  rcases v.leaf_or_container with leaf | ⟨r, rfl⟩
  · exact ⟨h, children_leaf leaf ⟨depth⟩ h, .refl closed plain⟩
  · rw [children_container]
    refine replaceAll_sameForm closed live plain bound (fun slot mem => Cell.mem_slots.mp mem) ?_
    rw [Cell.map_fst_slots]
    exact Cell.nodup_places _

end Clone

end FormLogic
