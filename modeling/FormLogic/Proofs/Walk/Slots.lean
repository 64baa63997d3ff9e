import FormLogic.Proofs.Clone.Copied
import FormLogic.Proofs.Heap.Reading
import FormLogic.Proofs.Walk.Trace

/-!
# `FormLogic.Proofs.Walk.Slots` — what the slots of a node are made of

A walk makes the slots of a node without changing any container that is there. The schema and the
presentation are made from new containers, one after the other; so nothing that was there before
leads to them, and they share nothing.

## Contents
- `Made`, `Own`: values and nodes that are made from new containers.
- `make_grown`, `make_own`: making the slots of a stop.
- `stops_inner`: what is below a node does not dangle.
-/

namespace FormLogic.Walk

variable {σ : Type}

/-! ## Values that are made -/

/-- The value has been made after `h`, from new containers, and `k` is the heap with it. -/
structure Made (h k : Heap) (v : Value) : Prop where
  closed : k.Closed
  extended : h.Extends k
  live : k.Live v
  new : ∀ r, k.Reach {v} (.container r) → h.size ≤ r

namespace Made

variable {h k g : Heap} {v : Value}

/-- It leads where it led when it had been made. -/
theorem reach (made : Made h k v) (extended : k.Extends g) {u : Value} (reached : g.Reach {v} u) :
    k.Reach {v} u := by
  refine extended.reach_old made.closed ?_ reached
  rintro _ rfl
  exact made.live

/-- What is made later does not change it. -/
theorem later (made : Made h k v) (extended : k.Extends g) (closed : g.Closed) : Made h g v where
  closed := closed
  extended := made.extended.trans extended
  live := made.live.mono extended.grown
  new r reached := made.new r (made.reach extended reached)

/-- What it leads to was there when it had been made. -/
theorem lt_size (made : Made h k v) (extended : k.Extends g) {r : Ref}
    (reached : g.Reach {v} (.container r)) : r < k.size :=
  (made.reach extended reached).live_of_value made.closed made.live r rfl

/-- A new container that holds no containers. -/
theorem alloc (closed : h.Closed) {c : Cell} (leaves : ∀ v ∈ c.children, v.isContainer = false) :
    Made h (h.alloc c).2 (.container h.size) := by
  have extended := Heap.Extends.alloc h c
  have live (v : Value) (held : v ∈ c.children) : (h.alloc c).2.Live v := by
    rintro r rfl
    exact nomatch leaves _ held
  refine ⟨fun r v held => ?_, extended, ?_, fun r reached => ?_⟩
  · rw [Heap.cell_alloc] at held
    split at held
    · exact live v held
    · exact (closed r v held).mono extended.grown
  · rw [Heap.live_container, Heap.size_alloc]
    exact Nat.lt_succ_self _
  · rcases reached.eq_or_below with same | ⟨v, held, below⟩
    · rw [Value.container.inj same]
    · rw [Heap.cell_alloc, if_pos rfl] at held
      have leaf := leaves v held
      cases below.eq_of_leaf leaf
      cases leaf

/-- A deep copy is made from new containers. -/
theorem deep {options : Clone.Options} {copy : Value} (closed : h.Closed) (live : h.Live v)
    (ends : Clone.deep options v h = (.ok copy, k)) : Made h k copy where
  closed := Clone.deep_closed closed live ends
  extended := Clone.deep_extends_of_ok ends
  live c same := ((Clone.deep_new closed live ends).1 c same).2
  new _ reached := (Clone.deep_fresh closed live ends reached).1

end Made

/-! ## Making slots -/

/-- All containers of the one world are in the other, and the host is as it was. -/
def Grown (w w' : World σ) : Prop :=
  w.heap.Extends w'.heap ∧ w'.host = w.host

theorem Grown.refl (w : World σ) : Grown w w :=
  ⟨.refl _, rfl⟩

theorem Grown.trans {w w' w'' : World σ} (first : Grown w w') (second : Grown w' w'') :
    Grown w w'' :=
  ⟨first.1.trans second.1, second.2.trans first.2⟩

section

variable {walk : Walk σ} {w w' : World σ} {v copy : Value} {ctx parent : Context} {key : String}

theorem grown_onHeap {ε δ α : Type} {wrap : δ → ε} {action : HeapM δ α}
    (extends' : w.heap.Extends (action w.heap).2) : Grown w (Action.onHeap wrap action w).2 := by
  rw [Action.onHeap_apply]
  exact ⟨extends', rfl⟩

/-- An action on the heap that succeeds does so on the heap alone. -/
theorem ok_of_onHeap {ε δ α : Type} {wrap : δ → ε} {action : HeapM δ α} {a : α}
    (ends : Action.onHeap wrap action w = (.ok a, w')) : action w.heap = (.ok a, w'.heap) := by
  rw [Action.onHeap_apply] at ends
  rcases result : action w.heap with ⟨_ | b, k⟩ <;> rw [result] at ends <;> cases ends
  rfl

theorem grown_copy (walk : Walk σ) (v : Value) (w : World σ) : Grown w (walk.copy v w).2 :=
  grown_onHeap (Clone.deep_extends _ v _)

theorem made_copy (closed : w.heap.Closed) (live : w.heap.Live v)
    (ends : walk.copy v w = (.ok copy, w')) : Made w.heap w'.heap copy :=
  .deep closed live (ok_of_onHeap ends)

theorem grown_copyPresentation (walk : Walk σ) (v : Value) (w : World σ) :
    Grown w (walk.copyPresentation v w).2 := by
  unfold copyPresentation
  rw [heap_bind]
  split
  · exact walk.grown_copy v w
  · exact grown_onHeap (.alloc _ _)

theorem made_copyPresentation (closed : w.heap.Closed) (live : w.heap.Live v)
    (ends : walk.copyPresentation v w = (.ok copy, w')) : Made w.heap w'.heap copy := by
  unfold copyPresentation at ends
  rw [heap_bind] at ends
  split at ends
  · exact made_copy closed live ends
  · cases ends
    exact .alloc closed fun _ held => nomatch held

theorem grown_childId (parent : Context) (key : String) (w : World σ) :
    Grown w ((childId parent key : Action σ FormError Value) w).2 :=
  ⟨.alloc _ _, rfl⟩

theorem made_childId (closed : w.heap.Closed)
    (ends : (childId parent key : Action σ FormError Value) w = (.ok copy, w')) :
    Made w.heap w'.heap copy := by
  cases ends
  refine .alloc closed fun v held => ?_
  obtain rfl := List.mem_singleton.mp held
  rfl

/-- Making the slots of a stop changes no container, also when it fails. -/
theorem make_grown (walk : Walk σ) (stop : Stop) (w : World σ) : Grown w (walk.make stop w).2 := by
  cases stop with
  | root ctx => exact .refl w
  | property parent key schema =>
    refine bind_ends .trans (grown_childId parent key w) fun _ w _ => ?_
    refine bind_ends .trans (walk.grown_copy schema w) fun _ w _ => ?_
    rw [heap_bind]
    refine bind_ends (R := Grown) .trans (walk.grown_copyPresentation _ w) fun _ w _ => ?_
    exact .refl w
  | element parent schema uiSchema index data =>
    refine bind_ends .trans (grown_childId parent _ w) fun _ w _ => ?_
    refine bind_ends .trans (walk.grown_copy schema w) fun _ w _ => ?_
    refine bind_ends (R := Grown) .trans (walk.grown_copyPresentation uiSchema w) fun _ w _ => ?_
    exact .refl w

/-! ## Slots of its own -/

/-- The node has been made after `h`, and `k` is the heap with it: its schema and its presentation
are made from new containers, and from different ones. -/
structure Own (h k : Heap) (ctx : Context) : Prop where
  closed : k.Closed
  extended : h.Extends k
  live : ctx.Live k
  new : ∀ r, k.Reach {ctx.schema, ctx.uiSchema} (.container r) → h.size ≤ r
  apart : ∀ r, k.Reach {ctx.schema} (.container r) → ¬ k.Reach {ctx.uiSchema} (.container r)

/-- The stop is below a node, and what it is made from does not dangle. -/
def Stop.Inner (h : Heap) : Stop → Prop
  | .root _ => False
  | .property parent _ schema => parent.Live h ∧ h.Live schema
  | .element parent schema uiSchema _ data =>
    parent.Live h ∧ h.Live schema ∧ h.Live uiSchema ∧ h.Live data

theorem Stop.Inner.mono {h k : Heap} {stop : Stop} (inner : stop.Inner h)
    (grown : h.size ≤ k.size) : stop.Inner k := by
  cases stop with
  | root ctx => exact inner
  | property parent key schema => exact ⟨inner.1.mono grown, inner.2.mono grown⟩
  | element parent schema uiSchema index data =>
    exact ⟨inner.1.mono grown, inner.2.1.mono grown, inner.2.2.1.mono grown, inner.2.2.2.mono grown⟩

/-- What two values lead to, one of them does. -/
theorem reach_pair {h : Heap} {a b v : Value} (reached : h.Reach {a, b} v) :
    h.Reach {a} v ∨ h.Reach {b} v := by
  refine reached.within (P := fun v => h.Reach {a} v ∨ h.Reach {b} v) ?_ ?_
  · rintro _ (rfl | rfl)
    · exact Or.inl (.root rfl)
    · exact Or.inr (.root rfl)
  · rintro r (before | before) v held
    · exact Or.inl (before.child held)
    · exact Or.inr (before.child held)

/-- A schema and a presentation that are made one after the other are a node's own. -/
theorem Own.of_made {h k g l : Heap} {ctx : Context} (id : Made h k ctx.idSchema)
    (schema : Made k g ctx.schema) (uiSchema : Made g l ctx.uiSchema)
    (formContext : h.Live ctx.formContext) (data : l.Live ctx.data)
    (arrayUiSchema : h.Live (ctx.arrayUiSchema.getD .undefined)) : Own h l ctx := by
  have grown : h.Extends l := id.extended.trans (schema.extended.trans uiSchema.extended)
  have schema' : Made k l ctx.schema := schema.later uiSchema.extended uiSchema.closed
  refine ⟨uiSchema.closed, grown, ?_, fun r reached => ?_, fun r reached reached' => ?_⟩
  · intro name v bound
    unfold Context.binding? at bound
    split at bound <;> cases bound
    · exact formContext.mono grown.grown
    · exact id.live.mono (schema.extended.trans uiSchema.extended).grown
    · exact schema'.live
    · exact uiSchema.live
    · exact data
    · exact arrayUiSchema.mono grown.grown
  · rcases reach_pair reached with reached | reached
    · exact Nat.le_trans id.extended.grown (schema'.new r reached)
    · exact Nat.le_trans (id.extended.trans schema.extended).grown (uiSchema.new r reached)
  · exact absurd (schema.lt_size uiSchema.extended reached) (Nat.not_lt.mpr (uiSchema.new r reached'))

/-- **The slots of a node other than the root** are its own. -/
theorem make_own {stop : Stop} (closed : w.heap.Closed) (inner : stop.Inner w.heap)
    (ends : walk.make stop w = (.ok ctx, w')) : Own w.heap w'.heap ctx := by
  cases stop with
  | root root => exact inner.elim
  | property parent key schema =>
    obtain ⟨id, w₁, first, ends⟩ := bind_eq_ok_iff.mp ends
    have id' := made_childId closed first
    obtain ⟨schema', w₂, second, ends⟩ := bind_eq_ok_iff.mp ends
    have schema'' := made_copy id'.closed (inner.2.mono id'.extended.grown) second
    rw [heap_bind] at ends
    obtain ⟨uiSchema, w₃, third, ends⟩ := bind_eq_ok_iff.mp ends
    have uiSchema' := made_copyPresentation schema''.closed (schema''.closed.lookup _ _) third
    cases ends
    exact .of_made id' schema'' uiSchema' (inner.1 "formContext" _ rfl) (uiSchema'.closed.lookup _ _)
      fun _ same => nomatch same
  | element parent schema uiSchema index data =>
    obtain ⟨parentLive, schemaLive, uiSchemaLive, dataLive⟩ := inner
    obtain ⟨id, w₁, first, ends⟩ := bind_eq_ok_iff.mp ends
    have id' := made_childId closed first
    obtain ⟨schema', w₂, second, ends⟩ := bind_eq_ok_iff.mp ends
    have schema'' := made_copy id'.closed (schemaLive.mono id'.extended.grown) second
    have before := id'.extended.trans schema''.extended
    obtain ⟨uiSchema', w₃, third, ends⟩ := bind_eq_ok_iff.mp ends
    have uiSchema'' := made_copyPresentation schema''.closed (uiSchemaLive.mono before.grown) third
    cases ends
    exact .of_made id' schema'' uiSchema'' (parentLive "formContext" _ rfl)
      (dataLive.mono (before.trans uiSchema''.extended).grown) (parentLive "uiSchema" _ rfl)

/-- What is below a node that does not dangle does not dangle. -/
theorem stops_inner {h : Heap} (closed : h.Closed) (live : ctx.Live h) (kind : NodeKind) :
    ∀ stop ∈ stops h ctx kind, stop.Inner h := by
  intro stop mem
  cases kind with
  | object =>
    unfold stops at mem
    cases found : h.fieldsOf? (h.lookup ctx.schema "properties") with
    | none =>
      simp only [found] at mem
      cases mem
    | some fields =>
      simp only [found] at mem
      obtain ⟨entry, held, rfl⟩ := List.mem_map.mp mem
      have reached := Heap.reach_of_entry found held (.root rfl)
      exact ⟨live, reached.live_of_value closed (closed.lookup _ _)⟩
  | array =>
    unfold stops at mem
    cases found : h.itemsOf? ctx.data with
    | none =>
      simp only [found] at mem
      cases mem
    | some items =>
      simp only [found] at mem
      obtain ⟨i, inside, rfl⟩ := List.mem_mapIdx.mp mem
      refine ⟨live, closed.lookup _ _, closed.lookup _ _, ?_⟩
      have reached := Heap.reach_of_element found (List.getElem_mem inside) (.root rfl)
      exact reached.live_of_value closed (live "data" _ rfl)
  | arrayItem | field => cases mem

end

end FormLogic.Walk
