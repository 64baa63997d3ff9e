import FormLogic.Proofs.Clone.Limit
import FormLogic.Proofs.Walk.Form
import FormLogic.Proofs.Walk.Slots

/-!
# `FormLogic.Proofs.Walk.Shown` — slots that show a node

The slots that a walk makes are not the parts of the form but copies, and copies of what is in copies.
Nothing is lost on the way: without reserved keys a copy unfolds as what it is made from, and so does
what is in it. So the slots of each node unfold as the parts of the form there; only a presentation
that is no mapping is replaced, by an empty mapping. Data is not copied at all.

## Contents
- `Copyable`: values of which there are faithful copies.
- `Shows`: the slots are made for the node; `Stands`: what it takes to come to its children.
- `Comes`, `stops_comes`: the stops below slots are where the children of the node are.
- `make_shows`: the slots that are made at a stop show the node there.
-/

namespace FormLogic

namespace Heap.Extends

variable {h k : Heap} {v : Value}

/-- In a larger heap, values that were there look as before. -/
theorem alike (extended : h.Extends k) (closed : h.Closed) (live : h.Live v) : h.Alike k v v :=
  (Clone.Unseen.of_extends closed extended).alike v live

theorem lookup_eq (extended : h.Extends k) (live : h.Live v) (key : String) :
    k.lookup v key = h.lookup v key := by
  cases v with
  | container r => rw [lookup_container, lookup_container, extended.cells (live r rfl)]
  | _ => rfl

end Heap.Extends

namespace Walk

variable {σ : Type}

/-! ## Copies -/

/-- There are faithful copies of the value: it nests within the limit, and has no reserved keys. -/
structure Copyable (limit : Nat) (h : Heap) (v : Value) : Prop where
  nests : h.NestsWithin limit v
  free : h.FreeOfReserved v

namespace Copyable

variable {limit : Nat} {h k : Heap} {v w : Value}

theorem undefined (limit : Nat) (h : Heap) : Copyable limit h .undefined where
  nests := .of_leaf rfl
  free _ _ reached := nomatch reached.eq_of_leaf rfl

theorem reach (copyable : Copyable limit h v) (reached : h.Reach {v} w) : Copyable limit h w where
  nests := copyable.nests.reach reached
  free r fields below := copyable.free r fields (below.trans (by rintro _ rfl; exact reached))

theorem of_alike (copyable : Copyable limit h v) (alike : h.Alike k v w) : Copyable limit k w where
  nests := copyable.nests.of_alike alike
  free := copyable.free.of_alike alike

theorem lookup (copyable : Copyable limit h v) (key : String) : Copyable limit h (h.lookup v key) :=
  of_lookup (undefined limit h) (fun _ => copyable.reach) key

end Copyable

/-- The value presents what there is in `h`: it unfolds alike if that is a mapping, and is an empty
mapping if not. -/
def Presents (h k : Heap) (v copy : Value) : Prop :=
  if h.kind v = .mapping then h.Alike k v copy else k.fieldsOf? copy = some .empty

section

variable {walk : Walk σ} {w : World σ} {v : Value}

theorem copy_ok (closed : w.heap.Closed) (live : w.heap.Live v)
    (copyable : Copyable walk.cloneOptions.maxDepth w.heap v) :
    ∃ copy u, walk.copy v w = (.ok copy, u) ∧ Made w.heap u.heap copy ∧
      w.heap.Alike u.heap v copy := by
  obtain ⟨copy, g, ends⟩ := Clone.deep_ok closed live walk.cloneOptions copyable.nests
  refine ⟨copy, ⟨g, w.host⟩, ?_, .deep closed live ends,
    Clone.deep_alike closed live copyable.free ends⟩
  show Action.onHeap _ _ w = _
  rw [Action.onHeap_apply, ends]
  rfl

theorem copyPresentation_ok (closed : w.heap.Closed) (live : w.heap.Live v)
    (copyable : Copyable walk.cloneOptions.maxDepth w.heap v) :
    ∃ copy u, walk.copyPresentation v w = (.ok copy, u) ∧ Made w.heap u.heap copy ∧
      Presents w.heap u.heap v copy := by
  unfold copyPresentation Presents
  rw [heap_bind]
  by_cases mapping : w.heap.kind v = .mapping
  · rw [if_pos mapping]
    simp only [mapping, if_true]
    exact copy_ok closed live copyable
  · rw [if_neg mapping]
    simp only [mapping, if_false]
    refine ⟨_, ⟨(w.heap.alloc (.mapping .empty)).2, w.host⟩, rfl,
      Made.alloc closed fun _ held => (nomatch held), ?_⟩
    unfold Heap.fieldsOf?
    dsimp only
    rw [Heap.cell_alloc, if_pos rfl]

theorem childId_ok (parent : Context) (key : String) (closed : w.heap.Closed) :
    ∃ id u, (childId parent key : Action σ FormError Value) w = (.ok id, u) ∧
      Made w.heap u.heap id ∧
      u.heap.lookup id "$id" = .string (nodeId w.heap parent ++ "_" ++ key) := by
  let fields : Fields Value := Fields.empty.insert "$id" (.string (nodeId w.heap parent ++ "_" ++ key))
  refine ⟨_, ⟨(w.heap.alloc (.mapping fields)).2, w.host⟩, rfl, made_childId closed rfl, ?_⟩
  rw [Heap.lookup_container, Heap.cell_alloc, if_pos rfl]
  rfl

end

/-! ## Slots of a node -/

/-- The slots in `g` are those of a node of the form in `h` that is not the root. -/
structure Shows (h g : Heap) (formContext : Value) (node : Node) (ctx : Context) : Prop where
  id : g.lookup ctx.idSchema "$id" = .string node.id
  schema : h.Alike g node.schema ctx.schema
  uiSchema : Presents h g node.uiSchema ctx.uiSchema
  data : ctx.data = node.data
  formContext : ctx.formContext = formContext

/-- From the slots in `g` one sees what the children of the node are. -/
structure Stands (h g : Heap) (node : Node) (ctx : Context) : Prop where
  id : nodeId g ctx = node.id
  schema : h.Alike g node.schema ctx.schema
  uiSchema : ∀ key, h.Alike g (h.lookup node.uiSchema key) (g.lookup ctx.uiSchema key)
  data : ctx.data = node.data

section

variable {h g k : Heap} {formContext v copy : Value} {node : Node} {ctx parent : Context}
  {stop : Stop}

theorem kind_of_fieldsOf? {fields : Fields Value} (found : h.fieldsOf? v = some fields) :
    h.kind v = .mapping := by
  cases v with
  | container r =>
    unfold Heap.fieldsOf? at found
    unfold Heap.kind
    dsimp only at found ⊢
    split at found
    · rfl
    · cases found
  | _ => cases found

theorem Presents.lookup (presents : Presents h g v copy) (key : String) :
    h.Alike g (h.lookup v key) (g.lookup copy key) := by
  unfold Presents at presents
  split at presents
  · exact presents.lookup key
  · next other =>
    have absent : h.lookup v key = .undefined := by
      unfold Heap.lookup
      cases found : h.fieldsOf? v with
      | none => rfl
      | some fields => exact absurd (kind_of_fieldsOf? found) other
    have absent' : g.lookup copy key = .undefined := by
      unfold Heap.lookup
      rw [presents]
      rfl
    -- neither what is no mapping nor the empty one has anything under the key
    rw [absent, absent']
    exact .of_leaf rfl h g

theorem Shows.stands (shows' : Shows h g formContext node ctx) : Stands h g node ctx where
  id := by
    unfold nodeId
    rw [shows'.id]
    rfl
  schema := shows'.schema
  uiSchema := shows'.uiSchema.lookup
  data := shows'.data

/-- The root stands where it is. -/
theorem stands_root (h : Heap) (ctx : Context) : Stands h h (.root h ctx) ctx where
  id := rfl
  schema := .refl h _
  uiSchema _ := .refl h _
  data := rfl

/-! ## Coming to the children -/

/-- The stop, which is below the slots of a node, is where the child is. -/
inductive Comes (h g : Heap) (parent : Context) : Node → Stop → Prop where
  | property {node : Node} {key : String} {schema : Value} (plain : node.isElement = false)
      (id : node.id = nodeId g parent ++ "_" ++ key) (alike : h.Alike g node.schema schema)
      (presented : h.Alike g node.uiSchema (g.lookup parent.uiSchema key))
      (data : g.lookup parent.data key = node.data) :
      Comes h g parent node (.property parent key schema)
  | element {node : Node} {index : Nat} {schema uiSchema : Value} (element : node.isElement = true)
      (id : node.id = nodeId g parent ++ "_" ++ toString index) (alike : h.Alike g node.schema schema)
      (presented : h.Alike g node.uiSchema uiSchema) :
      Comes h g parent node (.element parent schema uiSchema index node.data)

/-- What is made later does not change where a stop is. -/
theorem Comes.later (comes : Comes h g parent node stop) (extended : g.Extends k)
    (closed : g.Closed) (live : parent.Live g) (inner : stop.Inner g) : Comes h k parent node stop := by
  have id : nodeId k parent = nodeId g parent := by
    unfold nodeId
    rw [extended.lookup_eq (live "idSchema" _ rfl)]
  cases comes with
  | property plain id' alike presented data =>
    refine .property plain (id ▸ id') (alike.trans (extended.alike closed inner.2)) ?_ ?_
    · rw [extended.lookup_eq (live "uiSchema" _ rfl)]
      exact presented.trans (extended.alike closed (closed.lookup _ _))
    · rw [extended.lookup_eq (live "data" _ rfl), data]
  | element element id' alike presented =>
    obtain ⟨-, schema, uiSchema, -⟩ := inner
    exact .element element (id ▸ id') (alike.trans (extended.alike closed schema))
      (presented.trans (extended.alike closed uiSchema))

theorem forall₂_mapIdx {α β γ : Type} {R : β → γ → Prop} {f : Nat → α → β} {f' : Nat → α → γ}
    (each : ∀ i a, R (f i a) (f' i a)) (as : List α) :
    List.Forall₂ R (as.mapIdx f) (as.mapIdx f') := by
  induction as generalizing f f' with
  | nil => exact .nil
  | cons a rest ih =>
    rw [List.mapIdx_cons, List.mapIdx_cons]
    exact .cons (each 0 a) (ih fun i => each (i + 1))

/-- **The stops below slots** are where the children of the node are, in order. -/
theorem stops_comes (stands : Stands h g node ctx) (extended : h.Extends g)
    (live : h.Live node.data) :
    List.Forall₂ (Comes h g ctx) (node.children h) (stops g ctx (nodeKind g ctx.schema)) := by
  have data : ctx.data = node.data := stands.data
  unfold Node.children stops
  rw [stands.schema.nodeKind_eq]
  cases nodeKind h node.schema with
  | object =>
    have properties := (stands.schema.lookup "properties").fieldsOf?
    dsimp only
    generalize h.fieldsOf? (h.lookup node.schema "properties") = fields at properties ⊢
    generalize g.fieldsOf? (g.lookup ctx.schema "properties") = fields' at properties ⊢
    cases properties with
    | none => exact .nil
    | some same =>
      refine List.forall₂_map_left_iff.mpr (List.forall₂_map_right_iff.mpr ?_)
      refine same.imp fun entry entry' ⟨key, alike⟩ => ?_
      refine .property rfl ?_ alike (key ▸ stands.uiSchema _) ?_
      · rw [stands.id, ← key]
        rfl
      · rw [data, extended.lookup_eq live, ← key]
        rfl
  | array =>
    have items : g.itemsOf? ctx.data = h.itemsOf? node.data := by
      rw [data]
      exact Heap.itemsOf?_congr fun r same => extended.cells (live r same)
    dsimp only
    rw [items]
    cases h.itemsOf? node.data with
    | none => exact .nil
    | some items =>
      refine forall₂_mapIdx (fun i element => ?_) items.toList
      have id : (node.element h i element).id = nodeId g ctx ++ "_" ++ toString i := by
        rw [stands.id]
        rfl
      exact .element rfl id (stands.schema.lookup _) (stands.uiSchema _)
  | arrayItem | field => exact .nil

/-- Slots that are made from copies of the parts of a node show it. -/
theorem Shows.of_made {h₀ h₁ h₂ h₃ : Heap} {key : String} {schema uiSchema : Value}
    (madeId : Made h₀ h₁ ctx.idSchema)
    (id : h₁.lookup ctx.idSchema "$id" = .string (nodeId h₀ parent ++ "_" ++ key))
    (named : node.id = nodeId h₀ parent ++ "_" ++ key)
    (madeSchema : Made h₁ h₂ ctx.schema) (copied : h₁.Alike h₂ schema ctx.schema)
    (alike : h.Alike h₁ node.schema schema)
    (madeUiSchema : Made h₂ h₃ ctx.uiSchema) (copied' : Presents h₂ h₃ uiSchema ctx.uiSchema)
    (alike' : h.Alike h₂ node.uiSchema uiSchema)
    (data : ctx.data = node.data) (formContext : ctx.formContext = parent.formContext) :
    Shows h h₃ parent.formContext node ctx where
  id := by
    rw [(madeSchema.extended.trans madeUiSchema.extended).lookup_eq madeId.live, id, named]
  schema := by
    have later := madeUiSchema.extended.alike madeSchema.closed madeSchema.live
    exact alike.trans (copied.trans later)
  uiSchema := by
    unfold Presents at copied' ⊢
    rw [alike'.kind_eq] at copied'
    split at copied'
    · next mapping =>
      rw [if_pos mapping]
      exact alike'.trans copied'
    · next other =>
      rw [if_neg other]
      exact copied'
  data := data
  formContext := formContext

/-- Parts that unfold as those of a node can be copied, and the copies show the node. -/
theorem copies_ok {walk : Walk σ} {w : World σ} {key : String} {source source' : Value}
    (closed : w.heap.Closed) (named : node.id = nodeId w.heap parent ++ "_" ++ key)
    (live : w.heap.Live source) (alike : h.Alike w.heap node.schema source)
    (live' : w.heap.Live source') (alike' : h.Alike w.heap node.uiSchema source')
    (schema : Copyable walk.cloneOptions.maxDepth h node.schema)
    (uiSchema : Copyable walk.cloneOptions.maxDepth h node.uiSchema) :
    ∃ id u copy u' copy' u'',
      (childId parent key : Action σ FormError Value) w = (.ok id, u) ∧
      walk.copy source u = (.ok copy, u') ∧ walk.copyPresentation source' u' = (.ok copy', u'') ∧
      w.heap.Extends u'.heap ∧ u'.heap.Extends u''.heap ∧
      ∀ ctx : Context, ctx.idSchema = id → ctx.schema = copy → ctx.uiSchema = copy' →
        ctx.data = node.data → ctx.formContext = parent.formContext →
          Shows h u''.heap parent.formContext node ctx := by
  obtain ⟨id, u, first, madeId, called⟩ := childId_ok parent key closed
  have alike₁ := alike.trans (madeId.extended.alike closed live)
  obtain ⟨copy, u', second, madeSchema, copied⟩ := copy_ok madeId.closed
    (live.mono madeId.extended.grown) (schema.of_alike alike₁)
  have before := madeId.extended.trans madeSchema.extended
  have alike₂ := alike'.trans (before.alike closed live')
  obtain ⟨copy', u'', third, madeUiSchema, copied'⟩ := copyPresentation_ok madeSchema.closed
    (live'.mono before.grown) (uiSchema.of_alike alike₂)
  refine ⟨id, u, copy, u', copy', u'', first, second, third, before, madeUiSchema.extended, ?_⟩
  rintro ctx rfl rfl rfl data formContext
  exact .of_made madeId called named madeSchema copied alike₁ madeUiSchema copied' alike₂ data
    formContext

/-- **The slots that are made at a stop** show the node there. -/
theorem make_shows {walk : Walk σ} {w : World σ} (comes : Comes h w.heap parent node stop)
    (closed : w.heap.Closed) (live : parent.Live w.heap) (inner : stop.Inner w.heap)
    (schema : Copyable walk.cloneOptions.maxDepth h node.schema)
    (uiSchema : Copyable walk.cloneOptions.maxDepth h node.uiSchema) :
    ∃ ctx u, walk.make stop w = (.ok ctx, u) ∧
      Shows h u.heap parent.formContext node ctx ∧
      ctx.arrayUiSchema = if node.isElement then some parent.uiSchema else none := by
  cases comes with
  | @property key source plain named alike presented data =>
    obtain ⟨id, u, copy, u', copy', u'', first, second, third, before, after, shown⟩ :=
      copies_ok closed named inner.2 alike (closed.lookup _ _) presented schema uiSchema
    rw [← before.lookup_eq (live "uiSchema" _ rfl)] at third
    refine ⟨⟨parent.formContext, id, copy, copy', u''.heap.lookup parent.data key, none⟩, u'', ?_,
      shown _ rfl rfl rfl ?_ rfl, ?_⟩
    · refine bind_eq_ok_iff.mpr ⟨id, u, first, bind_eq_ok_iff.mpr ⟨copy, u', second, ?_⟩⟩
      rw [heap_bind]
      exact bind_eq_ok_iff.mpr ⟨copy', u'', third, rfl⟩
    · exact ((before.trans after).lookup_eq (live "data" _ rfl) key).trans data
    · rw [plain]
      rfl
  | @element index source source' element named alike presented =>
    obtain ⟨-, schemaLive, uiSchemaLive, -⟩ := inner
    obtain ⟨id, u, copy, u', copy', u'', first, second, third, -, -, shown⟩ :=
      copies_ok closed named schemaLive alike uiSchemaLive presented schema uiSchema
    refine ⟨⟨parent.formContext, id, copy, copy', node.data, some parent.uiSchema⟩, u'', ?_,
      shown _ rfl rfl rfl rfl rfl, ?_⟩
    · refine bind_eq_ok_iff.mpr ⟨id, u, first, bind_eq_ok_iff.mpr ⟨copy, u', second, ?_⟩⟩
      exact bind_eq_ok_iff.mpr ⟨copy', u'', third, rfl⟩
    · rw [element]
      rfl

end

end Walk

end FormLogic
