import FormLogic.Proofs.Clone.Unseen
import FormLogic.Proofs.Heap.Plain
import FormLogic.Proofs.Walk.Trace

/-!
# `FormLogic.Proofs.Walk.Form` — the nodes of a form

A form is the tree of nodes that its schema, presentation and data describe together. It is read off
them as they are, before anything is walked or copied: an object has a child for each property of its
schema, an array one for each element of its data, and an element goes on below as what its schema
says. The data may contain itself, since each child has a smaller schema; so the tree is finite if the
containers of the schema nest.

## Contents
- `Alike.lookup`, `Alike.kind_eq`, `Alike.fieldsOf?`: reading what unfolds alike.
- `Node`, `Node.children`: the nodes and what is right below them.
- `Preorder`: a node and all that is below it, in the order of a walk; `Preorder.unique`,
  `exists_preorder`: there is one such order.
-/

namespace FormLogic

/-! ## Reading what unfolds alike -/

namespace Heap

variable {h k : Heap} {v w : Value}

/-- A scalar or handle looks the same everywhere. -/
theorem Alike.of_leaf (leaf : v.isContainer = false) (h k : Heap) : h.Alike k v v :=
  fun depth => (unfold_leaf leaf k depth).trans (unfold_leaf leaf h depth).symm

theorem lookup_of_leaf (leaf : v.isContainer = false) (h : Heap) (key : String) :
    h.lookup v key = .undefined := by
  rcases h.lookup_cases v key with absent | ⟨r, rfl, -⟩
  · exact absent
  · cases leaf

/-- What is under a key of values that are alike is alike. -/
theorem Alike.lookup (alike : h.Alike k v w) (key : String) :
    h.Alike k (h.lookup v key) (k.lookup w key) := by
  rcases v.leaf_or_container with leaf | ⟨r, rfl⟩
  · rw [alike.eq_of_leaf leaf, lookup_of_leaf leaf, lookup_of_leaf leaf]
    exact .of_leaf rfl h k
  · obtain ⟨s, rfl⟩ := alike.exists_container
    rw [lookup_container, lookup_container]
    cases held : (h.cell r).at? (.key key) with
    | some x =>
      obtain ⟨y, held', same⟩ := alike.exists_at held
      rw [held']
      exact same
    | none =>
      cases held' : (k.cell s).at? (.key key) with
      | none => exact .of_leaf rfl h k
      | some y =>
        obtain ⟨x, held'', -⟩ := alike.symm.exists_at held'
        rw [held''] at held
        cases held

theorem Alike.kind_eq (alike : h.Alike k v w) : k.kind w = h.kind v := by
  rcases v.leaf_or_container with leaf | ⟨r, rfl⟩
  · rw [alike.eq_of_leaf leaf]
    exact kind_congr fun r same => by rw [same] at leaf; cases leaf
  · obtain ⟨s, rfl⟩ := alike.exists_container
    have shape := alike.shape_eq
    revert shape
    unfold kind
    dsimp only
    cases h.cell r <;> cases k.cell s <;> first | exact fun _ => rfl | exact nofun

/-- Mappings that are alike have the same keys, and values that are alike. -/
theorem Alike.fieldsOf? (alike : h.Alike k v w) :
    Option.Rel (fun fields fields' : Fields Value =>
        List.Forall₂ (fun e e' => e.1 = e'.1 ∧ h.Alike k e.2 e'.2) fields.entries fields'.entries)
      (h.fieldsOf? v) (k.fieldsOf? w) := by
  rcases v.leaf_or_container with leaf | ⟨r, rfl⟩
  · rw [alike.eq_of_leaf leaf]
    cases v with
    | container r => cases leaf
    | _ => exact .none
  · obtain ⟨s, rfl⟩ := alike.exists_container
    have shape := alike.shape_eq
    have children := Cell.forall₂_children shape fun _ _ _ => alike.at_place
    revert shape children
    unfold Heap.fieldsOf?
    dsimp only
    cases h.cell r with
    | sequence items =>
      cases k.cell s with
      | mapping => exact nofun
      | sequence items' => exact fun _ _ => .none
    | mapping fields =>
      cases k.cell s with
      | sequence => exact nofun
      | mapping fields' =>
        exact fun shape children =>
          .some (Renaming.forall₂_entries (Shape.mapping.inj shape) children)

/-- Schemas that are alike describe the same kind of node. -/
theorem Alike.nodeKind_eq (alike : h.Alike k v w) : nodeKind k w = nodeKind h v := by
  have type := alike.lookup "type"
  unfold nodeKind
  rw [(alike.lookup "properties").kind_eq]
  rcases (h.lookup v "type").leaf_or_container with leaf | ⟨r, same⟩
  · rw [type.eq_of_leaf leaf]
  · rw [same] at type ⊢
    obtain ⟨s, same'⟩ := type.exists_container
    rw [same']

end Heap

namespace Walk

/-! ## Nodes -/

/-- A node of a form: whether it is an element of an array, its identifier, and its parts of the
schema, the presentation and the data. -/
structure Node where
  isElement : Bool
  id : String
  schema : Value
  uiSchema : Value
  data : Value

namespace Node

/-- The root of a form with the slots. -/
def root (h : Heap) (ctx : Context) : Node where
  isElement := false
  id := nodeId h ctx
  schema := ctx.schema
  uiSchema := ctx.uiSchema
  data := ctx.data

/-- The kind that the visitor is told. -/
def kind (h : Heap) (node : Node) : NodeKind :=
  if node.isElement then .arrayItem else nodeKind h node.schema

/-- The child with this property. -/
def property (h : Heap) (node : Node) (entry : String × Value) : Node where
  isElement := false
  id := node.id ++ "_" ++ entry.1
  schema := entry.2
  uiSchema := h.lookup node.uiSchema entry.1
  data := h.lookup node.data entry.1

/-- The child with the element at the index. -/
def element (h : Heap) (node : Node) (index : Nat) (data : Value) : Node where
  isElement := true
  id := node.id ++ "_" ++ toString index
  schema := h.lookup node.schema "items"
  uiSchema := h.lookup node.uiSchema "items"
  data := data

/-- What is right below the node. Elements have children too, as their schema says. -/
def children (h : Heap) (node : Node) : List Node :=
  match nodeKind h node.schema with
  | .object =>
    match h.fieldsOf? (h.lookup node.schema "properties") with
    | some fields => fields.entries.map (node.property h)
    | none => []
  | .array =>
    match h.itemsOf? node.data with
    | some items => items.toList.mapIdx (node.element h)
    | none => []
  | .arrayItem | .field => []

end Node

/-- What is found at a position below the child at the index. -/
def under {α : Type} (index : Nat) (found : Position × α) : Position × α :=
  (index :: found.1, found.2)

/-- Siblings, the first of them at the index, and all nodes below them, in pre-order: each node comes
before what is below it, and with that before the next sibling. Positions are those below the parent
of the siblings. -/
inductive Preorder (h : Heap) : (index : Nat) → List Node → List (Position × Node) → Prop where
  | nil {index : Nat} : Preorder h index [] []
  | cons {index : Nat} {node : Node} {rest : List Node} {below others : List (Position × Node)}
      (inner : Preorder h 0 (node.children h) below) (later : Preorder h (index + 1) rest others) :
      Preorder h index (node :: rest)
        (([index], node) :: below.map (under index) ++ others)

/-- The nodes of the form with this root, in pre-order. -/
def IsForm (h : Heap) (root : Node) (nodes : List (Position × Node)) : Prop :=
  ∃ below, Preorder h 0 (root.children h) below ∧ nodes = ([], root) :: below

section

variable {h : Heap} {node child root : Node} {siblings : List Node} {depth index : Nat}
  {nodes nodes' : List (Position × Node)}

/-- There is one pre-order at most. -/
theorem Preorder.unique (first : Preorder h index siblings nodes)
    (second : Preorder h index siblings nodes') : nodes = nodes' := by
  induction first generalizing nodes' with
  | nil =>
    cases second
    rfl
  | cons _ _ below others =>
    cases second with
    | cons inner later => rw [below inner, others later]

theorem IsForm.unique (form : IsForm h root nodes) (form' : IsForm h root nodes') :
    nodes = nodes' := by
  obtain ⟨below, inner, rfl⟩ := form
  obtain ⟨below', inner', rfl⟩ := form'
  rw [inner.unique inner']

/-! ## What the children are made from -/

theorem lookup_reach (h : Heap) (v : Value) (key : String) :
    h.lookup v key = .undefined ∨ h.Reach {v} (h.lookup v key) := by
  rcases h.lookup_cases v key with absent | ⟨r, rfl, held⟩
  · exact Or.inl absent
  · exact Or.inr (.child (.root rfl) held)

/-- The parts of a child are found under keys of the parts of its parent, or are elements of its
data. -/
structure Inherits (h : Heap) (node child : Node) : Prop where
  schema : ∃ key, h.Reach {h.lookup node.schema key} child.schema
  uiSchema : ∃ key, child.uiSchema = h.lookup node.uiSchema key
  data : child.data = .undefined ∨ h.Reach {node.data} child.data

theorem mem_children (mem : child ∈ node.children h) : Inherits h node child := by
  unfold Node.children at mem
  split at mem
  · split at mem
    · next fields found =>
      obtain ⟨entry, held, rfl⟩ := List.mem_map.mp mem
      exact ⟨⟨_, Heap.reach_of_entry found held (.root rfl)⟩, ⟨_, rfl⟩, lookup_reach h _ _⟩
    · cases mem
  · split at mem
    · next items found =>
      obtain ⟨i, inside, rfl⟩ := List.mem_mapIdx.mp mem
      exact ⟨⟨_, .root rfl⟩, ⟨_, rfl⟩,
        Or.inr (Heap.reach_of_element found (List.getElem_mem inside) (.root rfl))⟩
    · cases mem
  · cases mem
  · cases mem

/-- What is true of a value that is not there, and of all that a value leads to if it is true of the
value, is true of what is found under its keys. -/
theorem of_lookup {P : Value → Prop} {v : Value} (undefined : P .undefined)
    (reach : ∀ w, h.Reach {v} w → P w) (key : String) : P (h.lookup v key) := by
  rcases lookup_reach h v key with absent | reached
  · exact absent ▸ undefined
  · exact reach _ reached

/-! ## Forms are finite -/

/-- A schema that nests is smaller in the children of its node. -/
theorem Inherits.nestsWithin (inherits : Inherits h node child)
    (nests : h.NestsWithin (depth + 1) node.schema) : h.NestsWithin depth child.schema := by
  obtain ⟨key, reached⟩ := inherits.schema
  refine Heap.NestsWithin.reach ?_ reached
  rcases h.lookup_cases node.schema key with absent | ⟨r, same, held⟩
  · rw [absent]
    exact .of_leaf rfl
  · exact nests r same _ held

/-- A schema without containers describes a node without children. -/
theorem children_of_leaf (leaf : node.schema.isContainer = false) : node.children h = [] := by
  unfold Node.children nodeKind
  simp [Heap.lookup_of_leaf leaf, Heap.kind]

/-- Siblings have a pre-order if the nodes below each of them have one. -/
theorem exists_preorder (siblings : List Node)
    (each : ∀ node ∈ siblings, ∃ below, Preorder h 0 (node.children h) below) (index : Nat) :
    ∃ nodes, Preorder h index siblings nodes := by
  induction siblings generalizing index with
  | nil => exact ⟨[], .nil⟩
  | cons node rest ih =>
    obtain ⟨below, inner⟩ := each node List.mem_cons_self
    obtain ⟨others, later⟩ := ih (fun node mem => each node (List.mem_cons_of_mem _ mem)) (index + 1)
    exact ⟨_, .cons inner later⟩

/-- **A form is finite** if the containers of its schema nest. -/
theorem exists_isForm (nests : h.NestsWithin depth root.schema) : ∃ nodes, IsForm h root nodes := by
  suffices ∃ below, Preorder h 0 (root.children h) below from
    this.imp' (([], root) :: ·) fun below inner => ⟨below, inner, rfl⟩
  induction depth generalizing root with
  | zero =>
    rw [children_of_leaf nests]
    exact ⟨[], .nil⟩
  | succ depth ih =>
    refine exists_preorder _ (fun node mem => ?_) 0
    exact ih ((mem_children mem).nestsWithin nests)

end

end Walk

end FormLogic
