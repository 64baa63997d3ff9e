import FormLogic.Engine

/-!
# `FormLogic.Walk` — visiting the nodes of a form

A form is walked from its root downwards. A node whose schema is that of an object has a child for
each of its properties, one whose schema is that of an array a child for each element of its data. A
hook runs on each object, array and element before the node is visited or looked into; other nodes
are only visited. Every child gets deep copies of its part of the schema and the presentation, made
after the hook of its parent, so that rules of one node cannot reach another one. The data is
shared.

## Contents
- `Walk.Options`: the depth limit, with its reader.
- `NodeKind`, `nodeKind`, `nodeId`: what a node is and what it is called.
- `Hook`, `Visitor`, `Walk`: what happens at a node; `Walk.run`: the walk.
-/

namespace FormLogic

/-- The kinds of nodes. -/
inductive NodeKind where
  | object
  | array
  | arrayItem
  | field
  deriving DecidableEq

/-- The name of the kind. -/
def NodeKind.name : NodeKind → String
  | .object => "object"
  | .array => "array"
  | .arrayItem => "array item"
  | .field => "field"

/-- The kind of node that a schema describes. -/
def nodeKind (h : Heap) (schema : Value) : NodeKind :=
  match h.lookup schema "type" with
  | .string "object" => .object
  | .string "array" => .array
  | _ => if h.kind (h.lookup schema "properties") = .mapping then .object else .field

/-- The identifier of a node. -/
def nodeId (h : Heap) (ctx : Context) : String :=
  ((h.lookup ctx.idSchema "$id").text?).getD "root"

/-- What runs on a node before anything else; an error ends the walk. -/
abbrev Hook (σ : Type) :=
  Context → Action σ FormError Unit

/-- What is told about each node that is visited. -/
abbrev Visitor (σ : Type) :=
  NodeKind → Context → StateM (World σ) Unit

namespace Walk

/-- The settings of a walk. -/
structure Options where
  maxDepth : Nat := 64

/-- Reads the settings of a walk. -/
def Options.decode : Json.Decoder Options :=
  Json.decodeRecord "WalkOptions"
    [Json.field "maxDepth" Json.toCount fun n o => { o with maxDepth := n }] {}

end Walk

/-- A walk: its settings, its hook and its visitor. -/
structure Walk (σ : Type) where
  options : Walk.Options
  cloneOptions : Clone.Options
  hook : Hook σ
  visitor : Visitor σ

namespace Walk

variable {σ : Type}

/-- The deep copy of a value. -/
def copy (walk : Walk σ) (v : Value) : Action σ FormError Value :=
  Action.onHeap .recursionLimit (Clone.deep walk.cloneOptions v)

/-- The presentation of a child: a deep copy of a mapping, or a new mapping where there is none. -/
def copyPresentation (walk : Walk σ) (v : Value) : Action σ FormError Value := do
  if (← Action.heap).kind v = .mapping then
    walk.copy v
  else
    Action.onHeap .recursionLimit (do return .container (← HeapM.alloc (.mapping .empty)))

/-- The identification of the child that is called `key` in its parent. -/
def childId (parent : Context) (key : String) : Action σ FormError Value := do
  let id := nodeId (← Action.heap) parent ++ "_" ++ key
  let fields := Fields.empty.insert "$id" (.string id)
  Action.onHeap .recursionLimit (do return .container (← HeapM.alloc (.mapping fields)))

/-- The slots of the property `key` of a node. -/
def property (walk : Walk σ) (ctx : Context) (key : String) (schema : Value) :
    Action σ FormError Context := do
  let idSchema ← childId ctx key
  let schema ← walk.copy schema
  let h ← Action.heap
  let uiSchema ← walk.copyPresentation (h.lookup ctx.uiSchema key)
  return { formContext := ctx.formContext, idSchema, schema, uiSchema,
           data := (← Action.heap).lookup ctx.data key }

/-- The slots of the element at position `index` of an array node. -/
def element (walk : Walk σ) (ctx : Context) (schema uiSchema : Value) (index : Nat) (data : Value) :
    Action σ FormError Context := do
  let idSchema ← childId ctx (toString index)
  let schema ← walk.copy schema
  let uiSchema ← walk.copyPresentation uiSchema
  return { formContext := ctx.formContext, idSchema, schema, uiSchema, data,
           arrayUiSchema := some ctx.uiSchema }

/-- Tells the visitor about a node. -/
def visit (walk : Walk σ) (kind : NodeKind) (ctx : Context) : Action σ FormError Unit :=
  fun w =>
    let ((), w) := walk.visitor kind ctx w
    (.ok (), w)

/-- Goes to the given properties of a node, in order. -/
def eachProperty (walk : Walk σ) (ctx : Context) (go : Context → Action σ FormError Unit) :
    List (String × Value) → Action σ FormError Unit
  | [] => return
  | (key, schema) :: rest => do
    go (← walk.property ctx key schema)
    eachProperty walk ctx go rest

/-- Goes to all properties of a node. -/
def properties (walk : Walk σ) (ctx : Context) (go : Context → Action σ FormError Unit) :
    Action σ FormError Unit := do
  let h ← Action.heap
  match h.fieldsOf? (h.lookup ctx.schema "properties") with
  | some fields => walk.eachProperty ctx go fields.entries
  | none => return

/-- Goes to the given elements of an array node, in order, from position `index` on. The way to an
element makes the element's slots itself. -/
def eachElement (walk : Walk σ) (ctx : Context) (schema uiSchema : Value)
    (go : Action σ FormError Context → Action σ FormError Unit) :
    (index : Nat) → List Value → Action σ FormError Unit
  | _, [] => return
  | index, data :: rest => do
    go (walk.element ctx schema uiSchema index data)
    eachElement walk ctx schema uiSchema go (index + 1) rest

/-- Goes to all elements of an array node. -/
def elements (walk : Walk σ) (ctx : Context)
    (go : Action σ FormError Context → Action σ FormError Unit) : Action σ FormError Unit := do
  let h ← Action.heap
  match h.itemsOf? ctx.data with
  | some items =>
    walk.eachElement ctx (h.lookup ctx.schema "items") (h.lookup ctx.uiSchema "items") go 0
      items.toList
  | none => return

/-- Ends the walk at a node that is too deep. -/
def tooDeep (walk : Walk σ) : Action σ FormError Unit :=
  throw (.recursionLimit ⟨.walk, walk.options.maxDepth⟩)

mutual

/-- Walks from a node on, with room for `room` levels. The kind of the node is that of its schema
before the hook. -/
def node (walk : Walk σ) : (room : Nat) → Context → Action σ FormError Unit
  | 0, _ => walk.tooDeep
  | room + 1, ctx => do
    let kind := nodeKind (← Action.heap) ctx.schema
    match kind with
    | .object =>
      walk.hook ctx
      walk.visit kind ctx
      walk.properties ctx fun child => node walk room child
    | .array =>
      walk.hook ctx
      walk.visit kind ctx
      walk.elements ctx fun make => item walk room make
    | _ => walk.visit kind ctx

/-- Walks from an element of an array on, with room for `room` levels. What is below the element
depends on its schema after the hook. -/
def item (walk : Walk σ) : (room : Nat) → Action σ FormError Context → Action σ FormError Unit
  | 0, _ => walk.tooDeep
  | room + 1, make => do
    let ctx ← make
    walk.hook ctx
    walk.visit .arrayItem ctx
    match nodeKind (← Action.heap) ctx.schema with
    | .object => walk.properties ctx fun child => node walk room child
    | .array => walk.elements ctx fun make => item walk room make
    | _ => return

end

/-- Walks a form from its root. -/
def run (walk : Walk σ) (root : Context) : Action σ FormError Unit :=
  walk.node walk.options.maxDepth root

end Walk

end FormLogic
