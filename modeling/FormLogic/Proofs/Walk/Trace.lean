import FormLogic.Proofs.Heap.Action
import FormLogic.Walk

/-!
# `FormLogic.Proofs.Walk.Trace` — what a walk calls, and at which nodes

The hook and the visitor of a walk are any functions, and may change the form while it is walked. So
they are given a log of their calls, and a walk is described by the tree of the nodes that it comes
to. What is below a node is read off the heap that its hook and the visitor leave; the description
therefore threads the worlds, by recursion on the levels that there is room for.

## Contents
- `Event`, `Walk.logged`: walks that keep a log of their calls.
- `Trace`: the tree of the nodes that a walk comes to; `Trace.events`: their calls, in order.
- `Stop`, `Walk.make`, `Walk.stops`: how the slots of a node are made, and what is below it.
- `Attends`, `Each`, `Step`, `Walks`: the tree that belongs to a walk.
- `run_trace`: each walk has its tree, and its log is that of the tree.
-/

namespace FormLogic

variable {σ : Type}

/-! ## Walks with a log -/

/-- A call of the hook, with what it answered, or of the visitor: on these slots, in this heap. -/
inductive Event where
  | hooked (ctx : Context) (heap : Heap) (result : Except FormError Unit)
  | visited (kind : NodeKind) (ctx : Context) (heap : Heap)

namespace Event

/-- The slots of the node that the call is about. -/
def ctx : Event → Context
  | hooked ctx _ _ | visited _ ctx _ => ctx

/-- The heap in which the call is made. -/
def heap : Event → Heap
  | hooked _ heap _ | visited _ _ heap => heap

end Event

/-- The same world with a log of events. -/
def World.traced (w : World σ) (log : List Event) : World (σ × List Event) :=
  ⟨w.heap, w.host, log⟩

namespace Walk

/-- The same walk, which puts each call of its hook and its visitor at the end of a log. -/
def logged (walk : Walk σ) : Walk (σ × List Event) where
  options := walk.options
  cloneOptions := walk.cloneOptions
  hook ctx := fun ⟨heap, host, log⟩ =>
    let (result, w) := walk.hook ctx ⟨heap, host⟩
    (result, w.traced (log ++ [.hooked ctx heap result]))
  visitor kind ctx := fun ⟨heap, host, log⟩ =>
    let ((), w) := walk.visitor kind ctx ⟨heap, host⟩
    ((), w.traced (log ++ [.visited kind ctx heap]))

/-! ## The tree of the nodes -/

/-- Where a node is in a tree: the indices on the way from the root to it. -/
abbrev Position :=
  List Nat

/-- The tree of the nodes that a walk comes to, each with its slots. A node that it turns away from,
because it is too deep or its slots cannot be made, counts as unreached. The others are refused by the
hook, visited without a hook, or visited after it, with the heaps of the calls and what is below. -/
inductive Trace where
  | unreached
  | refused (ctx : Context) (heap : Heap) (error : FormError)
  | plain (ctx : Context) (heap : Heap)
  | attended (kind : NodeKind) (ctx : Context) (before after : Heap) (children : List Trace)

namespace Trace

/-- The calls that are about the node itself. -/
def own : Trace → List Event
  | unreached => []
  | refused ctx heap error => [.hooked ctx heap (.error error)]
  | plain ctx heap => [.visited .field ctx heap]
  | attended kind ctx before after _ => [.hooked ctx before (.ok ()), .visited kind ctx after]

/-- What is right below the node. -/
def children : Trace → List Trace
  | attended _ _ _ _ children => children
  | _ => []

mutual

/-- The calls of the node and of all below it, in order, each with the position of its node. -/
def located : Trace → List (Position × Event)
  | unreached => []
  | refused ctx heap error => [([], .hooked ctx heap (.error error))]
  | plain ctx heap => [([], .visited .field ctx heap)]
  | attended kind ctx before after children =>
    ([], .hooked ctx before (.ok ())) :: ([], .visited kind ctx after) :: locatedFrom 0 children

/-- The calls of siblings and of all below them, the first sibling being at the index. -/
def locatedFrom : (index : Nat) → List Trace → List (Position × Event)
  | _, [] => []
  | index, trace :: rest =>
    trace.located.map (fun call => (index :: call.1, call.2)) ++
      locatedFrom (index + 1) rest

end

/-- The calls of the node and of all below it, in order. -/
def events (trace : Trace) : List Event :=
  trace.located.map Prod.snd

/-- The node at a position. -/
def at? (trace : Trace) : Position → Option Trace
  | [] => some trace
  | index :: position => trace.children[index]?.bind fun child => child.at? position

/-- The calls of siblings come one sibling after the other. -/
theorem map_locatedFrom (index : Nat) (traces : List Trace) :
    (locatedFrom index traces).map Prod.snd = traces.flatMap events := by
  induction traces generalizing index with
  | nil => rw [locatedFrom, List.map_nil, List.flatMap_nil]
  | cons trace rest ih =>
    rw [locatedFrom, List.map_append, List.map_map, ih, List.flatMap_cons]
    rfl

theorem events_attended (kind : NodeKind) (ctx : Context) (before after : Heap)
    (children : List Trace) : (attended kind ctx before after children).events =
      .hooked ctx before (.ok ()) :: .visited kind ctx after :: children.flatMap events := by
  rw [events, located, List.map_cons, List.map_cons, map_locatedFrom]

end Trace

/-! ## Coming to a node -/

/-- What a walk comes to: its root, a property of a node or an element of one. -/
inductive Stop where
  | root (ctx : Context)
  | property (parent : Context) (key : String) (schema : Value)
  | element (parent : Context) (schema uiSchema : Value) (index : Nat) (data : Value)

/-- Whether the stop is an element of an array node. -/
def Stop.isElement : Stop → Bool
  | element .. => true
  | _ => false

/-- Makes the slots of a node, unless it is the root. -/
def make (walk : Walk σ) : Stop → Action σ FormError Context
  | .root ctx => return ctx
  | .property parent key schema => walk.property parent key schema
  | .element parent schema uiSchema index data => walk.element parent schema uiSchema index data

/-- What is right below a node that is treated as one of this kind. -/
def stops (h : Heap) (ctx : Context) : NodeKind → List Stop
  | .object =>
    match h.fieldsOf? (h.lookup ctx.schema "properties") with
    | some fields => fields.entries.map fun entry => .property ctx entry.1 entry.2
    | none => []
  | .array =>
    match h.itemsOf? ctx.data with
    | some items => items.toList.mapIdx fun index data =>
      .element ctx (h.lookup ctx.schema "items") (h.lookup ctx.uiSchema "items") index data
    | none => []
  | _ => []

/-- The error of a walk that is too deep. -/
def limit (walk : Walk σ) : FormError :=
  .recursionLimit ⟨.walk, walk.options.maxDepth⟩

/-- How stops below each other are walked. -/
abbrev Below (σ : Type) :=
  Stop → World σ → Trace → Except FormError Unit → World σ → Prop

/-- The stops are walked one after the other, until one of them fails. -/
inductive Each (below : Below σ) :
    List Stop → World σ → List Trace → Except FormError Unit → World σ → Prop where
  | nil {w : World σ} : Each below [] w [] (.ok ()) w
  | cut {stop : Stop} {rest : List Stop} {w w' : World σ} {trace : Trace} {e : FormError}
      (fails : below stop w trace (.error e) w') : Each below (stop :: rest) w [trace] (.error e) w'
  | cons {stop : Stop} {rest : List Stop} {w u w' : World σ} {trace : Trace} {traces : List Trace}
      {x : Except FormError Unit} (first : below stop w trace (.ok ()) u)
      (others : Each below rest u traces x w') : Each below (stop :: rest) w (trace :: traces) x w'

/-- At a node the hook is called. Unless it fails, the visitor is, and then the stops below the node
are walked. What is below the node is told by `inner` from the heap that the visitor leaves. -/
inductive Attends (walk : Walk σ) (below : Below σ) (kind : NodeKind) (inner : Heap → NodeKind)
    (ctx : Context) : World σ → Trace → Except FormError Unit → World σ → Prop where
  | refused {w w' : World σ} {e : FormError} (hook : walk.hook ctx w = (.error e, w')) :
      Attends walk below kind inner ctx w (.refused ctx w.heap e) (.error e) w'
  | attended {w u u' w' : World σ} {traces : List Trace} {x : Except FormError Unit}
      (hook : walk.hook ctx w = (.ok (), u)) (visit : walk.visitor kind ctx u = ((), u'))
      (children : Each below (stops u'.heap ctx (inner u'.heap)) u' traces x w') :
      Attends walk below kind inner ctx w (.attended kind ctx w.heap u.heap traces) x w'

/-- A stop, with so many levels left. The slots of an element are made when it is known that it is
not too deep, those of other nodes before. A node is what its schema says before the hook; what is
below an element is what its schema says after the visitor. -/
inductive Step (walk : Walk σ) (room : Nat) (below : Below σ) : Below σ where
  | unmade {stop : Stop} {w w' : World σ} {e : FormError} (fits : stop.isElement → room ≠ 0)
      (make : walk.make stop w = (.error e, w')) :
      Step walk room below stop w .unreached (.error e) w'
  | deepElement {stop : Stop} {w : World σ} (element : stop.isElement) (full : room = 0) :
      Step walk room below stop w .unreached (.error walk.limit) w
  | deep {stop : Stop} {w w' : World σ} {ctx : Context} (other : ¬ stop.isElement) (full : room = 0)
      (make : walk.make stop w = (.ok ctx, w')) :
      Step walk room below stop w .unreached (.error walk.limit) w'
  | plain {stop : Stop} {w u w' : World σ} {ctx : Context} (other : ¬ stop.isElement)
      (fits : room ≠ 0) (make : walk.make stop w = (.ok ctx, u))
      (field : nodeKind u.heap ctx.schema = .field) (visit : walk.visitor .field ctx u = ((), w')) :
      Step walk room below stop w (.plain ctx u.heap) (.ok ()) w'
  | node {stop : Stop} {w u w' : World σ} {ctx : Context} {kind : NodeKind} {trace : Trace}
      {x : Except FormError Unit} (other : ¬ stop.isElement) (fits : room ≠ 0)
      (make : walk.make stop w = (.ok ctx, u)) (is : nodeKind u.heap ctx.schema = kind)
      (container : kind = .object ∨ kind = .array)
      (attends : Attends walk below kind (fun _ => kind) ctx u trace x w') :
      Step walk room below stop w trace x w'
  | element {stop : Stop} {w u w' : World σ} {ctx : Context} {trace : Trace}
      {x : Except FormError Unit} (element : stop.isElement) (fits : room ≠ 0)
      (make : walk.make stop w = (.ok ctx, u))
      (attends : Attends walk below .arrayItem (fun h => nodeKind h ctx.schema) ctx u trace x w') :
      Step walk room below stop w trace x w'

/-- The tree of a walk from a stop on, its result and the world that it leaves, with so many levels
left. -/
def Walks (walk : Walk σ) : (room : Nat) → Below σ
  | 0 => Step walk 0 fun _ _ _ _ _ => False
  | room + 1 => Step walk (room + 1) (Walks walk room)

/-! ## The walk by its stops -/

/-- Walks from a stop on. -/
def enter (walk : Walk σ) (room : Nat) (stop : Stop) : Action σ FormError Unit :=
  if stop.isElement then walk.item room (walk.make stop)
  else walk.make stop >>= walk.node room

/-- Walks from each of the stops on. -/
def enterAll (walk : Walk σ) (room : Nat) : List Stop → Action σ FormError Unit
  | [] => return
  | stop :: rest => do
    walk.enter room stop
    walk.enterAll room rest

/-- Calls the hook and the visitor and walks what is below. -/
def attend (walk : Walk σ) (room : Nat) (kind : NodeKind) (inner : Heap → NodeKind) (ctx : Context) :
    Action σ FormError Unit := do
  walk.hook ctx
  walk.visit kind ctx
  let h ← Action.heap
  walk.enterAll room (stops h ctx (inner h))

section

variable (walk : Walk σ) (room : Nat) (ctx : Context) (w : World σ)

theorem enter_element {stop : Stop} (element : stop.isElement) :
    walk.enter room stop = walk.item room (walk.make stop) :=
  if_pos element

theorem enter_other {stop : Stop} (other : ¬ stop.isElement) :
    walk.enter room stop = walk.make stop >>= walk.node room :=
  if_neg other

theorem eachProperty_eq (entries : List (String × Value)) :
    walk.eachProperty ctx (walk.node room) entries =
      walk.enterAll room (entries.map fun entry => .property ctx entry.1 entry.2) := by
  induction entries with
  | nil => rfl
  | cons entry rest ih =>
    have first : ¬ (Stop.property ctx entry.1 entry.2).isElement := Bool.false_ne_true
    rw [eachProperty, ih, List.map_cons, enterAll, enter_other walk room first, bind_assoc]
    rfl

theorem eachElement_eq (schema uiSchema : Value) (index : Nat) (elements : List Value) :
    walk.eachElement ctx schema uiSchema (walk.item room) index elements =
      walk.enterAll room (elements.mapIdx fun i data =>
        .element ctx schema uiSchema (index + i) data) := by
  induction elements generalizing index with
  | nil => rfl
  | cons data rest ih =>
    have first : (Stop.element ctx schema uiSchema (index + 0) data).isElement := rfl
    rw [eachElement, ih, List.mapIdx_cons, enterAll, enter_element walk room first]
    simp only [Nat.add_assoc, Nat.add_comm 1]
    rfl

/-- What is below an object are its properties. -/
theorem properties_eq : walk.properties ctx (walk.node room) w =
    walk.enterAll room (stops w.heap ctx .object) w := by
  unfold properties stops
  rw [heap_bind]
  cases w.heap.fieldsOf? (w.heap.lookup ctx.schema "properties") with
  | some fields => exact congrFun (walk.eachProperty_eq room ctx fields.entries) w
  | none => rfl

/-- What is below an array are the elements of its data. -/
theorem elements_eq : walk.elements ctx (walk.item room) w =
    walk.enterAll room (stops w.heap ctx .array) w := by
  unfold elements stops
  rw [heap_bind]
  cases w.heap.itemsOf? ctx.data with
  | some items =>
    dsimp only
    rw [eachElement_eq]
    simp only [Nat.zero_add]
  | none => rfl

/-- The kind of a node is that of an object, of an array or of a field. -/
theorem nodeKind_cases (h : Heap) (schema : Value) :
    (nodeKind h schema = .object ∨ nodeKind h schema = .array) ∨ nodeKind h schema = .field := by
  unfold nodeKind
  split
  · exact Or.inl (Or.inl rfl)
  · exact Or.inl (Or.inr rfl)
  · split
    · exact Or.inl (Or.inl rfl)
    · exact Or.inr rfl

/-- A field is only visited. -/
theorem node_field (field : nodeKind w.heap ctx.schema = .field) :
    walk.node (room + 1) ctx w = walk.visit .field ctx w := by
  rw [node, heap_bind]
  simp only [field]

/-- Other nodes are treated as their schemas say before the hook. -/
theorem node_container {kind : NodeKind} (is : nodeKind w.heap ctx.schema = kind)
    (container : kind = .object ∨ kind = .array) :
    walk.node (room + 1) ctx w = walk.attend room kind (fun _ => kind) ctx w := by
  rw [node, heap_bind]
  simp only [is]
  unfold attend
  rcases container with rfl | rfl
  · have below : walk.properties ctx (walk.node room) = fun w =>
        walk.enterAll room (stops w.heap ctx .object) w :=
      funext fun w => walk.properties_eq room ctx w
    dsimp only
    rw [below]
    rfl
  · have below : walk.elements ctx (walk.item room) = fun w =>
        walk.enterAll room (stops w.heap ctx .array) w :=
      funext fun w => walk.elements_eq room ctx w
    dsimp only
    rw [below]
    rfl

/-- What is below an element is what its schema says after the visitor. -/
theorem item_succ (make : Action σ FormError Context) :
    walk.item (room + 1) make = (do
      let ctx ← make
      walk.attend room .arrayItem (fun h => nodeKind h ctx.schema) ctx) := by
  rw [item]
  refine bind_congr fun ctx => ?_
  unfold attend
  refine bind_congr fun _ => bind_congr fun _ => funext fun w => ?_
  rw [heap_bind, heap_bind]
  rcases nodeKind_cases w.heap ctx.schema with (is | is) | is <;> simp only [is]
  · exact walk.properties_eq room ctx w
  · exact walk.elements_eq room ctx w
  · rfl

end

/-! ## Making slots -/

/-- An action that does the same with a log, and adds nothing to it. -/
def Silent {ε α : Type} (plain : Action σ ε α) (logged : Action (σ × List Event) ε α) : Prop :=
  ∀ w log, logged (w.traced log) = ((plain w).1, (plain w).2.traced log)

namespace Silent

variable {ε δ α β : Type}

theorem pure (a : α) : Silent (Pure.pure a : Action σ ε α) (Pure.pure a) :=
  fun _ _ => rfl

theorem onHeap (wrap : δ → ε) (action : HeapM δ α) :
    Silent (Action.onHeap wrap action : Action σ ε α) (Action.onHeap wrap action) := by
  intro w log
  unfold World.traced
  rw [Action.onHeap_apply, Action.onHeap_apply]

theorem heap {f : Heap → Action σ ε α} {f' : Heap → Action (σ × List Event) ε α}
    (next : ∀ h, Silent (f h) (f' h)) : Silent (Action.heap >>= f) (Action.heap >>= f') :=
  fun w log => next w.heap w log

theorem bind {p : Action σ ε α} {p' : Action (σ × List Event) ε α} {f : α → Action σ ε β}
    {f' : α → Action (σ × List Event) ε β} (first : Silent p p') (next : ∀ a, Silent (f a) (f' a)) :
    Silent (p >>= f) (p' >>= f') := by
  intro w log
  rw [bind_apply, bind_apply, first w log]
  rcases p w with ⟨_ | a, u⟩
  · rfl
  · exact next a u log

theorem ite {c : Prop} [Decidable c] {p q : Action σ ε α} {p' q' : Action (σ × List Event) ε α}
    (yes : Silent p p') (no : Silent q q') : Silent (if c then p else q) (if c then p' else q') := by
  split
  · exact yes
  · exact no

end Silent

section

variable (walk : Walk σ)

theorem silent_copyPresentation (v : Value) :
    Silent (walk.copyPresentation v) (walk.logged.copyPresentation v) :=
  .heap fun _ => .ite (.onHeap _ _) (.onHeap _ _)

theorem silent_childId (parent : Context) (key : String) :
    Silent (childId parent key : Action σ FormError Value) (childId parent key) :=
  .heap fun _ => .onHeap _ _

/-- Making the slots of a node calls neither the hook nor the visitor. -/
theorem silent_make (stop : Stop) : Silent (walk.make stop) (walk.logged.make stop) := by
  cases stop with
  | root ctx => exact .pure ctx
  | property parent key schema =>
    refine .bind (silent_childId parent key) fun _ => .bind (.onHeap _ _) fun _ => .heap fun _ => ?_
    exact .bind (walk.silent_copyPresentation _) fun _ => .heap fun _ => .pure _
  | element parent schema uiSchema index data =>
    refine .bind (silent_childId parent _) fun _ => .bind (.onHeap _ _) fun _ => ?_
    exact .bind (walk.silent_copyPresentation _) fun _ => .pure _

end

/-! ## Each walk has its tree -/

/-- An action and its logged form have a tree that fits them: the log grows by its calls. -/
def Traces (plain : Action σ FormError Unit) (logged : Action (σ × List Event) FormError Unit)
    (fits : World σ → Trace → Except FormError Unit → World σ → Prop) : Prop :=
  ∀ w log, ∃ trace, fits w trace (plain w).1 (plain w).2 ∧
    logged (w.traced log) = ((plain w).1, (plain w).2.traced (log ++ trace.events))

section

variable {walk : Walk σ} {room : Nat} {below : Below σ}

/-- The stops below a node are walked in order. -/
theorem traces_enterAll
    (each : ∀ stop, Traces (walk.enter room stop) (walk.logged.enter room stop) (below stop))
    (stops : List Stop) (w : World σ) (log : List Event) :
    ∃ traces, Each below stops w traces (walk.enterAll room stops w).1
        (walk.enterAll room stops w).2 ∧
      walk.logged.enterAll room stops (w.traced log) = ((walk.enterAll room stops w).1,
        (walk.enterAll room stops w).2.traced (log ++ traces.flatMap Trace.events)) := by
  induction stops generalizing w log with
  | nil => exact ⟨[], .nil, by rw [List.flatMap_nil, List.append_nil]; rfl⟩
  | cons stop rest ih =>
    obtain ⟨trace, fits, same⟩ := each stop w log
    unfold enterAll
    rw [bind_apply, bind_apply, same]
    generalize walk.enter room stop w = x at fits
    obtain ⟨_ | _, u⟩ := x
    · exact ⟨[trace], .cut fits, by rw [List.flatMap_singleton]⟩
    · obtain ⟨traces, others, same'⟩ := ih u (log ++ trace.events)
      refine ⟨trace :: traces, .cons fits others, ?_⟩
      rw [List.flatMap_cons, ← List.append_assoc]
      exact same'

/-- A node is hooked, visited and looked into. -/
theorem traces_attend
    (each : ∀ stop, Traces (walk.enter room stop) (walk.logged.enter room stop) (below stop))
    (kind : NodeKind) (inner : Heap → NodeKind) (ctx : Context) :
    Traces (walk.attend room kind inner ctx) (walk.logged.attend room kind inner ctx)
      (Attends walk below kind inner ctx) := by
  intro w log
  have hooked : walk.logged.hook ctx (w.traced log) = ((walk.hook ctx w).1,
    (walk.hook ctx w).2.traced (log ++ [.hooked ctx w.heap (walk.hook ctx w).1])) := rfl
  unfold attend
  rw [bind_apply, bind_apply, hooked]
  rcases hook : walk.hook ctx w with ⟨e | ⟨⟩, u⟩
  · exact ⟨_, .refused hook, rfl⟩
  · obtain ⟨traces, children, same⟩ := traces_enterAll each
      (stops (walk.visitor kind ctx u).2.heap ctx (inner (walk.visitor kind ctx u).2.heap))
      (walk.visitor kind ctx u).2
      (log ++ [.hooked ctx w.heap (.ok ())] ++ [.visited kind ctx u.heap])
    refine ⟨.attended kind ctx w.heap u.heap traces, .attended hook rfl children, ?_⟩
    have log_eq (rest : List Event) :
        log ++ .hooked ctx w.heap (.ok ()) :: .visited kind ctx u.heap :: rest =
          log ++ [.hooked ctx w.heap (.ok ())] ++ [.visited kind ctx u.heap] ++ rest := by simp
    rw [Trace.events_attended, log_eq]
    exact same

end

/-- The slots of a stop are made, and the walk goes on with them. -/
theorem traces_make {walk : Walk σ} {stop : Stop} {f : Context → Action σ FormError Unit}
    {f' : Context → Action (σ × List Event) FormError Unit}
    {fits : World σ → Trace → Except FormError Unit → World σ → Prop}
    (unmade : ∀ w e w', walk.make stop w = (.error e, w') → fits w .unreached (.error e) w')
    (next : ∀ ctx, Traces (f ctx) (f' ctx) fun u trace x w' =>
      ∀ w, walk.make stop w = (.ok ctx, u) → fits w trace x w') :
    Traces (walk.make stop >>= f) (walk.logged.make stop >>= f') fits := by
  intro w log
  rw [bind_apply, bind_apply, walk.silent_make stop w log]
  rcases made : walk.make stop w with ⟨e | ctx, u⟩
  · refine ⟨.unreached, unmade w e u made, ?_⟩
    rw [Trace.events, Trace.located, List.map_nil, List.append_nil]
  · obtain ⟨trace, fits, same⟩ := next ctx u log
    exact ⟨trace, fits w made, same⟩

/-- A walk that is too deep calls nothing. -/
theorem traces_tooDeep {walk : Walk σ}
    {fits : World σ → Trace → Except FormError Unit → World σ → Prop}
    (deep : ∀ w, fits w .unreached (.error walk.limit) w) :
    Traces walk.tooDeep walk.logged.tooDeep fits := by
  intro w log
  refine ⟨.unreached, deep w, ?_⟩
  rw [Trace.events, Trace.located, List.map_nil, List.append_nil]
  rfl

/-- A node that is not an element, with room for it. -/
theorem traces_node {walk : Walk σ} {room : Nat} {below : Below σ} (ctx : Context)
    (each : ∀ stop, Traces (walk.enter room stop) (walk.logged.enter room stop) (below stop)) :
    Traces (walk.node (room + 1) ctx) (walk.logged.node (room + 1) ctx) fun u trace x w' =>
      ∀ stop w, ¬ stop.isElement → walk.make stop w = (.ok ctx, u) →
        Step walk (room + 1) below stop w trace x w' := by
  intro w log
  rcases nodeKind_cases w.heap ctx.schema with container | field
  · rw [walk.node_container room ctx w rfl container,
      walk.logged.node_container room ctx (w.traced log) rfl container]
    obtain ⟨trace, attends, same⟩ :=
      traces_attend each _ (fun _ => nodeKind w.heap ctx.schema) ctx w log
    exact ⟨trace, fun stop w other made => .node other (Nat.succ_ne_zero _) made rfl container attends,
      same⟩
  · rw [walk.node_field room ctx w field, walk.logged.node_field room ctx (w.traced log) field]
    exact ⟨.plain ctx w.heap, fun stop w other made =>
      .plain other (Nat.succ_ne_zero _) made field rfl, rfl⟩

/-- **A walk from a stop on** has its tree, by induction on the levels left. -/
theorem traces_enter (walk : Walk σ) (room : Nat) (stop : Stop) :
    Traces (walk.enter room stop) (walk.logged.enter room stop) (walk.Walks room stop) := by
  induction room generalizing stop with
  | zero =>
    by_cases element : stop.isElement
    · rw [enter_element walk 0 element, enter_element walk.logged 0 element, item, item]
      exact traces_tooDeep fun w => .deepElement element rfl
    · rw [enter_other walk 0 element, enter_other walk.logged 0 element]
      refine traces_make (fun w e w' made => .unmade (fun here => absurd here element) made) ?_
      intro ctx
      rw [node, node]
      exact traces_tooDeep fun u w made => .deep element rfl made
  | succ room ih =>
    have fits : room + 1 ≠ 0 := Nat.succ_ne_zero room
    by_cases element : stop.isElement
    · rw [enter_element walk _ element, enter_element walk.logged _ element, item_succ, item_succ]
      refine traces_make (fun w e w' made => .unmade (fun _ => fits) made) fun ctx u log => ?_
      obtain ⟨trace, attends, same⟩ := traces_attend ih .arrayItem
        (fun h => nodeKind h ctx.schema) ctx u log
      exact ⟨trace, fun w made => .element element fits made attends, same⟩
    · rw [enter_other walk _ element, enter_other walk.logged _ element]
      refine traces_make (fun w e w' made => .unmade (fun _ => fits) made) fun ctx u log => ?_
      obtain ⟨trace, step, same⟩ := traces_node ctx ih u log
      exact ⟨trace, fun w made => step stop w element made, same⟩

/-- The tree of a walk from its root, with its result and the world that it leaves. -/
def Walked (walk : Walk σ) (root : Context) :
    World σ → Trace → Except FormError Unit → World σ → Prop :=
  walk.Walks walk.options.maxDepth (.root root)

/-- **Each walk has its tree**, and the log of the walk holds the calls of the tree, in order. -/
theorem run_trace (walk : Walk σ) (root : Context) :
    Traces (walk.run root) (walk.logged.run root) (walk.Walked root) :=
  traces_enter walk walk.options.maxDepth (.root root)

end Walk

end FormLogic
