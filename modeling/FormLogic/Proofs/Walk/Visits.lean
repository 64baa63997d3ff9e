import FormLogic.Proofs.Walk.Shown

/-!
# `FormLogic.Proofs.Walk.Visits` — a walk visits exactly its form

A hook and a visitor that only record what they are told leave the form to itself. Then a walk comes
to the nodes of the form in pre-order, each once, with slots that show the node, until it has visited
all of them or comes to one that is too deep. Nothing else can go wrong, as all copies succeed.

The nodes of a form are there before the walk. What is visited is put together in the same way, one
sibling after the other; so both are compared along the positions of the nodes.

## Contents
- `Visit`, `visitsOf`: the calls of the visitor; `Records`: walks that only record.
- `Told`: the visits of siblings and of all below them; `Entered`: those from one stop on.
- `Told.append`, `Told.cut`, `Entered.alone`: siblings one after the other.
- `told_of_each`, `told_of_attends`, `entered_of_attends`, `enters`: a walk from a stop on, one level
  after the other.
- `Follows`, `run_form`: a walk from its root.
-/

namespace FormLogic

/-- A call of the visitor, with the heap in which it is made. -/
structure Visit where
  kind : NodeKind
  ctx : Context
  heap : Heap

/-- The event as a call of the visitor. -/
def Event.visit? : Event → Option Visit
  | .visited kind ctx heap => some ⟨kind, ctx, heap⟩
  | .hooked .. => none

namespace Walk

variable {σ : Type}

/-- The hook and the visitor may tell the host what they see. But they leave the heap as it is, and the
hook never ends the walk. -/
structure Records (walk : Walk σ) : Prop where
  hook : ∀ ctx w, ∃ host, walk.hook ctx w = (.ok (), ⟨w.heap, host⟩)
  visitor : ∀ kind ctx w, (walk.visitor kind ctx w).2.heap = w.heap

/-- The calls of the visitor among some calls. -/
def visitsOf (calls : List (Position × Event)) : List (Position × Visit) :=
  calls.filterMap fun call => call.2.visit?.map fun visit => (call.1, visit)

/-- The visits of siblings come one sibling after the other. -/
theorem visitsOf_locatedFrom (index : Nat) (trace : Trace) (rest : List Trace) :
    visitsOf (Trace.locatedFrom index (trace :: rest)) =
      (visitsOf trace.located).map (under index) ++ visitsOf (Trace.locatedFrom (index + 1) rest) := by
  unfold visitsOf
  rw [Trace.locatedFrom, List.filterMap_append, List.filterMap_map, List.map_filterMap]
  refine congrArg (· ++ _) (congrArg (List.filterMap · _) (funext fun call => ?_))
  show call.2.visit?.map _ = (call.2.visit?.map _).map _
  rw [Option.map_map]
  rfl

theorem visitsOf_attended (kind : NodeKind) (ctx : Context) (before after : Heap)
    (children : List Trace) : visitsOf (Trace.attended kind ctx before after children).located =
      ([], ⟨kind, ctx, after⟩) :: visitsOf (Trace.locatedFrom 0 children) :=
  rfl

/-- Without their positions, the visits are the calls of the visitor in the log. -/
theorem map_snd_visitsOf (calls : List (Position × Event)) :
    (visitsOf calls).map Prod.snd = (calls.map Prod.snd).filterMap Event.visit? := by
  unfold visitsOf
  rw [List.map_filterMap, List.filterMap_map]
  refine congrArg (List.filterMap · _) (funext fun call => ?_)
  show (call.2.visit?.map _).map _ = call.2.visit?
  rw [Option.map_map]
  exact Option.map_id'

/-! ## What is visited of siblings -/

/-- The node at a position is not too deep. -/
def shallow {α : Type} (depth : Nat) (found : Position × α) : Bool :=
  found.1.length < depth

/-- The visitor is told about the node at its position. -/
def Fits (h : Heap) (formContext : Value) (found : Position × Node) (call : Position × Visit) : Prop :=
  call.1 = found.1 ∧ call.2.kind = found.2.kind h ∧
    Shows h call.2.heap formContext found.2 call.2.ctx

/-- Below a node with this presentation, elements of an array get the very presentation, and other
nodes none. -/
def OfArray (uiSchema : Value) (visit : Visit) : Prop :=
  visit.ctx.arrayUiSchema = if visit.kind = .arrayItem then some uiSchema else none

/-- The visits of siblings below a node with this presentation, and of all below them: they fit the
nodes in order, up to the first one that is too deep. -/
structure Told (h : Heap) (formContext : Value) (limit : FormError) (depth : Nat) (uiSchema : Value)
    (nodes : List (Position × Node)) (visits : List (Position × Visit))
    (result : Except FormError Unit) : Prop where
  shown : List.Forall₂ (Fits h formContext) (nodes.takeWhile (shallow depth)) visits
  inside : ∀ call ∈ visits, call.1 ≠ []
  tops : ∀ i visit, ([i], visit) ∈ visits → OfArray uiSchema visit
  arrays : ∀ p i child, p ≠ [] → (p ++ [i], child) ∈ visits →
    ∃ parent, (p, parent) ∈ visits ∧ OfArray parent.ctx.uiSchema child
  result : result = if nodes.all (shallow depth) then .ok () else .error limit

/-- The visits from a stop on, with so many levels left: none if there are no levels left, and
otherwise the node there and what is below it. -/
inductive Entered (h : Heap) (formContext : Value) (limit : FormError) (room : Nat) (uiSchema : Value)
    (node : Node) (below : List (Position × Node)) :
    List (Position × Visit) → Except FormError Unit → Prop where
  | deep (full : room = 0) : Entered h formContext limit room uiSchema node below [] (.error limit)
  | visited {visit : Visit} {visits : List (Position × Visit)} {result : Except FormError Unit}
      (fits : 0 < room) (kind : visit.kind = node.kind h)
      (shown : Shows h visit.heap formContext node visit.ctx) (array : OfArray uiSchema visit)
      (told : Told h formContext limit room visit.ctx.uiSchema below visits result) :
      Entered h formContext limit room uiSchema node below (([], visit) :: visits) result

section

variable {h : Heap} {formContext uiSchema : Value} {limit e : FormError} {depth room index : Nat}
  {node : Node} {below others nodes : List (Position × Node)}
  {visits visits' : List (Position × Visit)} {x : Except FormError Unit}

theorem shallow_under (index depth : Nat) :
    (fun found : Position × Node => shallow (depth + 1) (under index found)) = shallow depth := by
  funext found
  simp [shallow, under]

theorem mem_map_under {α : Type} {found : List (Position × α)} {p : Position} {a : α} :
    (p, a) ∈ found.map (under index) ↔ ∃ q, p = index :: q ∧ (q, a) ∈ found := by
  simp [under, eq_comm, and_comm]

theorem all_under (nodes : List (Position × Node)) (index depth : Nat) :
    (nodes.map (under index)).all (shallow (depth + 1)) = nodes.all (shallow depth) := by
  rw [List.all_map, ← shallow_under index depth]
  rfl

theorem takeWhile_under (nodes : List (Position × Node)) (index depth : Nat) :
    (nodes.map (under index)).takeWhile (shallow (depth + 1)) =
      (nodes.takeWhile (shallow depth)).map (under index) := by
  rw [List.takeWhile_map, ← shallow_under index depth]
  rfl

/-- What is taken ends in the first part if not all of it is taken. -/
theorem takeWhile_append_of_not_all {α : Type} {p : α → Bool} {as : List α}
    (stops : ¬ as.all p = true) (bs : List α) : (as ++ bs).takeWhile p = as.takeWhile p := by
  rw [List.takeWhile_append, if_neg]
  intro same
  have whole := (List.takeWhile_prefix p).eq_of_length same
  exact stops (List.all_eq_true.mpr (List.takeWhile_eq_self_iff.mp whole))

namespace Told

theorem nil (h : Heap) (formContext : Value) (limit : FormError) (depth : Nat) (uiSchema : Value) :
    Told h formContext limit depth uiSchema [] [] (.ok ()) where
  shown := .nil
  inside _ mem := nomatch mem
  tops _ _ mem := nomatch mem
  arrays _ _ _ _ mem := nomatch mem
  result := rfl

/-- All nodes have been visited if the walk goes on. -/
theorem all_shallow (told : Told h formContext limit depth uiSchema nodes visits (.ok ())) :
    nodes.all (shallow depth) = true := by
  by_contra deep
  have fails := told.result
  rw [if_neg deep] at fails
  cases fails

/-- Some node is too deep if the walk does not go on. -/
theorem not_all_shallow (told : Told h formContext limit depth uiSchema nodes visits (.error e)) :
    ¬ nodes.all (shallow depth) = true := by
  intro all
  have goes := told.result
  rw [if_pos all] at goes
  cases goes

/-- Nothing is visited behind a node that is too deep. -/
theorem cut (told : Told h formContext limit depth uiSchema nodes visits (.error e))
    (others : List (Position × Node)) :
    Told h formContext limit depth uiSchema (nodes ++ others) visits (.error e) where
  shown := by
    rw [takeWhile_append_of_not_all told.not_all_shallow]
    exact told.shown
  inside := told.inside
  tops := told.tops
  arrays := told.arrays
  result := by
    have deep : ¬ (nodes ++ others).all (shallow depth) = true := by
      rw [List.all_append, Bool.and_eq_true]
      exact fun all => told.not_all_shallow all.1
    rw [if_neg deep, told.result, if_neg told.not_all_shallow]

/-- Some siblings and later ones. -/
theorem append (first : Told h formContext limit depth uiSchema nodes visits (.ok ()))
    (second : Told h formContext limit depth uiSchema others visits' x) :
    Told h formContext limit depth uiSchema (nodes ++ others) (visits ++ visits') x where
  shown := by
    have all := List.all_eq_true.mp first.all_shallow
    rw [List.takeWhile_append_of_pos all]
    exact List.rel_append (List.takeWhile_eq_self_iff.mpr all ▸ first.shown) second.shown
  inside call mem := by
    rcases List.mem_append.mp mem with mem | mem
    · exact first.inside call mem
    · exact second.inside call mem
  tops i visit mem := by
    rcases List.mem_append.mp mem with mem | mem
    · exact first.tops i visit mem
    · exact second.tops i visit mem
  arrays p i child below mem := by
    rcases List.mem_append.mp mem with mem | mem
    · exact (first.arrays p i child below mem).imp fun _ => And.imp_left (List.mem_append_left _)
    · exact (second.arrays p i child below mem).imp fun _ => And.imp_left (List.mem_append_right _)
  result := by
    rw [second.result, List.all_append, first.all_shallow, Bool.true_and]

end Told

/-- A node at the index, and what is below it. -/
theorem Entered.alone (entered : Entered h formContext limit room uiSchema node below visits x)
    (index : Nat) :
    Told h formContext limit (room + 1) uiSchema (([index], node) :: below.map (under index))
      (visits.map (under index)) x := by
  cases entered with
  | deep full =>
    subst full
    refine ⟨.nil, ?_, ?_, ?_, rfl⟩
    · exact fun _ mem => nomatch mem
    · exact fun _ _ mem => nomatch mem
    · exact fun _ _ _ _ mem => nomatch mem
  | @visited visit visits _ fits kind shown array told =>
    have here : shallow (room + 1) (([index], node) : Position × Node) = true := by
      simpa [shallow] using fits
    refine ⟨?_, ?_, ?_, ?_, ?_⟩
    · rw [List.takeWhile_cons_of_pos here, takeWhile_under]
      refine .cons ⟨rfl, kind, shown⟩ ?_
      refine List.forall₂_map_left_iff.mpr (List.forall₂_map_right_iff.mpr ?_)
      exact told.shown.imp fun found call ⟨same, rest⟩ => ⟨congrArg (index :: ·) same, rest⟩
    · intro call mem
      obtain ⟨inner, -, rfl⟩ := List.mem_map.mp mem
      exact List.cons_ne_nil _ _
    · intro i found mem
      obtain ⟨q, same, held⟩ := mem_map_under.mp mem
      obtain ⟨-, rfl⟩ := List.cons.inj same
      rcases List.mem_cons.mp held with same | held
      · cases same
        exact array
      · exact absurd rfl (told.inside _ held)
    · intro p i child inside mem
      obtain ⟨q, same, held⟩ := mem_map_under.mp mem
      obtain ⟨j, p, rfl⟩ := List.exists_cons_of_ne_nil inside
      obtain ⟨rfl, rfl⟩ := List.cons.inj same
      have held := (List.mem_cons.mp held).resolve_left fun top =>
        List.append_ne_nil_of_right_ne_nil p (List.cons_ne_nil i []) (congrArg Prod.fst top)
      -- the parent is the node itself, or below it
      by_cases top : p = []
      · subst top
        exact ⟨visit, mem_map_under.mpr ⟨[], rfl, List.mem_cons_self⟩, told.tops i child held⟩
      · obtain ⟨parent, above, array⟩ := told.arrays p i child top held
        exact ⟨parent, mem_map_under.mpr ⟨p, rfl, List.mem_cons_of_mem _ above⟩, array⟩
    · rw [List.all_cons, here, all_under, Bool.true_and]
      exact told.result

end

/-! ## Walking -/

/-- A node whose parts can be copied, with data that does not dangle. -/
structure Sound (limit : Nat) (h : Heap) (node : Node) : Prop where
  schema : Copyable limit h node.schema
  uiSchema : Copyable limit h node.uiSchema
  data : h.Live node.data

theorem Sound.child {limit : Nat} {h : Heap} {node child : Node} (sound : Sound limit h node)
    (closed : h.Closed) (mem : child ∈ node.children h) : Sound limit h child := by
  obtain ⟨⟨key, below⟩, ⟨key', same⟩, data⟩ := mem_children mem
  refine ⟨(sound.schema.lookup key).reach below, same ▸ sound.uiSchema.lookup key', ?_⟩
  rcases data with absent | reached
  · rw [absent]
    exact nofun
  · exact reached.live_of_value closed sound.data

/-- The walk is below slots for a node of the form in `h`. -/
structure Ready (h : Heap) (formContext : Value) (parent : Context) (w : World σ) : Prop where
  extended : h.Extends w.heap
  closed : w.heap.Closed
  live : parent.Live w.heap
  formContext : parent.formContext = formContext

section

variable {walk : Walk σ} {h : Heap} {formContext : Value} {room index : Nat} {parent ctx : Context}
  {node : Node} {siblings : List Node} {below nodes : List (Position × Node)} {stop : Stop}
  {among : List Stop} {w w' : World σ} {trace : Trace} {traces : List Trace}
  {x : Except FormError Unit}

theorem Ready.later (ready : Ready h formContext parent w) (extended : w.heap.Extends w'.heap)
    (closed : w'.heap.Closed) : Ready h formContext parent w' where
  extended := ready.extended.trans extended
  closed := closed
  live := ready.live.mono extended.grown
  formContext := ready.formContext

/-- Walking from a stop on with so many levels left visits the node there and what is below it. -/
def Enters (walk : Walk σ) (h : Heap) (formContext : Value) (room : Nat) : Prop :=
  ∀ {parent node below stop w trace x w'}, Ready h formContext parent w →
    Sound walk.cloneOptions.maxDepth h node → Comes h w.heap parent node stop →
    stop.Inner w.heap → Preorder h 0 (node.children h) below → walk.Walks room stop w trace x w' →
    Entered h formContext walk.limit room parent.uiSchema node below (visitsOf trace.located) x ∧
      w.heap.Extends w'.heap ∧ w'.heap.Closed

/-- **Siblings are visited in order**, each with all that is below it. -/
theorem told_of_each (enters : Enters walk h formContext room)
    (walked : Each (walk.Walks room) among w traces x w') (ready : Ready h formContext parent w)
    (sound : ∀ node ∈ siblings, Sound walk.cloneOptions.maxDepth h node)
    (comes : List.Forall₂ (fun node stop => stop.Inner w.heap ∧ Comes h w.heap parent node stop)
      siblings among)
    (order : Preorder h index siblings nodes) :
    Told h formContext walk.limit (room + 1) parent.uiSchema nodes
        (visitsOf (Trace.locatedFrom index traces)) x ∧
      w.heap.Extends w'.heap ∧ w'.heap.Closed := by
  induction walked generalizing siblings index nodes with
  | nil =>
    cases comes
    cases order
    exact ⟨.nil _ _ _ _ _, .refl _, ready.closed⟩
  | cut fails =>
    obtain ⟨node, siblings, ⟨inner, first⟩, -, rfl⟩ := List.forall₂_cons_right_iff.mp comes
    cases order with
    | cons below later =>
      obtain ⟨entered, extended, closed⟩ := enters ready (sound node List.mem_cons_self) first
        inner below fails
      rw [visitsOf_locatedFrom]
      refine ⟨?_, extended, closed⟩
      -- the later siblings are in the form, but the walk does not come to them
      show Told _ _ _ _ _ _ (_ ++ []) _
      rw [List.append_nil]
      exact (entered.alone index).cut _
  | cons here others ih =>
    obtain ⟨node, siblings, ⟨inner, first⟩, rest, rfl⟩ := List.forall₂_cons_right_iff.mp comes
    cases order with
    | cons below later =>
      obtain ⟨entered, extended, closed⟩ := enters ready (sound node List.mem_cons_self) first
        inner below here
      obtain ⟨told, extended', closed'⟩ := ih (ready.later extended closed)
        (fun node mem => sound node (List.mem_cons_of_mem _ mem))
        (rest.imp fun node stop ⟨inner, comes⟩ =>
          ⟨inner.mono extended.grown, comes.later extended ready.closed ready.live inner⟩) later
      rw [visitsOf_locatedFrom]
      exact ⟨(entered.alone index).append told, extended.trans extended', closed'⟩

/-- **A node that is visited** is told first, and then what is below it. -/
theorem told_of_attends {kind : NodeKind} {inner : Heap → NodeKind}
    (enters : Enters walk h formContext room) (records : Records walk) (formClosed : h.Closed)
    (ready : Ready h formContext ctx w) (sound : Sound walk.cloneOptions.maxDepth h node)
    (stands : Stands h w.heap node ctx) (order : Preorder h 0 (node.children h) below)
    (looked : inner w.heap = nodeKind w.heap ctx.schema)
    (attends : Attends walk (walk.Walks room) kind inner ctx w trace x w') :
    ∃ visits, visitsOf trace.located = ([], ⟨kind, ctx, w.heap⟩) :: visits ∧
      Told h formContext walk.limit (room + 1) ctx.uiSchema below visits x ∧
      w.heap.Extends w'.heap ∧ w'.heap.Closed := by
  obtain ⟨host, recorded⟩ := records.hook ctx w
  cases attends with
  | refused hook => cases recorded.symm.trans hook
  | @attended u u' _ traces _ hook visit children =>
    cases recorded.symm.trans hook
    -- so the children are those that the visitor was told about
    have same : u'.heap = w.heap := by
      have left := records.visitor kind ctx ⟨w.heap, host⟩
      rwa [visit] at left
    obtain ⟨extended, closed, live, formContext⟩ := ready
    have comes := stops_comes stands extended sound.data
    have inner := stops_inner closed live (nodeKind w.heap ctx.schema)
    rw [← same] at extended closed live comes inner looked ⊢
    rw [looked] at children
    obtain ⟨told, extended', closed'⟩ := told_of_each enters children
      ⟨extended, closed, live, formContext⟩ (fun child mem => sound.child formClosed mem)
      ((List.forall₂_and_left _ _).mpr ⟨inner, comes.flip⟩).flip order
    exact ⟨_, visitsOf_attended _ _ _ _ _, told, extended', closed'⟩

theorem Node.kind_eq_arrayItem_iff (h : Heap) (node : Node) :
    node.kind h = .arrayItem ↔ node.isElement = true := by
  unfold Node.kind
  cases node.isElement with
  | true => exact iff_of_true rfl rfl
  | false =>
    refine iff_of_false (fun item => ?_) Bool.false_ne_true
    rcases nodeKind_cases h node.schema with (is | is) | is <;> exact nomatch is.symm.trans item

theorem Comes.isElement_eq {g : Heap} (comes : Comes h g parent node stop) :
    stop.isElement = node.isElement := by
  cases comes with
  | property plain => exact plain.symm
  | element element => exact element.symm

theorem ofArray_of_shown {visit : Visit} (kind : visit.kind = node.kind h)
    (array : visit.ctx.arrayUiSchema = if node.isElement then some parent.uiSchema else none) :
    OfArray parent.uiSchema visit := by
  unfold OfArray
  rw [array, kind]
  exact if_congr (Node.kind_eq_arrayItem_iff h node).symm rfl rfl

/-- A node that is visited with slots that show it, and what is below it. -/
theorem entered_of_attends {inner : Heap → NodeKind} (enters : Enters walk h formContext room)
    (records : Records walk) (formClosed : h.Closed) (ready : Ready h formContext ctx w)
    (sound : Sound walk.cloneOptions.maxDepth h node) (shown : Shows h w.heap formContext node ctx)
    (array : ctx.arrayUiSchema = if node.isElement then some parent.uiSchema else none)
    (order : Preorder h 0 (node.children h) below)
    (looked : inner w.heap = nodeKind w.heap ctx.schema)
    (attends : Attends walk (walk.Walks room) (node.kind h) inner ctx w trace x w') :
    Entered h formContext walk.limit (room + 1) parent.uiSchema node below (visitsOf trace.located) x ∧
      w.heap.Extends w'.heap ∧ w'.heap.Closed := by
  obtain ⟨visits, told, inside, extended, closed⟩ := told_of_attends enters records formClosed ready
    sound shown.stands order looked attends
  rw [told]
  exact ⟨.visited (Nat.succ_pos room) rfl shown (ofArray_of_shown rfl array) inside, extended, closed⟩

/-- **From each stop on** the nodes there are visited, by induction on the levels left. -/
theorem enters (records : Records walk) (formClosed : h.Closed) (formContext : Value) (room : Nat) :
    Enters walk h formContext room := by
  induction room with
  | zero =>
    intro parent node below stop w trace x w' ready sound comes inner order walks
    cases walks with
    -- copying cannot fail; it comes before the check of the depth, except for elements
    | unmade fits made =>
      obtain ⟨ctx, u, made', -⟩ := make_shows comes ready.closed ready.live inner sound.schema
        sound.uiSchema
      cases made.symm.trans made'
    | deepElement => exact ⟨.deep rfl, .refl _, ready.closed⟩
    | deep other full made =>
      have own := make_own ready.closed inner made
      exact ⟨.deep rfl, own.extended, own.closed⟩
    | plain _ fits | node _ fits | element _ fits => exact absurd rfl fits
  | succ room ih =>
    intro parent node below stop w trace x w' ready sound comes inner order walks
    obtain ⟨ctx, u, made, shown, array⟩ := make_shows comes ready.closed ready.live inner
      sound.schema sound.uiSchema
    have own := make_own ready.closed inner made
    have described := shown.schema.nodeKind_eq
    have ready' : Ready h formContext ctx u :=
      ⟨ready.extended.trans own.extended, own.closed, own.live,
        shown.formContext.trans ready.formContext⟩
    rw [ready.formContext] at shown
    cases walks with
    | unmade fits made' => cases made.symm.trans made'
    | deepElement _ full | deep _ full => exact absurd full (Nat.succ_ne_zero room)
    | plain other fits made' field visit =>
      cases made.symm.trans made'
      have plain : node.isElement = false := by simpa [comes.isElement_eq] using other
      have kind : NodeKind.field = node.kind h := by
        rw [Node.kind, plain, ← described, field]
        rfl
      have leaf : node.children h = [] := by
        rw [Node.children, ← described, field]
      have same : w'.heap = u.heap := by
        have left := records.visitor .field ctx u
        rwa [visit] at left
      rw [leaf] at order
      cases order
      have entered : Entered h formContext walk.limit (room + 1) parent.uiSchema node []
          [([], ⟨.field, ctx, u.heap⟩)] (.ok ()) :=
        .visited (Nat.succ_pos room) kind shown (ofArray_of_shown kind array) (.nil _ _ _ _ _)
      rw [same]
      exact ⟨entered, own.extended, own.closed⟩
    | node other fits made' is container attends =>
      cases made.symm.trans made'
      subst is
      have plain : node.isElement = false := by simpa [comes.isElement_eq] using other
      have kind : nodeKind u.heap ctx.schema = node.kind h := by
        rw [Node.kind, plain, ← described]
        rfl
      rw [kind] at attends
      have looked : node.kind h = nodeKind u.heap ctx.schema := kind.symm
      obtain ⟨entered, extended, closed⟩ := entered_of_attends ih records formClosed ready' sound
        shown array order looked attends
      exact ⟨entered, own.extended.trans extended, closed⟩
    | element element fits made' attends =>
      cases made.symm.trans made'
      have kind : NodeKind.arrayItem = node.kind h :=
        ((Node.kind_eq_arrayItem_iff h node).mpr (comes.isElement_eq.symm.trans element)).symm
      rw [kind] at attends
      obtain ⟨entered, extended, closed⟩ := entered_of_attends ih records formClosed ready' sound
        shown array order rfl attends
      exact ⟨entered, own.extended.trans extended, closed⟩

end

/-! ## From the root -/

/-- The visits of a walk follow the nodes of a form, whose root has these slots. -/
structure Follows (h : Heap) (root : Context) (depth : Nat) (nodes : List (Position × Node))
    (visits : List (Position × Visit)) : Prop where
  /-- The nodes are visited in pre-order, up to the first one that is too deep. The root is visited with
  its own slots, and each other node with slots that show it. -/
  shown : List.Forall₂ (fun found call => call.1 = found.1 ∧ call.2.kind = found.2.kind h ∧
      if found.1 = [] then call.2.ctx = root
      else Shows h call.2.heap root.formContext found.2 call.2.ctx)
    (nodes.takeWhile fun found => found.1.length < depth) visits
  /-- Below a node, elements of an array have the very presentation that the array is visited with, and
  other nodes have none. -/
  arrays : ∀ p i child, (p ++ [i], child) ∈ visits → ∃ parent, (p, parent) ∈ visits ∧
    child.ctx.arrayUiSchema = if child.kind = .arrayItem then some parent.ctx.uiSchema else none

section

variable {walk : Walk σ} {h : Heap} {root : Context} {room : Nat} {limit : FormError}
  {nodes below : List (Position × Node)} {visits : List (Position × Visit)} {w w' : World σ}
  {trace : Trace} {x : Except FormError Unit}

/-- A root that is visited, and what is visited below it. -/
theorem Told.follows (told : Told h root.formContext limit (room + 1) root.uiSchema below visits x) :
    Follows h root (room + 1) (([], .root h root) :: below)
      (([], ⟨nodeKind h root.schema, root, h⟩) :: visits) where
  shown := by
    rw [List.takeWhile_cons_of_pos (by simp)]
    refine .cons ⟨rfl, rfl, rfl⟩ ?_
    have inside := ((List.forall₂_and_left _ _).mpr ⟨told.inside, told.shown.flip⟩).flip
    refine inside.imp fun found call ⟨inside, same, kind, shown⟩ => ⟨same, kind, ?_⟩
    rw [if_neg (same ▸ inside)]
    exact shown
  arrays p i child mem := by
    have mem := (List.mem_cons.mp mem).resolve_left fun top =>
      List.append_ne_nil_of_right_ne_nil p (List.cons_ne_nil i []) (congrArg Prod.fst top)
    by_cases top : p = []
    · subst top
      exact ⟨_, List.mem_cons_self, told.tops i child mem⟩
    · obtain ⟨parent, above, array⟩ := told.arrays p i child top mem
      exact ⟨parent, List.mem_cons_of_mem _ above, array⟩

/-- A walk from the root, with so many levels. -/
theorem follows_of_walks (records : Records walk) (closed : w.heap.Closed) (live : root.Live w.heap)
    (sound : Sound walk.cloneOptions.maxDepth w.heap (.root w.heap root))
    (form : IsForm w.heap (.root w.heap root) nodes)
    (walks : walk.Walks room (.root root) w trace x w') :
    Follows w.heap root room nodes (visitsOf trace.located) ∧
      x = if nodes.all (shallow room) then .ok () else .error walk.limit := by
  obtain ⟨below, order, rfl⟩ := form
  cases room with
  | zero =>
    cases walks with
    | unmade _ made => cases made
    | deepElement | deep => exact ⟨⟨.nil, fun _ _ _ mem => nomatch mem⟩, rfl⟩
    | plain _ fits | node _ fits | element _ fits => exact absurd rfl fits
  | succ room =>
    have ready : Ready w.heap root.formContext root w := ⟨.refl _, closed, live, rfl⟩
    cases walks with
    | unmade _ made => cases made
    | deepElement _ full | deep _ full => exact absurd full (Nat.succ_ne_zero room)
    | element element => cases element
    | plain _ _ made field =>
      cases made
      have leaf : (Node.root w.heap root).children w.heap = [] := by
        rw [Node.children, Node.root, field]
      rw [leaf] at order
      cases order
      have follows := (Told.nil w.heap root.formContext walk.limit (room + 1) root.uiSchema).follows
      rw [field] at follows
      exact ⟨follows, rfl⟩
    | node _ _ made is container attends =>
      cases made
      subst is
      obtain ⟨visits, told, inner, -, -⟩ := told_of_attends
        (enters records closed root.formContext room) records closed ready sound (stands_root _ _)
        order rfl attends
      rw [told]
      exact ⟨inner.follows, inner.result⟩

/-- **A walk visits exactly its form.** If the schema and the presentation can be copied, and the hook
and the visitor only record, the visits follow the nodes of the form, which depend on nothing but the
slots of the root and what is there before. The walk fails if some node is too deep, and with this
error only. -/
theorem run_form (records : Records walk) (closed : w.heap.Closed) (live : root.Live w.heap)
    (schema : Copyable walk.cloneOptions.maxDepth w.heap root.schema)
    (uiSchema : Copyable walk.cloneOptions.maxDepth w.heap root.uiSchema) :
    ∃ nodes visits, IsForm w.heap (.root w.heap root) nodes ∧
      (walk.logged.run root (w.traced [])).2.host.2.filterMap Event.visit? = visits.map Prod.snd ∧
      Follows w.heap root walk.options.maxDepth nodes visits ∧
      ((walk.run root w).1 = .error (.recursionLimit ⟨.walk, walk.options.maxDepth⟩) ↔
        ∃ found ∈ nodes, walk.options.maxDepth ≤ found.1.length) ∧
      ((walk.run root w).1 = .ok () ↔ ∀ found ∈ nodes, found.1.length < walk.options.maxDepth) := by
  have nests : w.heap.NestsWithin _ (Node.root w.heap root).schema := schema.nests
  obtain ⟨nodes, form⟩ := exists_isForm nests
  obtain ⟨trace, walked, same⟩ := run_trace walk root w []
  have sound : Sound walk.cloneOptions.maxDepth w.heap (.root w.heap root) :=
    ⟨schema, uiSchema, live "data" _ rfl⟩
  obtain ⟨follows, result⟩ := follows_of_walks records closed live sound form walked
  refine ⟨nodes, visitsOf trace.located, form, ?_, follows, ?_⟩
  · rw [same, map_snd_visitsOf]
    rfl
  · have all : nodes.all (shallow walk.options.maxDepth) = true ↔
        ∀ found ∈ nodes, found.1.length < walk.options.maxDepth := by
      simp [shallow]
    rw [result]
    split
    · next shallow =>
      refine ⟨iff_of_false nofun ?_, iff_of_true rfl (all.mp shallow)⟩
      rintro ⟨found, mem, deep⟩
      exact absurd (all.mp shallow found mem) (Nat.not_lt.mpr deep)
    · next deep =>
      have deep := mt all.mpr deep
      refine ⟨iff_of_true rfl ?_, iff_of_false nofun deep⟩
      simpa using deep

end

/-- A list of rows whose data contains itself; the presentation says nothing about what is in a row,
which is too deep. -/
theorem run_form_rows :
    let walk : Walk (List NodeKind) :=
      ⟨⟨2⟩, ⟨4⟩, fun _ w => (.ok (), w), fun kind _ w => ((), ⟨w.heap, w.host ++ [kind]⟩)⟩
    let h : Heap := ⟨#[
      .mapping (.ofList [("type", .string "array"), ("items", .container 1)]),
      .mapping (.ofList [("properties", .container 2)]),
      .mapping (.ofList [("name", .container 3)]),
      .mapping (.ofList [("type", .string "string")]),
      .mapping (.ofList [("items", .container 5)]),
      .mapping (.ofList [("title", .string "Row")]),
      .sequence #[.container 6]]⟩
    let root : Context := { schema := .container 0, uiSchema := .container 4, data := .container 6 }
    let w : World (List NodeKind) := ⟨h, []⟩
    Records walk ∧ h.Closed ∧ root.Live h ∧ Copyable 4 h root.schema ∧ Copyable 4 h root.uiSchema ∧
      ∃ nodes visits, IsForm h (.root h root) nodes ∧
        (walk.logged.run root (w.traced [])).2.host.2.filterMap Event.visit? =
          visits.map Prod.snd ∧
        Follows h root 2 nodes visits ∧
        ((walk.run root w).1 = .error (.recursionLimit ⟨.walk, 2⟩) ↔
          ∃ found ∈ nodes, 2 ≤ found.1.length) ∧
        ((walk.run root w).1 = .ok () ↔ ∀ found ∈ nodes, found.1.length < 2) := by
  intro walk h root w
  have records : Records walk := ⟨fun _ w => ⟨w.host, rfl⟩, fun _ _ _ => rfl⟩
  have closed : h.Closed := by decide
  have live : root.Live h := by decide
  have free (v : Value) : h.FreeOfReserved v := by
    rintro (_ | _ | _ | _ | _ | _ | _ | r) fields - cell <;> cases cell <;> decide
  have schema : Copyable 4 h root.schema := ⟨by decide, free _⟩
  have uiSchema : Copyable 4 h root.uiSchema := ⟨by decide, free _⟩
  exact ⟨records, closed, live, schema, uiSchema, run_form (w := w) records closed live schema uiSchema⟩

end Walk

end FormLogic
