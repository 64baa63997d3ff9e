import FormLogic.Proofs.Engine.Spread
import FormLogic.Proofs.Walk.Privacy

/-!
# `FormLogic.Proofs.Walk.Leak` — through which slots rules leak

When the rules of a node run, its schema and its presentation are its own. Nothing that earlier nodes
lead to is reached from there, so rules that mention only these two slots leave earlier nodes alone,
their own ancestors among them. The other slots are shared: the form context and the data with the
whole form, and the presentation of the array with the array node that it belongs to and with the
other elements. This is where rules leak, and the only way they do.

The result is about one call of the hook, whatever the rules of the other nodes have done before.

## Contents
- `ruleWalk`, `ruleWalk_safe`: walks whose hook runs the rules of each node.
- `Since`: a node whose hook is called after another node has been visited; `since_of_log`.
- `run_leaks_through`: how a later hook can change what a node leads to.
- `run_leaks_to_array`: the rules of an element change the presentation of its array.
-/

namespace FormLogic.Walk

/-! ## Walks that run rules -/

/-- The engine that evaluates with an interpreter. -/
def ruleEngine (config : Engine.Config) : Engine Interpreter :=
  ⟨Interpreter.evaluate, config⟩

/-- The walk whose hook runs the rules of each node. -/
def ruleWalk (config : Engine.Config) (options : Options) (cloneOptions : Clone.Options)
    (visitor : Visitor Interpreter) : Walk Interpreter :=
  ⟨options, cloneOptions, (ruleEngine config).process, visitor⟩

variable {config : Engine.Config} {options : Options} {cloneOptions : Clone.Options}
  {visitor : Visitor Interpreter}

/-- Rules make no references up, whatever they are. -/
theorem ruleWalk_safe (still : ∀ kind ctx w, (visitor kind ctx w).2.heap = w.heap) :
    (ruleWalk config options cloneOptions visitor).Safe fun w => w.heap.Closed where
  closed _ fits := fits
  grown _ _ _ _ closed := closed
  hook ctx w fits live := by
    have spreads : w.heap.Spreads ((ruleEngine config).process ctx w).2.heap
        (ctx.valuesOf bindingNames) :=
      Engine.process_spreads fits live w.host fun _ _ _ _ name known _ => known
    exact ⟨spreads.closed, spreads.grown⟩
  visitor kind ctx w fits live := by
    have same := still kind ctx w
    show (visitor kind ctx w).2.heap.Closed ∧ w.heap.size ≤ (visitor kind ctx w).2.heap.size
    rw [same]
    exact ⟨fits, Nat.le_refl _⟩

/-! ## One call after another -/

section

variable {σ : Type} {walk : Walk σ} {fit : World σ → Prop} {root : Context} {w : World σ}
  {earlier middle later : List Event} {kind : NodeKind} {ctx c : Context} {k g : Heap}
  {x : Except FormError Unit}

/-- The hook is called on the node `c` after the node `ctx` has been visited: nothing dangles in
either call, and what is there in the first one does not lead to the slots in the second one. -/
structure Since (ctx : Context) (k : Heap) (c : Context) (g : Heap) : Prop where
  closed : k.Closed
  live : ctx.Live k
  closed' : g.Closed
  live' : c.Live g
  own : OwnSince k.size g c

/-- A node that a walk visits before it calls the hook on another one. -/
theorem since_of_log (safe : walk.Safe fit) (fits : fit w) (live : root.Live w.heap)
    (log : (walk.logged.run root (w.traced [])).2.host.2 =
      earlier ++ .visited kind ctx k :: (middle ++ .hooked c g x :: later)) :
    Since ctx k c g := by
  obtain ⟨trace, walked, same⟩ := run_trace walk root w []
  have events : trace.events =
      earlier ++ .visited kind ctx k :: (middle ++ .hooked c g x :: later) := by
    rw [← log, same]
    rfl
  -- only the hook of the root is not called on slots of its own, and it is called first
  obtain ⟨front, inner, _, split, hooks, short, _, ⟨-, -, privacy⟩⟩ :=
    (rules_privacy safe).walked safe walked fits live
  obtain ⟨before, _, rfl⟩ := split_events (split.symm.trans events) short fun _ mem => by
    obtain ⟨_, eq⟩ := hooks _ mem
    cases eq
  have first := privacy.live _ (List.mem_append_right _ List.mem_cons_self)
  have hooked : .hooked c g x ∈ middle ++ Event.hooked c g x :: later :=
    List.mem_append_right _ List.mem_cons_self
  have second := privacy.live _ (List.mem_append_right _ (List.mem_cons_of_mem _ hooked))
  have pairs := List.pairwise_cons.mp (List.pairwise_append.mp privacy.later).2.1
  exact ⟨first.1, first.2, second.1, second.2, pairs.1 _ hooked c g x rfl⟩

/-- What the schema and the presentation of a node lead to is there. -/
theorem lt_size_of_reach (closed : k.Closed) (live : ctx.Live k) {r : Ref}
    (reached : k.Reach {ctx.schema, ctx.uiSchema} (.container r)) : r < k.size := by
  refine reached.live closed ?_ r rfl
  rintro _ (rfl | rfl)
  · exact live "schema" _ rfl
  · exact live "uiSchema" _ rfl

theorem Since.grown (since : Since ctx k c g) : k.size ≤ g.size := by
  obtain ⟨_, le, _, own⟩ := since.own
  exact Nat.le_trans le own.extended.grown

/-- The slots of the earlier node and of the later one lead to nothing in common. It does not matter
whether the earlier node has led there at its visit or does so now. -/
theorem Since.apart (since : Since ctx k c g) {r : Ref}
    (reached : k.Reach {ctx.schema, ctx.uiSchema} (.container r) ∨
      g.Reach {ctx.schema, ctx.uiSchema} (.container r)) :
    ¬ g.Reach {c.schema, c.uiSchema} (.container r) := by
  intro inner
  rcases reached with before | now
  · obtain ⟨_, le, _, own⟩ := since.own
    have old : r < k.size := lt_size_of_reach since.closed since.live before
    exact absurd old (Nat.not_lt.mpr (Nat.le_trans le (own.new r inner)))
  · refine since.own.unreached since.live inner (now.trans ?_)
    rintro _ (rfl | rfl)
    · exact .root ⟨"schema", by decide, rfl⟩
    · exact .root ⟨"uiSchema", by decide, rfl⟩

end

/-! ## The shared slots -/

/-- **Rules leak through the shared slots only.** When a node has been visited, a later call of the
hook changes a container that the schema or the presentation of the node leads to only if the rules
that it comes to mention a slot other than schema and presentation, and this slot leads there too. So
rules that mention only schemas and presentations do not leak, and if they also mention the
presentation of the array then they leak into what that leads to. -/
theorem run_leaks_through (config : Engine.Config) (options : Options)
    (cloneOptions : Clone.Options) (visitor : Visitor Interpreter)
    (still : ∀ kind ctx w, (visitor kind ctx w).2.heap = w.heap) (root : Context)
    (w : World Interpreter) (closed : w.heap.Closed) (live : root.Live w.heap) :
    ∀ earlier kind ctx k middle c g x later,
      ((ruleWalk config options cloneOptions visitor).logged.run root (w.traced [])).2.host.2 =
        earlier ++ .visited kind ctx k :: (middle ++ .hooked c g x :: later) →
      ∀ i names, (∀ rule ∈ (ruleEngine config).rulesMet c ⟨g, i⟩, rule.MentionsOnly names) →
        ∀ r, (k.Reach {ctx.schema, ctx.uiSchema} (.container r) ∨
            g.Reach {ctx.schema, ctx.uiSchema} (.container r)) →
          ((ruleEngine config).process c ⟨g, i⟩).2.heap.cell r ≠ g.cell r →
            ∃ name ∈ names, name ≠ "schema" ∧ name ≠ "uiSchema" ∧
              ∃ v, c.binding? name = some v ∧ g.Reach {v} (.container r) := by
  intro earlier kind ctx k middle c g x later log i names only r reached changed
  have safe : (ruleWalk config options cloneOptions visitor).Safe fun w => w.heap.Closed :=
    ruleWalk_safe still
  have since := since_of_log safe closed live log
  have spreads := Engine.process_spreads since.closed' since.live' i only
  have inside : r < g.size := by
    rcases reached with before | now
    · exact Nat.lt_of_lt_of_le (lt_size_of_reach since.closed since.live before) since.grown
    · exact lt_size_of_reach since.closed' (since.live.mono since.grown) now
  have mentioned : g.Reach (c.valuesOf names) (.container r) := by
    by_contra unreached
    exact changed (spreads.frame r inside unreached)
  obtain ⟨v, ⟨name, used, bound⟩, below⟩ := mentioned.exists_root
  -- the node's own slots do not lead there
  have other : v ∉ ({c.schema, c.uiSchema} : Set Value) := by
    intro own
    refine since.apart reached (below.trans ?_)
    rintro _ rfl
    exact .root own
  refine ⟨name, used, ?_, ?_, v, bound, below⟩
  · rintro rfl
    exact other (Or.inl (Option.some.inj bound).symm)
  · rintro rfl
    exact other (Or.inr (Option.some.inj bound).symm)

/-- A list with one element, whose rule always runs this branch. -/
def oneElement (branch : String) : Heap :=
  ⟨#[.mapping (.ofList [("type", .string "array"), ("items", .container 1)]),
    .mapping (.ofList [("type", .string "string")]),
    .mapping (.ofList [("items", .container 3)]),
    .mapping (.ofList [("ui:options", .container 4)]),
    .mapping (.ofList [("formRules", .container 5)]),
    .sequence #[.container 6],
    .mapping (.ofList [("if", .string "true"), ("then", .string branch)]),
    .sequence #[.string "a"]]⟩

/-- The slots of the list. -/
def oneElementRoot : Context :=
  { schema := .container 0, uiSchema := .container 2, data := .container 7 }

/-- Whether a log is that of two nodes with a hook each, and the calls satisfy a test. -/
def twoNodes (test : Context → Heap → Context → Heap → Context → Heap → Bool) :
    List Event → Bool
  | [.hooked c₀ g₀ _, .visited _ ctx k, .hooked c g _, .visited _ _ _] => test c₀ g₀ ctx k c g
  | _ => false

theorem exists_of_twoNodes {test : Context → Heap → Context → Heap → Context → Heap → Bool}
    {log : List Event} (seen : twoNodes test log = true) :
    ∃ c₀ g₀ x₀ kind ctx k c g x after,
      log = [.hooked c₀ g₀ x₀] ++ .visited kind ctx k :: ([] ++ .hooked c g x :: [after]) ∧
        (∀ c x g, .hooked c g x ≠ after) ∧ test c₀ g₀ ctx k c g = true := by
  unfold twoNodes at seen
  split at seen
  · next c₀ g₀ x₀ kind ctx k c g x kind' c' k' =>
    exact ⟨c₀, g₀, x₀, kind, ctx, k, c, g, x, .visited kind' c' k', rfl, fun _ _ _ => nofun, seen⟩
  · cases seen

/-- The rule of the element changes its own presentation, and that of the list stays as it is. -/
theorem run_leaks_through_element :
    let h := oneElement "uiSchema.x = schema"
    let visitor : Visitor Interpreter := fun _ _ w => ((), w)
    let w : World Interpreter := ⟨h, .fresh⟩
    (∀ kind ctx w, (visitor kind ctx w).2.heap = w.heap) ∧ w.heap.Closed ∧
      oneElementRoot.Live w.heap ∧ ∃ earlier kind ctx k middle c g x later,
        ((ruleWalk {} {} {} visitor).logged.run oneElementRoot (w.traced [])).2.host.2 =
          earlier ++ .visited kind ctx k :: (middle ++ .hooked c g x :: later) ∧
        (∀ rule ∈ (ruleEngine {}).rulesMet c ⟨g, .fresh⟩, rule.MentionsOnly ["schema", "uiSchema"]) ∧
        ((ruleEngine {}).process c ⟨g, .fresh⟩).2.heap.lookup c.uiSchema "x" = c.schema ∧
        ctx.uiSchema = .container 2 ∧
        ((ruleEngine {}).process c ⟨g, .fresh⟩).2.heap.cell 2 = g.cell 2 := by
  intro h visitor w
  have still : ∀ kind ctx w, (visitor kind ctx w).2.heap = w.heap := fun _ _ _ => rfl
  have closed : w.heap.Closed := by
    show h.Closed
    decide
  have live : oneElementRoot.Live w.heap := by
    show oneElementRoot.Live h
    decide
  have seen : twoNodes (fun _ _ ctx _ c g =>
      decide ((∀ rule ∈ (ruleEngine {}).rulesMet c ⟨g, .fresh⟩,
          rule.MentionsOnly ["schema", "uiSchema"]) ∧
        ((ruleEngine {}).process c ⟨g, .fresh⟩).2.heap.lookup c.uiSchema "x" = c.schema ∧
        ctx.uiSchema = .container 2))
      ((ruleWalk {} {} {} visitor).logged.run oneElementRoot (w.traced [])).2.host.2 = true := by
    decide +kernel
  obtain ⟨_, _, _, kind, ctx, k, c, g, x, _, log, _, tested⟩ := exists_of_twoNodes seen
  obtain ⟨only, stored, slot⟩ := of_decide_eq_true tested
  refine ⟨still, closed, live, _, _, _, _, _, _, _, _, _, log, only, stored, slot, ?_⟩
  by_contra changed
  have reached : k.Reach {ctx.schema, ctx.uiSchema} (.container 2) := .root (Or.inr slot.symm)
  obtain ⟨name, used, other, other', _⟩ := run_leaks_through {} {} {} visitor still oneElementRoot w
    closed live _ _ _ _ _ _ _ _ _ log .fresh _ only 2 (Or.inl reached) changed
  simp only [List.mem_cons, List.not_mem_nil, or_false] at used
  exact used.elim other other'

/-- **Rules leak into arrays.** The rule of the element mentions the presentation of its array only,
and changes what the presentation of the list holds, although the list has been visited. -/
theorem run_leaks_to_array :
    let visitor : Visitor Interpreter := fun _ _ w => ((), w)
    let w : World Interpreter := ⟨oneElement "arrayUiSchema.x = true", .fresh⟩
    let log := ((ruleWalk {} {} {} visitor).logged.run oneElementRoot (w.traced [])).2.host.2
    w.heap.Closed ∧ oneElementRoot.Live w.heap ∧
      (∀ c g x, .hooked c g x ∈ log → ∀ rule ∈ (ruleEngine {}).rulesMet c ⟨g, .fresh⟩,
        rule.MentionsOnly ["schema", "uiSchema", "arrayUiSchema"]) ∧
      ∃ earlier kind ctx k middle c g x later r,
        log = earlier ++ .visited kind ctx k :: (middle ++ .hooked c g x :: later) ∧
        k.Reach {ctx.schema, ctx.uiSchema} (.container r) ∧
        ((ruleEngine {}).process c ⟨g, .fresh⟩).2.heap.cell r ≠ g.cell r := by
  intro visitor w log
  have seen : twoNodes (fun c₀ g₀ ctx _ c g =>
      decide ((∀ rule ∈ (ruleEngine {}).rulesMet c₀ ⟨g₀, .fresh⟩,
          rule.MentionsOnly ["schema", "uiSchema", "arrayUiSchema"]) ∧
        (∀ rule ∈ (ruleEngine {}).rulesMet c ⟨g, .fresh⟩,
          rule.MentionsOnly ["schema", "uiSchema", "arrayUiSchema"]) ∧
        ctx.uiSchema = .container 2 ∧ g.lookup (.container 2) "x" = .undefined ∧
        ((ruleEngine {}).process c ⟨g, .fresh⟩).2.heap.lookup (.container 2) "x" = .bool true))
      log = true := by
    decide +kernel
  obtain ⟨c₀, g₀, x₀, kind, ctx, k, c, g, x, after, same, last, tested⟩ := exists_of_twoNodes seen
  obtain ⟨only₀, only, slot, absent, present⟩ := of_decide_eq_true tested
  refine ⟨by decide, by decide, ?_, _, _, _, _, _, _, _, _, _, 2, same, .root (Or.inr slot.symm), ?_⟩
  · intro c' g' x' mem
    rw [same] at mem
    simp only [List.singleton_append, List.nil_append, List.mem_cons, Event.hooked.injEq,
      reduceCtorEq, List.not_mem_nil, or_false, false_or, last] at mem
    rcases mem with ⟨rfl, rfl, rfl⟩ | ⟨rfl, rfl, rfl⟩
    · exact only₀
    · exact only
  · intro unchanged
    have alike : ((ruleEngine {}).process c ⟨g, .fresh⟩).2.heap.lookup (.container 2) "x" =
        g.lookup (.container 2) "x" := by
      unfold Heap.lookup Heap.fieldsOf?
      simp only [unchanged]
    rw [absent, present] at alike
    cases alike

end FormLogic.Walk
