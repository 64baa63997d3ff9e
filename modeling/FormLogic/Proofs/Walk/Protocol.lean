import FormLogic.Proofs.Walk.Trace
import Mathlib.Data.List.Lex

/-!
# `FormLogic.Proofs.Walk.Protocol` — when a walk calls its hook and its visitor

The log of a walk is that of its tree. So what there is to say about the order of the calls is said
about trees: the calls of a node stand together, they are there once, and the nodes follow each other
in the order of their positions, from the root downwards and from one child to the next. The other
half of the protocol is about errors: nothing comes after a hook that fails.

A protocol belongs to some nodes at some positions, not only to a whole tree. That way the protocol
of a tree is put together from those of its root and of what is below it, moved to their places.

## Contents
- `lt_append_cons`, `append_cons_lt`: the order of positions is that of a walk.
- `Protocol`: the calls of the nodes at some positions; `Protocol.downwards`, `Protocol.sideways`:
  their order; `Protocol.append`, `Protocol.moved`: putting them together.
- `siblings`: the nodes of some trees side by side; `protocol_of_each`, `protocol_of_walks`.
- `run_protocol`: each walk keeps to the protocol.
-/

namespace FormLogic.Walk

variable {σ : Type}

/-! ## Positions -/

/-- A node comes before all that is below it. -/
theorem lt_append_cons (p : Position) (i : Nat) (q : Position) : p < p ++ i :: q := by
  induction p with
  | nil => exact List.Lex.nil
  | cons j p ih => exact List.Lex.cons ih

/-- What is below a child comes before what is below the next one, and so do the children. -/
theorem append_cons_lt (p : Position) {i j : Nat} (before : i < j) (q q' : Position) :
    p ++ i :: q < p ++ j :: q' := by
  induction p with
  | nil => exact List.Lex.rel before
  | cons k p ih => exact List.Lex.cons ih

/-! ## The protocol -/

/-- The calls of some nodes at their positions, with what the walk of these nodes comes to. -/
structure Protocol (depth : Nat) (nodes : Position → Trace → Prop) (log : List (Position × Event))
    (result : Except FormError Unit) : Prop where
  /-- All calls are about the nodes. -/
  covered : ∀ call ∈ log, ∃ trace, nodes call.1 trace
  /-- The calls of a node stand together, and there are no others about it. -/
  together : ∀ p trace, nodes p trace → ∃ before after,
    log = before ++ trace.own.map (fun event => (p, event)) ++ after ∧
      ∀ call ∈ before ++ after, call.1 ≠ p
  /-- A node that is visited after its hook is not a field. -/
  kinds : ∀ p kind ctx before after children,
    nodes p (.attended kind ctx before after children) → kind ≠ .field
  /-- A call of a hook that fails is the last call, and its error is what the walk comes to. -/
  refused : ∀ p ctx h e, nodes p (.refused ctx h e) →
    result = .error e ∧ ∃ before, log = before ++ [(p, .hooked ctx h (.error e))]
  /-- The calls are in the order of the positions: a node comes before all that is below it, and all
  that is below one child before the next child. -/
  ordered : log.Pairwise fun call later => call.1 ≤ later.1
  /-- No call is about a node that is too deep. -/
  shallow : ∀ call ∈ log, call.1.length < depth

/-- The nodes, all moved below the child at an index. -/
def moved (index : Nat) (nodes : Position → Trace → Prop) (p : Position) (trace : Trace) : Prop :=
  ∃ q, p = index :: q ∧ nodes q trace

namespace Protocol

variable {depth : Nat} {nodes nodes' : Position → Trace → Prop} {log log' : List (Position × Event)}
  {x : Except FormError Unit}

/-- No nodes and no calls. -/
theorem nil (depth : Nat) (x : Except FormError Unit) : Protocol depth (fun _ _ => False) [] x where
  covered _ mem := nomatch mem
  together _ _ here := here.elim
  kinds _ _ _ _ _ _ here := here.elim
  refused _ _ _ _ here := here.elim
  ordered := .nil
  shallow _ mem := nomatch mem

/-- The calls of a node come before those of all that is below it. -/
theorem downwards (protocol : Protocol depth nodes log x) :
    log.Pairwise fun call later => ∀ i q, call.1 ≠ later.1 ++ i :: q := by
  refine protocol.ordered.imp fun {call later} le i q below => ?_
  have before := lt_append_cons later.1 i q
  rw [← below] at before
  exact absurd before (not_lt.mpr le)

/-- The calls of a child and of all below it come before those of the next children. -/
theorem sideways (protocol : Protocol depth nodes log x) :
    log.Pairwise fun call later => ∀ p i j q q', i < j → later.1 = p ++ i :: q →
      call.1 ≠ p ++ j :: q' := by
  refine protocol.ordered.imp fun {call later} le p i j q q' lt atChild atNext => ?_
  have before := append_cons_lt p lt q q'
  rw [← atChild, ← atNext] at before
  exact absurd before (not_lt.mpr le)

/-- **Nodes and later ones**, where the walk of the first ones does not fail. -/
theorem append (first : Protocol depth nodes log (.ok ())) (second : Protocol depth nodes' log' x)
    (before : ∀ p q trace trace', nodes p trace → nodes' q trace' → p < q) :
    Protocol depth (fun p trace => nodes p trace ∨ nodes' p trace) (log ++ log') x where
  covered call mem := by
    rcases List.mem_append.mp mem with mem | mem
    · exact (first.covered call mem).imp fun _ => Or.inl
    · exact (second.covered call mem).imp fun _ => Or.inr
  together p trace here := by
    rcases here with here | here
    · obtain ⟨front, back, rfl, others⟩ := first.together p trace here
      refine ⟨front, back ++ log', by simp only [List.append_assoc], fun call mem => ?_⟩
      rcases List.mem_append.mp (List.append_assoc front back log' ▸ mem) with mem | mem
      · exact others call mem
      · obtain ⟨trace', later⟩ := second.covered call mem
        exact (before _ _ _ _ here later).ne'
    · obtain ⟨front, back, rfl, others⟩ := second.together p trace here
      refine ⟨log ++ front, back, by simp only [List.append_assoc], fun call mem => ?_⟩
      rcases List.mem_append.mp (List.append_assoc log front back ▸ mem) with mem | mem
      · obtain ⟨trace', earlier⟩ := first.covered call mem
        exact (before _ _ _ _ earlier here).ne
      · exact others call mem
  kinds p kind ctx h k children here := by
    rcases here with here | here
    · exact first.kinds p kind ctx h k children here
    · exact second.kinds p kind ctx h k children here
  refused p ctx h e here := by
    rcases here with here | here
    · exact nomatch (first.refused p ctx h e here).1
    · obtain ⟨fails, front, rfl⟩ := second.refused p ctx h e here
      exact ⟨fails, log ++ front, by rw [List.append_assoc]⟩
  ordered := by
    refine List.pairwise_append.mpr ⟨first.ordered, second.ordered, fun call mem later mem' => ?_⟩
    obtain ⟨_, here⟩ := first.covered call mem
    obtain ⟨_, here'⟩ := second.covered later mem'
    exact (before _ _ _ _ here here').le
  shallow call mem := by
    rcases List.mem_append.mp mem with mem | mem
    · exact first.shallow call mem
    · exact second.shallow call mem

/-- **Nodes of a tree below another one.** -/
theorem moved (protocol : Protocol depth nodes log x) (index : Nat) :
    Protocol (depth + 1) (moved index nodes) (log.map fun call => (index :: call.1, call.2)) x where
  covered call mem := by
    obtain ⟨inner, held, rfl⟩ := List.mem_map.mp mem
    obtain ⟨trace, here⟩ := protocol.covered inner held
    exact ⟨trace, inner.1, rfl, here⟩
  together p trace here := by
    obtain ⟨q, rfl, here⟩ := here
    obtain ⟨front, back, rfl, others⟩ := protocol.together q trace here
    refine ⟨front.map _, back.map _, by simp only [List.map_append, List.map_map]; rfl, ?_⟩
    intro call mem
    rw [← List.map_append] at mem
    obtain ⟨inner, held, rfl⟩ := List.mem_map.mp mem
    exact fun same => others inner held (List.cons.inj same).2
  kinds p kind ctx h k children here := by
    obtain ⟨q, rfl, here⟩ := here
    exact protocol.kinds q kind ctx h k children here
  refused p ctx h e here := by
    obtain ⟨q, rfl, here⟩ := here
    obtain ⟨fails, front, rfl⟩ := protocol.refused q ctx h e here
    exact ⟨fails, _, List.map_append⟩
  ordered := List.pairwise_map.mpr (protocol.ordered.imp fun le => List.cons_le_cons index le)
  shallow call mem := by
    obtain ⟨inner, held, rfl⟩ := List.mem_map.mp mem
    exact Nat.succ_lt_succ (protocol.shallow inner held)

/-- A node by itself. -/
theorem root (trace : Trace) (fits : trace.own ≠ [] → 0 < depth)
    (kinds : ∀ kind ctx before after children,
      trace = .attended kind ctx before after children → kind ≠ .field)
    (refused : ∀ ctx h e, trace = .refused ctx h e → x = .error e) :
    Protocol depth (fun p found => p = [] ∧ found = trace)
      (trace.own.map fun event => ([], event)) x where
  covered call mem := by
    obtain ⟨event, _, rfl⟩ := List.mem_map.mp mem
    exact ⟨trace, rfl, rfl⟩
  together p found here := by
    obtain ⟨rfl, rfl⟩ := here
    exact ⟨[], [], by simp, fun _ mem => nomatch mem⟩
  kinds p kind ctx h k children here := kinds kind ctx h k children here.2.symm
  refused p ctx h e here := by
    obtain ⟨rfl, rfl⟩ := here
    exact ⟨refused ctx h e rfl, [], rfl⟩
  ordered := by
    exact List.pairwise_map.mpr (List.pairwise_of_forall fun _ _ => le_rfl)
  shallow call mem := by
    obtain ⟨event, own, rfl⟩ := List.mem_map.mp mem
    exact fits (List.ne_nil_of_mem own)

end Protocol

/-! ## Trees -/

/-- The nodes of trees side by side, the first of them being at the index. -/
def siblings (index : Nat) (traces : List Trace) (p : Position) (trace : Trace) : Prop :=
  ∃ i q child, p = (index + i) :: q ∧ traces[i]? = some child ∧ child.at? q = some trace

theorem not_siblings_nil (index : Nat) (p : Position) (trace : Trace) :
    ¬ siblings index [] p trace := by
  rintro ⟨_, _, _, _, here, _⟩
  cases here

theorem siblings_cons (index : Nat) (first : Trace) (rest : List Trace) (p : Position)
    (trace : Trace) : siblings index (first :: rest) p trace ↔
      moved index (fun q found => first.at? q = some found) p trace ∨
        siblings (index + 1) rest p trace := by
  constructor
  · rintro ⟨i, q, child, rfl, here, found⟩
    cases i with
    | zero =>
      obtain rfl := Option.some.inj here
      exact Or.inl ⟨q, rfl, found⟩
    | succ i => exact Or.inr ⟨i, q, child, by rw [Nat.add_right_comm]; rfl, here, found⟩
  · rintro (⟨q, rfl, found⟩ | ⟨i, q, child, rfl, here, found⟩)
    · exact ⟨0, q, first, rfl, rfl, found⟩
    · exact ⟨i + 1, q, child, by rw [Nat.add_right_comm]; rfl, here, found⟩

/-- The nodes of a tree are its root and what is below it. -/
theorem at?_iff (root : Trace) (p : Position) (trace : Trace) : root.at? p = some trace ↔
    (p = [] ∧ trace = root) ∨ siblings 0 root.children p trace := by
  cases p with
  | nil =>
    constructor
    · intro found
      exact Or.inl ⟨rfl, (Option.some.inj found).symm⟩
    · rintro (⟨_, rfl⟩ | ⟨_, _, _, impossible, _⟩)
      · rfl
      · cases impossible
  | cons i q =>
    rw [Trace.at?, Option.bind_eq_some_iff]
    constructor
    · rintro ⟨child, here, found⟩
      exact Or.inr ⟨i, q, child, by rw [Nat.zero_add], here, found⟩
    · rintro (⟨impossible, _⟩ | ⟨j, q', child, same, here, found⟩)
      · cases impossible
      · rw [Nat.zero_add] at same
        cases same
        exact ⟨child, here, found⟩

section

variable {walk : Walk σ} {below : Below σ} {room : Nat} {w w' : World σ}
  {x : Except FormError Unit} {ctx : Context}

/-- The stops below a node keep to the protocol if each of them does. -/
theorem protocol_of_each
    (each : ∀ {stop w trace x w'}, below stop w trace x w' →
      Protocol room (fun p found => trace.at? p = some found) trace.located x)
    {stops : List Stop} {traces : List Trace} (walked : Each below stops w traces x w')
    (index : Nat) :
    Protocol (room + 1) (siblings index traces) (Trace.locatedFrom index traces) x := by
  induction walked generalizing index with
  | nil =>
    have none : siblings index [] = fun _ _ => False := by
      funext p trace
      exact eq_false (not_siblings_nil index p trace)
    rw [none, Trace.locatedFrom]
    exact .nil _ _
  | @cut stop rest w w' trace e fails =>
    have alone : siblings index [trace] =
        moved index (fun q found => trace.at? q = some found) := by
      funext p found
      exact propext ((siblings_cons index trace [] p found).trans
        (or_iff_left (not_siblings_nil _ p found)))
    rw [alone, Trace.locatedFrom, Trace.locatedFrom, List.append_nil]
    exact (each fails).moved index
  | @cons stop rest w u w' trace traces x first others ih =>
    have both : siblings index (trace :: traces) = fun p found =>
        moved index (fun q found => trace.at? q = some found) p found ∨
          siblings (index + 1) traces p found :=
      funext fun p => funext fun found => propext (siblings_cons index trace traces p found)
    rw [both, Trace.locatedFrom]
    refine ((each first).moved index).append (ih (index + 1)) ?_
    rintro _ _ _ _ ⟨q, rfl, _⟩ ⟨i, q', _, rfl, _⟩
    exact List.Lex.rel (Nat.lt_of_lt_of_le (Nat.lt_succ_self index) (Nat.le_add_right _ i))

/-- A node with nothing below it. -/
theorem protocol_leaf {root : Trace} {depth : Nat} (leaf : root.children = [])
    (located : root.located = root.own.map fun event => ([], event))
    (fits : root.own ≠ [] → 0 < depth)
    (kinds : ∀ kind ctx before after children,
      root = .attended kind ctx before after children → kind ≠ .field)
    (refused : ∀ ctx h e, root = .refused ctx h e → x = .error e) :
    Protocol depth (fun p found => root.at? p = some found) root.located x := by
  have alone : (fun p found => root.at? p = some found) = fun p found => p = [] ∧ found = root := by
    funext p found
    refine propext ((at?_iff root p found).trans (or_iff_left ?_))
    rw [leaf]
    exact not_siblings_nil 0 p found
  rw [alone, located]
  exact .root root fits kinds refused

/-- A node that is hooked keeps to the protocol if the stops below it do. -/
theorem protocol_of_attends {kind : NodeKind} {inner : Heap → NodeKind} {trace : Trace}
    (each : ∀ {stop w trace x w'}, below stop w trace x w' →
      Protocol room (fun p found => trace.at? p = some found) trace.located x)
    (container : kind ≠ .field) (attends : Attends walk below kind inner ctx w trace x w') :
    Protocol (room + 1) (fun p found => trace.at? p = some found) trace.located x := by
  cases attends with
  | refused hook =>
    refine protocol_leaf rfl rfl (fun _ => Nat.succ_pos room) ?_ ?_
    · exact fun _ _ _ _ _ same => nomatch same
    · rintro _ _ _ ⟨⟩
      rfl
  | attended hook visit children =>
    rename_i u u' traces
    have below := protocol_of_each each children 0
    have own : Protocol (room + 1) _ _ (.ok ()) :=
      .root (.attended kind ctx w.heap u.heap traces) (fun _ => Nat.succ_pos room)
        (fun _ _ _ _ _ same => by cases same; exact container) (fun _ _ _ same => nomatch same)
    have both : (fun p found => (Trace.attended kind ctx w.heap u.heap traces).at? p = some found) =
        fun p found => (p = [] ∧ found = .attended kind ctx w.heap u.heap traces) ∨
          siblings 0 traces p found :=
      funext fun p => funext fun found => propext (at?_iff _ p found)
    rw [both]
    refine own.append below ?_
    rintro _ _ _ _ ⟨rfl, _⟩ ⟨i, q, _, rfl, _⟩
    exact List.Lex.nil

end

/-- **A walk from a stop on** keeps to the protocol, by induction on the levels left. -/
theorem protocol_of_walks {walk : Walk σ} {room : Nat} {stop : Stop} {w w' : World σ} {trace : Trace}
    {x : Except FormError Unit} (walks : walk.Walks room stop w trace x w') :
    Protocol room (fun p found => trace.at? p = some found) trace.located x := by
  have unreached (depth : Nat) (x : Except FormError Unit) :
      Protocol depth (fun p found => Trace.unreached.at? p = some found) Trace.unreached.located x :=
    protocol_leaf rfl rfl (fun own => absurd rfl own) (fun _ _ _ _ _ same => nomatch same)
      fun _ _ _ same => nomatch same
  induction room generalizing stop w trace x w' with
  | zero =>
    cases walks with
    | unmade | deepElement | deep => exact unreached _ _
    | plain _ fits | node _ fits | element _ fits => exact absurd rfl fits
  | succ room ih =>
    cases walks with
    | unmade | deepElement | deep => exact unreached _ _
    | plain =>
      exact protocol_leaf rfl rfl (fun _ => Nat.succ_pos room) (fun _ _ _ _ _ same => nomatch same)
        fun _ _ _ same => nomatch same
    | node _ _ _ _ container attends =>
      refine protocol_of_attends (fun walks => ih walks) ?_ attends
      rcases container with rfl | rfl <;> decide
    | element _ _ _ attends =>
      exact protocol_of_attends (fun walks => ih walks) (by decide) attends

/-- **The event protocol.** Whatever the hook and the visitor do, each walk has a tree of the nodes
that it comes to. The log of the walk holds the calls of the tree, and these keep to the protocol. So
no call about what is below a node comes before one about the node, and none about what is below a
child before one about an earlier child or what is below that. -/
theorem run_protocol (walk : Walk σ) (root : Context) (w : World σ) :
    ∃ trace : Trace, walk.Walked root w trace (walk.run root w).1 (walk.run root w).2 ∧
      walk.logged.run root (w.traced []) =
        ((walk.run root w).1, (walk.run root w).2.traced (trace.located.map Prod.snd)) ∧
      Protocol walk.options.maxDepth (fun p found => trace.at? p = some found) trace.located
        (walk.run root w).1 ∧
      (trace.located.Pairwise fun call later => ∀ i q, call.1 ≠ later.1 ++ i :: q) ∧
      trace.located.Pairwise fun call later => ∀ p i j q q', i < j → later.1 = p ++ i :: q →
        call.1 ≠ p ++ j :: q' := by
  obtain ⟨trace, walked, same⟩ := run_trace walk root w []
  have protocol := protocol_of_walks walked
  exact ⟨trace, walked, same, protocol, protocol.downwards, protocol.sideways⟩

end FormLogic.Walk
