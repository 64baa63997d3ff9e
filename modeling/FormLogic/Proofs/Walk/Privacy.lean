import FormLogic.Proofs.Heap.Forest
import FormLogic.Proofs.Walk.Slots

/-!
# `FormLogic.Proofs.Walk.Privacy` — what a hook finds belongs to its node

When the hook of a walk is called on a node other than the root, the schema and the presentation of
the node have just been made. Whatever earlier hooks have done, nothing that they could see leads
there. So a hook that keeps to the schema and the presentation of its node changes new containers
only, and a node that has been visited stays as it is.

The hook and the visitor are any functions that make no references up (`Safe`). Both results say how
the heap and the log of a part of a walk go together, so they are proved by the same induction: such
a statement holds of every walk from a stop on if it holds of single calls and can be chained
(`Rules`).

## Contents
- `Safe`, `Local`: what hooks and visitors cannot do, and what they can be asked not to do.
- `Rules`, `Rules.walks`: statements about parts of a walk.
- `Privacy`: each hook is called on slots of its own; `Stability`: what is there stays.
- `run_private`: whole walks.
-/

namespace FormLogic.Walk

variable {σ : Type} {walk : Walk σ} {fit : World σ → Prop}

/-! ## Hooks and visitors -/

/-- A hook and a visitor that make no references up. The worlds that they can meet are said to fit:
no reference dangles there, and the walk may make containers. On slots that do not dangle, the hook
and the visitor leave a world that fits, and take no containers away. -/
structure Safe (walk : Walk σ) (fit : World σ → Prop) : Prop where
  closed : ∀ w, fit w → w.heap.Closed
  grown : ∀ w w', fit w → Grown w w' → w'.heap.Closed → fit w'
  hook : ∀ ctx w, fit w → ctx.Live w.heap →
    fit (walk.hook ctx w).2 ∧ w.heap.size ≤ (walk.hook ctx w).2.heap.size
  visitor : ∀ kind ctx w, fit w → ctx.Live w.heap →
    fit (walk.visitor kind ctx w).2 ∧ w.heap.size ≤ (walk.visitor kind ctx w).2.heap.size

/-- The hook changes only containers that the schema or the presentation of the node leads to when it
is called, and new ones. The visitor changes nothing. -/
structure Local (walk : Walk σ) (fit : World σ → Prop) : Prop where
  hook : ∀ ctx w, fit w → ctx.Live w.heap → ∀ r, r < w.heap.size →
    ¬ w.heap.Reach {ctx.schema, ctx.uiSchema} (.container r) →
      (walk.hook ctx w).2.heap.cell r = w.heap.cell r
  visitor : ∀ kind ctx w, (walk.visitor kind ctx w).2.heap = w.heap

/-! ## Parts of a walk -/

/-- Statements about the heap before a part of a walk, its log and the heap after it. They hold of
making slots, of the call of a hook on slots that have just been made, and of the call of a visitor,
and they can be chained. -/
structure Rules (walk : Walk σ) (fit : World σ → Prop)
    (R : Heap → List Event → Heap → Prop) : Prop where
  silent : ∀ {h k}, h.Extends k → R h [] k
  chain : ∀ {h g k l m}, R h l g → R g m k → R h (l ++ m) k
  hooked : ∀ {h ctx u x u'}, h.Closed → Own h u.heap ctx → fit u →
    walk.hook ctx u = (x, u') → R h [.hooked ctx u.heap x] u'.heap
  visited : ∀ {kind ctx u u'}, ctx.Live u.heap → fit u →
    walk.visitor kind ctx u = ((), u') → R u.heap [.visited kind ctx u.heap] u'.heap

/-- The statement holds of a part of a walk, which takes no containers away and leaves a world that
fits unless it fails. -/
structure Part (fit : World σ → Prop) (R : Heap → List Event → Heap → Prop) (h : Heap)
    (log : List Event) (x : Except FormError Unit) (w : World σ) : Prop where
  grown : h.size ≤ w.heap.size
  fits : x = .ok () → fit w
  holds : R h log w.heap

section

variable {R : Heap → List Event → Heap → Prop} {below : Below σ} {h : Heap} {w u w' : World σ}
  {x y : Except FormError Unit} {trace : Trace} {ctx : Context}

/-- The statement holds of a part of a walk and what comes after it. -/
theorem Rules.append (rules : Rules walk fit R) {log log' : List Event}
    (first : Part fit R h log y u) (second : Part fit R u.heap log' x w') :
    Part fit R h (log ++ log') x w' where
  grown := Nat.le_trans first.grown second.grown
  fits := second.fits
  holds := rules.chain first.holds second.holds

/-- The statement holds of each stop below a node. -/
def HoldsBelow (fit : World σ → Prop) (R : Heap → List Event → Heap → Prop) (below : Below σ) :
    Prop :=
  ∀ stop w trace x w', below stop w trace x w' → fit w → stop.Inner w.heap →
    Part fit R w.heap trace.events x w'

/-- Stops that are walked in order. -/
theorem Rules.each (rules : Rules walk fit R) (holds : HoldsBelow fit R below) {stops : List Stop}
    {traces : List Trace} (walked : Each below stops w traces x w') (fits : fit w)
    (inner : ∀ stop ∈ stops, stop.Inner w.heap) :
    Part fit R w.heap (traces.flatMap Trace.events) x w' := by
  induction walked with
  | @nil w => exact ⟨Nat.le_refl _, fun _ => fits, rules.silent (.refl _)⟩
  | cut fails =>
    rw [List.flatMap_singleton]
    exact holds _ _ _ _ _ fails fits (inner _ List.mem_cons_self)
  | cons first others ih =>
    have part := holds _ _ _ _ _ first fits (inner _ List.mem_cons_self)
    have rest := ih (part.fits rfl) fun stop mem =>
      (inner stop (List.mem_cons_of_mem _ mem)).mono part.grown
    rw [List.flatMap_cons]
    exact rules.append part rest

/-- A visitor is called on a node. -/
theorem Rules.visit (rules : Rules walk fit R) (safe : walk.Safe fit) {kind : NodeKind}
    (fits : fit w) (live : ctx.Live w.heap) (visit : walk.visitor kind ctx w = ((), w')) :
    Part fit R w.heap [.visited kind ctx w.heap] (.ok ()) w' := by
  obtain ⟨fits', grown⟩ := safe.visitor kind ctx w fits live
  rw [visit] at fits' grown
  exact ⟨grown, fun _ => fits', rules.visited live fits visit⟩

/-- A node is visited, and what is below it is walked. -/
theorem Rules.descend (rules : Rules walk fit R) (safe : walk.Safe fit)
    (holds : HoldsBelow fit R below) {kind inner : NodeKind} {traces : List Trace} (fits : fit w) (live : ctx.Live w.heap)
    (visit : walk.visitor kind ctx w = ((), u))
    (children : Each below (stops u.heap ctx inner) u traces x w') :
    Part fit R w.heap (.visited kind ctx w.heap :: traces.flatMap Trace.events) x w' := by
  have first := rules.visit safe fits live visit
  have fits' := first.fits rfl
  refine rules.append first (rules.each holds children fits' ?_)
  exact stops_inner (safe.closed u fits') (live.mono first.grown) inner

/-- A node with slots of its own is hooked, visited and looked into. -/
theorem Rules.attends (rules : Rules walk fit R) (safe : walk.Safe fit)
    (holds : HoldsBelow fit R below) {kind : NodeKind} {inner : Heap → NodeKind} (closed : h.Closed) (own : Own h w.heap ctx)
    (fits : fit w) (attends : Attends walk below kind inner ctx w trace x w') :
    Part fit R h trace.events x w' := by
  cases attends with
  | refused hook =>
    have after := safe.hook ctx w fits own.live
    rw [hook] at after
    exact ⟨Nat.le_trans own.extended.grown after.2, nofun, rules.hooked closed own fits hook⟩
  | attended hook visit children =>
    have after := safe.hook ctx w fits own.live
    rw [hook] at after
    have hooked : Part fit R h _ (.ok ()) _ :=
      ⟨Nat.le_trans own.extended.grown after.2, fun _ => after.1, rules.hooked closed own fits hook⟩
    rw [Trace.events_attended]
    exact rules.append hooked
      (rules.descend safe holds after.1 (own.live.mono after.2) visit children)

/-- **A walk from a stop on** that is below a node, by induction on the levels left. -/
theorem Rules.walks (rules : Rules walk fit R) (safe : walk.Safe fit) (room : Nat) :
    HoldsBelow fit R (walk.Walks room) := by
  have unreached {w w' : World σ} {e : FormError} (grown : Grown w w') :
      Part fit R w.heap Trace.unreached.events (.error e) w' :=
    ⟨grown.1.grown, nofun, rules.silent grown.1⟩
  have made {stop : Stop} {w w' : World σ} {y : Except FormError Context}
      (make : walk.make stop w = (y, w')) : Grown w w' :=
    of_ends (R := Grown w) (walk.make_grown stop w) make
  induction room with
  | zero =>
    intro stop w trace x w' walks fits inner
    cases walks with
    | unmade _ make | deep _ _ make => exact unreached (made make)
    | deepElement => exact unreached (.refl w)
    | plain _ fits | node _ fits | element _ fits => exact absurd rfl fits
  | succ room ih =>
    intro stop w trace x w' walks fits inner
    have closed := safe.closed w fits
    -- slots that have been made are the node's own, and leave a world that fits
    have slots {ctx : Context} {u : World σ} (make : walk.make stop w = (.ok ctx, u)) :
        Own w.heap u.heap ctx ∧ fit u := by
      have own := make_own closed inner make
      exact ⟨own, safe.grown w u fits (made make) own.closed⟩
    cases walks with
    | unmade _ make | deep _ _ make => exact unreached (made make)
    | deepElement => exact unreached (.refl w)
    | plain _ _ make _ visit =>
      obtain ⟨own, fits'⟩ := slots make
      have visited := rules.visit safe fits' own.live visit
      refine ⟨Nat.le_trans own.extended.grown visited.grown, visited.fits, ?_⟩
      exact rules.chain (rules.silent own.extended) visited.holds
    | node _ _ make _ _ attends | element _ _ make attends =>
      obtain ⟨own, fits'⟩ := slots make
      exact rules.attends safe ih closed own fits' attends

/-- **A walk from its root.** The statement holds of it, apart from the call of the hook on the root,
whose slots are not made by the walk. -/
theorem Rules.walked (rules : Rules walk fit R) (safe : walk.Safe fit) {root : Context}
    (walked : walk.Walked root w trace x w') (fits : fit w) (live : root.Live w.heap) :
    ∃ front log u, trace.events = front ++ log ∧ (∀ e ∈ front, ∃ y, e = .hooked root w.heap y) ∧
      front.length ≤ 1 ∧ w.heap.size ≤ u.size ∧ Part fit R u log x w' := by
  have still (u : World σ) {e : FormError} : Part fit R u.heap [] (.error e) u :=
    ⟨Nat.le_refl _, nofun, rules.silent (.refl _)⟩
  unfold Walked at walked
  cases levels : walk.options.maxDepth with
  | zero =>
    rw [levels] at walked
    cases walked with
    | deep _ _ make =>
      cases make
      exact ⟨[], [], _, rfl, List.forall_mem_nil _, Nat.zero_le _, Nat.le_refl _, still w⟩
    | unmade _ make => cases make
    | deepElement element => cases element
    | plain _ fits | node _ fits | element _ fits => exact absurd rfl fits
  | succ room =>
    rw [levels] at walked
    cases walked with
    | unmade _ make => cases make
    | deepElement element | element element => cases element
    | deep _ full => cases full
    | plain _ _ make _ visit =>
      cases make
      exact ⟨[], _, _, rfl, List.forall_mem_nil _, Nat.zero_le _, Nat.le_refl _,
        rules.visit safe fits live visit⟩
    | node _ _ make _ _ attends =>
      cases make
      cases attends with
      | refused hook =>
        have after := safe.hook root w fits live
        rw [hook] at after
        exact ⟨[_], [], w'.heap, rfl, by simp, Nat.le_refl _, after.2, still w'⟩
      | attended hook visit children =>
        have after := safe.hook root w fits live
        rw [hook] at after
        refine ⟨[_], _, _, Trace.events_attended .., by simp, Nat.le_refl _, after.2, ?_⟩
        exact rules.descend safe (rules.walks safe room) after.1 (live.mono after.2) visit children

end

/-! ## Slots of their own -/

/-- The slots of the node have been made since there were so many containers. -/
def OwnSince (n : Nat) (k : Heap) (ctx : Context) : Prop :=
  ∃ g : Heap, n ≤ g.size ∧ g.Closed ∧ Own g k ctx

theorem OwnSince.mono {n m : Nat} {k : Heap} {ctx : Context} (own : OwnSince n k ctx) (le : m ≤ n) :
    OwnSince m k ctx :=
  own.imp fun _ own => ⟨Nat.le_trans le own.1, own.2⟩

/-- What was there before does not lead to the slots of the node. -/
theorem OwnSince.unreached {h k : Heap} {ctx other : Context} (own : OwnSince h.size k ctx)
    (live : other.Live h) {r : Ref} (reached : k.Reach {ctx.schema, ctx.uiSchema} (.container r)) :
    ¬ k.Reach other.values (.container r) := by
  obtain ⟨g, later, closed, own⟩ := own
  have live' := (live.mono later).valuesOf bindingNames
  intro before
  have old := (own.extended.reach_old closed live' before).live closed live' r rfl
  exact absurd old (Nat.not_lt.mpr (own.new r reached))

/-- The hook is called on slots that have been made since all earlier calls. -/
structure Privacy (h : Heap) (log : List Event) (h' : Heap) : Prop where
  grown : h.size ≤ h'.size
  from' : ∀ e ∈ log, h.size ≤ e.heap.size
  upto : ∀ e ∈ log, e.heap.size ≤ h'.size
  live : ∀ e ∈ log, e.heap.Closed ∧ e.ctx.Live e.heap
  fresh : ∀ ctx k x, .hooked ctx k x ∈ log → OwnSince h.size k ctx
  later : log.Pairwise fun e f => ∀ ctx k x, f = .hooked ctx k x → OwnSince e.heap.size k ctx

theorem rules_privacy (safe : walk.Safe fit) : Rules walk fit Privacy where
  silent extended := ⟨extended.grown, List.forall_mem_nil _, List.forall_mem_nil _,
    List.forall_mem_nil _, (fun _ _ _ mem => nomatch mem), .nil⟩
  chain first second := by
    refine ⟨Nat.le_trans first.grown second.grown, ?_, ?_, ?_, ?_, ?_⟩
    · exact List.forall_mem_append.mpr
        ⟨first.from', fun e mem => Nat.le_trans first.grown (second.from' e mem)⟩
    · exact List.forall_mem_append.mpr
        ⟨fun e mem => Nat.le_trans (first.upto e mem) second.grown, second.upto⟩
    · exact List.forall_mem_append.mpr ⟨first.live, second.live⟩
    · intro ctx k x mem
      rcases List.mem_append.mp mem with mem | mem
      · exact first.fresh ctx k x mem
      · exact (second.fresh ctx k x mem).mono first.grown
    · refine List.pairwise_append.mpr ⟨first.later, second.later, ?_⟩
      rintro e mem _ mem' ctx k x rfl
      exact (second.fresh ctx k x mem').mono (first.upto e mem)
  hooked {h ctx u x u'} closed own fits hook := by
    have grown := (safe.hook ctx u fits own.live).2
    rw [hook] at grown
    refine ⟨Nat.le_trans own.extended.grown grown, List.forall_mem_singleton.mpr own.extended.grown,
      List.forall_mem_singleton.mpr grown, List.forall_mem_singleton.mpr ⟨own.closed, own.live⟩,
      fun ctx k x mem => ?_, List.pairwise_singleton _ _⟩
    cases List.mem_singleton.mp mem
    exact ⟨h, Nat.le_refl _, closed, own⟩
  visited {kind ctx u u'} live fits visit := by
    have grown := (safe.visitor kind ctx u fits live).2
    rw [visit] at grown
    refine ⟨grown, List.forall_mem_singleton.mpr (Nat.le_refl _), List.forall_mem_singleton.mpr grown,
      List.forall_mem_singleton.mpr ⟨safe.closed u fits, live⟩, fun _ _ _ mem => ?_,
      List.pairwise_singleton _ _⟩
    cases List.mem_singleton.mp mem

/-! ## What has been visited -/

/-- No container that there is when a node is visited changes later, nor do those from before. -/
structure Stability (h : Heap) (log : List Event) (h' : Heap) : Prop where
  extended : h.Extends h'
  from' : ∀ e ∈ log, h.Extends e.heap
  upto : ∀ kind ctx k, .visited kind ctx k ∈ log → k.Extends h'
  later : log.Pairwise fun e f => ∀ kind ctx k, e = .visited kind ctx k → k.Extends f.heap

theorem rules_stability (safe : walk.Safe fit) (confined : walk.Local fit) :
    Rules walk fit Stability where
  silent extended := ⟨extended, List.forall_mem_nil _, (fun _ _ _ mem => nomatch mem), .nil⟩
  chain first second := by
    refine ⟨first.extended.trans second.extended, ?_, ?_, ?_⟩
    · exact List.forall_mem_append.mpr
        ⟨first.from', fun e mem => first.extended.trans (second.from' e mem)⟩
    · intro kind ctx k mem
      rcases List.mem_append.mp mem with mem | mem
      · exact (first.upto kind ctx k mem).trans second.extended
      · exact second.upto kind ctx k mem
    · refine List.pairwise_append.mpr ⟨first.later, second.later, ?_⟩
      rintro _ mem f mem' kind ctx k rfl
      exact (first.upto kind ctx k mem).trans (second.from' f mem')
  hooked {h ctx u x u'} closed own fits hook := by
    have grown := (safe.hook ctx u fits own.live).2
    have same := confined.hook ctx u fits own.live
    rw [hook] at grown same
    -- what the schema and the presentation lead to is newer than `h`
    have extended : h.Extends u'.heap := by
      refine ⟨Nat.le_trans own.extended.grown grown, fun {r} old => ?_⟩
      have unreached : ¬ u.heap.Reach {ctx.schema, ctx.uiSchema} (.container r) :=
        fun reached => absurd old (Nat.not_lt.mpr (own.new r reached))
      rw [same r (Nat.lt_of_lt_of_le old own.extended.grown) unreached, own.extended.cells old]
    refine ⟨extended, List.forall_mem_singleton.mpr own.extended, fun _ _ _ mem => ?_,
      List.pairwise_singleton _ _⟩
    cases List.mem_singleton.mp mem
  visited {kind ctx u u'} live fits visit := by
    have same := confined.visitor kind ctx u
    rw [visit] at same
    rw [same]
    refine ⟨.refl _, List.forall_mem_singleton.mpr (.refl _), fun _ _ _ mem => ?_,
      List.pairwise_singleton _ _⟩
    cases List.mem_singleton.mp mem
    exact .refl _

/-! ## Whole walks -/

/-- The first call of a tree is about its root. -/
theorem located_head {trace : Trace} {p : Position} {e : Event} {rest : List (Position × Event)}
    (first : trace.located = (p, e) :: rest) : p = [] := by
  cases trace <;> cases first <;> rfl

/-- Where a call stands in a log without its front, if it is not in the front. -/
theorem split_events {front log earlier later : List Event} {e : Event}
    (split : front ++ log = earlier ++ e :: later) (short : front.length ≤ 1)
    (behind : earlier = [] → e ∉ front) :
    ∃ middle, earlier = front ++ middle ∧ log = middle ++ e :: later := by
  cases front with
  | nil => exact ⟨earlier, rfl, split⟩
  | cons f rest =>
    obtain rfl : rest = [] :=
      List.length_eq_zero_iff.mp (Nat.le_zero.mp (Nat.le_of_succ_le_succ short))
    cases earlier with
    | nil => exact absurd (List.mem_singleton.mpr (List.cons.inj split).1.symm) (behind rfl)
    | cons first earlier =>
      obtain ⟨rfl, others⟩ := List.cons.inj split
      exact ⟨earlier, rfl, others⟩

/-- The same for the calls of a tree with their positions. -/
theorem split_front {trace : Trace} {front log : List Event} (split : trace.events = front ++ log)
    (short : front.length ≤ 1) {earlier later : List (Position × Event)} {p : Position} {e : Event}
    (here : trace.located = earlier ++ (p, e) :: later) (behind : earlier = [] → e ∉ front) :
    ∃ middle, earlier.map Prod.snd = front ++ middle ∧
      log = middle ++ e :: later.map Prod.snd := by
  rw [Trace.events, here, List.map_append, List.map_cons] at split
  exact split_events split.symm short fun first => behind (List.map_eq_nil_iff.mp first)

section

variable {root : Context} {w w' : World σ} {trace : Trace} {x : Except FormError Unit}
  {earlier later : List (Position × Event)} {p : Position} {ctx : Context} {k : Heap}

/-- A node other than the root is hooked when nothing earlier leads to its slots. -/
theorem hooked_apart (safe : walk.Safe fit) (walked : walk.Walked root w trace x w') (fits : fit w)
    (live : root.Live w.heap) {y : Except FormError Unit}
    (here : trace.located = earlier ++ (p, .hooked ctx k y) :: later) (below : p ≠ []) :
    (∀ r, k.Reach {ctx.schema, ctx.uiSchema} (.container r) →
      ¬ k.Reach root.values (.container r) ∧
        ∀ call ∈ earlier, ¬ k.Reach call.2.ctx.values (.container r)) ∧
      ∀ r, k.Reach {ctx.schema} (.container r) → ¬ k.Reach {ctx.uiSchema} (.container r) := by
  obtain ⟨front, log, h, split, hooks, short, grown, ⟨-, -, privacy⟩⟩ :=
    (rules_privacy safe).walked safe walked fits live
  obtain ⟨middle, before, rfl⟩ := split_front split short here fun first =>
    absurd (located_head (first ▸ here)) below
  have fresh := privacy.fresh ctx k y (List.mem_append_right _ List.mem_cons_self)
  have rootLive : root.Live h := live.mono grown
  refine ⟨fun r reached => ⟨fresh.unreached rootLive reached, fun call mem => ?_⟩, ?_⟩
  · have call_mem : call.2 ∈ front ++ middle := before ▸ List.mem_map_of_mem mem
    rcases List.mem_append.mp call_mem with inFront | inMiddle
    · obtain ⟨_, eq⟩ := hooks call.2 inFront
      rw [eq]
      exact fresh.unreached rootLive reached
    · have since := (List.pairwise_append.mp privacy.later).2.2 call.2 inMiddle _
        List.mem_cons_self ctx k y rfl
      exact since.unreached (privacy.live call.2 (List.mem_append_left _ inMiddle)).2 reached
  · obtain ⟨_, _, _, own⟩ := fresh
    exact own.apart

/-- A node is visited in a heap without dangling references, with slots that do not dangle. -/
theorem visited_live (safe : walk.Safe fit) (walked : walk.Walked root w trace x w') (fits : fit w)
    (live : root.Live w.heap) {kind : NodeKind}
    (mem : .visited kind ctx k ∈ trace.events) : k.Closed ∧ ctx.Live k := by
  obtain ⟨front, log, h, split, hooks, _, _, ⟨-, -, privacy⟩⟩ :=
    (rules_privacy safe).walked safe walked fits live
  rw [split] at mem
  rcases List.mem_append.mp mem with inFront | inLog
  · obtain ⟨_, eq⟩ := hooks _ inFront
    cases eq
  · exact privacy.live _ inLog

/-- What there is when a node is visited stays as it is, if hooks keep to their nodes. -/
theorem visited_extends (safe : walk.Safe fit) (confined : walk.Local fit)
    (walked : walk.Walked root w trace x w') (fits : fit w) (live : root.Live w.heap)
    {kind : NodeKind} (here : trace.located = earlier ++ (p, .visited kind ctx k) :: later) :
    (∀ call ∈ later, k.Extends call.2.heap) ∧ k.Extends w'.heap := by
  obtain ⟨front, log, h, split, hooks, short, _, ⟨-, -, stability⟩⟩ :=
    (rules_stability safe confined).walked safe walked fits live
  obtain ⟨middle, _, rfl⟩ := split_front split short here fun _ mem => by
    obtain ⟨_, eq⟩ := hooks _ mem
    cases eq
  have after := (List.pairwise_cons.mp (List.pairwise_append.mp stability.later).2.1).1
  exact ⟨fun call mem => after call.2 (List.mem_map_of_mem mem) kind ctx k rfl,
    stability.upto kind ctx k (List.mem_append_right _ List.mem_cons_self)⟩

end

/-- **Privacy.** When the hook is called on a node other than the root, nothing that its schema or its
presentation leads to is reached from the root or from any node with an earlier call, and the two
share nothing. So if the hook changes only what they lead to, and the visitor nothing, then what the
schema and the presentation of a node lead to when it is visited stays as it is. -/
theorem run_private (walk : Walk σ) (fit : World σ → Prop) (safe : walk.Safe fit) (root : Context)
    (w : World σ) (fits : fit w) (live : root.Live w.heap) :
    ∃ trace : Trace, walk.Walked root w trace (walk.run root w).1 (walk.run root w).2 ∧
      walk.logged.run root (w.traced []) =
        ((walk.run root w).1, (walk.run root w).2.traced (trace.located.map Prod.snd)) ∧
      (∀ earlier p ctx k y later, trace.located = earlier ++ (p, .hooked ctx k y) :: later → p ≠ [] →
        (∀ r, k.Reach {ctx.schema, ctx.uiSchema} (.container r) →
          ¬ k.Reach root.values (.container r) ∧
            ∀ call ∈ earlier, ¬ k.Reach call.2.ctx.values (.container r)) ∧
          ∀ r, k.Reach {ctx.schema} (.container r) → ¬ k.Reach {ctx.uiSchema} (.container r)) ∧
      (walk.Local fit →
        ∀ earlier p kind ctx k later, trace.located = earlier ++ (p, .visited kind ctx k) :: later →
          ∀ r, k.Reach {ctx.schema, ctx.uiSchema} (.container r) →
            (∀ call ∈ later, call.2.heap.cell r = k.cell r) ∧
              (walk.run root w).2.heap.cell r = k.cell r) := by
  obtain ⟨trace, walked, same⟩ := run_trace walk root w []
  refine ⟨trace, walked, same, ?_, ?_⟩
  · intro earlier p ctx k y later here below
    exact hooked_apart safe walked fits live here below
  · intro confined earlier p kind ctx k later here r reached
    have mem : .visited kind ctx k ∈ trace.events :=
      List.mem_map.mpr ⟨(p, _), here ▸ List.mem_append_right _ List.mem_cons_self, rfl⟩
    obtain ⟨closed, ctxLive⟩ := visited_live safe walked fits live mem
    have old : r < k.size := by
      refine reached.live closed ?_ r rfl
      rintro _ (rfl | rfl)
      · exact ctxLive "schema" _ rfl
      · exact ctxLive "uiSchema" _ rfl
    obtain ⟨during, after⟩ := visited_extends safe confined walked fits live here
    exact ⟨fun call mem => (during call mem).cells old, after.cells old⟩

/-- Two elements of an array have the presentation of the array itself, which holds itself. The hook
overwrites the presentation of each element, but that is a copy. -/
theorem run_private_cycle :
    let hook : Hook Unit := fun ctx w =>
      match ctx.arrayUiSchema, ctx.uiSchema with
      | some _, .container r =>
        (.ok (), ⟨w.heap.update r fun _ => .mapping (.ofList [("seen", .bool true)]), w.host⟩)
      | _, _ => (.ok (), w)
    let walk : Walk Unit := ⟨{}, ⟨8⟩, hook, fun _ _ w => ((), w)⟩
    let h : Heap := ⟨#[.mapping (.ofList [("type", .string "array"), ("items", .container 1)]),
      .mapping (.ofList [("type", .string "string")]), .mapping (.ofList [("items", .container 2)]),
      .sequence #[.null, .null]]⟩
    let root : Context := { schema := .container 0, uiSchema := .container 2, data := .container 3 }
    let fit : World Unit → Prop := fun w => w.heap.Closed
    let w : World Unit := ⟨h, ()⟩
    walk.Safe fit ∧ walk.Local fit ∧ fit w ∧ root.Live w.heap ∧
      ∃ trace : Trace, walk.Walked root w trace (walk.run root w).1 (walk.run root w).2 ∧
        ∀ earlier p kind ctx k later, trace.located = earlier ++ (p, .visited kind ctx k) :: later →
          ∀ r, k.Reach {ctx.schema, ctx.uiSchema} (.container r) →
            (∀ call ∈ later, call.2.heap.cell r = k.cell r) ∧
              (walk.run root w).2.heap.cell r = k.cell r := by
  intro hook walk h root fit w
  have safe : walk.Safe fit := by
    refine ⟨fun _ fits => fits, fun _ _ _ _ closed => closed, fun ctx w fits live => ?_,
      fun _ _ _ fits _ => ⟨fits, Nat.le_refl _⟩⟩
    show fit (hook ctx w).2 ∧ w.heap.size ≤ (hook ctx w).2.heap.size
    unfold hook
    split
    · refine ⟨fun s v held => ?_, Nat.le_of_eq (Heap.size_update _ _ _).symm⟩
      rw [Heap.cell_update] at held
      refine Heap.Live.mono ?_ (Nat.le_of_eq (Heap.size_update _ _ _).symm)
      split at held
      · obtain rfl := List.mem_singleton.mp held
        exact fun _ same => nomatch same
      · exact fits s v held
    · exact ⟨fits, Nat.le_refl _⟩
  have confined : walk.Local fit := by
    refine ⟨fun ctx w fits live r old unreached => ?_, fun _ _ _ => rfl⟩
    show (hook ctx w).2.heap.cell r = w.heap.cell r
    unfold hook
    split
    · next s _ presentation =>
      have other : r ≠ s := by
        rintro rfl
        exact unreached (.root (Or.inr presentation.symm))
      rw [Heap.cell_update, if_neg fun same => other same.1]
    · rfl
  have closed : fit w := by
    show h.Closed
    decide
  have live : root.Live w.heap := by
    show root.Live h
    decide
  obtain ⟨trace, walked, _, _, stable⟩ := run_private walk fit safe root w closed live
  exact ⟨safe, confined, closed, live, trace, walked, stable confined⟩

end FormLogic.Walk
