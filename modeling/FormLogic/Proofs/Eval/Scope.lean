import FormLogic.Proofs.Eval.ReadOnly

/-!
# `FormLogic.Proofs.Eval.Scope` — what evaluation does to the scope

An evaluation leaves the scope with the frames that it found, also when it fails: parameters go on
top for a callback and are taken off behind it. What can change is the value of a frame, by an
assignment to its name. An assignment goes to the innermost frame of a name, so a name is out of
reach below a frame that has it. A callback's own parameters are such frames for everything outside.

## Contents
- `Scope.Reassigned`: scopes with the same frames, some of them with other values.
- `Expr.Assigns`: the names that an expression assigns to.
- `Eval.Reassigning`: actions that leave the frames in place, an invariant of evaluation.
- `value_reassigns`: expressions and callbacks; `value_changes_nothing`: expressions that only read.
-/

namespace FormLogic

/-! ## Scopes with the same frames -/

namespace Scope

/-- Frames of the same names in the same order. A frame has another value only if its name is one of
those in reach, and below the frame it is not in reach any more. -/
inductive Reassigned : (inReach : String → Prop) → Scope → Scope → Prop where
  | nil {inReach : String → Prop} : Reassigned inReach [] []
  | cons {inReach : String → Prop} {name : String} {v w : Value} {s s' : Scope}
      (changes : w ≠ v → inReach name) (rest : Reassigned (fun n => inReach n ∧ n ≠ name) s s') :
      Reassigned inReach ((name, v) :: s) ((name, w) :: s')

namespace Reassigned

variable {P Q : String → Prop} {s s' s'' : Scope}

theorem refl (s : Scope) : s.Reassigned P s := by
  induction s generalizing P with
  | nil => exact .nil
  | cons frame rest ih =>
    obtain ⟨name, v⟩ := frame
    exact .cons (fun other => absurd rfl other) ih

theorem mono (reassigned : s.Reassigned P s') (more : ∀ name, P name → Q name) :
    s.Reassigned Q s' := by
  induction reassigned generalizing Q with
  | nil => exact .nil
  | cons changes _ ih =>
    refine .cons (fun other => more _ (changes other)) (ih fun n inReach => ?_)
    exact ⟨more n inReach.1, inReach.2⟩

theorem trans (first : s.Reassigned P s') (second : s'.Reassigned P s'') : s.Reassigned P s'' := by
  induction first generalizing s'' with
  | nil => exact second
  | @cons P name v w s s' changes _ ih =>
    cases second with
    | @cons _ _ _ x _ _ changes' rest' =>
      refine .cons (fun other => ?_) (ih rest')
      by_cases same : w = v
      · exact changes' fun same' => other (same'.trans same)
      · exact changes same

/-- The names of the frames are the same, in the same order. -/
theorem names_eq (reassigned : s.Reassigned P s') : keysOf s' = keysOf s := by
  induction reassigned with
  | nil => rfl
  | @cons _ name _ _ _ _ _ _ ih => exact congrArg (name :: ·) ih

/-- Where a value is another one, the name of the frame is in reach. -/
theorem inReach_of_ne (reassigned : s.Reassigned P s') {i : Nat} {name : String} {v w : Value}
    (before : s[i]? = some (name, v)) (after : s'[i]? = some (name, w)) (other : w ≠ v) :
    P name := by
  induction reassigned generalizing i with
  | nil => cases before
  | cons changes _ ih =>
    cases i with
    | zero =>
      cases before
      cases after
      exact changes other
    | succ i => exact (ih before after).1

/-- With no name in reach nothing changes. -/
theorem eq_of_unreached (reassigned : s.Reassigned P s') (none : ∀ name, ¬ P name) : s' = s := by
  induction reassigned with
  | nil => rfl
  | @cons P name v w s s' changes _ ih =>
    have same : w = v := by
      by_contra other
      exact none name (changes other)
    rw [same, ih fun n inReach => none n inReach.1]

/-- Behind some frames their names are out of reach. -/
theorem drop {front : Scope} (reassigned : (front ++ s).Reassigned P s') :
    s.Reassigned (fun name => P name ∧ name ∉ keysOf front) (s'.drop front.length) := by
  induction front generalizing P s' with
  | nil => exact reassigned.mono fun name inReach => ⟨inReach, List.not_mem_nil⟩
  | cons frame front ih =>
    cases reassigned with
    | cons changes rest =>
      refine (ih rest).mono fun n inReach => ⟨inReach.1.1, fun mem => ?_⟩
      rcases List.mem_cons.mp mem with same | mem
      · exact inReach.1.2 same
      · exact inReach.2 mem

end Reassigned

/-- An assignment changes the innermost frame of its name. -/
theorem reassigned_assign? {name : String} {v : Value} {s s' : Scope}
    (found : s.assign? name v = some s') : s.Reassigned (· = name) s' := by
  induction s generalizing s' with
  | nil => cases found
  | cons frame rest ih =>
    obtain ⟨n, w⟩ := frame
    unfold assign? at found
    by_cases here : n = name
    · rw [if_pos here] at found
      cases found
      exact .cons (fun _ => here) (.refl rest)
    · rw [if_neg here] at found
      obtain ⟨rest', inner, rfl⟩ := Option.map_eq_some_iff.mp found
      refine .cons (fun other => absurd rfl other) ((ih inner).mono ?_)
      rintro _ rfl
      exact ⟨rfl, fun same => here same.symm⟩

/-- A name of some frames is assigned to among them. -/
theorem assign?_append {name : String} {front : Scope} (mem : name ∈ keysOf front) (v : Value)
    (s : Scope) :
    ∃ front', keysOf front' = keysOf front ∧ assign? name v (front ++ s) = some (front' ++ s) := by
  induction front with
  | nil => cases mem
  | cons frame rest ih =>
    obtain ⟨n, w⟩ := frame
    rw [List.cons_append]
    unfold assign?
    by_cases here : n = name
    · rw [if_pos here]
      exact ⟨(n, v) :: rest, rfl, rfl⟩
    · have later : name ∈ keysOf rest :=
        (List.mem_cons.mp mem).resolve_left fun same => here same.symm
      obtain ⟨rest', names, found⟩ := ih later
      rw [if_neg here, found]
      exact ⟨(n, w) :: rest', congrArg (n :: ·) names, rfl⟩

theorem keysOf_append (front s : Scope) : keysOf (front ++ s) = keysOf front ++ keysOf s :=
  List.map_append

/-- The parameters are frames on top of the scope, the last one innermost. -/
theorem exists_bind (params : List String) (args : List Value) (s : Scope) :
    ∃ front, s.bind params args = front ++ s ∧ keysOf front = params.reverse := by
  induction params generalizing args s with
  | nil => exact ⟨[], rfl, rfl⟩
  | cons param params ih =>
    obtain ⟨front, bound, names⟩ := ih (args.drop 1) ((param, args.headD .undefined) :: s)
    refine ⟨front ++ [(param, args.headD .undefined)], ?_, ?_⟩
    · rw [List.append_assoc]
      exact bound
    · rw [keysOf_append, names, List.reverse_cons]
      rfl

end Scope

/-! ## Actions that leave the frames in place -/

/-- There is an assignment to the name in the expression. -/
def Expr.Assigns (e : Expr) (name : String) : Prop :=
  ∃ value, (Expr.assign (.ident name) value).IsPartOf e

namespace Eval

/-- The action leaves the frames in place, also when it fails, and changes only such as are in
reach. -/
def Reassigning (inReach : String → Prop) {α : Type} (p : Eval α) : Prop :=
  ∀ m : Machine, m.scope.Reassigned inReach (p m).2.scope

variable {α : Type} {P Q : String → Prop} {p : Eval α}

theorem Reassigning.mono (inner : Reassigning P p) (more : ∀ name, P name → Q name) :
    Reassigning Q p :=
  fun m => (inner m).mono more

/-- An action on the heap leaves the scope as it is. -/
theorem reassigning_onHeap (action : Heap → Except EvalError α × Heap) :
    Reassigning P (onHeap action) :=
  fun m => .refl m.scope

theorem reassigning_assign (name : String) (v : Value) :
    Reassigning (· = name) (assign name v) := by
  intro m
  unfold assign
  cases found : m.scope.assign? name v with
  | none => exact .refl m.scope
  | some s => exact Scope.reassigned_assign? found

/-- A callback does not reach the frames of its parameters' names outside. -/
theorem reassigning_withParams (inner : Reassigning P p) (params : List String)
    (args : List Value) :
    Reassigning (fun name => P name ∧ name ∉ params) (withParams params args p) := by
  rintro ⟨heap, scope⟩
  obtain ⟨front, bound, names⟩ := scope.exists_bind params args
  have length : front.length = params.length := by
    simpa [keysOf] using congrArg List.length names
  have after := inner ⟨heap, scope.bind params args⟩
  show scope.Reassigned _ ((p ⟨heap, scope.bind params args⟩).2.scope.drop params.length)
  rw [← length]
  rw [bound] at after ⊢
  refine after.drop.mono fun name inReach => ⟨inReach.1, fun mem => inReach.2 ?_⟩
  rw [names]
  exact List.mem_reverse.mpr mem

/-- Evaluation changes frames by assignments only. -/
theorem invariant_reassigning (P : String → Prop) : Invariant fun {_} => Reassigning P where
  pure _ m := .refl m.scope
  throw _ m := .refl m.scope
  bind first next m :=
    bind_ends (R := fun m m' : Machine => m.scope.Reassigned P m'.scope) .trans (first m)
      fun a m' _ => next a m'
  heap m := .refl m.scope
  scope m := .refl m.scope
  alloc _ := reassigning_onHeap _
  read _ _ := reassigning_onHeap _
  withParams params args inner :=
    (reassigning_withParams inner params args).mono fun _ inReach => inReach.1

/-! ## Expressions -/

/-- The nodes of an expression change the frames of the names that it assigns to. -/
theorem permits_reassigning {e node : Expr} (inside : node.IsPartOf e) :
    Permits (fun {_} => Reassigning e.Assigns) node := by
  cases node with
  | call callee args =>
    cases callee with
    | member base key optional =>
      cases key with
      | named method => exact fun _ _ _ => reassigning_onHeap _
      | computed key => exact fun _ _ _ _ => reassigning_onHeap _
    | _ => trivial
  | assign target value =>
    cases target with
    | ident name =>
      intro v
      refine (reassigning_assign name v).mono ?_
      rintro _ rfl
      exact ⟨value, inside⟩
    | member base key optional => exact fun _ _ _ => reassigning_onHeap _
    | _ => exact fun m => .refl m.scope
  | delete target =>
    cases target with
    | member base key optional => exact fun _ _ => reassigning_onHeap _
    | _ => trivial
  | _ => trivial

theorem reassigning_value (e : Expr) : Reassigning e.Assigns (value e) :=
  (invariant_reassigning _).settle ((invariant_reassigning _).chain e fun _ => permits_reassigning)

/-- **Scope discipline.** Evaluating an expression leaves the frames of the scope in place, also
when it fails, and changes the values of those only whose names it assigns to. As the body of a
callback it does not even change those of them, outside the callback, that have the name of a
parameter: an assignment to a parameter, wherever it is made inside, stays above the frames
outside. -/
theorem value_reassigns (e : Expr) (m : Machine) :
    keysOf (value e m).2.scope = keysOf m.scope ∧
      (∀ (i : Nat) name v w, m.scope[i]? = some (name, v) →
        (value e m).2.scope[i]? = some (name, w) → w ≠ v → e.Assigns name) ∧
      (∀ params args, keysOf (withParams params args (value e) m).2.scope = keysOf m.scope ∧
        ∀ (i : Nat) name v w, m.scope[i]? = some (name, v) →
          (withParams params args (value e) m).2.scope[i]? = some (name, w) → w ≠ v →
          e.Assigns name ∧ name ∉ params) ∧
      ∀ params args inner heap, ∀ name ∈ params, ∀ v, ∃ front,
        keysOf front = keysOf inner ++ params.reverse ∧
          assign name v ⟨heap, inner ++ m.scope.bind params args⟩ =
            (.ok (), ⟨heap, front ++ m.scope⟩) := by
  have evaluated := reassigning_value e m
  refine ⟨evaluated.names_eq, fun i name v w => evaluated.inReach_of_ne, ?_, ?_⟩
  · intro params args
    have called := reassigning_withParams (reassigning_value e) params args m
    exact ⟨called.names_eq, fun i name v w => called.inReach_of_ne⟩
  · intro params args inner heap name mem v
    obtain ⟨bound, same, names⟩ := m.scope.exists_bind params args
    have inside : name ∈ keysOf (inner ++ bound) := by
      have top : name ∈ keysOf bound := names ▸ List.mem_reverse.mpr mem
      exact Scope.keysOf_append inner bound ▸ List.mem_append_right _ top
    obtain ⟨front, names', found⟩ := Scope.assign?_append inside v m.scope
    refine ⟨front, ?_, ?_⟩
    · rw [names', Scope.keysOf_append, names]
    · rw [same, ← List.append_assoc]
      unfold assign
      rw [found]

/-- A callback assigns to its parameter, which has the name of a binding: the binding keeps its
value, which the same assignment outside the callback changes. -/
theorem value_reassigns_shadowed :
    let body : Expr := .assign (.ident "data") (.literal .null)
    let m : Machine := ⟨.empty, [("schema", .bool true), ("data", .bool false)]⟩
    let params := ["data", "data"]
    (withParams params [.bool true] (value body) m).2.scope = m.scope ∧
      keysOf (withParams params [.bool true] (value body) m).2.scope = keysOf m.scope ∧
      (value body m).2.scope = [("schema", .bool true), ("data", .null)] ∧
      body.Assigns "data" := by
  intro body m params
  have discipline := value_reassigns body m
  refine ⟨by rfl, (discipline.2.2.1 params [.bool true]).1, by rfl, ?_⟩
  exact discipline.2.1 1 "data" (.bool false) .null (by rfl) (by rfl) (by decide)

/-! ## Expressions that only read -/

/-- An expression that reads only assigns to nothing. -/
theorem not_assigns_of_readsOnly {e : Expr} (only : e.readsOnly = true) (name : String) :
    ¬ e.Assigns name := by
  rintro ⟨value, inside⟩
  have everywhere : e.Everywhere fun node => node.readsOnly = true :=
    .of_parts only (fun _ here => here) fun _ => Expr.readsOnly_children
  cases everywhere _ inside

/-- **Reading only.** An expression with no assignment and no `delete`, that calls nothing but named
methods other than `push`, leaves every container and the whole scope as they are, also when it
fails. -/
theorem value_changes_nothing {e : Expr} (only : e.readsOnly = true) (m : Machine) :
    (∀ r, r < m.heap.size → (value e m).2.heap.cell r = m.heap.cell r) ∧
      (value e m).2.scope = m.scope := by
  have permits : e.Everywhere (Permits @Extending) :=
    .of_parts only (fun _ => Expr.permits_of_readsOnly) fun _ => Expr.readsOnly_children
  have extended := invariant_extending.settle (invariant_extending.chain e permits) m
  refine ⟨fun r old => extended.cells old, ?_⟩
  exact (reassigning_value e m).eq_of_unreached (not_assigns_of_readsOnly only)

/-- A callback, whose parameter hides a binding, makes containers before the evaluation fails. -/
theorem value_changes_nothing_callback :
    let e : Expr := .array [
      .call (.member (.ident "data") (.named "map") false)
        [.arrow ["data"] (.object [("a", .ident "data")])],
      .ident "missing"]
    let m : Machine := ⟨⟨#[.sequence #[.null, .container 0]]⟩, [("data", .container 0)]⟩
    e.readsOnly = true ∧ (value e m).1 = .error (.undefinedIdentifier "missing") ∧
      (value e m).2.heap.size = 4 ∧
      (∀ r, r < m.heap.size → (value e m).2.heap.cell r = m.heap.cell r) ∧
      (value e m).2.scope = m.scope := by
  intro e m
  have only : e.readsOnly = true := by rfl
  exact ⟨only, by rfl, by rfl, value_changes_nothing only m⟩

end Eval

end FormLogic
