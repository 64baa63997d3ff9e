import FormLogic.Eval.Machine
import FormLogic.Proofs.Heap.Access
import FormLogic.Proofs.Heap.Action

/-!
# `FormLogic.Proofs.Eval.Agree` — two runs in step

Two actions agree if, started on machines that are the same up to a renaming, they end with the same
error or with related values on machines that are the same up to a renaming that has grown. This
holds on failure too: what was changed before stays changed, on both sides alike.

The scopes of the two machines have the same names. Only the names in `names` need related values; an
action that looks up no other name cannot tell the difference.

## Contents
- `Machines`: machines that are the same up to a renaming.
- `Agree`, `agree_pure`, `agree_throw`, `agree_bind`: the relation on actions.
- `agree_alloc`, `agree_update`, `agree_read`, `agree_write`, `agree_delete`, `agree_lookup`,
  `agree_assign`, `agree_withParams`: the actions that evaluation is made of.
-/

namespace FormLogic

namespace Renaming

variable {ρ ρ' : Renaming} {names : Set String} {v w v' w' key key' : Value}

/-! ## Machines -/

/-- Frames with the same name, and related values if the name is in use. -/
def Frames (ρ : Renaming) (names : Set String) (e e' : String × Value) : Prop :=
  e.1 = e'.1 ∧ (e.1 ∈ names → ρ.Values e.2 e'.2)

/-- Machines that are the same up to the renaming. -/
structure Machines (ρ : Renaming) (names : Set String) (m m' : Machine) : Prop where
  heaps : ρ.Heaps m.heap m'.heap
  scope : List.Forall₂ (ρ.Frames names) m.scope m'.scope

theorem frames_later {s s' : Scope} (later : ρ.Later ρ')
    (same : List.Forall₂ (ρ.Frames names) s s') : List.Forall₂ (ρ'.Frames names) s s' :=
  same.imp fun _ _ pair => ⟨pair.1, fun used => later.values (pair.2 used)⟩

/-! ## Actions -/

/-- Actions that end alike on machines that are alike. -/
def Agree {α β : Type} (names : Set String) (A : Renaming → α → β → Prop) (ρ : Renaming)
    (p : Eval α) (q : Eval β) : Prop :=
  ∀ m m' : Machine, ρ.Machines names m m' →
    ∃ ρ', Grows ρ ρ' m.heap m'.heap (p m).2.heap (q m').2.heap ∧
      ρ'.Machines names (p m).2 (q m').2 ∧ Results (A ρ') (p m).1 (q m').1

section Agree

variable {α β γ δ : Type} {A : Renaming → α → β → Prop} {B : Renaming → γ → δ → Prop}

theorem agree_pure {a : α} {b : β} (same : A ρ a b) : Agree names A ρ (pure a) (pure b) :=
  fun _ _ machines => ⟨ρ, .refl _ _ _, machines, .ok same⟩

theorem agree_throw (e : EvalError) : Agree names A ρ (throw e) (throw e) :=
  fun _ _ machines => ⟨ρ, .refl _ _ _, machines, .error e⟩

theorem agree_bind {p : Eval α} {q : Eval β} {f : α → Eval γ} {g : β → Eval δ}
    (first : Agree names A ρ p q)
    (next : ∀ ρ', ρ.Later ρ' → ∀ a b, A ρ' a b → Agree names B ρ' (f a) (g b)) :
    Agree names B ρ (p >>= f) (q >>= g) := by
  intro m m' machines
  obtain ⟨ρ₁, grows, machines₁, same⟩ := first m m' machines
  rw [bind_apply, bind_apply]
  generalize p m = x at grows machines₁ same
  generalize q m' = y at grows machines₁ same
  obtain ⟨result, m₁⟩ := x
  obtain ⟨result', m₁'⟩ := y
  cases same with
  | ok same =>
    -- the second action starts with what the renaming has grown to
    obtain ⟨ρ₂, grows₂, machines₂, same₂⟩ := next ρ₁ grows.later _ _ same m₁ m₁' machines₁
    exact ⟨ρ₂, grows.trans grows₂, machines₂, same₂⟩
  | error e => exact ⟨ρ₁, grows, machines₁, .error e⟩

/-- Actions that leave the machine as it is agree if their answers do. -/
theorem agree_of_still {p : Eval α} {q : Eval β} (still : ∀ m, (p m).2 = m)
    (still' : ∀ m, (q m).2 = m)
    (same : ∀ {m m'}, ρ.Machines names m m' → Results (A ρ) (p m).1 (q m').1) :
    Agree names A ρ p q := by
  intro m m' machines
  refine ⟨ρ, ?_, ?_, same machines⟩
  · rw [still, still']
    exact .refl _ _ _
  · rw [still, still']
    exact machines

/-- After actions that leave the machine as it is, the renaming has not grown. -/
theorem agree_bind_of_still {p : Eval α} {q : Eval β} {f : α → Eval γ} {g : β → Eval δ}
    (still : ∀ m, (p m).2 = m) (still' : ∀ m, (q m).2 = m)
    (same : ∀ {m m'}, ρ.Machines names m m' → Results (A ρ) (p m).1 (q m').1)
    (next : ∀ a b, A ρ a b → Agree names B ρ (f a) (g b)) :
    Agree names B ρ (p >>= f) (q >>= g) := by
  intro m m' machines
  have results := same machines
  have here := still m
  have here' := still' m'
  rw [bind_apply, bind_apply]
  generalize p m = x at results here
  generalize q m' = y at results here'
  obtain ⟨result, m₁⟩ := x
  obtain ⟨result', m₁'⟩ := y
  obtain rfl : m₁ = m := here
  obtain rfl : m₁' = m' := here'
  cases results with
  | ok related => exact next _ _ related _ _ machines
  | error e => exact ⟨ρ, .refl _ _ _, machines, .error e⟩

/-- A renaming that two machines are related by is one-to-one. -/
theorem agree_of_oneToOne {p : Eval α} {q : Eval β}
    (agree : Relator.BiUnique ρ.refs → Agree names A ρ p q) : Agree names A ρ p q :=
  fun m m' machines => agree machines.heaps.oneToOne m m' machines

end Agree

/-! ## Reading the machine -/

theorem agree_heap : Agree names Heaps ρ Eval.heap Eval.heap :=
  agree_of_still (fun _ => rfl) (fun _ => rfl) fun machines => .ok machines.heaps

theorem agree_scope : Agree names (fun ρ => List.Forall₂ (ρ.Frames names)) ρ Eval.scope Eval.scope :=
  agree_of_still (fun _ => rfl) (fun _ => rfl) fun machines => .ok machines.scope

theorem agree_text (same : ρ.Values v w) :
    Agree names (fun _ => Eq) ρ (Eval.text v) (Eval.text w) :=
  agree_bind agree_heap fun _ later _ _ heaps =>
    agree_pure (heaps.text_eq (later.values same))

theorem agree_read (base : ρ.Values v w) (key : ρ.Values v' w') :
    Agree names Values ρ (Eval.read v v') (Eval.read w w') :=
  agree_of_still (fun _ => rfl) (fun _ => rfl) fun machines =>
    machines.heaps.readProperty base key

/-- A name in use has related values. -/
theorem frames_lookup? {s s' : Scope} {name : String} (used : name ∈ names)
    (same : List.Forall₂ (ρ.Frames names) s s') :
    Option.Rel ρ.Values (s.lookup? name) (s'.lookup? name) := by
  induction same with
  | nil => exact .none
  | @cons e e' _ _ pair rest ih =>
    obtain ⟨n, x⟩ := e
    obtain ⟨_, y⟩ := e'
    obtain ⟨rfl, related⟩ : n = _ ∧ _ := pair
    unfold Scope.lookup? at ih ⊢
    rw [List.lookup_cons, List.lookup_cons]
    -- the innermost frame of the name hides the others, on both sides
    by_cases here : name = n
    · subst here
      rw [beq_self_eq_true]
      exact .some (related used)
    · rw [beq_false_of_ne here]
      exact ih

/-! ## Changing the machine -/

theorem agree_alloc {c c' : Cell} (same : ρ.Cells c c') :
    Agree names Values ρ (Eval.alloc c) (Eval.alloc c') := by
  intro m m' machines
  refine ⟨ρ.add m.heap.size m'.heap.size, .alloc ρ _ _ c c', ?_, .ok (.container (Or.inr ⟨rfl, rfl⟩))⟩
  exact ⟨machines.heaps.alloc same, frames_later (ρ.later_add _ _) machines.scope⟩

theorem agree_update {r s : Ref} {f f' : Cell → Cell} (paired : ρ.refs r s)
    (keeps : Heaps.KeepsCells ρ f f') :
    Agree names (fun _ => Eq) ρ (Eval.update r f) (Eval.update s f') := by
  intro m m' machines
  exact ⟨ρ, .update paired f f', ⟨machines.heaps.update paired keeps, machines.scope⟩, .ok rfl⟩

/-- Accesses that keep the heaps related can be made on both sides. -/
theorem agree_onHeap {access access' : Heap → Except EvalError Unit × Heap}
    (steps : ∀ {h h'}, ρ.Heaps h h' → Heaps.Steps ρ h h' (access h) (access' h')) :
    Agree names (fun _ => Eq) ρ (Eval.onHeap access) (Eval.onHeap access') := by
  intro m m' machines
  have step := steps machines.heaps
  refine ⟨ρ, step.grows, ⟨step.heaps, machines.scope⟩, ?_⟩
  show Results _ (access m.heap).1 (access' m'.heap).1
  have results := step.results
  generalize (access m.heap).1 = x at results
  generalize (access' m'.heap).1 = y at results
  cases results with
  | ok _ => exact .ok rfl
  | error e => exact .error e

theorem agree_write {x y : Value} (base : ρ.Values v w) (key : ρ.Values v' w')
    (value : ρ.Values x y) :
    Agree names (fun _ => Eq) ρ (Eval.write v v' x) (Eval.write w w' y) :=
  agree_onHeap fun heaps => heaps.writeProperty base key value

theorem agree_delete (base : ρ.Values v w) (key : ρ.Values v' w') :
    Agree names (fun _ => Eq) ρ (Eval.delete v v') (Eval.delete w w') :=
  agree_onHeap fun heaps => heaps.deleteProperty base key

/-- The innermost frames of a name change on both sides. -/
theorem frames_assign? {s s' : Scope} (name : String)
    (same : List.Forall₂ (ρ.Frames names) s s') (value : ρ.Values v w) :
    Option.Rel (List.Forall₂ (ρ.Frames names)) (s.assign? name v) (s'.assign? name w) := by
  induction same with
  | nil => exact .none
  | @cons e e' rest rest' pair related ih =>
    obtain ⟨n, x⟩ := e
    obtain ⟨_, y⟩ := e'
    obtain ⟨rfl, pair⟩ : n = _ ∧ _ := pair
    unfold Scope.assign?
    split
    · exact .some (.cons ⟨rfl, fun _ => value⟩ related)
    · generalize Scope.assign? name v rest = o at ih
      generalize Scope.assign? name w rest' = o' at ih
      cases ih with
      | none => exact .none
      | some inner => exact .some (.cons ⟨rfl, pair⟩ inner)

theorem agree_assign (name : String) (value : ρ.Values v w) :
    Agree names (fun _ => Eq) ρ (Eval.assign name v) (Eval.assign name w) := by
  intro m m' machines
  have same := frames_assign? name machines.scope value
  unfold Eval.assign
  generalize m.scope.assign? name v = o at same
  generalize m'.scope.assign? name w = o' at same
  cases same with
  | none => exact ⟨ρ, .refl _ _ _, machines, .error _⟩
  | some frames => exact ⟨ρ, .refl _ _ _, ⟨machines.heaps, frames⟩, .ok rfl⟩

/-- Parameters go on top of both scopes. -/
theorem frames_bind {s s' : Scope} {args args' : List Value} (params : List String)
    (related : List.Forall₂ ρ.Values args args') (same : List.Forall₂ (ρ.Frames names) s s') :
    List.Forall₂ (ρ.Frames names) (s.bind params args) (s'.bind params args') := by
  induction params generalizing args args' s s' with
  | nil => exact same
  | cons param params ih =>
    have head : ρ.Values (args.headD .undefined) (args'.headD .undefined) := by
      cases related with
      | nil => exact .undefined
      | cons pair _ => exact pair
    exact ih (List.forall₂_drop 1 related) (.cons ⟨rfl, fun _ => head⟩ same)

/-- Actions that agree do so with parameters on top of the scope. -/
theorem agree_withParams {α β : Type} {A : Renaming → α → β → Prop} {p : Eval α} {q : Eval β}
    {args args' : List Value} (params : List String) (related : List.Forall₂ ρ.Values args args')
    (agree : Agree names A ρ p q) :
    Agree names A ρ (Eval.withParams params args p) (Eval.withParams params args' q) := by
  intro m m' machines
  have bound : ρ.Machines names ⟨m.heap, m.scope.bind params args⟩
      ⟨m'.heap, m'.scope.bind params args'⟩ :=
    ⟨machines.heaps, frames_bind params related machines.scope⟩
  obtain ⟨ρ', grows, after, same⟩ := agree _ _ bound
  -- assignments to outer names outlast the parameters
  exact ⟨ρ', grows, ⟨after.heaps, List.forall₂_drop _ after.scope⟩, same⟩

end Renaming

end FormLogic
