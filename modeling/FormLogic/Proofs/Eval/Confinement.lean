import FormLogic.Proofs.Eval.Simulation

/-!
# `FormLogic.Proofs.Eval.Confinement` — what an evaluation can touch

A program sees the bindings that it names, and whatever they lead to. Run on a machine and on that
same machine, it agrees with itself under the identity on what these bindings reach; so what it
changes, and what its value leads to, was reached from them before or is new.

## Contents
- `Heap.Confines`, `Heap.Confined`: values that were reached or are new, and heaps that differ in
  such containers only.
- `Eval.run_confined`: programs on machines.
- `Interpreter.evaluate_confined`: texts and contexts.
-/

namespace FormLogic

namespace Heap

/-- The value was reached from the roots in `h`, or is a container of `g` that is not one of `h`.
Scalars are free to appear. -/
def Confines (h g : Heap) (roots : Set Value) : Value → Prop
  | .container r => h.Reach roots (.container r) ∨ (h.size ≤ r ∧ r < g.size)
  | .foreign name => h.Reach roots (.foreign name)
  | _ => True

/-- The heap `g` comes from `h` by changes to containers that the roots reach and by new containers,
and none of these holds anything else. -/
structure Confined (h g : Heap) (roots : Set Value) : Prop where
  grown : h.size ≤ g.size
  frame : ∀ r, r < h.size → ¬ h.Reach roots (.container r) → g.cell r = h.cell r
  held : ∀ r, h.Confines g roots (.container r) →
    ∀ v ∈ (g.cell r).children, h.Confines g roots v

namespace Confined

variable {h g : Heap} {roots : Set Value} {v w : Value}

/-- From a confined value only confined values are reached. -/
theorem confines (confined : h.Confined g roots) (inside : h.Confines g roots v)
    (reached : g.Reach {v} w) : h.Confines g roots w := by
  refine reached.within ?_ confined.held
  intro u here
  obtain rfl : u = v := here
  exact inside

/-- A container that has changed was reached. -/
theorem reached_of_changed (confined : h.Confined g roots) {r : Ref} (old : r < h.size)
    (changed : g.cell r ≠ h.cell r) : h.Reach roots (.container r) := by
  by_contra unreached
  exact changed (confined.frame r old unreached)

/-- A container that is confined holds live values; any other one is as before. -/
theorem closed (confined : h.Confined g roots) (before : h.Closed)
    (live : ∀ v ∈ roots, h.Live v) : g.Closed := by
  intro r v held
  have inside : r < g.size := lt_size_of_mem_children held
  by_cases here : h.Confines g roots (.container r)
  · have there := confined.held r here v held
    rintro s rfl
    rcases there with reached | ⟨_, new⟩
    · exact Nat.lt_of_lt_of_le (reached.live before live s rfl) confined.grown
    · exact new
  · have old : r < h.size := by
      by_contra new
      exact here (Or.inr ⟨Nat.le_of_not_lt new, inside⟩)
    rw [confined.frame r old fun reached => here (Or.inl reached)] at held
    exact (before r v held).mono confined.grown

/-- Values that do not dangle lead where they have led before, or to what is confined. -/
theorem reach_before (confined : h.Confined g roots) (before : h.Closed) {others : Set Value}
    (live : ∀ v ∈ others, h.Live v) (reached : g.Reach others v) :
    h.Reach others v ∨ h.Confines g roots v := by
  refine reached.within (P := fun v => h.Reach others v ∨ h.Confines g roots v)
    (fun v here => Or.inl (.root here)) fun r before' w held => ?_
  by_cases within : h.Confines g roots (.container r)
  · exact Or.inr (confined.held r within w held)
  · have reached' := before'.resolve_right within
    have old : r < h.size := reached'.live before live r rfl
    rw [confined.frame r old fun reached => within (Or.inl reached)] at held
    exact Or.inl (reached'.child held)

end Confined

end Heap

/-! ## Reading a simulation as confinement -/

namespace Renaming

variable {ρ : Renaming} {h g g' : Heap} {roots : Set Value} {v w : Value}

/-- What is related after growing from the identity was reached or is new. -/
theorem Grows.confines (grows : Grows (onReached h roots) ρ h h g g') (heaps : ρ.Heaps g g')
    (same : ρ.Values v w) : h.Confines g roots v := by
  cases same with
  | container paired =>
    rcases grows.fresh paired with ⟨_, reached⟩ | ⟨new, _⟩
    · exact Or.inl reached
    · exact Or.inr ⟨new, (heaps.inside paired).1⟩
  | foreign known =>
    have reached : (onReached h roots).handles _ := grows.later.handles ▸ known
    exact reached
  | _ => trivial

/-- What was reached or is new is related after growing from the identity. -/
theorem Grows.exists_refs (grows : Grows (onReached h roots) ρ h h g g') {r : Ref}
    (inside : h.Confines g roots (.container r)) : ∃ s, ρ.refs r s := by
  rcases inside with reached | ⟨new, bound⟩
  · exact ⟨r, grows.later.refs ⟨rfl, reached⟩⟩
  · exact grows.covers new bound

theorem Grows.confined (grows : Grows (onReached h roots) ρ h h g g') (heaps : ρ.Heaps g g') :
    h.Confined g roots where
  grown := grows.size_left
  frame r old unreached := by
    apply grows.frame old
    rintro s ⟨_, reached⟩
    exact unreached reached
  held r inside v mem := by
    obtain ⟨s, paired⟩ := grows.exists_refs inside
    obtain ⟨w, _, same⟩ := (heaps.cells paired).exists_of_mem mem
    exact grows.confines heaps same

end Renaming

/-! ## Programs -/

/-- The values of the names in a scope. -/
def Scope.valuesOf (scope : Scope) (names : List String) : Set Value :=
  {v | ∃ name ∈ names, (name, v) ∈ scope}

/-- What a program changes was reached from the bindings that it names, and so was what it answers,
or it is new. -/
theorem Eval.run_confined {program : Program} {h : Heap} {scope : Scope} (closed : h.Closed)
    (live : ∀ v ∈ scope.valuesOf program.names, h.Live v) :
    h.Confined (Eval.run program ⟨h, scope⟩).2.heap (scope.valuesOf program.names) ∧
      ∀ v, (Eval.run program ⟨h, scope⟩).1 = .ok v →
        h.Confines (Eval.run program ⟨h, scope⟩).2.heap (scope.valuesOf program.names) v := by
  have machines : (Renaming.onReached h (scope.valuesOf program.names)).Machines
      {name | name ∈ program.names} ⟨h, scope⟩ ⟨h, scope⟩ := by
    refine ⟨Renaming.heaps_onReached closed live, List.forall₂_same.mpr fun frame mem => ?_⟩
    exact ⟨rfl, fun used => Renaming.values_onReached (.root ⟨frame.1, used, mem⟩)⟩
  -- the run is compared with itself: what it touches is what the identity has grown to
  obtain ⟨ρ, grows, after, same⟩ := Renaming.agree_run (fun _ used => used) _ _ _ machines
  refine ⟨grows.confined after.heaps, fun v answer => ?_⟩
  rw [answer] at same
  cases same with
  | ok same => exact grows.confines after.heaps same

/-! ## Texts -/

/-- The frames of a context are its bindings. -/
theorem Scope.mem_ofContext {ctx : Context} {name : String} {v : Value} :
    (name, v) ∈ Scope.ofContext ctx ↔ ctx.binding? name = some v := by
  unfold ofContext Context.bindings
  rw [List.mem_map]
  constructor
  · rintro ⟨_, known, same⟩
    simp only [bindingNames, List.mem_cons, List.not_mem_nil, or_false] at known
    rcases known with rfl | rfl | rfl | rfl | rfl | rfl <;> cases same <;> rfl
  · intro bound
    refine ⟨name, Context.mem_bindingNames bound, ?_⟩
    rw [bound]
    rfl

theorem Scope.valuesOf_ofContext (ctx : Context) (names : List String) :
    (Scope.ofContext ctx).valuesOf names = ctx.valuesOf names := by
  ext v
  exact exists_congr fun name => and_congr_right fun _ => mem_ofContext

namespace Interpreter

/-- The program of a text is what the text reads as, whether it was kept or not. -/
theorem program_of_parse {i : Interpreter} {source : String} {program : Program}
    (parsed : parse source = .ok program) : ∃ i', i.program source = .ok (program, i') := by
  unfold Interpreter.program
  cases known : i.programs.get? source with
  | some kept =>
    have same := (i.read source kept known).symm.trans parsed
    cases same
    exact ⟨i, rfl⟩
  | none =>
    dsimp only
    split
    · next found again =>
      cases again.symm.trans parsed
      exact ⟨_, rfl⟩
    · next e again => cases again.symm.trans parsed

/-- Evaluating a text that reads as a program runs the program on the bindings. -/
theorem evaluate_of_parse {source : String} {program : Program}
    (parsed : parse source = .ok program) (i : Interpreter) :
    ∃ i', ∀ (ctx : Context) (h : Heap), Interpreter.evaluate source ctx ⟨h, i⟩ =
      ((Eval.run program ⟨h, .ofContext ctx⟩).1.mapError (⟨source, ·⟩),
        ⟨(Eval.run program ⟨h, .ofContext ctx⟩).2.heap, i'⟩) := by
  obtain ⟨i', found⟩ := program_of_parse (i := i) parsed
  refine ⟨i', fun ctx h => ?_⟩
  unfold Interpreter.evaluate
  simp only [found]
  generalize Eval.run program ⟨h, .ofContext ctx⟩ = x
  rcases x with ⟨_ | _, _⟩ <;> rfl

/-- A text that reads as no program fails and changes nothing. -/
theorem evaluate_of_parse_error {source : String} {e : SyntaxError}
    (malformed : parse source = .error e) (ctx : Context) (h : Heap) (i : Interpreter) :
    Interpreter.evaluate source ctx ⟨h, i⟩ = (.error ⟨source, .malformed e⟩, ⟨h, i⟩) := by
  have failed : i.program source = .error e := by
    unfold Interpreter.program
    cases known : i.programs.get? source with
    | some kept => cases (i.read source kept known).symm.trans malformed
    | none =>
      dsimp only
      split
      · next again => cases again.symm.trans malformed
      · next again =>
        cases again.symm.trans malformed
        rfl
  unfold Interpreter.evaluate
  simp only [failed]

/-- Evaluating a text is confined to the bindings that its program names. -/
theorem evaluate_confined {source : String} {program : Program}
    (parsed : parse source = .ok program) {ctx : Context} {h : Heap} (closed : h.Closed)
    (live : ctx.Live h) (i : Interpreter) :
    h.Confined (Interpreter.evaluate source ctx ⟨h, i⟩).2.heap (ctx.valuesOf program.names) ∧
      ∀ v, (Interpreter.evaluate source ctx ⟨h, i⟩).1 = .ok v →
        h.Confines (Interpreter.evaluate source ctx ⟨h, i⟩).2.heap
          (ctx.valuesOf program.names) v := by
  obtain ⟨i', evaluated⟩ := evaluate_of_parse parsed i
  have evaluated := evaluated ctx h
  have named : ∀ v ∈ (Scope.ofContext ctx).valuesOf program.names, h.Live v := by
    rw [Scope.valuesOf_ofContext]
    exact live.valuesOf program.names
  obtain ⟨confined, answers⟩ := Eval.run_confined closed named
  rw [Scope.valuesOf_ofContext] at confined answers
  rw [evaluated]
  refine ⟨confined, fun v answer => answers v ?_⟩
  generalize (Eval.run program ⟨h, .ofContext ctx⟩).1 = result at answer
  cases result with
  | ok w =>
    obtain rfl : w = v := Except.ok.inj answer
    rfl
  | error e => cases answer

/-- **Sandbox.** Whether it succeeds or fails, an evaluation leaves every container that the bindings
it names do not reach as it was; and its value and the containers it has changed lead only to what
these bindings reached before, and to new containers. -/
theorem evaluate_leaves_unreached {source : String} {program : Program}
    (parsed : parse source = .ok program) (ctx : Context) (h : Heap) (closed : h.Closed)
    (live : ctx.Live h) (i : Interpreter) :
    let named := ctx.valuesOf program.names
    let outcome := Interpreter.evaluate source ctx ⟨h, i⟩
    let after := outcome.2.heap
    (∀ r, r < h.size → ¬ h.Reach named (.container r) → after.cell r = h.cell r) ∧
    ∀ v, (outcome.1 = .ok v ∨ ∃ r, r < h.size ∧ after.cell r ≠ h.cell r ∧ v = .container r) →
      ∀ w, after.Reach {v} w →
        (∀ name, w = .foreign name → h.Reach named w) ∧
        (∀ r, w = .container r → h.Reach named w ∨ (h.size ≤ r ∧ r < after.size)) := by
  intro named outcome after
  obtain ⟨confined, answers⟩ := evaluate_confined parsed closed live i
  refine ⟨confined.frame, fun v start w reached => ?_⟩
  have inside : h.Confines after named v := by
    rcases start with answer | ⟨r, old, changed, rfl⟩
    · exact answers v answer
    · exact Or.inl (confined.reached_of_changed old changed)
  have there := confined.confines inside reached
  constructor
  · rintro name rfl
    exact there
  · rintro r rfl
    exact there

/-- Writing to the data leaves the presentation as it was. -/
theorem evaluate_leaves_unreached_presentation :
    let h : Heap := ⟨#[.mapping .empty, .mapping .empty]⟩
    let ctx : Context := { data := .container 0, uiSchema := .container 1 }
    h.Closed ∧ ctx.Live h ∧ (∃ program, parse "data.x = {}" = .ok program) ∧
      (Interpreter.evaluate "data.x = {}" ctx ⟨h, .fresh⟩).2.heap.cell 1 = h.cell 1 := by
  intro h ctx
  have closed : h.Closed := by decide
  have live : ctx.Live h := by decide
  have names : (parse "data.x = {}").toOption.map Program.names = some ["data"] := by
    decide +kernel
  cases parsed : parse "data.x = {}" with
  | error e =>
    rw [parsed] at names
    cases names
  | ok program =>
    rw [parsed] at names
    have named : program.names = ["data"] := Option.some.inj names
    refine ⟨closed, live, ⟨program, rfl⟩, ?_⟩
    refine (evaluate_leaves_unreached parsed ctx h closed live .fresh).1 1 (by decide) ?_
    intro reached
    have other := reached.within (P := fun v => v = .container 0) ?_ ?_
    · cases other
    · rintro v ⟨name, used, bound⟩
      rw [named, List.mem_singleton] at used
      subst used
      exact (Option.some.inj bound).symm
    · rintro r here v held
      cases here
      cases held

end Interpreter

end FormLogic
