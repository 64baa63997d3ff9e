import FormLogic.Proofs.Eval.Invariant
import FormLogic.Proofs.Eval.ShortCircuit

/-!
# `FormLogic.Proofs.Eval.Callback` — callbacks over the elements of a sequence

A method with a callback takes the elements that its sequence has when it is called, and gives them to
the callback one after the other. The callback can do anything meanwhile, also to the sequence itself;
this does not change which elements come, nor how many. So a run of such a method is described by the
invocations of its callback: what each is given is known beforehand, and what the method makes of them
is a function of what they answer.

## Contents
- `Invocation`, `Invoked`: invocations of a callback, one after the other.
- `Covers`: the invocations that a list of elements asks for; `exists_covers`.
- `loop_of_covers`: what a loop makes of the invocations; `anyItem_of_covers` to
  `mapItems_of_covers`: the five loops.
- `Gives`, `Ends`: what the methods make of them; `ends_each`.
- `value_member`, `value_callMember`: reading a property and calling a method.
- `callMethod_sequence`, `callMethod_mapping`, `callMethod_each`: the methods of containers.
- `Growing`, `growing_value`: evaluation takes no container away.
- `Iterates`, `value_iterates`: the methods go through a snapshot.
-/

namespace FormLogic

/-- An invocation of a callback: the element and the index that it is given, and its answer. -/
structure Invocation where
  item : Value
  index : Nat
  result : Except EvalError Value

namespace Eval

/-- How a callback is invoked: with the element and its index as arguments. -/
def invoke (params : List String) (body : Expr) : Visit :=
  fun item index => withParams params [item, .ofNat index] (value body)

/-- The invocations are made one after the other, each on the machine that the one before it leaves. -/
inductive Invoked (visit : Visit) : List Invocation → Machine → Machine → Prop where
  | nil {m : Machine} : Invoked visit [] m m
  | cons {call : Invocation} {calls : List Invocation} {m u m' : Machine}
      (first : visit call.item call.index m = (call.result, u)) (others : Invoked visit calls u m') :
      Invoked visit (call :: calls) m m'

/-- The invocations for elements of which the first one has this index: one for each element, as long
as none fails or has a value that ends them. -/
inductive Covers (ends : Value → Bool) : (index : Nat) → List Value → List Invocation → Prop where
  | nil {index : Nat} : Covers ends index [] []
  | failed {index : Nat} {item : Value} {rest : List Value} {e : EvalError} :
      Covers ends index (item :: rest) [⟨item, index, .error e⟩]
  | ended {index : Nat} {item v : Value} {rest : List Value} (last : ends v = true) :
      Covers ends index (item :: rest) [⟨item, index, .ok v⟩]
  | next {index : Nat} {item v : Value} {rest : List Value} {calls : List Invocation}
      (goesOn : ends v = false) (others : Covers ends (index + 1) rest calls) :
      Covers ends index (item :: rest) (⟨item, index, .ok v⟩ :: calls)

theorem exists_covers (visit : Visit) (ends : Value → Bool) (index : Nat) (items : List Value)
    (m : Machine) :
    ∃ calls m', Invoked visit calls m m' ∧ Covers ends index items calls := by
  induction items generalizing index m with
  | nil => exact ⟨[], m, .nil, .nil⟩
  | cons item rest ih =>
    cases first : visit item index m with
    | mk result u =>
      cases result with
      | error e => exact ⟨_, u, .cons first .nil, .failed⟩
      | ok v =>
        by_cases last : ends v = true
        · exact ⟨_, u, .cons first .nil, .ended last⟩
        · obtain ⟨calls, m', invoked, others⟩ := ih (index + 1) u
          exact ⟨_, m', .cons first invoked, .next (by simpa using last) others⟩

namespace Covers

variable {ends : Value → Bool} {index : Nat} {items : List Value} {calls : List Invocation}

theorem length_le (covers : Covers ends index items calls) : calls.length ≤ items.length := by
  induction covers with
  | nil => exact Nat.le_refl _
  | failed | ended => simp
  | next _ _ ih => simpa using ih

/-- Each invocation is given the element of its turn, and the index of this element. -/
theorem given (covers : Covers ends index items calls) {i : Nat} {call : Invocation}
    (found : calls[i]? = some call) : items[i]? = some call.item ∧ call.index = index + i := by
  induction covers generalizing i with
  | nil => cases found
  | failed | ended =>
    cases i with
    | zero =>
      cases found
      exact ⟨rfl, rfl⟩
    | succ i => cases found
  | next _ _ ih =>
    cases i with
    | zero =>
      cases found
      exact ⟨rfl, rfl⟩
    | succ i =>
      obtain ⟨same, turn⟩ := ih found
      exact ⟨same, by omega⟩

/-- All invocations but the last one have values that do not end them. -/
theorem goesOn (covers : Covers ends index items calls) :
    ∀ call ∈ calls.dropLast, ∃ v, call.result = .ok v ∧ ends v = false := by
  induction covers with
  | nil | failed | ended => exact nofun
  | @next index item v rest calls goesOn others ih =>
    cases calls with
    | nil => exact nofun
    | cons call calls =>
      rw [List.dropLast_cons_cons, List.forall_mem_cons]
      exact ⟨⟨v, rfl, goesOn⟩, ih⟩

end Covers

/-! ## The loops -/

/-- The values of the invocations, or the error of the first one that has failed. -/
def answers (calls : List Invocation) : Except EvalError (List Value) :=
  calls.mapM Invocation.result

/-- The elements for which the callback holds. -/
def keptItems (items vs : List Value) : List Value :=
  ((items.zip vs).filter fun pair => pair.2.truthy).map Prod.fst

theorem answers_ok (item : Value) (index : Nat) (v : Value) (calls : List Invocation) :
    answers (⟨item, index, .ok v⟩ :: calls) = (answers calls).map (v :: ·) := by
  unfold answers
  rw [List.mapM_cons]
  cases calls.mapM Invocation.result <;> rfl

/-- A loop that calls its callback for one element after the other, until a value ends it, makes of
the values what `finish` says, if this agrees with what the loop does at one element. -/
theorem loop_of_covers {S β : Type} {visit : Visit} {ends : Value → Bool}
    (loop : S → Nat → List Value → Eval β) (finish : S → List Value → List Value → β)
    (step : S → Value → Value → S) (nil : ∀ s index, loop s index [] = return finish s [] [])
    (cons : ∀ s index item rest, loop s index (item :: rest) = do
      let v ← visit item index
      if ends v then return finish s (item :: rest) [v] else loop (step s item v) (index + 1) rest)
    (next : ∀ s item v rest vs, ends v = false →
      finish s (item :: rest) (v :: vs) = finish (step s item v) rest vs)
    {index : Nat} {items : List Value} {calls : List Invocation} {m m' : Machine}
    (covers : Covers ends index items calls) (invoked : Invoked visit calls m m') (s : S) :
    loop s index items m = ((answers calls).map (finish s items), m') := by
  induction covers generalizing m s with
  | nil =>
    cases invoked
    rw [nil]
    rfl
  | failed =>
    obtain _ | ⟨first, ⟨⟩⟩ := invoked
    rw [cons, bind_apply, first]
    rfl
  | ended last =>
    obtain _ | ⟨first, ⟨⟩⟩ := invoked
    rw [cons, bind_apply, first]
    dsimp only
    rw [if_pos last]
    rfl
  | @next index item v rest calls goesOn _ ih =>
    obtain _ | ⟨first, others⟩ := invoked
    rw [cons, bind_apply, first, answers_ok]
    dsimp only
    rw [if_neg (by simp [goesOn]), ih others]
    cases answers calls with
    | error e => rfl
    | ok vs => exact congrArg (fun b => (Except.ok b, m')) (next s item v rest vs goesOn).symm

section

variable {visit : Visit} {index : Nat} {items : List Value} {calls : List Invocation}
  {m m' : Machine}

theorem anyItem_of_covers (covers : Covers Value.truthy index items calls)
    (invoked : Invoked visit calls m m') :
    anyItem visit index items m = ((answers calls).map (·.any Value.truthy), m') := by
  refine loop_of_covers (fun _ => anyItem visit) (fun _ _ vs => vs.any Value.truthy)
    (fun _ _ _ => ()) (fun _ _ => rfl) (fun _ index item rest => ?_) ?_ covers invoked ()
  · refine congrArg (visit item index >>= ·) (funext fun v => ?_)
    cases holds : v.truthy <;> simp [holds]
  · intro _ _ v _ vs goesOn
    rw [List.any_cons, goesOn, Bool.false_or]

theorem everyItem_of_covers (covers : Covers (fun v => !v.truthy) index items calls)
    (invoked : Invoked visit calls m m') :
    everyItem visit index items m = ((answers calls).map (·.all Value.truthy), m') := by
  refine loop_of_covers (fun _ => everyItem visit) (fun _ _ vs => vs.all Value.truthy)
    (fun _ _ _ => ()) (fun _ _ => rfl) (fun _ index item rest => ?_) ?_ covers invoked ()
  · refine congrArg (visit item index >>= ·) (funext fun v => ?_)
    cases holds : v.truthy <;> simp [holds]
  · intro _ _ v _ vs goesOn
    have holds : v.truthy = true := by simpa using goesOn
    rw [List.all_cons, holds, Bool.true_and]

theorem firstItem_of_covers (covers : Covers Value.truthy index items calls)
    (invoked : Invoked visit calls m m') :
    firstItem visit index items m =
      ((answers calls).map fun vs => (keptItems items vs).headD .undefined, m') := by
  refine loop_of_covers (fun _ => firstItem visit)
    (fun _ items vs => (keptItems items vs).headD .undefined) (fun _ _ _ => ()) (fun _ _ => rfl)
    (fun _ index item rest => ?_) ?_ covers invoked ()
  · refine congrArg (visit item index >>= ·) (funext fun v => ?_)
    cases holds : v.truthy <;> simp [holds, keptItems]
  · intro _ _ v _ vs goesOn
    simp [goesOn, keptItems]

theorem filterItems_of_covers (covers : Covers (fun _ => false) index items calls)
    (invoked : Invoked visit calls m m') (kept : Array Value) :
    filterItems visit kept index items m =
      ((answers calls).map fun vs => kept ++ (keptItems items vs).toArray, m') := by
  refine loop_of_covers (filterItems visit)
    (fun kept items vs => kept ++ (keptItems items vs).toArray)
    (fun kept item v => if v.truthy then kept.push item else kept) (fun kept _ => ?_)
    (fun _ index item rest => ?_) ?_ covers invoked kept
  · simp [keptItems, filterItems]
  · refine congrArg (visit item index >>= ·) (funext fun v => ?_)
    simp
  · intro kept item v rest vs _
    cases holds : v.truthy <;> simp [holds, keptItems]

theorem mapItems_of_covers (covers : Covers (fun _ => false) index items calls)
    (invoked : Invoked visit calls m m') (values : Array Value) :
    mapItems visit values index items m =
      ((answers calls).map fun vs => values ++ vs.toArray, m') := by
  refine loop_of_covers (mapItems visit) (fun values _ vs => values ++ vs.toArray)
    (fun values _ v => values.push v) (fun values _ => ?_) (fun _ index item rest => ?_) ?_ covers
    invoked values
  · simp [mapItems]
  · refine congrArg (visit item index >>= ·) (funext fun v => ?_)
    simp
  · intro values item v rest vs _
    simp

end

/-! ## What the invocations have answered -/

theorem answers_eq_ok_iff {calls : List Invocation} {vs : List Value} :
    answers calls = .ok vs ↔ calls.map Invocation.result = vs.map .ok := by
  induction calls generalizing vs with
  | nil => cases vs <;> simp [answers, pure, Except.pure]
  | cons call calls ih =>
    obtain ⟨item, index, e | v⟩ := call
    · cases vs <;> simp [answers, bind, Except.bind]
    · rw [answers_ok]
      cases vs with
      | nil => cases answers calls <;> simp [Except.map]
      | cons w vs =>
        rw [List.map_cons, List.map_cons, List.cons.injEq, ← ih]
        cases answers calls <;> simp [Except.map]

namespace Covers

variable {ends : Value → Bool} {index : Nat} {items : List Value} {calls : List Invocation}

/-- If an invocation has failed, it was the last one. -/
theorem failed_last (covers : Covers ends index items calls) {e : EvalError}
    (fails : answers calls = .error e) :
    ∃ call, calls.getLast? = some call ∧ call.result = .error e := by
  induction covers with
  | nil | ended => cases fails
  | failed =>
    cases fails
    exact ⟨_, rfl, rfl⟩
  | @next index item v rest calls _ _ ih =>
    rw [answers_ok] at fails
    cases others : answers calls with
    | ok vs =>
      rw [others] at fails
      cases fails
    | error e' =>
      rw [others] at fails
      obtain ⟨call, last, result⟩ := ih (others.trans fails)
      refine ⟨call, ?_, result⟩
      rw [List.getLast?_cons, last]
      rfl

/-- If there are fewer invocations than elements, then because of the last one. -/
theorem cut_short (covers : Covers ends index items calls) (short : calls.length < items.length) :
    ∃ call, calls.getLast? = some call ∧ ∀ v, call.result = .ok v → ends v = true := by
  induction covers with
  | nil => exact absurd short (Nat.lt_irrefl _)
  | failed => exact ⟨_, rfl, nofun⟩
  | ended last =>
    refine ⟨_, rfl, ?_⟩
    rintro _ ⟨⟩
    exact last
  | @next index item v rest calls _ _ ih =>
    obtain ⟨call, last, ended⟩ := ih (by simpa using short)
    refine ⟨call, ?_, ended⟩
    rw [List.getLast?_cons, last]
    rfl

/-- If no value ends the invocations and none fails, there is one for each element. -/
theorem length_eq (covers : Covers (fun _ => false) index items calls) {vs : List Value}
    (answered : answers calls = .ok vs) : vs.length = items.length := by
  have results := answers_eq_ok_iff.mp answered
  have same : calls.length = vs.length := by simpa using congrArg List.length results
  refine same.symm.trans (Nat.le_antisymm covers.length_le (Nat.le_of_not_lt fun short => ?_))
  obtain ⟨call, last, ended⟩ := covers.cut_short short
  have mem : call.result ∈ calls.map Invocation.result :=
    List.mem_map_of_mem (List.mem_of_getLast? last)
  rw [results] at mem
  obtain ⟨v, _, ok⟩ := List.mem_map.mp mem
  cases ended v ok.symm

end Covers

/-! ## The methods -/

/-- Whether a value of the callback ends the method before all elements have had their turn. -/
def endsEach (method : String) (v : Value) : Bool :=
  match method with
  | "some" | "find" => v.truthy
  | "every" => !v.truthy
  | _ => false

/-- What a method gives for the elements of its sequence and the values of its callback for them, and
the machine that it leaves. -/
inductive Gives (items vs : List Value) (m : Machine) : (method : String) → Value → Machine → Prop where
  /-- Whether the callback holds for one of the elements. -/
  | some : Gives items vs m "some" (.bool (vs.any Value.truthy)) m
  /-- Whether the callback holds for all elements. -/
  | every : Gives items vs m "every" (.bool (vs.all Value.truthy)) m
  /-- The first element for which the callback holds. -/
  | find : Gives items vs m "find" ((keptItems items vs).headD .undefined) m
  /-- A new sequence of the elements for which the callback holds. -/
  | filter (all : vs.length = items.length) :
    Gives items vs m "filter" (.container m.heap.size)
      ⟨(m.heap.alloc (.sequence (keptItems items vs).toArray)).2, m.scope⟩
  /-- A new sequence of the values. -/
  | map (all : vs.length = items.length) :
    Gives items vs m "map" (.container m.heap.size)
      ⟨(m.heap.alloc (.sequence vs.toArray)).2, m.scope⟩

/-- How a method ends after its invocations: with the error of one that has failed, or with what it
gives for their values. -/
inductive Ends (items : List Value) (calls : List Invocation) (m : Machine) (method : String) :
    Except EvalError Value × Machine → Prop where
  | failed {e : EvalError} (fails : answers calls = .error e) : Ends items calls m method (.error e, m)
  | given {vs : List Value} {v : Value} {m' : Machine} (answered : answers calls = .ok vs)
      (gives : Gives items vs m method v m') : Ends items calls m method (.ok v, m')

section

variable {visit : Visit} {items : List Value} {calls : List Invocation} {m m₁ : Machine}
  {method : String}

theorem ends_of_loop {β : Type} {loop : Eval β} {finish : List Value → β} {next : β → Eval Value}
    (looped : loop m = ((answers calls).map finish, m₁))
    (gives : ∀ vs, answers calls = .ok vs →
      ∃ v m', next (finish vs) m₁ = (.ok v, m') ∧ Gives items vs m₁ method v m') :
    Ends items calls m₁ method ((loop >>= next) m) := by
  rw [bind_apply, looped]
  cases answered : answers calls with
  | error e => exact .failed answered
  | ok vs =>
    obtain ⟨v, m', ends, given⟩ := gives vs answered
    show Ends items calls m₁ method (next (finish vs) m₁)
    rw [ends]
    exact .given answered given

/-- Each of the methods makes of the invocations what is said of it. -/
theorem ends_each {each : Visit → List Value → Eval Value} (found : eachMethod? method = some each)
    (covers : Covers (endsEach method) 0 items calls) (invoked : Invoked visit calls m m₁) :
    Ends items calls m₁ method (each visit items m) := by
  unfold eachMethod? at found
  split at found <;> cases found
  · exact ends_of_loop (anyItem_of_covers covers invoked) fun vs _ => ⟨_, _, rfl, .some⟩
  · exact ends_of_loop (everyItem_of_covers covers invoked) fun vs _ => ⟨_, _, rfl, .every⟩
  · -- the loop of `find` is the whole method
    show Ends items calls m₁ "find" (firstItem visit 0 items m)
    rw [← bind_pure (firstItem visit 0 items)]
    exact ends_of_loop (firstItem_of_covers covers invoked) fun vs _ => ⟨_, _, rfl, .find⟩
  · refine ends_of_loop (filterItems_of_covers covers invoked #[]) fun vs answered => ?_
    rw [Array.empty_append]
    exact ⟨_, _, rfl, .filter (covers.length_eq answered)⟩
  · refine ends_of_loop (mapItems_of_covers covers invoked #[]) fun vs answered => ?_
    rw [Array.empty_append]
    exact ⟨_, _, rfl, .map (covers.length_eq answered)⟩

end

/-! ## Properties and calls -/

section

variable {base : Expr} {key : Key Expr} {optional : Bool} {args : List Expr} {m u m₀ : Machine}
  {r : Ref} {v k : Value} {items : Array Value}

/-- A property is read when the value that has it and the key are known. -/
theorem value_member (receiver : value base m = (.ok v, u)) (present : v.isNullish = false)
    (named : keyValue key u = (.ok k, m₀)) :
    value (.member base key optional) m = read v k m₀ := by
  apply value_of_chain
  unfold chain
  rw [bind_apply, chain_of_value receiver present]
  dsimp only
  rw [if_neg (by simp [present]), bind_apply, named]

/-- A method is called when the value that has it and the name of the method are known. -/
theorem value_callMember (receiver : value base m = (.ok v, u)) (present : v.isNullish = false)
    (named : keyValue key u = (.ok k, m₀)) :
    value (.call (.member base key optional) args) m =
      callMethod v (m₀.heap.text k) (arguments args) m₀ := by
  apply value_of_chain
  unfold chain
  rw [bind_apply, chain_of_value receiver present]
  dsimp only
  rw [if_neg (by simp [present]), bind_apply, named]
  rfl

theorem callMethod_sequence (sequence : m.heap.cell r = .sequence items) (method : String)
    (args : List Argument) :
    callMethod (.container r) method args m = sequenceMethod r method args m := by
  have stored : heap m = (.ok m.heap, m) := rfl
  unfold callMethod
  dsimp only
  rw [bind_apply, stored]
  dsimp only
  rw [sequence]

theorem callMethod_mapping {fields : Fields Value} (mapping : m.heap.cell r = .mapping fields)
    (method : String) (args : List Argument) :
    callMethod (.container r) method args m = mappingMethod r method args m := by
  have stored : heap m = (.ok m.heap, m) := rfl
  unfold callMethod
  dsimp only
  rw [bind_apply, stored]
  dsimp only
  rw [mapping]

/-- A method with a callback goes through the elements that the sequence has when it is called. -/
theorem callMethod_each {each : Visit → List Value → Eval Value} {method : String}
    {params : List String} {body : Eval Value} {rest : List Argument}
    (sequence : m.heap.cell r = .sequence items) (found : eachMethod? method = some each) :
    callMethod (.container r) method (.callback params body :: rest) m =
      each (fun item index => withParams params [item, .ofNat index] body) items.toList m := by
  have snapshot : (m.heap.itemsOf? (.container r)).getD #[] = items := by
    unfold Heap.itemsOf?
    simp only [sequence, Option.getD_some]
  rw [callMethod_sequence sequence]
  unfold sequenceMethod
  rw [found]
  show each _ ((m.heap.itemsOf? (.container r)).getD #[]).toList m = _
  rw [snapshot]

end

/-! ## Evaluation takes no container away -/

/-- The action takes no container away, also when it fails. -/
def Growing {α : Type} (p : Eval α) : Prop :=
  ∀ m : Machine, m.heap.size ≤ (p m).2.heap.size

theorem growing_update (r : Ref) (f : Cell → Cell) : Growing (update r f) :=
  fun m => Nat.le_of_eq (Heap.size_update m.heap r f).symm

theorem growing_write (base key v : Value) : Growing (write base key v) := by
  intro m
  unfold write onHeap Heap.writeProperty
  dsimp only
  split
  · next r change _ => exact growing_update r change m
  · exact Nat.le_refl _

theorem growing_delete (base key : Value) : Growing (delete base key) := by
  intro m
  show m.heap.size ≤ (Heap.deleteProperty base key m.heap).2.size
  unfold Heap.deleteProperty
  split
  · exact Nat.le_refl _
  · exact Nat.le_refl _
  · next r =>
    split
    · exact growing_update r _ m
    · split
      · split
        · exact growing_update r _ m
        · exact Nat.le_refl _
      · exact Nat.le_refl _
  · exact Nat.le_refl _

theorem invariant_growing : Invariant @Growing where
  pure _ _ := Nat.le_refl _
  throw _ _ := Nat.le_refl _
  bind first next m :=
    bind_ends (R := fun m m' : Machine => m.heap.size ≤ m'.heap.size) Nat.le_trans (first m)
      fun a m' _ => next a m'
  heap _ := Nat.le_refl _
  scope _ := Nat.le_refl _
  alloc c m := (Heap.Extends.alloc m.heap c).grown
  read _ _ _ := Nat.le_refl _
  withParams params args inner := fun ⟨heap, scope⟩ => inner ⟨heap, scope.bind params args⟩

/-- No node takes a container away. -/
theorem permits_growing (e : Expr) : Permits @Growing e := by
  cases e with
  | call callee args =>
    cases callee with
    | member base key optional =>
      cases key with
      | named method => exact fun _ => growing_update
      | computed key => exact fun _ _ => growing_update
    | _ => trivial
  | assign target value =>
    cases target with
    | ident name =>
      intro v m
      unfold assign
      split <;> exact Nat.le_refl _
    | member base key optional => exact growing_write
    | _ => exact fun m => Nat.le_refl _
  | delete target =>
    cases target with
    | member base key optional => exact growing_delete
    | _ => trivial
  | _ => trivial

theorem growing_value (e : Expr) : Growing (value e) :=
  invariant_growing.settle (invariant_growing.chain e fun node _ => permits_growing node)

theorem growing_invoke (params : List String) (body : Expr) (item : Value) (index : Nat) :
    Growing (invoke params body item index) :=
  invariant_growing.withParams _ _ (growing_value body)

theorem Invoked.grown {visit : Visit} {calls : List Invocation} {m m' : Machine}
    (invoked : Invoked visit calls m m') (grows : ∀ item index, Growing (visit item index)) :
    m.heap.size ≤ m'.heap.size := by
  induction invoked with
  | nil => exact Nat.le_refl _
  | @cons call _ m u _ first _ ih =>
    have here := of_ends (R := fun u => m.heap.size ≤ u.heap.size)
      (grows call.item call.index m) first
    exact Nat.le_trans here ih

/-! ## The snapshot -/

/-- A method with a callback goes through the elements `items` that its sequence has when it is
called on `m`. It makes these invocations, which leave the machine `m₁`, and ends like this. -/
structure Iterates (visit : Visit) (method : String) (items : Array Value) (m : Machine)
    (calls : List Invocation) (m₁ : Machine) (ends : Except EvalError Value × Machine) : Prop where
  /-- The invocations are all that happens before the method ends. -/
  invoked : Invoked visit calls m m₁
  /-- No container goes meanwhile, so those that the method makes in the end are new. -/
  grown : m.heap.size ≤ m₁.heap.size
  /-- An invocation is given the element that stood at its place in the beginning, and this place. -/
  given : ∀ (i : Nat) call, calls[i]? = some call → items[i]? = some call.item ∧ call.index = i
  /-- There are at most as many invocations as there were elements. -/
  bounded : calls.length ≤ items.size
  /-- All invocations but the last one have succeeded, with values that do not end the method. -/
  goesOn : ∀ call ∈ calls.dropLast, ∃ v, call.result = .ok v ∧ endsEach method v = false
  /-- If an element does not have its turn, the last invocation has failed or ended the method. -/
  cutShort : calls.length < items.size →
    ∃ call, calls.getLast? = some call ∧ ∀ v, call.result = .ok v → endsEach method v = true
  /-- If the method fails, then with the error of the last invocation. -/
  failed : ∀ e m', ends = (.error e, m') →
    m' = m₁ ∧ ∃ call, calls.getLast? = some call ∧ call.result = .error e
  /-- If it succeeds, all invocations have succeeded, and their values make the result. -/
  succeeded : ∀ v m', ends = (.ok v, m') →
    ∃ vs, calls.map Invocation.result = vs.map .ok ∧ Gives items.toList vs m₁ method v m'

theorem exists_eachMethod {method : String}
    (known : method ∈ ["some", "every", "find", "filter", "map"]) :
    ∃ each, eachMethod? method = some each := by
  simp only [List.mem_cons, List.not_mem_nil, or_false] at known
  rcases known with rfl | rfl | rfl | rfl | rfl <;> exact ⟨_, rfl⟩

theorem Ends.iterates {visit : Visit} {method : String} {items : Array Value} {m m₁ : Machine}
    {calls : List Invocation} {ends : Except EvalError Value × Machine}
    (outcome : Ends items.toList calls m₁ method ends)
    (covers : Covers (endsEach method) 0 items.toList calls) (invoked : Invoked visit calls m m₁)
    (grows : ∀ item index, Growing (visit item index)) :
    Iterates visit method items m calls m₁ ends where
  invoked := invoked
  grown := invoked.grown grows
  given i call found := by
    obtain ⟨same, turn⟩ := covers.given found
    exact ⟨by rwa [Array.getElem?_toList] at same, turn.trans (Nat.zero_add i)⟩
  bounded := covers.length_le
  goesOn := covers.goesOn
  cutShort := covers.cut_short
  failed := by
    rintro e m' rfl
    cases outcome with
    | failed fails => exact ⟨rfl, covers.failed_last fails⟩
  succeeded := by
    rintro v m' rfl
    cases outcome with
    | given answered gives => exact ⟨_, answers_eq_ok_iff.mp answered, gives⟩

/-- **Callbacks see a snapshot.** However a callback changes the sequence that it goes through, its
invocations are given the elements that the sequence had when the method was called, one after the
other from the first on, each with its index; and what the method gives is made of these elements and
of the values of their invocations. -/
theorem value_iterates {base : Expr} {key : Key Expr} {optional : Bool} {params : List String}
    {body : Expr} {args : List Expr} {m u m₀ : Machine} {r : Ref} {k : Value} {items : Array Value}
    (receiver : value base m = (.ok (.container r), u)) (named : keyValue key u = (.ok k, m₀))
    (known : m₀.heap.text k ∈ ["some", "every", "find", "filter", "map"])
    (sequence : m₀.heap.cell r = .sequence items) :
    ∃ calls m₁, Iterates (invoke params body) (m₀.heap.text k) items m₀ calls m₁
      (value (.call (.member base key optional) (.arrow params body :: args)) m) := by
  obtain ⟨each, found⟩ := exists_eachMethod known
  obtain ⟨calls, m₁, invoked, covers⟩ :=
    exists_covers (invoke params body) (endsEach (m₀.heap.text k)) 0 items.toList m₀
  refine ⟨calls, m₁, Ends.iterates ?_ covers invoked (growing_invoke params body)⟩
  rw [value_callMember receiver rfl named]
  unfold arguments
  rw [callMethod_each sequence found]
  exact ends_each found covers invoked

/-- The callback puts its element at the end of the sequence that it goes through. It is invoked for
the two elements that were there, and gives the length that each of its changes leaves. -/
theorem value_iterates_growing :
    let body : Expr := .call (.member (.ident "data") (.named "push") false) [.ident "x"]
    let e : Expr := .call (.member (.ident "data") (.named "map") false) [.arrow ["x", "i"] body]
    let items : Array Value := #[.string "a", .null]
    let m : Machine := ⟨⟨#[.sequence items]⟩, [("data", .container 0)]⟩
    (∃ calls m₁, Iterates (invoke ["x", "i"] body) "map" items m calls m₁ (value e m)) ∧
      value e m = (.ok (.container 1),
        ⟨⟨#[.sequence (items ++ items), .sequence #[.ofNat 3, .ofNat 4]]⟩, m.scope⟩) := by
  intro body e items m
  constructor
  · exact value_iterates (k := .string "map") (by rfl : value (.ident "data") m = (.ok (.container 0), m))
      (by rfl : keyValue (.named "map") m = (.ok (.string "map"), m)) (by decide) (by rfl)
  · rfl

end Eval

end FormLogic
