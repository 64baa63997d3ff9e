import FormLogic.Eval.Method
import FormLogic.Proofs.Eval.Agree

/-!
# `FormLogic.Proofs.Eval.Method` — method calls in step

A method called on related receivers with the same arguments gives related answers. The arguments are
actions; what is needed of them is that each agrees with itself under every renaming. A callback
goes through two related lists of elements, and the renaming may grow from one element to the next.

## Contents
- `ArgumentAgrees`, `VisitAgrees`: what is needed of arguments and callbacks.
- `agree_anyItem` to `agree_mapItems`: callbacks over elements.
- `agree_sequenceMethod`, `agree_textMethod`, `agree_mappingMethod`, `agree_callMethod`.
-/

namespace FormLogic

namespace Renaming

variable {ρ ρ' : Renaming} {names : Set String} {v w : Value}

/-- The argument agrees with itself under every renaming. -/
def ArgumentAgrees (names : Set String) : Argument → Prop
  | .callback _ body => ∀ ρ, Agree names Values ρ body body
  | .plain value => ∀ ρ, Agree names Values ρ value value

/-- The callbacks agree on related elements, now and whenever the renaming has grown. -/
def VisitAgrees (names : Set String) (ρ : Renaming) (visit visit' : Eval.Visit) : Prop :=
  ∀ {ρ'}, ρ.Later ρ' → ∀ {item item'}, ρ'.Values item item' → ∀ index,
    Agree names Values ρ' (visit item index) (visit' item' index)

theorem VisitAgrees.later {visit visit' : Eval.Visit} (agrees : VisitAgrees names ρ visit visit')
    (later : ρ.Later ρ') : VisitAgrees names ρ' visit visit' :=
  fun more => agrees (later.trans more)

theorem items_later {a b : Array Value} (later : ρ.Later ρ') (same : ρ.Items a b) :
    ρ'.Items a b :=
  same.imp fun _ _ => later.values

/-! ## Arguments -/

theorem agree_argument {arg : Argument} (agrees : ArgumentAgrees names arg) (ρ : Renaming) :
    Agree names Values ρ (Eval.argument arg) (Eval.argument arg) := by
  cases arg with
  | callback params body => exact agree_throw _
  | plain value => exact agrees ρ

theorem agree_firstArgument {args : List Argument} (agrees : ∀ arg ∈ args, ArgumentAgrees names arg)
    (ρ : Renaming) :
    Agree names Values ρ (Eval.firstArgument args) (Eval.firstArgument args) := by
  cases args with
  | nil => exact agree_pure .undefined
  | cons arg rest => exact agree_argument (agrees arg List.mem_cons_self) ρ

/-! ## Callbacks over elements -/

section Callbacks

variable {visit visit' : Eval.Visit} {items items' : List Value}

/-- A loop that lets the callback decide about an element goes on, or stops, on both sides. -/
theorem agree_decided {α β : Type} {A : Renaming → α → β → Prop} {item item' : Value}
    {yes no : Eval α} {yes' no' : Eval β} (agrees : VisitAgrees names ρ visit visit')
    (pair : ρ.Values item item') (index : Nat)
    (holds : ∀ ρ', ρ.Later ρ' → Agree names A ρ' yes yes')
    (fails : ∀ ρ', ρ.Later ρ' → Agree names A ρ' no no') :
    Agree names A ρ (do if (← visit item index).truthy then yes else no)
      (do if (← visit' item' index).truthy then yes' else no') := by
  refine agree_bind (agrees (.refl ρ) pair index) fun ρ' later a b answer => ?_
  rw [answer.truthy_eq]
  split
  · exact holds ρ' later
  · exact fails ρ' later

theorem agree_anyItem (agrees : VisitAgrees names ρ visit visit')
    (same : List.Forall₂ ρ.Values items items') (index : Nat) :
    Agree names (fun _ => Eq) ρ (Eval.anyItem visit index items)
      (Eval.anyItem visit' index items') := by
  induction items generalizing items' index ρ with
  | nil =>
    cases same
    exact agree_pure rfl
  | cons item rest ih =>
    cases same with
    | cons pair related =>
      unfold Eval.anyItem
      refine agree_decided agrees pair index (fun _ _ => agree_pure rfl) fun ρ' later => ?_
      exact ih (agrees.later later) (related.imp fun _ _ => later.values) (index + 1)

theorem agree_everyItem (agrees : VisitAgrees names ρ visit visit')
    (same : List.Forall₂ ρ.Values items items') (index : Nat) :
    Agree names (fun _ => Eq) ρ (Eval.everyItem visit index items)
      (Eval.everyItem visit' index items') := by
  induction items generalizing items' index ρ with
  | nil =>
    cases same
    exact agree_pure rfl
  | cons item rest ih =>
    cases same with
    | cons pair related =>
      unfold Eval.everyItem
      refine agree_decided agrees pair index (fun ρ' later => ?_) fun _ _ => agree_pure rfl
      exact ih (agrees.later later) (related.imp fun _ _ => later.values) (index + 1)

theorem agree_firstItem (agrees : VisitAgrees names ρ visit visit')
    (same : List.Forall₂ ρ.Values items items') (index : Nat) :
    Agree names Values ρ (Eval.firstItem visit index items)
      (Eval.firstItem visit' index items') := by
  induction items generalizing items' index ρ with
  | nil =>
    cases same
    exact agree_pure .undefined
  | cons item rest ih =>
    cases same with
    | cons pair related =>
      unfold Eval.firstItem
      -- the callback may have changed what the element holds, but it is still the same element
      refine agree_decided agrees pair index (fun ρ' later => agree_pure (later.values pair))
        fun ρ' later => ?_
      exact ih (agrees.later later) (related.imp fun _ _ => later.values) (index + 1)

theorem agree_filterItems {kept kept' : Array Value} (agrees : VisitAgrees names ρ visit visit')
    (keeping : ρ.Items kept kept') (same : List.Forall₂ ρ.Values items items') (index : Nat) :
    Agree names Items ρ (Eval.filterItems visit kept index items)
      (Eval.filterItems visit' kept' index items') := by
  induction items generalizing items' index ρ kept kept' with
  | nil =>
    cases same
    exact agree_pure keeping
  | cons item rest ih =>
    cases same with
    | @cons _ item' _ _ pair related =>
      unfold Eval.filterItems
      refine agree_bind (agrees (.refl ρ) pair index) fun ρ' later a b answer => ?_
      refine ih (agrees.later later) ?_ (related.imp fun _ _ => later.values) (index + 1)
      rw [answer.truthy_eq]
      split
      · exact items_push (items_later later keeping) (later.values pair)
      · exact items_later later keeping

theorem agree_mapItems {values values' : Array Value} (agrees : VisitAgrees names ρ visit visit')
    (known : ρ.Items values values') (same : List.Forall₂ ρ.Values items items') (index : Nat) :
    Agree names Items ρ (Eval.mapItems visit values index items)
      (Eval.mapItems visit' values' index items') := by
  induction items generalizing items' index ρ values values' with
  | nil =>
    cases same
    exact agree_pure known
  | cons item rest ih =>
    cases same with
    | cons pair related =>
      unfold Eval.mapItems
      refine agree_bind (agrees (.refl ρ) pair index) fun ρ' later a b answer => ?_
      exact ih (agrees.later later) (items_push (items_later later known) answer)
        (related.imp fun _ _ => later.values) (index + 1)

/-- Two empty arrays. -/
theorem items_empty (ρ : Renaming) : ρ.Items #[] #[] :=
  .nil

/-- Every callback method agrees with itself. -/
theorem agree_eachMethod {method : String} {each : Eval.Visit → List Value → Eval Value}
    (known : Eval.eachMethod? method = some each) (agrees : VisitAgrees names ρ visit visit')
    (same : List.Forall₂ ρ.Values items items') :
    Agree names Values ρ (each visit items) (each visit' items') := by
  unfold Eval.eachMethod? at known
  split at known <;> cases known
  · refine agree_bind (agree_anyItem agrees same 0) fun _ _ a b answer => ?_
    exact answer ▸ agree_pure (.bool a)
  · refine agree_bind (agree_everyItem agrees same 0) fun _ _ a b answer => ?_
    exact answer ▸ agree_pure (.bool a)
  · exact agree_firstItem agrees same 0
  · refine agree_bind (agree_filterItems agrees (items_empty ρ) same 0) fun _ _ a b answer => ?_
    exact agree_alloc (.sequence answer)
  · refine agree_bind (agree_mapItems agrees (items_empty ρ) same 0) fun _ _ a b answer => ?_
    exact agree_alloc (.sequence answer)

end Callbacks

/-! ## The methods -/

/-- The elements of paired containers are related. -/
theorem Heaps.itemsOf {h h' : Heap} {r s : Ref} (heaps : ρ.Heaps h h') (paired : ρ.refs r s) :
    ρ.Items ((h.itemsOf? (.container r)).getD #[]) ((h'.itemsOf? (.container s)).getD #[]) := by
  unfold Heap.itemsOf?
  rcases heaps.cell_cases paired with ⟨a, b, source, source', _⟩ | ⟨a, b, source, source', items⟩
  · simp only [source, source']
    exact items_empty ρ
  · simp only [source, source']
    exact items

theorem agree_itemsOf {r s : Ref} (paired : ρ.refs r s) :
    Agree names Items ρ (Eval.itemsOf r) (Eval.itemsOf s) :=
  agree_bind agree_heap fun _ later _ _ heaps => agree_pure (heaps.itemsOf (later.refs paired))

theorem agree_callEach {method : String} {each : Eval.Visit → List Value → Eval Value} {r s : Ref}
    {args : List Argument} (known : Eval.eachMethod? method = some each)
    (agrees : ∀ arg ∈ args, ArgumentAgrees names arg) (paired : ρ.refs r s) :
    Agree names Values ρ (Eval.callEach method each r args) (Eval.callEach method each s args) := by
  unfold Eval.callEach
  split
  · next params body rest =>
    have agree := agrees _ List.mem_cons_self
    dsimp only
    refine agree_bind agree_heap fun ρ₁ later h h' heaps => ?_
    refine agree_eachMethod known ?_ (heaps.itemsOf (later.refs paired))
    intro ρ₂ _ item item' pair index
    exact agree_withParams params (.cons pair (.cons (.ofNat index) .nil)) (agree ρ₂)
  · exact agree_throw _

theorem agree_pushAll {r s : Ref} {args : List Argument}
    (agrees : ∀ arg ∈ args, ArgumentAgrees names arg) (paired : ρ.refs r s) :
    Agree names (fun _ => Eq) ρ (Eval.pushAll r args) (Eval.pushAll s args) := by
  induction args generalizing ρ with
  | nil => exact agree_pure rfl
  | cons arg rest ih =>
    unfold Eval.pushAll
    refine agree_bind (agree_argument (agrees arg List.mem_cons_self) ρ) fun ρ₁ later v w same => ?_
    refine agree_bind (agree_update (later.refs paired)
      (Heaps.keepsCells_mapItems fun items => items_push items same)) fun ρ₂ later₂ _ _ _ => ?_
    exact ih (fun arg mem => agrees arg (List.mem_cons_of_mem _ mem))
      (later₂.refs (later.refs paired))

/-- The first position at which related elements are found is the same. -/
theorem findIdx?_eq {items items' : List Value} {p p' : Value → Bool}
    (agree : ∀ {v w}, ρ.Values v w → p v = p' w) (same : List.Forall₂ ρ.Values items items') :
    items.findIdx? p = items'.findIdx? p' := by
  induction same with
  | nil => rfl
  | cons pair _ ih => rw [List.findIdx?_cons, List.findIdx?_cons, agree pair, ih]

theorem any_eq {items items' : List Value} {p p' : Value → Bool}
    (agree : ∀ {v w}, ρ.Values v w → p v = p' w) (same : List.Forall₂ ρ.Values items items') :
    items.any p = items'.any p' := by
  induction same with
  | nil => rfl
  | cons pair _ ih => rw [List.any_cons, List.any_cons, agree pair, ih]

theorem items_any_eq {a b : Array Value} {p p' : Value → Bool}
    (agree : ∀ {v w}, ρ.Values v w → p v = p' w) (same : ρ.Items a b) : a.any p = b.any p' := by
  rw [← Array.any_toList, ← Array.any_toList]
  exact any_eq agree same

theorem items_findIdx?_eq {a b : Array Value} {p p' : Value → Bool}
    (agree : ∀ {v w}, ρ.Values v w → p v = p' w) (same : ρ.Items a b) :
    a.findIdx? p = b.findIdx? p' := by
  obtain ⟨xs⟩ := a
  obtain ⟨ys⟩ := b
  rw [List.findIdx?_toArray, List.findIdx?_toArray]
  exact findIdx?_eq agree same

theorem agree_sequenceMethod {r s : Ref} {method : String} {args : List Argument}
    (agrees : ∀ arg ∈ args, ArgumentAgrees names arg) (paired : ρ.refs r s) :
    Agree names Values ρ (Eval.sequenceMethod r method args)
      (Eval.sequenceMethod s method args) := by
  unfold Eval.sequenceMethod
  split
  · next each known => exact agree_callEach known agrees paired
  · split
    · refine agree_bind (agree_firstArgument agrees ρ) fun ρ₁ later v w needle => ?_
      refine agree_bind (agree_itemsOf (later.refs paired)) fun ρ₂ later₂ a b items => ?_
      refine agree_of_oneToOne fun oneToOne => ?_
      rw [items_any_eq (fun pair => pair.sameOrNaN_eq oneToOne (later₂.values needle)) items]
      exact agree_pure (.bool _)
    · refine agree_bind (agree_firstArgument agrees ρ) fun ρ₁ later v w needle => ?_
      refine agree_bind (agree_itemsOf (later.refs paired)) fun ρ₂ later₂ a b items => ?_
      refine agree_of_oneToOne fun oneToOne => ?_
      rw [items_findIdx?_eq (fun pair => pair.same_eq oneToOne (later₂.values needle)) items]
      split
      · exact agree_pure (.ofNat _)
      · exact agree_pure (.number _)
    · refine agree_bind (agree_firstArgument agrees ρ) fun ρ₁ later v w separator => ?_
      refine agree_bind agree_heap fun ρ₂ later₂ h h' heaps => ?_
      have separator := later₂.values separator
      dsimp only
      rw [separator.isUndefined_eq, heaps.text_eq separator]
      -- the elements are read from the very heap that gives their texts
      refine agree_bind_of_still (fun _ => rfl) (fun _ => rfl)
        (fun machines => .ok (machines.heaps.itemsOf (later₂.refs (later.refs paired))))
        fun a b items => ?_
      rw [heaps.joined_eq _ items]
      exact agree_pure (.string _)
    · refine agree_bind (agree_pushAll agrees paired) fun ρ₁ later _ _ _ => ?_
      refine agree_bind (agree_itemsOf (later.refs paired)) fun ρ₂ _ a b items => ?_
      rw [items_size items]
      exact agree_pure (.ofNat _)
    · exact agree_throw _

/-- What is done with the text of the first argument is done with the same text on both sides. -/
theorem agree_firstText {args : List Argument} {f : String → Eval Value}
    (agrees : ∀ arg ∈ args, ArgumentAgrees names arg)
    (next : ∀ ρ' s, Agree names Values ρ' (f s) (f s)) :
    Agree names Values ρ (do f (← Eval.text (← Eval.firstArgument args)))
      (do f (← Eval.text (← Eval.firstArgument args))) := by
  refine agree_bind (agree_firstArgument agrees ρ) fun ρ₁ _ v w same => ?_
  refine agree_bind (agree_text same) fun ρ₂ _ s t texts => ?_
  subst texts
  exact next ρ₂ s

theorem agree_textMethod {s method : String} {args : List Argument}
    (agrees : ∀ arg ∈ args, ArgumentAgrees names arg) :
    Agree names Values ρ (Eval.textMethod s method args) (Eval.textMethod s method args) := by
  unfold Eval.textMethod
  split
  · exact agree_pure (.string _)
  · exact agree_pure (.string _)
  · exact agree_pure (.string _)
  · exact agree_firstText agrees fun _ _ => agree_pure (.bool _)
  · exact agree_firstText agrees fun _ _ => agree_pure (.bool _)
  · exact agree_firstText agrees fun _ _ => agree_pure (.bool _)
  · refine agree_firstText agrees fun ρ' t => ?_
    split
    · exact agree_pure (.ofNat _)
    · exact agree_pure (.number _)
  · exact agree_throw _

/-- Paired containers have the same keys. -/
theorem Heaps.contains_eq {h h' : Heap} {r s : Ref} {key : String} (heaps : ρ.Heaps h h')
    (paired : ρ.refs r s) :
    (h.fieldsOf? (.container r)).any (·.contains key) =
      (h'.fieldsOf? (.container s)).any (·.contains key) := by
  unfold Heap.fieldsOf?
  rcases heaps.cell_cases paired with ⟨a, b, source, source', entries⟩ | ⟨a, b, source, source', _⟩
  · have found := entries_valueAt? (k := key) entries
    simp only [source, source', Option.any_some, Fields.contains, Fields.get?]
    generalize valueAt? key a.entries = o at found
    generalize valueAt? key b.entries = o' at found
    cases found <;> rfl
  · simp only [source, source']

theorem agree_mappingMethod {r s : Ref} {method : String} {args : List Argument}
    (agrees : ∀ arg ∈ args, ArgumentAgrees names arg) (paired : ρ.refs r s) :
    Agree names Values ρ (Eval.mappingMethod r method args)
      (Eval.mappingMethod s method args) := by
  unfold Eval.mappingMethod
  split
  · refine agree_bind (agree_firstArgument agrees ρ) fun ρ₁ later v w key => ?_
    refine agree_bind (agree_text key) fun ρ₂ later₂ t u texts => ?_
    refine agree_bind agree_heap fun ρ₃ later₃ h h' heaps => ?_
    subst texts
    rw [heaps.contains_eq (later₃.refs (later₂.refs (later.refs paired)))]
    exact agree_pure (.bool _)
  · exact agree_throw _

/-- Calling a method of related values gives related values. -/
theorem agree_callMethod {method : String} {args : List Argument} (same : ρ.Values v w)
    (agrees : ∀ arg ∈ args, ArgumentAgrees names arg) :
    Agree names Values ρ (Eval.callMethod v method args) (Eval.callMethod w method args) := by
  unfold Eval.callMethod
  cases same with
  | undefined => exact agree_throw _
  | null => exact agree_throw _
  | bool b => exact agree_throw _
  | number x => exact agree_throw _
  | foreign _ => exact agree_throw _
  | string s => exact agree_textMethod agrees
  | container paired =>
    refine agree_bind agree_heap fun ρ₁ later h h' heaps => ?_
    have paired := later.refs paired
    rcases heaps.cell_cases paired with ⟨a, b, source, source', _⟩ | ⟨a, b, source, source', _⟩
    · rw [source, source']
      exact agree_mappingMethod agrees paired
    · rw [source, source']
      exact agree_sequenceMethod agrees paired

end Renaming

end FormLogic
