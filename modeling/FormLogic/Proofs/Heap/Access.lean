import FormLogic.Eval.Operators
import FormLogic.Eval.Property
import FormLogic.Proofs.Heap.Text

/-!
# `FormLogic.Proofs.Heap.Access` — operators and properties do not see references

The binary operators and the three accesses to a property give related answers on related heaps: the
same error, related values, or changes that keep related containers related. Identity is the one
place where two references are compared; it is kept because a renaming is one-to-one.

## Contents
- `Results`: outcomes that are the same up to what they carry.
- `Values.same_eq`, `Heaps.binary`: the operators.
- `Heaps.readProperty`, `propertyWrite`, `deleteProperty`: the accesses.
-/

namespace FormLogic

/-- Outcomes with the same error, or with related values. -/
inductive Results {ε α β : Type} (R : α → β → Prop) : Except ε α → Except ε β → Prop where
  | ok {a : α} {b : β} (same : R a b) : Results R (.ok a) (.ok b)
  | error (e : ε) : Results R (.error e) (.error e)

namespace Renaming

variable {ρ : Renaming} {h h' : Heap} {v v' w w' key key' : Value}

/-! ## Entries and elements -/

theorem entries_insert {k : String} {a b : List (String × Value)} (value : ρ.Values v w)
    (same : List.Forall₂ ρ.Entries a b) :
    List.Forall₂ ρ.Entries (insertEntry k v a) (insertEntry k w b) := by
  induction same with
  | nil => exact .cons ⟨rfl, value⟩ .nil
  | @cons e e' _ _ pair rest ih =>
    obtain ⟨n, x⟩ := e
    obtain ⟨_, y⟩ := e'
    obtain ⟨rfl, pair⟩ : n = _ ∧ _ := pair
    unfold insertEntry
    split
    · exact .cons ⟨rfl, value⟩ rest
    · exact .cons ⟨rfl, pair⟩ ih

theorem entries_erase {k : String} {a b : List (String × Value)}
    (same : List.Forall₂ ρ.Entries a b) :
    List.Forall₂ ρ.Entries (eraseEntry k a) (eraseEntry k b) := by
  induction same with
  | nil => exact .nil
  | @cons e e' _ _ pair rest ih =>
    unfold eraseEntry at ih ⊢
    rw [List.filter_cons, List.filter_cons, pair.1]
    split
    · exact .cons pair ih
    · exact ih

theorem entries_valueAt? {k : String} {a b : List (String × Value)}
    (same : List.Forall₂ ρ.Entries a b) :
    Option.Rel ρ.Values (valueAt? k a) (valueAt? k b) := by
  induction same with
  | nil => exact .none
  | @cons e e' _ _ pair rest ih =>
    obtain ⟨n, x⟩ := e
    obtain ⟨_, y⟩ := e'
    obtain ⟨rfl, pair⟩ : n = _ ∧ _ := pair
    rw [valueAt?_cons, valueAt?_cons]
    split
    · exact .some pair
    · exact ih

/-- Related options read alike where `undefined` stands for nothing. -/
theorem values_getD {o o' : Option Value} (same : Option.Rel ρ.Values o o') :
    ρ.Values (o.getD .undefined) (o'.getD .undefined) := by
  cases same with
  | none => exact .undefined
  | some pair => exact pair

theorem values_getElem? {a b : List Value} (same : List.Forall₂ ρ.Values a b) (i : Nat) :
    Option.Rel ρ.Values a[i]? b[i]? := by
  induction same generalizing i with
  | nil => exact .none
  | cons pair _ ih =>
    cases i with
    | zero => exact .some pair
    | succ i => exact ih i

theorem values_set {a b : List Value} (value : ρ.Values v w) (same : List.Forall₂ ρ.Values a b)
    (i : Nat) : List.Forall₂ ρ.Values (a.set i v) (b.set i w) := by
  induction same generalizing i with
  | nil => exact .nil
  | cons pair rest ih =>
    cases i with
    | zero => exact .cons value rest
    | succ i => exact .cons pair (ih i)

theorem values_replicate (value : ρ.Values v w) (n : Nat) :
    List.Forall₂ ρ.Values (List.replicate n v) (List.replicate n w) := by
  induction n with
  | zero => exact .nil
  | succ n ih => exact .cons value ih

/-- Arrays with related elements. -/
abbrev Items (ρ : Renaming) (a b : Array Value) : Prop :=
  List.Forall₂ ρ.Values a.toList b.toList

variable {a b : Array Value}

theorem items_size (same : ρ.Items a b) : a.size = b.size :=
  same.length_eq

theorem items_push (same : ρ.Items a b) (value : ρ.Values v w) :
    ρ.Items (a.push v) (b.push w) := by
  unfold Items
  rw [Array.toList_push, Array.toList_push]
  exact List.rel_append same (.cons value .nil)

theorem items_getElem? (same : ρ.Items a b) (i : Nat) : Option.Rel ρ.Values a[i]? b[i]? := by
  have pair := values_getElem? same i
  rwa [Array.getElem?_toList, Array.getElem?_toList] at pair

theorem items_padTo (same : ρ.Items a b) (n : Nat) :
    ρ.Items (Heap.padTo n a) (Heap.padTo n b) := by
  unfold Heap.padTo Items
  rw [items_size same]
  split
  · simpa using List.forall₂_take n same
  · rw [Array.toList_append, Array.toList_append, Array.toList_replicate]
    exact List.rel_append same (values_replicate .undefined _)

theorem items_storeAt (same : ρ.Items a b) (i : Nat) (value : ρ.Values v w) :
    ρ.Items (Heap.storeAt i v a) (Heap.storeAt i w b) := by
  unfold Heap.storeAt
  rw [items_size same]
  split
  · unfold Items
    rw [Array.toList_setIfInBounds, Array.toList_setIfInBounds]
    exact values_set value same i
  · exact items_push (items_padTo same i) value

/-! ## Identity -/

/-- A one-to-one renaming keeps identity. -/
theorem Values.same_eq (oneToOne : Relator.BiUnique ρ.refs) (left : ρ.Values v w)
    (right : ρ.Values v' w') : v.same v' = w.same w' := by
  cases left with
  | @container r s paired =>
    cases right with
    | @container r' s' paired' =>
      show (r == r') = (s == s')
      rw [Bool.eq_iff_iff, beq_iff_eq, beq_iff_eq]
      constructor
      · rintro rfl
        exact oneToOne.2 paired paired'
      · rintro rfl
        exact oneToOne.1 paired paired'
    | _ => rfl
  | _ => cases right <;> rfl

theorem Values.sameOrNaN_eq (oneToOne : Relator.BiUnique ρ.refs) (left : ρ.Values v w)
    (right : ρ.Values v' w') : v.sameOrNaN v' = w.sameOrNaN w' := by
  have same := left.same_eq oneToOne right
  cases left <;> cases right <;> first | rfl | exact same

/-! ## Operators -/

namespace Heaps

/-- Primitives are their own counterparts. -/
theorem primitive (heaps : ρ.Heaps h h') (same : ρ.Values v w) :
    ρ.Values (h.primitive v) (h'.primitive w) := by
  have texts := heaps.primitive_eq same
  cases same with
  | container _ =>
    rw [texts]
    exact .string _
  | foreign _ => exact .string _
  | undefined => exact .undefined
  | null => exact .null
  | bool b => exact .bool b
  | number x => exact .number x
  | string s => exact .string s

theorem order?_eq (heaps : ρ.Heaps h h') (left : ρ.Values v w) (right : ρ.Values v' w') :
    h.order? v v' = h'.order? w w' := by
  have left := heaps.primitive left
  have right := heaps.primitive right
  unfold Heap.order?
  generalize h.primitive v = p at left
  generalize h'.primitive w = q at left
  generalize h.primitive v' = p' at right
  generalize h'.primitive w' = q' at right
  have numbers := heaps.number_eq left
  have numbers' := heaps.number_eq right
  cases left <;> cases right <;> first | rfl | simp only [numbers, numbers']

theorem sum (heaps : ρ.Heaps h h') (left : ρ.Values v w) (right : ρ.Values v' w') :
    ρ.Values (h.sum v v') (h'.sum w w') := by
  have left := heaps.primitive left
  have right := heaps.primitive right
  unfold Heap.sum
  generalize h.primitive v = p at left
  generalize h'.primitive w = q at left
  generalize h.primitive v' = p' at right
  generalize h'.primitive w' = q' at right
  have texts := heaps.text_eq left
  have texts' := heaps.text_eq right
  have numbers := heaps.number_eq left
  have numbers' := heaps.number_eq right
  cases left <;> cases right <;> simp only [texts, texts', numbers, numbers'] <;> constructor

theorem withoutBool (same : ρ.Values v w) : ρ.Values (Heap.withoutBool v) (Heap.withoutBool w) := by
  cases same with
  | bool b => exact .number _
  | undefined => exact .undefined
  | null => exact .null
  | number x => exact .number x
  | string s => exact .string s
  | container paired => exact .container paired
  | foreign known => exact .foreign known

theorem withoutContainer (heaps : ρ.Heaps h h') (same : ρ.Values v w) :
    ρ.Values (h.withoutContainer v) (h'.withoutContainer w) := by
  unfold Heap.withoutContainer
  rw [same.isContainer_eq]
  split
  · exact heaps.primitive same
  · exact same

theorem scalarEqual_eq (heaps : ρ.Heaps h h') (left : ρ.Values v w) (right : ρ.Values v' w') :
    h.scalarEqual v v' = h'.scalarEqual w w' := by
  have identical := left.same_eq heaps.oneToOne right
  have numbers := heaps.number_eq left
  have numbers' := heaps.number_eq right
  unfold Heap.scalarEqual
  cases left <;> cases right <;> first | exact identical | simp only [numbers, numbers']

theorem looseEqual_eq (heaps : ρ.Heaps h h') (left : ρ.Values v w) (right : ρ.Values v' w') :
    h.looseEqual v v' = h'.looseEqual w w' := by
  have left' := withoutBool left
  have right' := withoutBool right
  unfold Heap.looseEqual
  rw [left.isNullish_eq, right.isNullish_eq]
  simp only [left'.isContainer_eq, right'.isContainer_eq, left'.same_eq heaps.oneToOne right',
    heaps.scalarEqual_eq (heaps.withoutContainer left') (heaps.withoutContainer right')]

/-- A binary operator gives related values. -/
theorem binary (heaps : ρ.Heaps h h') (op : BinaryOp) (left : ρ.Values v w)
    (right : ρ.Values v' w') : ρ.Values (h.binary op v v') (h'.binary op w w') := by
  have numbers := heaps.number_eq left
  have numbers' := heaps.number_eq right
  have orders := heaps.order?_eq left right
  have loose := heaps.looseEqual_eq left right
  have identical := left.same_eq heaps.oneToOne right
  cases op with
  | add => exact heaps.sum left right
  | _ =>
    unfold Heap.binary
    simp only [numbers, numbers', orders, loose, identical]
    constructor

/-! ## Properties -/

/-- Related keys name the same position. -/
theorem index?_eq (same : ρ.Values key key') : Heap.index? key = Heap.index? key' := by
  cases same <;> rfl

/-- Reading a property gives related values, or the same error. -/
theorem readProperty (heaps : ρ.Heaps h h') (base : ρ.Values v w) (key : ρ.Values v' w') :
    Results ρ.Values (h.readProperty v v') (h'.readProperty w w') := by
  have texts := heaps.text_eq key
  have positions := index?_eq key
  have isLength : (v' = .string "length") = (w' = .string "length") :=
    propext (key.eq_string_iff "length")
  unfold Heap.readProperty
  cases base with
  | undefined => exact texts ▸ .error _
  | null => exact texts ▸ .error _
  | bool b => exact .ok .undefined
  | number x => exact .ok .undefined
  | foreign known => exact .ok .undefined
  | string s =>
    simp only [positions, isLength]
    split
    · exact .ok (values_getD (by cases Text.unitAt? s _ <;> constructor; constructor))
    · refine .ok ?_
      split
      · exact .ofNat _
      · exact .undefined
  | @container r s paired =>
    rcases heaps.cell_cases paired with
      ⟨a, b, source, source', entries⟩ | ⟨a, b, source, source', items⟩
    · simp only [source, source', texts]
      exact .ok (values_getD (entries_valueAt? entries))
    · simp only [source, source', positions, isLength]
      split
      · exact .ok (values_getD (items_getElem? items _))
      · refine .ok ?_
        split
        · exact items_size items ▸ .ofNat _
        · exact .undefined

/-- Changes of elements that keep related elements related. -/
def KeepsItems (ρ : Renaming) (f f' : Array Value → Array Value) : Prop :=
  ∀ {a b : Array Value}, ρ.Items a b → ρ.Items (f a) (f' b)

/-- A change that is refused for its growth is refused on both sides. -/
theorem results_checkGrowth {f f' : Array Value → Array Value} (keeps : KeepsItems ρ f f')
    (property : String) (size length : Nat) :
    Results (KeepsItems ρ)
      (do Heap.checkGrowth property size length; return f)
      (do Heap.checkGrowth property size length; return f') := by
  unfold Heap.checkGrowth
  split
  · exact .error _
  · exact .ok keeps

theorem sequenceWrite (heaps : ρ.Heaps h h') (size : Nat) (key : ρ.Values v w)
    (value : ρ.Values v' w') :
    Results (KeepsItems ρ) (h.sequenceWrite size v v') (h'.sequenceWrite size w w') := by
  unfold Heap.sequenceWrite Heap.newLength
  rw [heaps.text_eq key, index?_eq key, heaps.number_eq value]
  split
  · exact results_checkGrowth (fun same => items_storeAt same _ value) _ _ _
  · split
    · split
      · exact results_checkGrowth (fun same => items_padTo same _) _ _ _
      · exact .error _
    · exact .error _

/-- Changes of containers that keep related contents related. -/
def KeepsCells (ρ : Renaming) (f f' : Cell → Cell) : Prop :=
  ∀ {c c' : Cell}, ρ.Cells c c' → ρ.Cells (f c) (f' c')

theorem keepsCells_insert (k : String) (value : ρ.Values v w) :
    KeepsCells ρ (.mapFields (·.insert k v)) (.mapFields (·.insert k w)) := by
  intro c c' same
  cases same with
  | mapping entries => exact .mapping (entries_insert value entries)
  | sequence items => exact .sequence items

theorem keepsCells_erase (k : String) :
    KeepsCells ρ (.mapFields (·.erase k)) (.mapFields (·.erase k)) := by
  intro c c' same
  cases same with
  | mapping entries => exact .mapping (entries_erase entries)
  | sequence items => exact .sequence items

theorem keepsCells_mapItems {f f' : Array Value → Array Value} (keeps : KeepsItems ρ f f') :
    KeepsCells ρ (.mapItems f) (.mapItems f') := by
  intro c c' same
  cases same with
  | mapping entries => exact .mapping entries
  | sequence items => exact .sequence (keeps items)

/-- Writes to related containers that keep related contents related. -/
def Writes (ρ : Renaming) (x y : Ref × (Cell → Cell)) : Prop :=
  ρ.refs x.1 y.1 ∧ KeepsCells ρ x.2 y.2

theorem propertyWrite (heaps : ρ.Heaps h h') {x y : Value} (base : ρ.Values v w)
    (key : ρ.Values v' w') (value : ρ.Values x y) :
    Results (Writes ρ) (h.propertyWrite v v' x) (h'.propertyWrite w w' y) := by
  have texts := heaps.text_eq key
  unfold Heap.propertyWrite
  cases base with
  | @container r s paired =>
    rcases heaps.cell_cases paired with ⟨a, b, source, source', _⟩ | ⟨a, b, source, source', items⟩
    · simp only [source, source', texts]
      exact .ok ⟨paired, keepsCells_insert _ value⟩
    · -- as many elements on both sides, so growth is refused for the same lengths
      have writes := heaps.sequenceWrite b.size key value
      simp only [source, source', items_size items]
      generalize h.sequenceWrite b.size v' x = left at writes
      generalize h'.sequenceWrite b.size w' y = right at writes
      cases writes with
      | ok keeps => exact .ok ⟨paired, keepsCells_mapItems keeps⟩
      | error e => exact .error e
  | _ => exact texts ▸ .error _

/-- What an access leaves behind on both sides: the same error or success, and heaps that are still
related, where a container without a counterpart is as before. -/
structure Steps (ρ : Renaming) (h h' : Heap) (x y : Except EvalError Unit × Heap) : Prop where
  results : Results (fun _ _ => True) x.1 y.1
  heaps : ρ.Heaps x.2 y.2
  grows : Grows ρ ρ h h' x.2 y.2

theorem Steps.update {r s : Ref} {f f' : Cell → Cell} (heaps : ρ.Heaps h h')
    (paired : ρ.refs r s) (keeps : KeepsCells ρ f f') :
    Steps ρ h h' (.ok (), h.update r f) (.ok (), h'.update s f') where
  results := .ok trivial
  heaps := heaps.update paired keeps
  grows := .update paired f f'

theorem Steps.stay (heaps : ρ.Heaps h h') (result : Except EvalError Unit) :
    Steps ρ h h' (result, h) (result, h') where
  results := by
    cases result with
    | ok _ => exact .ok trivial
    | error e => exact .error e
  heaps := heaps
  grows := .refl ρ h h'

theorem writeProperty (heaps : ρ.Heaps h h') {x y : Value} (base : ρ.Values v w)
    (key : ρ.Values v' w') (value : ρ.Values x y) :
    Steps ρ h h' (Heap.writeProperty v v' x h) (Heap.writeProperty w w' y h') := by
  have writes := heaps.propertyWrite base key value
  unfold Heap.writeProperty
  generalize h.propertyWrite v v' x = left at writes
  generalize h'.propertyWrite w w' y = right at writes
  cases writes with
  | ok write => exact .update heaps write.1 write.2
  | error e => exact .stay heaps _

theorem deleteProperty (heaps : ρ.Heaps h h') (base : ρ.Values v w) (key : ρ.Values v' w') :
    Steps ρ h h' (Heap.deleteProperty v v' h) (Heap.deleteProperty w w' h') := by
  have texts := heaps.text_eq key
  unfold Heap.deleteProperty
  cases base with
  | @container r s paired =>
    rcases heaps.cell_cases paired with ⟨a, b, source, source', _⟩ | ⟨a, b, source, source', items⟩
    · simp only [source, source', texts]
      exact .update heaps paired (keepsCells_erase _)
    · simp only [source, source', index?_eq key, items_size items]
      split
      · split
        · exact .update heaps paired
            (keepsCells_mapItems fun same => items_storeAt same _ .undefined)
        · exact .stay heaps _
      · exact .stay heaps _
  | undefined => exact texts ▸ .stay heaps _
  | null => exact texts ▸ .stay heaps _
  | bool _ => exact .stay heaps _
  | number _ => exact .stay heaps _
  | string _ => exact .stay heaps _
  | foreign _ => exact .stay heaps _

end Heaps

end Renaming

end FormLogic
