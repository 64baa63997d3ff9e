import FormLogic.Proofs.Eval.Callback
import FormLogic.Proofs.Heap.Property
import FormLogic.Proofs.Number.Integer

/-!
# `FormLogic.Proofs.Eval.Property` — reading, assigning and deleting properties

A property that has been assigned reads as it was assigned, one that has been deleted reads as
`undefined`, and the others read as before. What differs is the sequence: its elements and its length
go together, so assigning behind the last element makes it longer, and assigning to its length
takes elements away or adds undefined ones.

## Contents
- `Expr.property`, `Expr.owns`: a property of a name, and whether it has it; `value_property`,
  `value_assign_property`, `value_delete_property`, `value_owns`: what they come to.
- `Assigned`, `Deleted`: the properties after an assignment and after a deletion;
  `Assigned.of_written`, `Deleted.of_erased`: they come from the change of the container.
- `property_accesses_agree`: both together.
-/

namespace FormLogic

/-- The property `k` of the name `o`. -/
def Expr.property (o k : String) : Expr :=
  .member (.ident o) (.computed (.literal (.string k))) false

/-- Whether the name `o` has the property `k` of its own. -/
def Expr.owns (o k : String) : Expr :=
  .call (.member (.ident o) (.named "hasOwnProperty") false) [.literal (.string k)]

namespace Eval

/-! ## What the accesses come to -/

section

variable {m : Machine} {o w : String} {r : Ref} {v : Value}

theorem chain_ident (known : m.scope.lookup? o = some v) :
    chain (.ident o) m = (.ok (some v), m) := by
  have found : lookup o m = (.ok v, m) := by
    have entered : scope m = (.ok m.scope, m) := rfl
    unfold lookup
    rw [bind_apply, entered]
    dsimp only
    rw [known]
    rfl
  unfold chain
  rw [bind_apply, found]
  rfl

theorem keyValue_text (k : String) (m : Machine) :
    keyValue (.computed (.literal (.string k))) m = (.ok (.string k), m) := by
  unfold keyValue chain
  rfl

theorem value_ident (known : m.scope.lookup? o = some v) : value (.ident o) m = (.ok v, m) :=
  value_eq_ok_iff.mpr ⟨some v, chain_ident known, rfl⟩

theorem value_property (known : m.scope.lookup? o = some (.container r)) (k : String) :
    value (.property o k) m = (.ok ((m.heap.cell r).property k), m) := by
  unfold Expr.property
  rw [value_member (value_ident known) rfl (keyValue_text k m)]
  show (m.heap.readProperty (.container r) (.string k), m) = _
  rw [Heap.readProperty_container]

theorem value_assign_property (known : m.scope.lookup? o = some (.container r))
    (given : m.scope.lookup? w = some v) (k : String) :
    value (.assign (.property o k) (.ident w)) m =
      (write (.container r) (.string k) v >>= fun _ => return v) m := by
  have object : settle (chain (.ident o)) m = (.ok (.container r), m) := value_ident known
  have assigned : settle (chain (.ident w)) m = (.ok v, m) := value_ident given
  apply value_of_chain
  unfold Expr.property chain
  rw [bind_apply, object]
  dsimp only
  rw [bind_apply, keyValue_text]
  dsimp only
  rw [bind_apply, assigned, bind_assoc]
  rfl

theorem value_delete_property (known : m.scope.lookup? o = some (.container r)) (k : String) :
    value (.delete (.property o k)) m =
      (delete (.container r) (.string k) >>= fun _ => return .bool true) m := by
  apply value_of_chain
  unfold Expr.property chain
  rw [bind_apply, chain_ident known]
  dsimp only
  rw [if_neg (by simp), bind_apply, keyValue_text, bind_assoc]
  rfl

theorem value_owns {fields : Fields Value} (known : m.scope.lookup? o = some (.container r))
    (mapping : m.heap.cell r = .mapping fields) (k : String) :
    value (.owns o k) m = (.ok (.bool (fields.contains k)), m) := by
  have named : keyValue (.named "hasOwnProperty") m = (.ok (.string "hasOwnProperty"), m) := rfl
  have entries : m.heap.fieldsOf? (.container r) = some fields := by
    simp only [Heap.fieldsOf?, mapping]
  unfold Expr.owns
  rw [value_callMember (value_ident known) rfl named, callMethod_mapping mapping]
  show (Except.ok (Value.bool ((m.heap.fieldsOf? (.container r)).any (·.contains k))), m) = _
  rw [entries]
  rfl

end

/-! ## Properties after a change -/

/-- What the property `k` of the name `o` is. -/
def reading (o : String) (m : Machine) (k : String) : Except EvalError Value :=
  (value (.property o k) m).1

/-- The properties of `o`, which is a container that held the cell, after `v` has been assigned to the
property `k`. -/
inductive Assigned (o k : String) (v : Value) (m m' : Machine) : Cell → Prop where
  /-- The other entries of a mapping stay. -/
  | entry {fields : Fields Value} (stored : reading o m' k = .ok v)
      (others : ∀ j, j ≠ k → reading o m' j = reading o m j) :
      Assigned o k v m m' (.mapping fields)
  /-- The other elements of a sequence stay, and the length reaches the position. -/
  | element {items : Array Value} {i : Nat} (named : Heap.index? (.string k) = some i)
      (stored : reading o m' k = .ok v)
      (length : reading o m' "length" = .ok (.ofNat (max items.size (i + 1))))
      (near : max items.size (i + 1) ≤ items.size + 10000)
      (others : ∀ j, j ≠ k → j ≠ "length" → reading o m' j = reading o m j) :
      Assigned o k v m m' (.sequence items)
  /-- The elements below the new length of a sequence stay, and behind them is nothing. -/
  | length {items : Array Value} {n : Nat} (named : k = "length")
      (assigned : (m.heap.number v == Float.ofNat n) = true)
      (length : reading o m' "length" = .ok (.ofNat n)) (near : n ≤ items.size + 10000)
      (below : ∀ j i, Heap.index? (.string j) = some i → i < n → reading o m' j = reading o m j)
      (others : ∀ j, j ≠ "length" → (∀ i, Heap.index? (.string j) = some i → n ≤ i) →
        reading o m' j = .ok .undefined) :
      Assigned o k v m m' (.sequence items)

/-- The properties of `o`, which is the container at `r` and held the cell, after the property `k` has
been deleted. -/
inductive Deleted (o k : String) (r : Ref) (m m' : Machine) : Cell → Prop where
  /-- The other entries of a mapping stay, in their order. -/
  | entry {fields kept : Fields Value} (gone : reading o m' k = .ok .undefined)
      (unowned : value (.owns o k) m' = (.ok (.bool false), m'))
      (others : ∀ j, j ≠ k → reading o m' j = reading o m j)
      (held : m'.heap.cell r = .mapping kept)
      (order : kept.keys = fields.keys.filter (· ≠ k)) :
      Deleted o k r m m' (.mapping fields)
  /-- The other elements of a sequence and its length stay. -/
  | element {items : Array Value} (gone : k ≠ "length" → reading o m' k = .ok .undefined)
      (length : reading o m' "length" = reading o m "length")
      (others : ∀ j, j ≠ k → reading o m' j = reading o m j) :
      Deleted o k r m m' (.sequence items)

section

variable {m m' : Machine} {o : String} {r : Ref} {k : String} {v : Value}

theorem reading_eq (known : m.scope.lookup? o = some (.container r)) (k : String) :
    reading o m k = .ok ((m.heap.cell r).property k) :=
  congrArg Prod.fst (value_property known k)

/-- A property that the container has as before reads as before. -/
theorem reading_congr (known : m.scope.lookup? o = some (.container r)) (scope : m'.scope = m.scope)
    (same : (m'.heap.cell r).property k = (m.heap.cell r).property k) :
    reading o m' k = reading o m k := by
  rw [reading_eq known, reading_eq (scope ▸ known), same]

theorem Assigned.of_written (known : m.scope.lookup? o = some (.container r))
    (scope : m'.scope = m.scope)
    (written : (m.heap.cell r).Written k v (m.heap.number v) (m'.heap.cell r)) :
    Assigned o k v m m' (m.heap.cell r) := by
  have after := reading_eq (m := m') (scope ▸ known)
  have same {j : String} := reading_congr (k := j) known scope
  generalize m.heap.cell r = c, m'.heap.cell r = c' at written after same
  cases written with
  | entry fields =>
    refine .entry ?_ fun j other => same ?_
    · rw [after, Cell.property_insert, if_pos rfl]
    · rw [Cell.property_insert, if_neg other]
  | element named near =>
    refine .element named ?_ ?_ ?_ fun j other plain => same ?_
    · rw [after, Cell.property_storeAt named (Heap.ne_length_of_index? named), if_pos rfl]
    · rw [after, Cell.property_length, Heap.size_storeAt]
    · unfold Heap.maxGrowth at near
      omega
    · rw [Cell.property_storeAt named plain, if_neg other]
  | length named whole near =>
    refine .length named (Number.beq_ofNat whole) ?_ near (fun j i position below => same ?_)
      fun j other above => ?_
    · rw [after, Cell.property_length, Heap.size_padTo]
    · rw [Cell.property_padTo position, if_pos below]
    · rw [after, Cell.property_outside other]
      intro i position
      rw [Heap.size_padTo]
      exact above i position

theorem Deleted.of_erased (known : m.scope.lookup? o = some (.container r))
    (scope : m'.scope = m.scope) (erased : (m.heap.cell r).Erased k (m'.heap.cell r)) :
    Deleted o k r m m' (m.heap.cell r) := by
  have known' : m'.scope.lookup? o = some (.container r) := scope ▸ known
  have after := reading_eq known'
  have same {j : String} := reading_congr (k := j) known scope
  generalize m.heap.cell r = c at erased after same
  generalize held : m'.heap.cell r = c' at erased after same
  cases erased with
  | entry fields =>
    refine .entry ?_ ?_ (fun j other => same ?_) held (Fields.keys_erase fields k)
    · rw [after, Cell.property_erase, if_pos rfl]
    · have missing : (fields.erase k).contains k = false := by
        simp [Fields.contains, Fields.get?_erase]
      rw [value_owns known' held, missing]
    · rw [Cell.property_erase, if_neg other]
  | element named inside =>
    have length : reading o m' "length" = reading o m "length" := by
      apply same
      rw [Cell.property_length, Cell.property_length, Heap.size_storeAt, Nat.max_eq_left inside]
    refine .element (fun plain => ?_) length fun j other => ?_
    · rw [after, Cell.property_storeAt named plain, if_pos rfl]
    · by_cases plain : j = "length"
      · rw [plain, length]
      · apply same
        rw [Cell.property_storeAt named plain, if_neg other]
  | absent outside =>
    refine .element (fun plain => ?_) (same rfl) fun j _ => same rfl
    rw [after, Cell.property_outside plain outside]

end

/-- **Reads agree with writes.** An assignment to a property of a container either gives the value,
and the properties of the container are those before with this one assigned, or is refused and changes
nothing; it is refused only where no write to the container is possible. Deleting a property always
succeeds, and the properties of the container are those before without it. Both leave the scope and
all other containers as they are. -/
theorem property_accesses_agree {m : Machine} {o w : String} {r : Ref} {v : Value}
    (known : m.scope.lookup? o = some (.container r)) (inside : r < m.heap.size)
    (given : m.scope.lookup? w = some v) (k : String) :
    ((∃ h, value (.assign (.property o k) (.ident w)) m = (.ok v, ⟨h, m.scope⟩) ∧
        Assigned o k v m ⟨h, m.scope⟩ (m.heap.cell r) ∧ Heap.SameBut r m.heap h) ∨
      ((∃ e, value (.assign (.property o k) (.ident w)) m = (.error e, m)) ∧
        ∀ c, ¬ (m.heap.cell r).Written k v (m.heap.number v) c)) ∧
    ∃ h, value (.delete (.property o k)) m = (.ok (.bool true), ⟨h, m.scope⟩) ∧
      Deleted o k r m ⟨h, m.scope⟩ (m.heap.cell r) ∧ Heap.SameBut r m.heap h := by
  constructor
  · rw [value_assign_property known given, bind_apply]
    obtain ⟨h, ends, written, others⟩ | ⟨⟨e, ends⟩, refused⟩ :=
      Heap.writeProperty_container inside k v
    · have writes : write (.container r) (.string k) v m = (.ok (), ⟨h, m.scope⟩) := by
        unfold write onHeap
        simp only [ends]
      rw [writes]
      exact .inl ⟨h, rfl, .of_written known rfl written, others⟩
    · have writes : write (.container r) (.string k) v m = (.error e, m) := by
        unfold write onHeap
        simp only [ends]
      rw [writes]
      exact .inr ⟨⟨e, rfl⟩, refused⟩
  · obtain ⟨h, ends, erased, others⟩ := Heap.deleteProperty_container inside k
    have deletes : delete (.container r) (.string k) m = (.ok (), ⟨h, m.scope⟩) := by
      unfold delete onHeap
      simp only [ends]
    rw [value_delete_property known, bind_apply, deletes]
    exact ⟨h, rfl, .of_erased known rfl erased, others⟩

/-- An element is assigned two positions behind the only one. -/
theorem property_accesses_agree_padded :
    let m : Machine := ⟨⟨#[.sequence #[.bool true]]⟩, [("data", .container 0), ("x", .null)]⟩
    let g : Heap := ⟨#[.sequence #[.bool true, .undefined, .null]]⟩
    m.scope.lookup? "data" = some (.container 0) ∧ 0 < m.heap.size ∧
      m.scope.lookup? "x" = some .null ∧
      value (.assign (.property "data" "2") (.ident "x")) m = (.ok .null, ⟨g, m.scope⟩) ∧
      Assigned "data" "2" .null m ⟨g, m.scope⟩ (m.heap.cell 0) ∧
      ∃ h, value (.delete (.property "data" "2")) m = (.ok (.bool true), ⟨h, m.scope⟩) ∧
        Deleted "data" "2" 0 m ⟨h, m.scope⟩ (m.heap.cell 0) := by
  intro m g
  have ends : value (.assign (.property "data" "2") (.ident "x")) m = (.ok .null, ⟨g, m.scope⟩) := by
    rfl
  refine ⟨rfl, by decide, rfl, ends, ?_⟩
  obtain ⟨assigned | ⟨⟨e, refused⟩, _⟩, h, deletes, deleted, _⟩ :=
    property_accesses_agree (by rfl : m.scope.lookup? "data" = some (.container 0)) (by decide)
      (by rfl : m.scope.lookup? "x" = some .null) "2"
  · obtain ⟨g', ends', assigned, _⟩ := assigned
    rw [ends] at ends'
    cases ends'
    exact ⟨assigned, h, deletes, deleted⟩
  · rw [ends] at refused
    cases refused

end Eval

end FormLogic
