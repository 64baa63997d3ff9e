import FormLogic.Heap.Plain
import FormLogic.Proofs.Heap.Action
import FormLogic.Proofs.Heap.Place
import FormLogic.Proofs.Heap.Text

/-!
# `FormLogic.Proofs.Heap.Reading` — reading through a value

What is read through a value is a child of its container, so it stays within what the value leads to;
and it depends on nothing else. In a heap in which a value leads to the same containers it reads the
same, be it its class, its elements, or the whole of its plain tree.

## Contents
- `Extends.reach_old`: in a larger heap, what was there leads where it led before.
- `reach_of_entry`, `reach_of_element`: entries and elements are children.
- `lookup_container`, `lookup_cases`, `Closed.lookup`: the value under a key.
- `kind_congr`, `itemsOf?_congr`, `plainWithin_congr`: the same reading from the same containers.
-/

namespace FormLogic.Heap

variable {h k : Heap} {v w : Value} {r : Ref} {key : String}

/-- In a larger heap, values that were there lead where they led before. -/
theorem Extends.reach_old {roots : Set Value} (extended : h.Extends k) (closed : h.Closed)
    (rooted : ∀ v ∈ roots, h.Live v) (reached : k.Reach roots v) : h.Reach roots v := by
  refine reached.within (fun u here => .root here) fun r before u held => ?_
  rw [extended.cells (before.live closed rooted r rfl)] at held
  exact before.child held

/-! ## Children -/

/-- The value of an entry of a mapping is one of its children. -/
theorem mem_children_of_fieldsOf? {fields : Fields Value} {entry : String × Value}
    (mapping : h.fieldsOf? (.container r) = some fields) (mem : entry ∈ fields.entries) :
    entry.2 ∈ (h.cell r).children := by
  unfold fieldsOf? at mapping
  dsimp only at mapping
  split at mapping
  · next held =>
    cases mapping
    rw [held]
    exact List.mem_map_of_mem mem
  · cases mapping

/-- An element of a sequence is one of its children. -/
theorem mem_children_of_itemsOf? {items : Array Value}
    (sequence : h.itemsOf? (.container r) = some items) (mem : v ∈ items.toList) :
    v ∈ (h.cell r).children := by
  unfold itemsOf? at sequence
  dsimp only at sequence
  split at sequence
  · cases sequence
  · next held =>
    cases sequence
    rw [held]
    exact mem

/-- What the value of an entry leads to, the mapping leads to. -/
theorem reach_of_entry {fields : Fields Value} {entry : String × Value} {u : Value}
    (mapping : h.fieldsOf? u = some fields) (mem : entry ∈ fields.entries)
    (reached : h.Reach {entry.2} w) : h.Reach {u} w := by
  cases u with
  | container r => exact reached.of_child (mem_children_of_fieldsOf? mapping mem)
  | _ => cases mapping

/-- What an element of a sequence leads to, the sequence leads to. -/
theorem reach_of_element {items : Array Value} {u : Value} (sequence : h.itemsOf? u = some items)
    (mem : v ∈ items.toList) (reached : h.Reach {v} w) : h.Reach {u} w := by
  cases u with
  | container r => exact reached.of_child (mem_children_of_itemsOf? sequence mem)
  | _ => cases sequence

/-- The value under a key is the one at the place of the key. -/
theorem lookup_container (h : Heap) (r : Ref) (key : String) :
    h.lookup (.container r) key = ((h.cell r).at? (.key key)).getD .undefined := by
  unfold lookup fieldsOf?
  dsimp only
  cases h.cell r <;> rfl

/-- The value under a key is `undefined`, or a child of the container. -/
theorem lookup_cases (h : Heap) (v : Value) (key : String) :
    h.lookup v key = .undefined ∨ ∃ r, v = .container r ∧ h.lookup v key ∈ (h.cell r).children := by
  cases v with
  | container r =>
    rw [lookup_container]
    cases held : (h.cell r).at? (.key key) with
    | none => exact Or.inl rfl
    | some w => exact Or.inr ⟨r, rfl, Cell.mem_children_of_at? held⟩
  | _ => exact Or.inl rfl

/-- What is looked up does not dangle. -/
theorem Closed.lookup (closed : h.Closed) (v : Value) (key : String) : h.Live (h.lookup v key) := by
  rcases h.lookup_cases v key with absent | ⟨r, rfl, held⟩
  · rw [absent]
    exact fun _ same => nomatch same
  · exact closed r _ held

/-! ## The same containers -/

/-- The class of a value is that of its own container. -/
theorem kind_congr (same : ∀ r, v = .container r → k.cell r = h.cell r) : k.kind v = h.kind v := by
  cases v with
  | container r =>
    unfold kind
    dsimp only
    rw [same r rfl]
  | _ => rfl

theorem itemsOf?_congr (same : ∀ r, v = .container r → k.cell r = h.cell r) :
    k.itemsOf? v = h.itemsOf? v := by
  cases v with
  | container r =>
    unfold itemsOf?
    dsimp only
    rw [same r rfl]
  | _ => rfl

theorem plainWithin_leaf (leaf : v.isContainer = false) (depth : Nat) :
    k.plainWithin depth v = h.plainWithin depth v := by
  cases v with
  | container r => cases leaf
  | _ => cases depth <;> rfl

/-- The plain tree of a value depends on the containers that it leads to. -/
theorem plainWithin_congr (same : ∀ r, h.Reach {v} (.container r) → k.cell r = h.cell r)
    (depth : Nat) : k.plainWithin depth v = h.plainWithin depth v := by
  induction depth generalizing v with
  | zero => cases v <;> rfl
  | succ depth ih =>
    rcases v.leaf_or_container with leaf | ⟨r, rfl⟩
    · exact plainWithin_leaf leaf _
    · have below : ∀ w ∈ (h.cell r).children, k.plainWithin depth w = h.plainWithin depth w := by
        intro w held
        exact ih fun s reached => same s (reached.of_child held)
      unfold plainWithin
      rw [same r (.root rfl)]
      cases source : h.cell r with
      | sequence items =>
        rw [source] at below
        dsimp only
        congr 1
        exact mapM_eq_of_forall₂ (fun _ _ eq => eq) (List.forall₂_same.mpr below)
      | mapping fields =>
        rw [source] at below
        dsimp only
        congr 1
        refine mapM_eq_of_forall₂ (fun _ _ eq => eq) (List.forall₂_same.mpr fun entry mem => ?_)
        rw [below entry.2 (List.mem_map_of_mem (List.mem_of_mem_filter mem))]

end FormLogic.Heap
