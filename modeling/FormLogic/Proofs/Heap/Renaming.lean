import FormLogic.Proofs.Heap.Reach
import Mathlib.Data.List.Forall2
import Mathlib.Logic.Relator

/-!
# `FormLogic.Proofs.Heap.Renaming` — heaps that differ in their references only

Two heaps look the same from where a program stands if a one-to-one renaming of references takes the
containers of the one to those of the other. A renaming also says which handles of the host are
known; they are not renamed. Both heaps grow together: a container made on both sides joins the
renaming, and a container outside of it stays as it is.

A heap is renamed to itself by the identity on what some roots reach. Then "related" reads as
"reached from the roots, or new", which is how confinement is read off a simulation.

## Contents
- `Renaming`, `Values`, `Cells`, `Heaps`: the relation, on values, containers and heaps;
  `Heaps.cell_cases`: what paired containers look like.
- `Later`, `Grows`: a renaming that has more pairs, and how two heaps get there.
- `Heaps.alloc`, `Heaps.update`, `Grows.alloc`, `Grows.update`: the two operations in step.
- `onReached`: the identity on what is reached.
-/

namespace FormLogic

/-- Pairs of references that stand for each other, and the handles that are known. -/
structure Renaming where
  refs : Ref → Ref → Prop
  handles : String → Prop

namespace Renaming

variable {ρ ρ' ρ'' : Renaming}

/-! ## Values and containers -/

/-- Values that are the same up to the renaming. -/
inductive Values (ρ : Renaming) : Value → Value → Prop where
  | undefined : Values ρ .undefined .undefined
  | null : Values ρ .null .null
  | bool (b : Bool) : Values ρ (.bool b) (.bool b)
  | number (x : Float) : Values ρ (.number x) (.number x)
  | string (s : String) : Values ρ (.string s) (.string s)
  | container {r s : Ref} (paired : ρ.refs r s) : Values ρ (.container r) (.container s)
  | foreign {name : String} (known : ρ.handles name) : Values ρ (.foreign name) (.foreign name)

/-- A value is related to itself if what it refers to is. -/
theorem Values.self {v : Value} (containers : ∀ r, v = .container r → ρ.refs r r)
    (handles : ∀ name, v = .foreign name → ρ.handles name) : ρ.Values v v := by
  cases v with
  | undefined => exact .undefined
  | null => exact .null
  | bool b => exact .bool b
  | number x => exact .number x
  | string s => exact .string s
  | container r => exact .container (containers r rfl)
  | foreign name => exact .foreign (handles name rfl)

/-- Entries with the same key and related values. -/
def Entries (ρ : Renaming) (e e' : String × Value) : Prop :=
  e.1 = e'.1 ∧ ρ.Values e.2 e'.2

/-- Containers with the same keys in the same order, or equally long, that hold related values. -/
inductive Cells (ρ : Renaming) : Cell → Cell → Prop where
  | mapping {a b : Fields Value} (same : List.Forall₂ ρ.Entries a.entries b.entries) :
      Cells ρ (.mapping a) (.mapping b)
  | sequence {a b : Array Value} (same : List.Forall₂ ρ.Values a.toList b.toList) :
      Cells ρ (.sequence a) (.sequence b)

namespace Values

variable {v w : Value}

theorem isUndefined_eq (same : ρ.Values v w) : v.isUndefined = w.isUndefined := by
  cases same <;> rfl

theorem isNullish_eq (same : ρ.Values v w) : v.isNullish = w.isNullish := by
  cases same <;> rfl

theorem isContainer_eq (same : ρ.Values v w) : v.isContainer = w.isContainer := by
  cases same <;> rfl

theorem truthy_eq (same : ρ.Values v w) : v.truthy = w.truthy := by
  cases same <;> rfl

theorem typeName_eq (same : ρ.Values v w) : v.typeName = w.typeName := by
  cases same <;> rfl

/-- A text is related to itself only. -/
theorem eq_string_iff (same : ρ.Values v w) (s : String) : v = .string s ↔ w = .string s := by
  cases same <;> simp

/-- A number of elements is related to itself. -/
theorem ofNat (n : Nat) : ρ.Values (.ofNat n) (.ofNat n) :=
  .number _

end Values

/-- Related containers hold related values. -/
theorem Cells.children {c c' : Cell} (same : ρ.Cells c c') :
    List.Forall₂ ρ.Values c.children c'.children := by
  cases same with
  | mapping same =>
    show List.Forall₂ ρ.Values (List.map Prod.snd _) (List.map Prod.snd _)
    rw [List.forall₂_map_left_iff, List.forall₂_map_right_iff]
    exact same.imp fun _ _ entry => entry.2
  | sequence same => exact same

/-- What a related container holds has a counterpart in the other. -/
theorem Cells.exists_of_mem {c c' : Cell} {v : Value} (same : ρ.Cells c c')
    (held : v ∈ c.children) : ∃ w ∈ c'.children, ρ.Values v w := by
  have all := same.children
  generalize c.children = vs at held all
  generalize c'.children = ws at all
  induction all with
  | nil => exact absurd held (by simp)
  | @cons a b _ _ pair _ ih =>
    rcases List.mem_cons.mp held with rfl | deeper
    · exact ⟨b, List.mem_cons_self, pair⟩
    · obtain ⟨w, mem, pair'⟩ := ih deeper
      exact ⟨w, List.mem_cons_of_mem b mem, pair'⟩

/-! ## Heaps -/

/-- Heaps that are the same up to the renaming, as far as it goes. -/
structure Heaps (ρ : Renaming) (h h' : Heap) : Prop where
  /-- A reference has one counterpart on either side. -/
  oneToOne : Relator.BiUnique ρ.refs
  /-- Only containers that exist are paired. -/
  inside : ∀ {r s}, ρ.refs r s → r < h.size ∧ s < h'.size
  /-- Paired containers hold related values. -/
  cells : ∀ {r s}, ρ.refs r s → ρ.Cells (h.cell r) (h'.cell s)

/-- Paired containers are both mappings or both sequences. -/
theorem Heaps.cell_cases {h h' : Heap} {r s : Ref} (heaps : ρ.Heaps h h') (paired : ρ.refs r s) :
    (∃ a b : Fields Value, h.cell r = .mapping a ∧ h'.cell s = .mapping b ∧
      List.Forall₂ ρ.Entries a.entries b.entries) ∨
    ∃ a b : Array Value, h.cell r = .sequence a ∧ h'.cell s = .sequence b ∧
      List.Forall₂ ρ.Values a.toList b.toList := by
  have cells := heaps.cells paired
  generalize h.cell r = c at cells
  generalize h'.cell s = c' at cells
  cases cells with
  | mapping entries => exact Or.inl ⟨_, _, rfl, rfl, entries⟩
  | sequence items => exact Or.inr ⟨_, _, rfl, rfl, items⟩

/-- The pairs of `ρ` are among those of `ρ'`. -/
structure Later (ρ ρ' : Renaming) : Prop where
  refs : ∀ {r s}, ρ.refs r s → ρ'.refs r s
  handles : ρ'.handles = ρ.handles

namespace Later

theorem refl (ρ : Renaming) : ρ.Later ρ :=
  ⟨fun paired => paired, rfl⟩

theorem trans (first : ρ.Later ρ') (second : ρ'.Later ρ'') : ρ.Later ρ'' :=
  ⟨fun paired => second.refs (first.refs paired), second.handles.trans first.handles⟩

theorem values {v w : Value} (later : ρ.Later ρ') (same : ρ.Values v w) : ρ'.Values v w := by
  cases same with
  | undefined => exact .undefined
  | null => exact .null
  | bool b => exact .bool b
  | number x => exact .number x
  | string s => exact .string s
  | container paired => exact .container (later.refs paired)
  | foreign known => exact .foreign (later.handles ▸ known)

theorem entries {e e' : String × Value} (later : ρ.Later ρ') (same : ρ.Entries e e') :
    ρ'.Entries e e' :=
  ⟨same.1, later.values same.2⟩

theorem cells {c c' : Cell} (later : ρ.Later ρ') (same : ρ.Cells c c') : ρ'.Cells c c' := by
  cases same with
  | mapping same => exact .mapping (same.imp fun _ _ => later.entries)
  | sequence same => exact .sequence (same.imp fun _ _ => later.values)

end Later

/-- How two related heaps become two others: the renaming keeps its pairs and gains pairs of new
containers only, every new container on the left gets one, and a container on the left that has no
counterpart stays as it is. -/
structure Grows (ρ ρ' : Renaming) (h h' g g' : Heap) : Prop where
  later : ρ.Later ρ'
  size_left : h.size ≤ g.size
  size_right : h'.size ≤ g'.size
  fresh : ∀ {r s}, ρ'.refs r s → ρ.refs r s ∨ (h.size ≤ r ∧ h'.size ≤ s)
  covers : ∀ {r}, h.size ≤ r → r < g.size → ∃ s, ρ'.refs r s
  frame : ∀ {r}, r < h.size → (∀ s, ¬ ρ.refs r s) → g.cell r = h.cell r

namespace Grows

variable {h h' g g' k k' : Heap}

theorem refl (ρ : Renaming) (h h' : Heap) : Grows ρ ρ h h' h h' where
  later := .refl ρ
  size_left := Nat.le_refl _
  size_right := Nat.le_refl _
  fresh := Or.inl
  covers old new := absurd new (Nat.not_lt.mpr old)
  frame _ _ := rfl

theorem trans (first : Grows ρ ρ' h h' g g') (second : Grows ρ' ρ'' g g' k k') :
    Grows ρ ρ'' h h' k k' where
  later := first.later.trans second.later
  size_left := Nat.le_trans first.size_left second.size_left
  size_right := Nat.le_trans first.size_right second.size_right
  fresh paired := by
    rcases second.fresh paired with before | ⟨left, right⟩
    · exact first.fresh before
    · exact Or.inr ⟨Nat.le_trans first.size_left left, Nat.le_trans first.size_right right⟩
  covers {r} old new := by
    by_cases early : r < g.size
    · obtain ⟨s, paired⟩ := first.covers old early
      exact ⟨s, second.later.refs paired⟩
    · exact second.covers (Nat.le_of_not_lt early) new
  frame {r} old unpaired := by
    rw [second.frame (Nat.lt_of_lt_of_le old first.size_left), first.frame old unpaired]
    intro s paired
    -- the first part pairs old references only if they were paired before
    rcases first.fresh paired with before | ⟨new, _⟩
    · exact unpaired s before
    · exact absurd old (Nat.not_lt.mpr new)

end Grows

/-! ## The operations in step -/

/-- The renaming with one more pair. -/
def add (ρ : Renaming) (r s : Ref) : Renaming where
  refs a b := ρ.refs a b ∨ (a = r ∧ b = s)
  handles := ρ.handles

theorem later_add (ρ : Renaming) (r s : Ref) : ρ.Later (ρ.add r s) :=
  ⟨Or.inl, rfl⟩

/-- Making a container on both sides is a way of growing. -/
theorem Grows.alloc (ρ : Renaming) (h h' : Heap) (c c' : Cell) :
    Grows ρ (ρ.add h.size h'.size) h h' (h.alloc c).2 (h'.alloc c').2 where
  later := ρ.later_add _ _
  size_left := by
    rw [Heap.size_alloc]
    omega
  size_right := by
    rw [Heap.size_alloc]
    omega
  fresh := by
    rintro r s (paired | ⟨rfl, rfl⟩)
    · exact Or.inl paired
    · exact Or.inr ⟨Nat.le_refl _, Nat.le_refl _⟩
  covers {r} old new := by
    rw [Heap.size_alloc] at new
    exact ⟨h'.size, Or.inr ⟨Nat.le_antisymm (Nat.le_of_lt_succ new) old, rfl⟩⟩
  frame {r} old _ := by
    rw [Heap.cell_alloc, if_neg (Nat.ne_of_lt old)]

/-- Changing paired containers is a way of growing. -/
theorem Grows.update {h h' : Heap} {r s : Ref} (paired : ρ.refs r s) (f f' : Cell → Cell) :
    Grows ρ ρ h h' (h.update r f) (h'.update s f') where
  later := .refl ρ
  size_left := Nat.le_of_eq (Heap.size_update h r f).symm
  size_right := Nat.le_of_eq (Heap.size_update h' s f').symm
  fresh := Or.inl
  covers {a} old new := by
    rw [Heap.size_update] at new
    exact absurd new (Nat.not_lt.mpr old)
  frame {a} _ unpaired := by
    rw [Heap.cell_update, if_neg]
    rintro ⟨rfl, _⟩
    exact unpaired s paired

namespace Heaps

variable {h h' : Heap}

/-- Two new containers with related contents are paired. -/
theorem alloc {c c' : Cell} (heaps : ρ.Heaps h h') (same : ρ.Cells c c') :
    (ρ.add h.size h'.size).Heaps (h.alloc c).2 (h'.alloc c').2 where
  oneToOne := by
    constructor
    · rintro a a' b (paired | ⟨rfl, rfl⟩) (paired' | ⟨rfl, e⟩)
      · exact heaps.oneToOne.1 paired paired'
      · exact absurd (e ▸ (heaps.inside paired).2) (Nat.lt_irrefl _)
      · exact absurd (heaps.inside paired').2 (Nat.lt_irrefl _)
      · rfl
    · rintro a b b' (paired | ⟨rfl, rfl⟩) (paired' | ⟨e, rfl⟩)
      · exact heaps.oneToOne.2 paired paired'
      · exact absurd (e ▸ (heaps.inside paired).1) (Nat.lt_irrefl _)
      · exact absurd (heaps.inside paired').1 (Nat.lt_irrefl _)
      · rfl
  inside := by
    rw [Heap.size_alloc, Heap.size_alloc]
    rintro r s (paired | ⟨rfl, rfl⟩)
    · have inside := heaps.inside paired
      exact ⟨Nat.lt_succ_of_lt inside.1, Nat.lt_succ_of_lt inside.2⟩
    · exact ⟨Nat.lt_succ_self _, Nat.lt_succ_self _⟩
  cells := by
    rintro r s (paired | ⟨rfl, rfl⟩)
    · have inside := heaps.inside paired
      rw [Heap.cell_alloc, Heap.cell_alloc, if_neg (Nat.ne_of_lt inside.1),
        if_neg (Nat.ne_of_lt inside.2)]
      exact (ρ.later_add _ _).cells (heaps.cells paired)
    · rw [Heap.cell_alloc, Heap.cell_alloc, if_pos rfl, if_pos rfl]
      exact (ρ.later_add _ _).cells same

variable {r s : Ref} {f f' : Cell → Cell}

/-- A change that keeps related contents related can be made to paired containers. -/
theorem update (heaps : ρ.Heaps h h') (paired : ρ.refs r s)
    (keeps : ∀ {c c'}, ρ.Cells c c' → ρ.Cells (f c) (f' c')) :
    ρ.Heaps (h.update r f) (h'.update s f') where
  oneToOne := heaps.oneToOne
  inside := by
    rw [Heap.size_update, Heap.size_update]
    exact heaps.inside
  cells {a b} other := by
    have inside := heaps.inside paired
    rw [Heap.cell_update, Heap.cell_update]
    by_cases same : a = r
    · subst same
      obtain rfl : b = s := heaps.oneToOne.2 other paired
      rw [if_pos ⟨rfl, inside.1⟩, if_pos ⟨rfl, inside.2⟩]
      exact keeps (heaps.cells other)
    · have different : b ≠ s := by
        rintro rfl
        exact same (heaps.oneToOne.1 other paired)
      rw [if_neg fun e => same e.1, if_neg fun e => different e.1]
      exact heaps.cells other

end Heaps

/-! ## The identity on what is reached -/

/-- The identity on what the roots reach in the heap. -/
def onReached (h : Heap) (roots : Set Value) : Renaming where
  refs r s := r = s ∧ h.Reach roots (.container r)
  handles name := h.Reach roots (.foreign name)

theorem values_onReached {h : Heap} {roots : Set Value} {v : Value} (reached : h.Reach roots v) :
    (onReached h roots).Values v v := by
  refine .self (fun r container => ⟨rfl, ?_⟩) fun name handle => ?_
  · subst container
    exact reached
  · subst handle
    exact reached

theorem cells_onReached {h : Heap} {roots : Set Value} {c : Cell}
    (reached : ∀ v ∈ c.children, h.Reach roots v) : (onReached h roots).Cells c c := by
  cases c with
  | mapping fields =>
    refine .mapping (List.forall₂_same.mpr fun entry mem => ⟨rfl, ?_⟩)
    exact values_onReached (reached entry.2 (List.mem_map_of_mem mem))
  | sequence items =>
    exact .sequence (List.forall₂_same.mpr fun v mem => values_onReached (reached v mem))

/-- A closed heap is related to itself by the identity on what live roots reach. -/
theorem heaps_onReached {h : Heap} {roots : Set Value} (closed : h.Closed)
    (live : ∀ v ∈ roots, h.Live v) : (onReached h roots).Heaps h h where
  oneToOne := by
    constructor
    · rintro a a' b ⟨rfl, _⟩ ⟨rfl, _⟩
      rfl
    · rintro a b b' ⟨rfl, _⟩ ⟨rfl, _⟩
      rfl
  inside := by
    rintro r _ ⟨rfl, reached⟩
    have inside := Heap.live_container.mp (reached.live closed live)
    exact ⟨inside, inside⟩
  cells := by
    rintro r _ ⟨rfl, reached⟩
    exact cells_onReached fun v held => reached.child held

end Renaming

end FormLogic
