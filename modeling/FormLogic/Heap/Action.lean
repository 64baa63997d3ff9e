import FormLogic.Heap

/-!
# `FormLogic.Heap.Action` — actions on the heap

An action reads and changes the heap and can fail. It hands back the heap it leaves also when it
fails, so what was changed before a failure stays changed.

## Contents
- `HeapM`: actions on the heap; `HeapM.cell`, `HeapM.lookup`, `HeapM.alloc`, `HeapM.update`: its
  operations.
- `World`, `Action`: the same with a state of the host beside the heap; `Action.onHeap`.
-/

namespace FormLogic

/-- Actions on the heap with errors in `ε`. -/
abbrev HeapM (ε : Type) :=
  ExceptT ε (StateM Heap)

namespace HeapM

variable {ε : Type}

/-- What the container holds now. -/
def cell (r : Ref) : HeapM ε Cell :=
  fun h => (.ok (h.cell r), h)

/-- The value under a key of a mapping now. -/
def lookup (v : Value) (key : String) : HeapM ε Value :=
  fun h => (.ok (h.lookup v key), h)

/-- A new container. -/
def alloc (c : Cell) : HeapM ε Ref :=
  fun h =>
    let (r, h) := h.alloc c
    (.ok r, h)

/-- Changes what the container holds. -/
def update (r : Ref) (f : Cell → Cell) : HeapM ε Unit :=
  fun h => (.ok (), h.update r f)

end HeapM

/-- The heap and a state of the host beside it. -/
structure World (σ : Type) where
  heap : Heap
  host : σ

/-- Actions that also change the state of the host. -/
abbrev Action (σ ε : Type) :=
  ExceptT ε (StateM (World σ))

namespace Action

variable {σ ε δ α : Type}

/-- An action on the heap, with its errors turned into those of the caller. -/
def onHeap (wrap : δ → ε) (action : HeapM δ α) : Action σ ε α :=
  fun ⟨heap, host⟩ =>
    match action heap with
    | (.ok a, heap) => (.ok a, ⟨heap, host⟩)
    | (.error e, heap) => (.error (wrap e), ⟨heap, host⟩)

/-- The same action with its errors turned into those of the caller. -/
def withErrors (wrap : δ → ε) (action : Action σ δ α) : Action σ ε α :=
  fun w =>
    match action w with
    | (.ok a, w) => (.ok a, w)
    | (.error e, w) => (.error (wrap e), w)

/-- The heap as it is now. -/
def heap : Action σ ε Heap :=
  fun w => (.ok w.heap, w)

end Action

end FormLogic
