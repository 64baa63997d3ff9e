import FormLogic.Heap.Action
import FormLogic.Heap.Plain
import FormLogic.Json.Decode

/-!
# `FormLogic.Clone` — copies of graphs

A deep copy has new containers throughout. On the way down each container is kept with its copy, so
a reference back to a container on the way is wired to that container's copy, and a graph that
contains itself has a copy that contains itself. A container that is reached on two different ways
is copied once for each. A plain copy goes through the plain tree of the value instead.

A copy is filled when all its elements have been copied; until then the references back to it point
at an empty container.

## Contents
- `Clone.Options`: the depth limit, with its reader.
- `isReserved`: keys that are never copied.
- `Clone.deep`, `Clone.plain`: the two copies; `Clone.children`: the children of a container
  replaced by deep copies.
-/

namespace FormLogic

/-- Keys that copies and merges leave out. -/
def reservedKeys : List String :=
  ["__proto__", "constructor", "prototype"]

/-- Whether copies and merges leave the key out. -/
def isReserved (key : String) : Bool :=
  reservedKeys.contains key

namespace Clone

/-- The settings of copying. -/
structure Options where
  maxDepth : Nat := defaultMaxDepth

/-- Reads the settings of copying. -/
def Options.decode : Json.Decoder Options :=
  Json.decodeRecord "CloneOptions"
    [Json.field "maxDepth" Json.toCount fun n o => { o with maxDepth := n }] {}

/-- The containers on the way down, innermost first, each with its copy. -/
abbrev Ancestors := List (Ref × Ref)

/-- The copies of entries, behind those already made; reserved keys are left out. -/
def entries (copy : Value → HeapM RecursionLimit Value) (made : Fields Value) :
    List (String × Value) → HeapM RecursionLimit (Fields Value)
  | [] => return made
  | (key, v) :: rest => do
    if isReserved key then
      entries copy made rest
    else
      let v ← copy v
      entries copy (made.insert key v) rest

/-- The copies of elements, behind those already made. -/
def items (copy : Value → HeapM RecursionLimit Value) (made : Array Value) :
    List Value → HeapM RecursionLimit (Array Value)
  | [] => return made
  | v :: rest => do
    let v ← copy v
    items copy (made.push v) rest

/-- What the copy of a container holds, given the copies of values. -/
def contents (copy : Value → HeapM RecursionLimit Value) : Cell → HeapM RecursionLimit Cell
  | .mapping fields => return .mapping (← entries copy .empty fields.entries)
  | .sequence elements => return .sequence (← items copy #[] elements.toList)

/-- The same container with nothing in it. -/
def emptied : Cell → Cell
  | .mapping _ => .mapping .empty
  | .sequence _ => .sequence #[]

/-- The copy of a value below `ancestors`, with room for `room` more containers on the way down. -/
def value (limit : RecursionLimit) :
    (room : Nat) → (ancestors : Ancestors) → Value → HeapM RecursionLimit Value
  | room, ancestors, .container r =>
    match ancestors.lookup r, room with
    | some copy, _ => return .container copy
    | none, 0 => throw limit
    | none, room + 1 => do
      let source ← HeapM.cell r
      let copy ← HeapM.alloc (emptied source)
      let filled ← contents (fun v => value limit room ((r, copy) :: ancestors) v) source
      HeapM.update copy fun _ => filled
      return .container copy
  | _, _, v => return v

/-- The deep copy of a value. Scalars and handles are their own copies. -/
def deep (options : Options) (v : Value) : HeapM RecursionLimit Value :=
  value ⟨.clone, options.maxDepth⟩ options.maxDepth [] v

/-- The copy of a value through its plain tree; `undefined` is its own copy. -/
def plain (options : Options) (v : Value) : HeapM RecursionLimit Value :=
  if v.isUndefined then
    return v
  else
    fun h =>
      match h.plainWithin options.maxDepth v with
      | some tree =>
        let (copy, h) := h.ofPlain tree
        (.ok copy, h)
      | none => (.error ⟨.clone, options.maxDepth⟩, h)

/-- Replaces the values under the keys of a mapping by deep copies, one after the other. -/
def childEntries (options : Options) (r : Ref) : List (String × Value) → HeapM RecursionLimit Unit
  | [] => return
  | (key, v) :: rest => do
    let copy ← deep options v
    HeapM.update r (.mapFields (·.insert key copy))
    childEntries options r rest

/-- Replaces the elements of a sequence from `index` on by deep copies, one after the other. -/
def childItems (options : Options) (r : Ref) :
    (index : Nat) → List Value → HeapM RecursionLimit Unit
  | _, [] => return
  | index, v :: rest => do
    let copy ← deep options v
    HeapM.update r (.mapItems (Heap.storeAt index copy))
    childItems options r (index + 1) rest

/-- Replaces every child of a container by a deep copy. The container itself stays, and so do the
children already replaced if a later one is nested too deeply. -/
def children (options : Options) : Value → HeapM RecursionLimit Unit
  | .container r => do
    match ← HeapM.cell r with
    | .mapping fields => childEntries options r fields.entries
    | .sequence elements => childItems options r 0 elements.toList
  | _ => return

end Clone

end FormLogic
