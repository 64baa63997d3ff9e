import FormLogic.Clone
import FormLogic.Heap.Equality

/-!
# `FormLogic.Merge` — merging graphs into a target

Sources are merged into a target one after the other, in place. Two mappings merge entry by entry:
where both hold a container these are merged, otherwise the entry of the source is stored. Two
sequences are combined by a strategy. A mapping never merges with a sequence.

## Contents
- `ArrayMerger`: strategies for sequences; `union`, `prepend`: two custom ones.
- `Merge.Options`: the settings, with their reader.
- `merge`: sources into a target.
-/

namespace FormLogic

/-- How the elements of two sequences combine. -/
inductive ArrayMerger where
  /-- The source's elements replace the target's. -/
  | overwrite
  /-- The source's elements follow the target's. -/
  | append
  /-- The given combination of the target's and the source's elements. -/
  | custom (combine : Heap → (target source : Array Value) → Array Value)

namespace ArrayMerger

/-- The elements of the target after the merge. -/
def combine (merger : ArrayMerger) (h : Heap) (target source : Array Value) : Array Value :=
  match merger with
  | .overwrite => source
  | .append => target ++ source
  | .custom combine => combine h target source

/-- The name of the strategy. -/
def name : ArrayMerger → String
  | .overwrite => "Overwrite"
  | .append => "Append"
  | .custom _ => "Custom(..)"

/-- Each element of the source follows unless the elements so far have a deeply equal one. -/
def union (h : Heap) (target source : Array Value) : Array Value :=
  source.foldl (fun items v => if items.any (h.equal · v) then items else items.push v) target

/-- The source's elements precede the target's. -/
def prepend (_ : Heap) (target source : Array Value) : Array Value :=
  source ++ target

end ArrayMerger

namespace Merge

/-- The settings of merging. -/
structure Options where
  arrayMerger : ArrayMerger := .overwrite
  /-- Whether an `undefined` entry of a source leaves the target as it is. -/
  skipUndefined : Bool := false
  maxDepth : Nat := defaultMaxDepth

/-- Reads the settings of merging. -/
def Options.decode : Json.Decoder Options :=
  Json.decodeRecord "MergeOptions"
    [Json.field "arrayMerger"
        (Json.toVariant [("overwrite", ArrayMerger.overwrite), ("append", ArrayMerger.append)])
        fun m o => { o with arrayMerger := m },
      Json.field "skipUndefined" Json.toBool fun b o => { o with skipUndefined := b },
      Json.field "maxDepth" Json.toCount fun n o => { o with maxDepth := n }] {}

/-- Merges the entries of a source into the mapping `target`; `deeper` merges two containers. -/
def entries (options : Options) (deeper : Value → Value → HeapM RecursionLimit Unit)
    (target : Ref) : List (String × Value) → HeapM RecursionLimit Unit
  | [] => return
  | (key, incoming) :: rest => do
    if isReserved key then
      entries options deeper target rest
    else
      let existing ← HeapM.lookup (.container target) key
      if existing.isContainer && incoming.isContainer then
        if !existing.same incoming then
          deeper existing incoming
      else if !(options.skipUndefined && incoming.isUndefined) then
        HeapM.update target (.mapFields (·.insert key incoming))
      entries options deeper target rest

/-- Combines the elements of the sequence `source` with those of the sequence `target`. -/
def combine (options : Options) (target : Ref) (source : Array Value) : HeapM RecursionLimit Unit :=
  fun h =>
    (.ok (), h.update target (.mapItems fun items => options.arrayMerger.combine h items source))

/-- Merges one value into another, with room for `room` levels. -/
def pair (options : Options) : (room : Nat) → (target source : Value) → HeapM RecursionLimit Unit
  | 0, _, _ => throw ⟨.merge, options.maxDepth⟩
  | room + 1, .container target, .container source => do
    match ← HeapM.cell target, ← HeapM.cell source with
    | .mapping _, .mapping fields =>
      entries options (fun v w => pair options room v w) target fields.entries
    | .sequence _, .sequence items => combine options target items
    | _, _ => return
  | _ + 1, _, _ => return

/-- Merges sources into a target, in order; the target itself is not merged into itself. -/
def sources (options : Options) (target : Value) : List Value → HeapM RecursionLimit Unit
  | [] => return
  | source :: rest => do
    if !source.same target then
      pair options options.maxDepth target source
    sources options target rest

end Merge

/-- Merges sources into a target, in order, and returns the target. -/
def merge (options : Merge.Options) (target : Value) (sources : List Value) :
    HeapM RecursionLimit Value := do
  Merge.sources options target sources
  return target

end FormLogic
