import FormLogic.Proofs.Expr.Part

/-!
# `FormLogic.Proofs.Expr.Names` — the names an expression uses

The names that stand in an expression as identifiers, wherever that is: also in keys, in arguments,
in the bodies of functions, and left of `=`. Parameters and property names are not among them.

## Contents
- `Expr.names`, `Program.names`: the names of an expression and of a program.
- `mem_namesOfItems`, `mem_namesOfEntries`: the names of a list are those of its members.
- `mem_names_iff`: the names are those of the identifiers among the nodes.
-/

namespace FormLogic

namespace Expr

mutual

/-- The names of an expression. -/
def names : Expr → List String
  | .literal _ => []
  | .ident name => [name]
  | .array items => namesOfItems items
  | .object entries => namesOfEntries entries
  | .member base key _ => names base ++ namesOfKey key
  | .call callee args => names callee ++ namesOfItems args
  | .arrow _ body => names body
  | .unary _ operand => names operand
  | .delete target => names target
  | .binary _ lhs rhs | .logical _ lhs rhs => names lhs ++ names rhs
  | .conditional test consequent alternate => names test ++ (names consequent ++ names alternate)
  | .assign target value => names target ++ names value

/-- The names of the elements. -/
def namesOfItems : List Expr → List String
  | [] => []
  | item :: rest => names item ++ namesOfItems rest

/-- The names of the entries' values. -/
def namesOfEntries : List (String × Expr) → List String
  | [] => []
  | (_, value) :: rest => names value ++ namesOfEntries rest

/-- The names of a key. -/
def namesOfKey : Key Expr → List String
  | .named _ => []
  | .computed key => names key

end

theorem mem_namesOfItems {name : String} {items : List Expr} :
    name ∈ namesOfItems items ↔ ∃ item ∈ items, name ∈ names item := by
  induction items with
  | nil => simp [namesOfItems]
  | cons item rest ih => simp [namesOfItems, ih]

theorem mem_namesOfEntries {name : String} {entries : List (String × Expr)} :
    name ∈ namesOfEntries entries ↔ ∃ entry ∈ entries, name ∈ names entry.2 := by
  induction entries with
  | nil => simp [namesOfEntries]
  | cons entry rest ih =>
    obtain ⟨key, value⟩ := entry
    simp [namesOfEntries, ih]

theorem mem_namesOfKey {name : String} {key : Key Expr} :
    name ∈ namesOfKey key ↔ ∃ part ∈ keyParts key, name ∈ names part := by
  cases key <;> simp [namesOfKey, keyParts]

/-- A name is that of the expression itself, or one of a direct part. -/
theorem mem_names_iff_parts {name : String} {e : Expr} :
    name ∈ e.names ↔ e = .ident name ∨ ∃ part ∈ e.children, name ∈ part.names := by
  cases e with
  | object entries =>
    simp only [names, mem_namesOfEntries, children, List.mem_map, exists_exists_and_eq_and,
      reduceCtorEq, false_or]
  | _ => simp [names, children, mem_namesOfItems, mem_namesOfKey, eq_comm]

/-- The names of an expression are those of its identifiers. -/
theorem mem_names_iff {name : String} {e : Expr} :
    name ∈ e.names ↔ (Expr.ident name).IsPartOf e := by
  constructor
  · intro used
    induction e using partsInduction with
    | step e ih =>
      rcases mem_names_iff_parts.mp used with rfl | ⟨part, direct, used⟩
      · exact .whole
      · exact .inside direct (ih part direct used)
  · intro within
    induction within with
    | whole => exact List.mem_singleton_self name
    | inside direct _ ih => exact mem_names_iff_parts.mpr (.inr ⟨_, direct, ih⟩)

end Expr

/-- The names of a program. -/
def Program.names (program : Program) : List String :=
  Expr.namesOfItems program

end FormLogic
