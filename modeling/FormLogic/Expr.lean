/-!
# `FormLogic.Expr` — expressions

The trees of the expression language. A program is a list of statements, each an expression.

## Contents
- `Literal`, `UnaryOp`, `BinaryOp`, `LogicalOp`, `Key`, `Expr`, `Program`: the trees.
- `isAssignable`, `children`: what stands left of `=`, and the direct parts of an expression.
- `size`, `height`: the number of nodes, and the height defined by recursion.
- `depth`: the height found by a loop over a list of pending nodes.
-/

namespace FormLogic

/-- Constants. -/
inductive Literal where
  | undefined
  | null
  | bool (b : Bool)
  | number (x : Float)
  | string (s : String)
  deriving DecidableEq

/-- Operators with one operand. -/
inductive UnaryOp where
  | not
  | neg
  | plus
  | typeof
  deriving DecidableEq

/-- Operators that always evaluate both operands. -/
inductive BinaryOp where
  | add
  | sub
  | mul
  | div
  | rem
  | lt
  | le
  | gt
  | ge
  | eq
  | ne
  | strictEq
  | strictNe
  deriving DecidableEq

/-- Operators that evaluate the second operand only if they need it. -/
inductive LogicalOp where
  | and
  | or
  deriving DecidableEq

/-- The key of a member access: a name after a point, or an expression in brackets. -/
inductive Key (α : Type) where
  | named (name : String)
  | computed (key : α)

/-- Expressions. The flag of a member access marks `?.`, which yields `undefined` where the base has
no properties. -/
inductive Expr where
  | literal (value : Literal)
  | array (items : List Expr)
  | object (entries : List (String × Expr))
  | ident (name : String)
  | member (base : Expr) (key : Key Expr) (optional : Bool)
  | call (callee : Expr) (args : List Expr)
  | arrow (params : List String) (body : Expr)
  | unary (op : UnaryOp) (operand : Expr)
  | binary (op : BinaryOp) (lhs rhs : Expr)
  | logical (op : LogicalOp) (lhs rhs : Expr)
  | conditional (test consequent alternate : Expr)
  | assign (target value : Expr)
  | delete (target : Expr)

instance : Inhabited Expr :=
  ⟨.literal .undefined⟩

/-- A program: its statements in order. Its value is that of the last one. -/
abbrev Program := List Expr

namespace Expr

/-- Whether the expression can stand left of `=`. -/
def isAssignable : Expr → Bool
  | .ident _ | .member _ _ false => true
  | _ => false

/-- Whether the expression is a member access. -/
def isMember : Expr → Bool
  | .member _ _ _ => true
  | _ => false

/-- The expression inside a computed key. -/
def keyParts : Key Expr → List Expr
  | .named _ => []
  | .computed key => [key]

/-- The direct parts of an expression. -/
def children : Expr → List Expr
  | .literal _ | .ident _ => []
  | .array items => items
  | .object entries => entries.map Prod.snd
  | .member base key _ => base :: keyParts key
  | .call callee args => callee :: args
  | .arrow _ body => [body]
  | .unary _ operand => [operand]
  | .delete target => [target]
  | .binary _ lhs rhs | .logical _ lhs rhs => [lhs, rhs]
  | .conditional test consequent alternate => [test, consequent, alternate]
  | .assign target value => [target, value]

mutual

/-- The number of nodes of an expression. -/
def size : Expr → Nat
  | .literal _ | .ident _ => 1
  | .array items => 1 + sizeItems items
  | .object entries => 1 + sizeEntries entries
  | .member base key _ => 1 + size base + sizeKey key
  | .call callee args => 1 + size callee + sizeItems args
  | .arrow _ body => 1 + size body
  | .unary _ operand => 1 + size operand
  | .delete target => 1 + size target
  | .binary _ lhs rhs | .logical _ lhs rhs => 1 + size lhs + size rhs
  | .conditional test consequent alternate => 1 + size test + size consequent + size alternate
  | .assign target value => 1 + size target + size value

/-- The number of nodes of the elements. -/
def sizeItems : List Expr → Nat
  | [] => 0
  | item :: rest => size item + sizeItems rest

/-- The number of nodes of the entries' values. -/
def sizeEntries : List (String × Expr) → Nat
  | [] => 0
  | (_, value) :: rest => size value + sizeEntries rest

/-- The number of nodes of a key. -/
def sizeKey : Key Expr → Nat
  | .named _ => 0
  | .computed key => size key

end

mutual

/-- The height of an expression: 1 without parts, else 1 more than that of its highest part. -/
def height : Expr → Nat
  | .literal _ | .ident _ => 1
  | .array items => 1 + heightItems items
  | .object entries => 1 + heightEntries entries
  | .member base key _ => 1 + max (height base) (heightKey key)
  | .call callee args => 1 + max (height callee) (heightItems args)
  | .arrow _ body => 1 + height body
  | .unary _ operand => 1 + height operand
  | .delete target => 1 + height target
  | .binary _ lhs rhs | .logical _ lhs rhs => 1 + max (height lhs) (height rhs)
  | .conditional test consequent alternate =>
    1 + max (height test) (max (height consequent) (height alternate))
  | .assign target value => 1 + max (height target) (height value)

/-- The height of the highest element. -/
def heightItems : List Expr → Nat
  | [] => 0
  | item :: rest => max (height item) (heightItems rest)

/-- The height of the highest value of an entry. -/
def heightEntries : List (String × Expr) → Nat
  | [] => 0
  | (_, value) :: rest => max (height value) (heightEntries rest)

/-- The height of a key. -/
def heightKey : Key Expr → Nat
  | .named _ => 0
  | .computed key => height key

end

/-- Visits the pending nodes, each with its level, and the nodes below them, and keeps the deepest
level. Every step visits one node, so as many steps as there are nodes are enough. -/
def deepest : (steps : Nat) → (pending : List (Expr × Nat)) → (level : Nat) → Nat
  | 0, _, level => level
  | _ + 1, [], level => level
  | steps + 1, (e, depth) :: pending, level =>
    deepest steps (e.children.map (fun part => (part, depth + 1)) ++ pending) (max level depth)

/-- The height of the tree; a leaf has depth 1. -/
def depth (e : Expr) : Nat :=
  deepest e.size [(e, 1)] 0

end Expr

end FormLogic
