import FormLogic.Expr
import FormLogic.Number.Layout
import FormLogic.Text.Quoted

/-!
# `FormLogic.Expr.Printer` — the text of a program

Every operator is put between parentheses, so that the text shows the tree. Statements are separated
by semicolons.

## Contents
- `symbol`: the text of an operator.
- `Expr.print`, `Program.print`: the text of an expression and of a program.
-/

namespace FormLogic

/-- The operator as it is written in front of its operand. -/
def UnaryOp.symbol : UnaryOp → String
  | .not => "!"
  | .neg => "-"
  | .plus => "+"
  | .typeof => "typeof "

/-- The operator as it is written between its operands. -/
def BinaryOp.symbol : BinaryOp → String
  | .add => "+"
  | .sub => "-"
  | .mul => "*"
  | .div => "/"
  | .rem => "%"
  | .lt => "<"
  | .le => "<="
  | .gt => ">"
  | .ge => ">="
  | .eq => "=="
  | .ne => "!="
  | .strictEq => "==="
  | .strictNe => "!=="

/-- The operator as it is written between its operands. -/
def LogicalOp.symbol : LogicalOp → String
  | .and => "&&"
  | .or => "||"

/-- The text of a constant. -/
def Literal.print : Literal → String
  | .undefined => "undefined"
  | .null => "null"
  | .bool b => if b then "true" else "false"
  | .number x => Number.formatNumber x
  | .string s => Text.quote s

namespace Expr

mutual

/-- The text of an expression. -/
def print : Expr → String
  | .literal value => value.print
  | .array items => "[" ++ ", ".intercalate (printItems items) ++ "]"
  | .object entries => "\x7b" ++ ", ".intercalate (printEntries entries) ++ "\x7d"
  | .ident name => name
  | .member base key optional => print base ++ printKey optional key
  | .call callee args => print callee ++ "(" ++ ", ".intercalate (printItems args) ++ ")"
  | .arrow params body => "(" ++ ", ".intercalate params ++ ") => " ++ print body
  | .unary op operand => "(" ++ op.symbol ++ print operand ++ ")"
  | .binary op lhs rhs => "(" ++ print lhs ++ " " ++ op.symbol ++ " " ++ print rhs ++ ")"
  | .logical op lhs rhs => "(" ++ print lhs ++ " " ++ op.symbol ++ " " ++ print rhs ++ ")"
  | .conditional test consequent alternate =>
    "(" ++ print test ++ " ? " ++ print consequent ++ " : " ++ print alternate ++ ")"
  | .assign target value => print target ++ " = " ++ print value
  | .delete target => "delete " ++ print target

/-- The texts of the elements. -/
def printItems : List Expr → List String
  | [] => []
  | item :: rest => print item :: printItems rest

/-- The texts of the entries. -/
def printEntries : List (String × Expr) → List String
  | [] => []
  | (key, value) :: rest => (Text.quote key ++ ": " ++ print value) :: printEntries rest

/-- The text of a key with what stands in front of it. -/
def printKey (optional : Bool) : Key Expr → String
  | .named name => (if optional then "?." else ".") ++ name
  | .computed key => (if optional then "?.[" else "[") ++ print key ++ "]"

end

end Expr

/-- The text of a program. -/
def Program.print (program : Program) : String :=
  "; ".intercalate (program.map Expr.print)

end FormLogic
