import FormLogic.Expr
import FormLogic.Expr.Parser
import FormLogic.Number.Decimal

/-!
# `FormLogic.Expr.Grammar` — reading programs

The grammar of the expression language, from the loosest to the tightest construct: statements,
assignment, the conditional, `||`, `&&`, equality, order, sums, products, prefix operators, chains
of member accesses and calls, and primary expressions. Binary operators group to the left.

Two limits keep the nesting bounded. Each assignment and each prefix expression is one frame, and no
more than `maxFrames` of them may be open; the rules below take the two frames further in as
parameters, so the number of frames left is what the recursion goes down on. And no expression may
be higher than `maxHeight`. Every round of a loop takes at least one character, so the number of
characters (`steps`) bounds the rounds.

## Contents
- `assignment`, `unary`: the two recursive rules, and `program`: the start of the grammar.
- `assignment_succ`, `unary_succ`, `statements_succ`: the rules with one frame or round more.
- `SyntaxError`: where and why a text is no program.
- `parse`: the program of a text.
-/

namespace FormLogic

namespace Grammar

open FormLogic.Parser

/-- How many frames may be open at once. -/
def maxFrames : Nat := 128

/-- How high the tree of a statement may be. -/
def maxHeight : Nat := 64

/-- Refuses a text for its nesting. -/
def tooDeep {α : Type} : Parser α :=
  fun cs => .fail ⟨true, some "nesting depth", []⟩ cs

/-- Refuses an expression that is too high. -/
def bounded (e : Expr) : Parser Expr :=
  if maxHeight < e.depth then tooDeep else pure e

/-! ## Words and constants -/

/-- Whether a name can start with the character. -/
def isNameStart (c : Char) : Bool :=
  c.isAlpha || c == '_' || c == '$'

/-- Whether a name can go on with the character. -/
def isNameRest (c : Char) : Bool :=
  c.isAlphanum || c == '_' || c == '$'

/-- A name. -/
def name : Parser String := do
  let first ← satisfy isNameStart
  let rest ← span isNameRest
  return String.ofList (first :: rest)

/-- The given name. -/
def keyword (word : String) : Parser Unit := do
  let found ← name
  if found = word then return () else fun cs => .fail (bare false) cs

/-- A point and the digits behind it. -/
def fraction : Parser (List Char) := do
  let _ ← char '.'
  span1 Char.isDigit

/-- The exponent of a number. -/
def exponent : Parser Int := do
  let _ ← satisfy fun c => c == 'e' || c == 'E'
  let sign ← optional (satisfy fun c => c == '+' || c == '-')
  let ds ← span1 Char.isDigit
  return Number.signed (sign == some '-') (Number.exponentOf ds)

/-- A number without a sign. -/
def number : Parser Float := do
  let whole ← span1 Char.isDigit
  let fraction := (← optional fraction).getD []
  let exponent := (← optional exponent).getD 0
  return Number.ofNumeral whole fraction exponent

/-- The character that stands for itself or something else after a backslash. -/
def unescape (c : Char) : Char :=
  match c with
  | 'n' => '\n'
  | 't' => '\t'
  | 'r' => '\r'
  | '0' => '\x00'
  | c => c

/-- The rest of a text up to the closing quote; `content` is what has been read, last first. -/
def textAfter (quote : Char) : (content : List Char) → Parser String
  | _, [] => .fail ⟨true, none, ["closing quote"]⟩ []
  | content, c :: rest =>
    if c = quote then .ok (String.ofList content.reverse) rest
    else if c = '\\' then
      match rest with
      | [] => .fail (bare true) []
      | escaped :: rest => textAfter quote (unescape escaped :: content) rest
    else textAfter quote (c :: content) rest

/-- A text between single or double quotes. -/
def text : Parser String := do
  let quote ← satisfy fun c => c == '"' || c == '\''
  textAfter quote []

/-- The constant that a name stands for. -/
def constant? (word : String) : Option Literal :=
  if word = "true" then some (.bool true)
  else if word = "false" then some (.bool false)
  else if word = "null" then some .null
  else if word = "undefined" then some .undefined
  else none

/-! ## Primary expressions -/

/-- A sequence of elements, with an optional comma at the end. -/
def array (steps : Nat) (assignment : Parser Expr) : Parser Expr := do
  let _ ← char '['
  let items ← sepBy steps assignment (token ",")
  let _ ← optional (token ",")
  describe "']'" (commit (token "]"))
  return .array items

/-- The key of an entry: a text, a name or digits. -/
def entryKey : Parser String := do
  blank
  orElse text (orElse name (do return String.ofList (← span1 Char.isDigit)))

/-- A key and its value. -/
def entry (assignment : Parser Expr) : Parser (String × Expr) := do
  let key ← entryKey
  describe "':'" (commit (token ":"))
  let value ← commit assignment
  return (key, value)

/-- A mapping of entries, with an optional comma at the end. -/
def object (steps : Nat) (assignment : Parser Expr) : Parser Expr := do
  let _ ← char '\x7b'
  let entries ← sepBy steps (entry assignment) (token ",")
  let _ ← optional (token ",")
  describe "'\x7d'" (commit (token "\x7d"))
  return .object entries

/-- The parameters of a function with the arrow behind them. -/
def arrowParams (steps : Nat) : Parser (List String) := do
  let _ ← char '('
  let params ← sepBy steps (do blank; name) (token ",")
  token ")"
  token "=>"
  return params

/-- The body of a function with the given parameters. -/
def arrowBody (assignment : Parser Expr) (params : List String) : Parser Expr := do
  let body ← describe "arrow function body" (commit assignment)
  return .arrow params body

/-- A function with parameters in parentheses, or an expression in parentheses. -/
def parenthesized (steps : Nat) (assignment : Parser Expr) : Parser Expr := do
  match ← optional (arrowParams steps) with
  | some params => arrowBody assignment params
  | none =>
    let _ ← char '('
    let inner ← commit assignment
    describe "')'" (commit (token ")"))
    return inner

/-- A constant, a function with one parameter, or a name. -/
def word (assignment : Parser Expr) : Parser Expr := do
  let word ← name
  match constant? word with
  | some value => return .literal value
  | none =>
    if ← found (token "=>") then
      arrowBody assignment [word]
    else
      return .ident word

/-- An expression that is not put together by operators. -/
def primary (steps : Nat) (assignment : Parser Expr) : Parser Expr := do
  blank
  describe "expression" <|
    orElse (do return .literal (.number (← number))) <|
    orElse (do return .literal (.string (← text))) <|
    orElse (array steps assignment) <|
    orElse (object steps assignment) <|
    orElse (parenthesized steps assignment)
      (word assignment)

/-! ## Chains of member accesses and calls -/

/-- The rest of a key in brackets. -/
def computedKey (assignment : Parser Expr) : Parser (Key Expr) := do
  let key ← commit assignment
  describe "']'" (commit (token "]"))
  return .computed key

/-- The rest of the arguments of a call. -/
def callArgs (steps : Nat) (assignment : Parser Expr) : Parser (List Expr) := do
  let args ← sepBy steps assignment (token ",")
  describe "')'" (commit (token ")"))
  return args

/-- The next link of a chain, as what it makes of the expression in front of it. -/
def link (steps : Nat) (assignment : Parser Expr) : Parser (Option (Expr → Expr)) := do
  if ← found (token "?.") then
    if ← found (char '[') then
      let key ← computedKey assignment
      return some fun base => .member base key true
    else
      let property ← describe "property name" (commit name)
      return some fun base => .member base (.named property) true
  else if ← found (token ".") then
    let property ← describe "property name" (commit (do blank; name))
    return some fun base => .member base (.named property) false
  else if ← found (token "[") then
    let key ← computedKey assignment
    return some fun base => .member base key false
  else if ← found (token "(") then
    let args ← callArgs steps assignment
    return some fun callee => .call callee args
  else
    return none

/-- The links that follow an expression. -/
def links (steps : Nat) (assignment : Parser Expr) : (rounds : Nat) → Expr → Parser Expr
  | 0, e => pure e
  | rounds + 1, e => do
    match ← link steps assignment with
    | none => return e
    | some extend => links steps assignment rounds (← bounded (extend e))

/-- A primary expression with its links. -/
def chain (steps : Nat) (assignment : Parser Expr) : Parser Expr := do
  links steps assignment steps (← primary steps assignment)

/-! ## Operators -/

/-- A prefix operator; `!=` is none. -/
def unaryOp : Parser UnaryOp :=
  orElse (do token "!"; notNext (· == '='); return .not)
    (oneOf [("-", .neg), ("+", .plus)])

/-- An expression with its prefix operators. Only a member can be deleted. -/
def unaryBody (steps : Nat) (assignment unary : Parser Expr) : Parser Expr := do
  blank
  if ← found (keyword "typeof") then
    return .unary .typeof (← commit unary)
  else if ← found (keyword "delete") then
    let target ← commit unary
    if target.isMember then return .delete target else refuse
  else
    match ← optional unaryOp with
    | some op => return .unary op (← commit unary)
    | none => chain steps assignment

/-- Further operators and operands to the right of an expression. -/
def infixMore (operand : Parser Expr) (operator : Parser (Expr → Expr → Expr)) :
    (rounds : Nat) → Expr → Parser Expr
  | 0, e => pure e
  | rounds + 1, e => do
    match ← optional operator with
    | none => return e
    | some join =>
      let rhs ← commit operand
      infixMore operand operator rounds (← bounded (join e rhs))

/-- Operands with operators of one precedence between them, grouped to the left. -/
def infixChain (steps : Nat) (operand : Parser Expr) (operator : Parser (Expr → Expr → Expr)) :
    Parser Expr := do
  infixMore operand operator steps (← operand)

/-- The binary operators of a table. -/
def binaryOps (table : List (String × BinaryOp)) : Parser (Expr → Expr → Expr) := do
  return .binary (← oneOf table)

/-- One logical operator. -/
def logicalOp (text : String) (op : LogicalOp) : Parser (Expr → Expr → Expr) := do
  token text
  return .logical op

/-- Products. -/
def multiplicative (steps : Nat) (unary : Parser Expr) : Parser Expr :=
  infixChain steps unary (binaryOps [("*", .mul), ("/", .div), ("%", .rem)])

/-- Sums. -/
def additive (steps : Nat) (unary : Parser Expr) : Parser Expr :=
  infixChain steps (multiplicative steps unary) (binaryOps [("+", .add), ("-", .sub)])

/-- Comparisons of order. -/
def relational (steps : Nat) (unary : Parser Expr) : Parser Expr :=
  infixChain steps (additive steps unary)
    (binaryOps [("<=", .le), (">=", .ge), ("<", .lt), (">", .gt)])

/-- Comparisons of equality. -/
def equality (steps : Nat) (unary : Parser Expr) : Parser Expr :=
  infixChain steps (relational steps unary)
    (binaryOps [("===", .strictEq), ("!==", .strictNe), ("==", .eq), ("!=", .ne)])

/-- Conjunctions. -/
def conjunction (steps : Nat) (unary : Parser Expr) : Parser Expr :=
  infixChain steps (equality steps unary) (logicalOp "&&" .and)

/-- Disjunctions. -/
def disjunction (steps : Nat) (unary : Parser Expr) : Parser Expr :=
  infixChain steps (conjunction steps unary) (logicalOp "||" .or)

/-- The question mark of a conditional; `?.` is none. -/
def questionMark : Parser Unit := do
  token "?"
  notNext (· == '.')

/-- A disjunction, or a conditional with one as its test. -/
def conditional (steps : Nat) (assignment unary : Parser Expr) : Parser Expr := do
  let test ← disjunction steps unary
  if ← found questionMark then
    let consequent ← commit assignment
    describe "':'" (commit (token ":"))
    let alternate ← commit assignment
    return .conditional test consequent alternate
  else
    return test

/-- The sign of an assignment; `==` and `=>` are none. -/
def assignSign : Parser Unit := do
  token "="
  notNext fun c => c == '=' || c == '>'

/-- A conditional, or an assignment to one that can be assigned to. -/
def assignmentBody (steps : Nat) (assignment unary : Parser Expr) : Parser Expr := do
  let target ← conditional steps assignment unary
  if ← found assignSign then
    if target.isAssignable then
      return .assign target (← commit assignment)
    else
      refuse
  else
    return target

/-! ## The recursive rules -/

mutual

/-- An expression, with `frames` frames left to open. -/
def assignment (steps : Nat) : (frames : Nat) → List Char → Reply Expr
  | 0, cs => tooDeep cs
  | frames + 1, cs =>
    (do bounded (← assignmentBody steps (fun cs => assignment steps frames cs)
          (fun cs => unary steps frames cs)) : Parser Expr) cs

/-- An expression without infix operators, with `frames` frames left to open. -/
def unary (steps : Nat) : (frames : Nat) → List Char → Reply Expr
  | 0, cs => tooDeep cs
  | frames + 1, cs =>
    (do bounded (← unaryBody steps (fun cs => assignment steps frames cs)
          (fun cs => unary steps frames cs)) : Parser Expr) cs

end

/-- Statements with semicolons between them; `done` are those already read, last first. Statements
may be empty. -/
def statements (steps : Nat) : (rounds : Nat) → (done : List Expr) → Parser Program
  | 0, done => pure done.reverse
  | rounds + 1, done => do
    blank
    if ← atEnd then
      return done.reverse
    else if ← found (char ';') then
      statements steps rounds done
    else
      let statement ← describe "statement" (commit (assignment steps maxFrames))
      blank
      if ← atEnd then
        return (statement :: done).reverse
      else
        let _ ← describe "';'" (commit (char ';'))
        statements steps rounds (statement :: done)

/-- A program of at most `steps` characters. -/
def program (steps : Nat) : Parser Program :=
  statements steps steps []

/-! ## The next frame and the next round -/

theorem assignment_succ (steps frames : Nat) : assignment steps (frames + 1) =
    (assignmentBody steps (assignment steps frames) (unary steps frames) >>= bounded) := by
  funext cs
  rw [assignment]

theorem unary_succ (steps frames : Nat) : unary steps (frames + 1) =
    (unaryBody steps (assignment steps frames) (unary steps frames) >>= bounded) := by
  funext cs
  rw [unary]

/-- The next round of the loop over the statements. -/
theorem statements_succ (steps rounds : Nat) (done : List Expr) :
    statements steps (rounds + 1) done = (do
      blank
      if ← atEnd then
        return done.reverse
      else if ← found (char ';') then
        statements steps rounds done
      else
        let statement ← describe "statement" (commit (assignment steps maxFrames))
        blank
        if ← atEnd then
          return (statement :: done).reverse
        else
          let _ ← describe "';'" (commit (char ';'))
          statements steps rounds (statement :: done)) := by
  rfl

end Grammar

/-- A text is no program. -/
structure SyntaxError where
  /-- Where reading stopped, in bytes of UTF-8. -/
  offset : Nat
  /-- What the text is, if it is refused as such. -/
  label : Option String
  /-- What was expected, the innermost expectation first. -/
  expected : List String
  deriving DecidableEq

namespace SyntaxError

/-- The lines of the reason: what was refused, and what was expected. -/
def reasons (e : SyntaxError) : List String :=
  (e.label.map ("invalid " ++ ·)).toList ++
    if e.expected.isEmpty then [] else ["expected " ++ ", ".intercalate e.expected]

/-- The reason why the text is refused; it can be empty. -/
def reason (e : SyntaxError) : String :=
  "\n".intercalate e.reasons

/-- The text of the error. -/
def message (e : SyntaxError) : String :=
  if e.reasons.isEmpty then
    "parse error at offset " ++ toString e.offset
  else
    "parse error at offset " ++ toString e.offset ++ ": " ++ e.reason

end SyntaxError

/-- The number of bytes of the characters in UTF-8. -/
def utf8Length (cs : List Char) : Nat :=
  cs.foldl (fun bytes c => bytes + c.utf8Size) 0

/-- Reads a program. -/
def parse (source : String) : Except SyntaxError Program :=
  let cs := source.toList
  match Grammar.program cs.length cs with
  | .ok program _ => .ok program
  | .fail failure rest =>
    .error ⟨utf8Length cs - utf8Length rest, failure.label, failure.expected⟩

end FormLogic
