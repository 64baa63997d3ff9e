import FormLogic.Text.Blank

/-!
# `FormLogic.Expr.Parser` — parsers that explain their failures

A parser takes characters from the front of a list and either succeeds with a value and the rest, or
fails. A failure says what was expected, the innermost expectation first, and comes with the rest at
which it arose. A recoverable failure lets a choice or a repetition go on from where it started; a
committed one ends the whole parse.

## Contents
- `Failure`, `Reply`, `Parser`: the types, with `Parser` a monad.
- `satisfy`, `span`, `literal`, `blank`, `token`, `notNext`, `atEnd`: characters and tokens.
- `commit`, `describe`, `optional`, `orElse`, `oneOf`: failures and choices.
- `sepBy`: repetition with a separator.
-/

namespace FormLogic

/-- Why a parser failed. -/
structure Failure where
  /-- Whether no other way to read the text may be tried. -/
  committed : Bool
  /-- What the text is, if it is something that is refused as such. -/
  label : Option String
  /-- What was expected, the innermost expectation first. -/
  expected : List String

/-- What a parser answers: a value and the rest, or a failure and the rest where it arose. -/
inductive Reply (α : Type) where
  | ok (value : α) (rest : List Char)
  | fail (failure : Failure) (rest : List Char)

/-- A parser of characters. -/
def Parser (α : Type) :=
  List Char → Reply α

namespace Parser

variable {α β : Type}

instance : Monad Parser where
  pure a := fun cs => .ok a cs
  bind p f := fun cs =>
    match p cs with
    | .ok a rest => f a rest
    | .fail failure rest => .fail failure rest

/-- A failure without any expectation. -/
def bare (committed : Bool) : Failure :=
  ⟨committed, none, []⟩

/-! ## Characters and tokens -/

/-- One character with the given property. -/
def satisfy (p : Char → Bool) : Parser Char
  | [] => .fail (bare false) []
  | c :: rest => if p c then .ok c rest else .fail (bare false) (c :: rest)

/-- The given character. -/
def char (c : Char) : Parser Char :=
  satisfy (· == c)

/-- As many characters with the given property as there are. -/
def span (p : Char → Bool) : Parser (List Char) :=
  fun cs => .ok (cs.takeWhile p) (cs.dropWhile p)

/-- As many characters with the given property as there are, at least one. -/
def span1 (p : Char → Bool) : Parser (List Char) :=
  fun cs =>
    match cs.takeWhile p with
    | [] => .fail (bare false) cs
    | found => .ok found (cs.dropWhile p)

/-- What follows the beginning `front`, if the list has it. -/
def afterFront? : (front cs : List Char) → Option (List Char)
  | [], cs => some cs
  | _ :: _, [] => none
  | c :: front, d :: cs => if c = d then afterFront? front cs else none

/-- The given characters. -/
def literal (text : String) : Parser Unit :=
  fun cs =>
    match afterFront? text.toList cs with
    | some rest => .ok () rest
    | none => .fail (bare false) cs

/-- White space, possibly none. -/
def blank : Parser Unit :=
  fun cs => .ok () (cs.dropWhile Text.isBlank)

/-- The given characters after white space. -/
def token (text : String) : Parser Unit := do
  blank
  literal text

/-- Succeeds, taking nothing, unless a character with the given property follows. -/
def notNext (p : Char → Bool) : Parser Unit
  | [] => .ok () []
  | c :: rest => if p c then .fail (bare false) (c :: rest) else .ok () (c :: rest)

/-- Whether the text ends here. -/
def atEnd : Parser Bool :=
  fun cs => .ok cs.isEmpty cs

/-! ## Failures and choices -/

/-- Makes the failures of a parser final. -/
def commit (p : Parser α) : Parser α :=
  fun cs =>
    match p cs with
    | .ok a rest => .ok a rest
    | .fail failure rest => .fail { failure with committed := true } rest

/-- Adds to the failures of a parser what it reads. -/
def describe (what : String) (p : Parser α) : Parser α :=
  fun cs =>
    match p cs with
    | .ok a rest => .ok a rest
    | .fail failure rest => .fail { failure with expected := failure.expected ++ [what] } rest

/-- Fails for good. -/
def refuse : Parser α :=
  fun cs => .fail (bare true) cs

/-- What the parser reads, or nothing where it fails recoverably. -/
def optional (p : Parser α) : Parser (Option α) :=
  fun cs =>
    match p cs with
    | .ok a rest => .ok (some a) rest
    | .fail failure rest => if failure.committed then .fail failure rest else .ok none cs

/-- Whether the parser reads something here; where it fails recoverably nothing is taken. -/
def found (p : Parser α) : Parser Bool := do
  return (← optional p).isSome

/-- The second parser where the first one fails recoverably. -/
def orElse (p q : Parser α) : Parser α :=
  fun cs =>
    match p cs with
    | .ok a rest => .ok a rest
    | .fail failure rest => if failure.committed then .fail failure rest else q cs

/-- The meaning of the first token of the table that is read. -/
def oneOf : List (String × α) → Parser α
  | [] => fun cs => .fail (bare false) cs
  | (text, meaning) :: table =>
    orElse (do token text; return meaning) (oneOf table)

/-! ## Repetition -/

/-- Further elements, each after a separator; `steps` bounds their number. A separator that no
element follows is not taken. -/
def sepByMore (p : Parser α) (separator : Parser β) : (steps : Nat) → List α → Parser (List α)
  | 0, found => pure found.reverse
  | steps + 1, found => do
    match ← optional (do let _ ← separator; p) with
    | none => return found.reverse
    | some a => sepByMore p separator steps (a :: found)

/-- Elements with separators between them, possibly none. Every element after the first takes at
least its separator, so the number of characters bounds their number. -/
def sepBy (steps : Nat) (p : Parser α) (separator : Parser β) : Parser (List α) := do
  match ← optional p with
  | none => return []
  | some a => sepByMore p separator steps [a]

end Parser

end FormLogic
