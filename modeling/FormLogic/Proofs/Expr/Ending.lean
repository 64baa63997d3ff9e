import FormLogic.Proofs.Expr.Readable

/-!
# `FormLogic.Proofs.Expr.Ending` — what follows an expression

What follows an expression is known from where its text was written: behind an operand there is a
space and an operator, or a closing sign, and neither lets a chain of member accesses go on. Behind
a whole expression there is a closing sign, and no operator is read.

## Contents
- `WordEnd`, `ChainEnd`, `Closed`: what can follow a word, an operand and a whole expression.
- `climb`, `disjunction_pass`, `disjunction_join`: the precedences of the infix operators as one
  loop.
- `assignment_ok`: an operand or an operation as a whole expression.
-/

namespace FormLogic

namespace Grammar

open FormLogic.Parser

variable {steps frames rounds : Nat} {cs rest : List Char} {e : Expr}

/-! ## What follows -/

/-- A word or a number ends here. -/
structure WordEnd (rest : List Char) : Prop where
  word : rest.head?.any isNameRest = false
  fraction : Misses fraction rest
  arrow : Misses (token "=>") rest

/-- A chain of member accesses and calls ends here. -/
structure ChainEnd (rest : List Char) : Prop extends WordEnd rest where
  optional : Misses (token "?.") rest
  point : Misses (token ".") rest
  bracket : Misses (token "[") rest
  paren : Misses (token "(") rest

/-- An expression ends here, with the text or with a closing sign. -/
inductive Closed : List Char → Prop where
  | finish : Closed []
  | sign {c : Char} (closing : c ∈ [')', ']', '\x7d', ',', ';']) (rest : List Char) :
      Closed (c :: rest)
  | colon (rest : List Char) : Closed (' ' :: ':' :: rest)

/-- A parser whose failure here can be computed. -/
def fails {α : Type} (p : Parser α) (cs : List Char) : Bool :=
  match p cs with
  | .ok _ _ => false
  | .fail failure _ => !failure.committed

theorem misses_of_fails {α : Type} {p : Parser α} (computed : fails p cs = true) : Misses p cs := by
  unfold fails at computed
  split at computed
  · cases computed
  · next failure rest reply => exact ⟨failure, rest, reply, by simpa using computed⟩

/-- Whether a chain can be seen to end here. -/
def endsChain (rest : List Char) : Bool :=
  !rest.head?.any isNameRest && fails fraction rest && fails (token "=>") rest &&
    fails (token "?.") rest && fails (token ".") rest && fails (token "[") rest &&
    fails (token "(") rest

theorem ChainEnd.of_computed (computed : endsChain rest = true) : ChainEnd rest := by
  simp only [endsChain, Bool.and_eq_true, Bool.not_eq_true'] at computed
  obtain ⟨⟨⟨⟨⟨⟨word, fraction⟩, arrow⟩, optional⟩, point⟩, bracket⟩, paren⟩ := computed
  exact ⟨⟨word, misses_of_fails fraction, misses_of_fails arrow⟩, misses_of_fails optional,
    misses_of_fails point, misses_of_fails bracket, misses_of_fails paren⟩

/-- What can be computed of each closing sign holds where an expression ends. -/
theorem Closed.computed (closed : Closed rest) (good : List Char → Bool) (finish : good [] = true)
    (signs : ∀ rest, ([')', ']', '\x7d', ',', ';'].all fun c => good (c :: rest)) = true)
    (colon : ∀ rest, good (' ' :: ':' :: rest) = true) : good rest = true := by
  cases closed with
  | finish => exact finish
  | colon rest => exact colon rest
  | sign closing rest => exact List.all_eq_true.mp (signs rest) _ closing

theorem Closed.chainEnd (closed : Closed rest) : ChainEnd rest :=
  .of_computed (closed.computed endsChain rfl (fun _ => rfl) fun _ => rfl)

/-- Nothing is read where an expression ends, if that can be computed of each closing sign. -/
theorem Closed.misses {α : Type} {p : Parser α} (closed : Closed rest)
    (finish : fails p [] = true)
    (signs : ∀ rest, ([')', ']', '\x7d', ',', ';'].all fun c => fails p (c :: rest)) = true)
    (colon : ∀ rest, fails p (' ' :: ':' :: rest) = true) : Misses p rest :=
  misses_of_fails (closed.computed (fails p) finish signs colon)

/-- The characters do not go on as parameters of a function. -/
structure NoParam (rest : List Char) : Prop where
  comma : Misses (token ",") rest
  close : Misses (token ")") rest

/-- An operand ends here, and an operator follows. -/
structure OperandEnd (rest : List Char) : Prop extends ChainEnd rest, NoParam rest

theorem OperandEnd.of_computed (chain : endsChain rest = true)
    (comma : fails (token ",") rest = true) (close : fails (token ")") rest = true) :
    OperandEnd rest :=
  ⟨.of_computed chain, misses_of_fails comma, misses_of_fails close⟩

theorem operandEnd_binary (op : BinaryOp) (rest : List Char) :
    OperandEnd (spaced op.symbol rest) := by
  cases op <;> exact .of_computed rfl rfl rfl

theorem operandEnd_logical (op : LogicalOp) (rest : List Char) :
    OperandEnd (spaced op.symbol rest) := by
  cases op <;> exact .of_computed rfl rfl rfl

/-! ## Operators -/

/-- The parsers of the infix operators, the tightest first. -/
def operators : List (Parser (Expr → Expr → Expr)) :=
  [binaryOps [("*", .mul), ("/", .div), ("%", .rem)],
    binaryOps [("+", .add), ("-", .sub)],
    binaryOps [("<=", .le), (">=", .ge), ("<", .lt), (">", .gt)],
    binaryOps [("===", .strictEq), ("!==", .strictNe), ("==", .eq), ("!=", .ne)],
    logicalOp "&&" .and, logicalOp "||" .or]

/-- Operands with operators of several precedences between them, the tightest first. -/
def climb (steps : Nat) (operand : Parser Expr) (ops : List (Parser (Expr → Expr → Expr))) :
    Parser Expr :=
  ops.foldl (infixChain steps) operand

/-- Where an operator is read, and where none is, the tightest first. -/
def Operator (join : Expr → Expr → Expr) (cs rest : List Char) : Prop :=
  ∃ low op high, operators = low ++ op :: high ∧ (low.all fun op => fails op cs) = true ∧
    op cs = .ok join rest

theorem operator_binary (op : BinaryOp) (rest : List Char) :
    Operator (.binary op) (spaced op.symbol rest) (' ' :: rest) := by
  cases op with
  | mul | div | rem => exact ⟨operators.take 0, _, operators.drop 1, rfl, rfl, rfl⟩
  | add | sub => exact ⟨operators.take 1, _, operators.drop 2, rfl, rfl, rfl⟩
  | lt | le | gt | ge => exact ⟨operators.take 2, _, operators.drop 3, rfl, rfl, rfl⟩
  | eq | ne | strictEq | strictNe => exact ⟨operators.take 3, _, operators.drop 4, rfl, rfl, rfl⟩

theorem operator_logical (op : LogicalOp) (rest : List Char) :
    Operator (.logical op) (spaced op.symbol rest) (' ' :: rest) := by
  cases op with
  | and => exact ⟨operators.take 4, _, operators.drop 5, rfl, rfl, rfl⟩
  | or => exact ⟨operators.take 5, _, operators.drop 6, rfl, rfl, rfl⟩

/-- No operator is read here. -/
def NoOperator (rest : List Char) : Prop :=
  ∀ op ∈ operators, Misses op rest

theorem NoOperator.of_fails (computed : (operators.all fun op => fails op rest) = true) :
    NoOperator rest :=
  fun op mem => misses_of_fails (List.all_eq_true.mp computed op mem)

theorem Closed.noOperator (closed : Closed rest) : NoOperator rest :=
  .of_fails (closed.computed (fun rest => operators.all fun op => fails op rest) rfl
    (fun _ => rfl) fun _ => rfl)

theorem infixMore_misses {operand : Parser Expr} {operator : Parser (Expr → Expr → Expr)}
    (misses : Misses operator rest) (e : Expr) :
    infixMore operand operator rounds e rest = .ok e rest := by
  cases rounds with
  | zero => rfl
  | succ rounds => exact bind_ok (optional_misses misses) _

/-- Without an operator the operand is the whole. -/
theorem climb_pass {operand : Parser Expr} {ops : List (Parser (Expr → Expr → Expr))}
    (read : operand cs = .ok e rest) (misses : ∀ op ∈ ops, Misses op rest) :
    climb steps operand ops cs = .ok e rest := by
  induction ops generalizing operand with
  | nil => exact read
  | cons op ops ih =>
    have first : infixChain steps operand op cs = .ok e rest :=
      (bind_ok read _).trans (infixMore_misses (misses op List.mem_cons_self) e)
    exact ih first fun op mem => misses op (List.mem_cons_of_mem _ mem)

theorem disjunction_eq_climb (steps : Nat) (unary : Parser Expr) :
    disjunction steps unary = climb steps unary operators :=
  rfl

theorem disjunction_pass {operand : Parser Expr} (read : operand cs = .ok e rest)
    (none : NoOperator rest) : disjunction steps operand cs = .ok e rest := by
  rw [disjunction_eq_climb]
  exact climb_pass read none

theorem bounded_ok (shallow : e.depth ≤ maxHeight) (cs : List Char) : bounded e cs = .ok e cs := by
  unfold bounded
  rw [if_neg (Nat.not_lt.mpr shallow)]
  rfl

/-- **Two operands with an operator between them.** Tighter operators are not read between them, and
no operator behind them. -/
theorem disjunction_join {operand : Parser Expr} {join : Expr → Expr → Expr} {lhs rhs : Expr}
    {cs between behind : List Char} (some : 0 < steps) (left : operand cs = .ok lhs between)
    (operator : Operator join between behind) (right : operand behind = .ok rhs rest)
    (none : NoOperator rest) (shallow : (join lhs rhs).depth ≤ maxHeight) :
    disjunction steps operand cs = .ok (join lhs rhs) rest := by
  obtain ⟨low, op, high, split, tighter, read⟩ := operator
  unfold NoOperator at none
  rw [split] at none
  -- tighter operators pass both operands on, this one joins them, looser ones pass the whole on
  have first : climb steps operand low cs = .ok lhs between :=
    climb_pass left fun op mem => misses_of_fails (List.all_eq_true.mp tighter op mem)
  have second : climb steps operand low behind = .ok rhs rest :=
    climb_pass right fun op mem => none op (List.mem_append_left _ mem)
  have joined : infixChain steps (climb steps operand low) op cs = .ok (join lhs rhs) rest := by
    obtain ⟨rounds, rfl⟩ := Nat.exists_eq_succ_of_ne_zero (Nat.pos_iff_ne_zero.mp some)
    unfold infixChain
    rw [bind_ok first, infixMore, bind_ok (optional_ok read)]
    dsimp only
    rw [bind_ok (commit_ok second), bind_ok (bounded_ok shallow rest)]
    exact infixMore_misses (none op (List.mem_append_right _ List.mem_cons_self)) _
  have whole : disjunction steps operand =
      climb steps (infixChain steps (climb steps operand low) op) high := by
    rw [disjunction_eq_climb, split]
    unfold climb
    rw [List.foldl_append, List.foldl_cons]
  rw [whole]
  exact climb_pass joined fun op mem =>
    none op (List.mem_append_right _ (List.mem_cons_of_mem _ mem))

/-! ## From operands to whole expressions -/

theorem assignment_of_body (body : assignmentBody steps (assignment steps frames)
    (unary steps frames) cs = .ok e rest) (shallow : e.depth ≤ maxHeight) :
    assignment steps (frames + 1) cs = .ok e rest := by
  rw [assignment_succ, bind_ok body]
  exact bounded_ok shallow rest

theorem unary_of_body (body : unaryBody steps (assignment steps frames) (unary steps frames) cs =
    .ok e rest) (shallow : e.depth ≤ maxHeight) : unary steps (frames + 1) cs = .ok e rest := by
  rw [unary_succ, bind_ok body]
  exact bounded_ok shallow rest

/-- An expression without an assignment at its top. -/
theorem assignment_ok (read : disjunction steps (unary steps frames) cs = .ok e rest)
    (closed : Closed rest) (shallow : e.depth ≤ maxHeight) :
    assignment steps (frames + 1) cs = .ok e rest := by
  have noQuestion : Misses questionMark rest :=
    closed.misses rfl (fun _ => rfl) fun _ => rfl
  have noSign : Misses assignSign rest := closed.misses rfl (fun _ => rfl) fun _ => rfl
  have test : conditional steps (assignment steps frames) (unary steps frames) cs = .ok e rest :=
    (bind_ok read _).trans (ifFound_misses noQuestion)
  exact assignment_of_body ((bind_ok test _).trans (ifFound_misses noSign)) shallow

end Grammar

end FormLogic
