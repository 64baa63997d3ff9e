import FormLogic.Proofs.Expr.Precedence
import FormLogic.Proofs.Expr.RoundTrip
import Mathlib.Data.List.DropRight

/-!
# `FormLogic.Proofs.Expr.Grouping` — variables with infix operators between them

The grammar has one loop for each precedence, with the loops of the tighter operators inside. On a
text of variables and infix operators these loops build the tree whose root is the last operator of
lowest precedence, unless it is too high: then the parse ends with the first part of it that is.

## Contents
- `Formula`: variables with infix operators between them and white space anywhere.
- `Boundary`: what can follow the operators of the tightest precedences.
- `Yields`, `yields_more`, `yields_climb`: one loop, and all of them by induction.
- `parse_formula`: the program of a formula.
-/

namespace FormLogic

/-- White space, possibly none. -/
structure Blanks where
  chars : List Char
  blank : ∀ c ∈ chars, Text.isBlank c = true

/-- A name that stands for a variable. -/
structure Variable where
  name : String
  named : Grammar.isName name = true
  free : name ∉ Grammar.keywords

/-- An infix operator with its right operand. -/
structure InfixOperation where
  before : Blanks
  op : Infix
  between : Blanks
  operand : Variable

/-- Variables with infix operators between them. -/
structure Formula where
  lead : Blanks
  first : Variable
  operations : List InfixOperation
  trail : Blanks

/-- The expression that the variable is. -/
def Variable.expr (x : Variable) : Expr :=
  .ident x.name

/-- The operation as it is written, with `rest` behind it. -/
def InfixOperation.write (o : InfixOperation) (rest : List Char) : List Char :=
  o.before.chars ++ (o.op.symbol.toList ++ (o.between.chars ++ (o.operand.name.toList ++ rest)))

/-- The operator with the expression behind it. -/
def InfixOperation.item (o : InfixOperation) : Infix × Expr :=
  (o.op, o.operand.expr)

/-- The operations as they are written, with `rest` behind them. -/
def writeAll (operations : List InfixOperation) (rest : List Char) : List Char :=
  operations.foldr InfixOperation.write rest

/-- The text of the formula. -/
def Formula.text (f : Formula) : String :=
  String.ofList
    (f.lead.chars ++ (f.first.name.toList ++ writeAll f.operations f.trail.chars))

/-- The tree of the formula. -/
def Formula.tree (f : Formula) : Expr :=
  grouped f.first.expr (f.operations.map InfixOperation.item)

namespace Grammar

open FormLogic.Parser

variable {steps rounds level : Nat} {cs rest : List Char} {e : Expr} {o : InfixOperation} {x : Variable}
  {done more operations : List InfixOperation} {reader : Parser (Expr → Expr → Expr)}
  {operand : Parser Expr}

/-! ## White space -/

theorem isStart_of_isNameRest {c : Char} (part : isNameRest c = true) : Expr.isStart c = true := by
  unfold isNameRest Char.isAlphanum at part
  unfold Expr.isStart isNameStart
  simp only [Bool.or_eq_true] at part ⊢
  tauto

theorem dropBlank_blanks (blanks : Blanks) (solid : rest.head?.any Text.isBlank = false) :
    (blanks.chars ++ rest).dropWhile Text.isBlank = rest :=
  dropWhile_append blanks.blank solid

theorem head_variable (x : Variable) (rest : List Char) :
    ∃ c cs, x.name.toList ++ rest = c :: cs ∧ isNameStart c = true := by
  obtain ⟨c, cs, shape, first, -⟩ := isName_cons x.named
  exact ⟨c, cs ++ rest, by rw [shape, List.cons_append], first⟩

theorem isBlank_of_isNameStart {c : Char} (first : isNameStart c = true) :
    Text.isBlank c = false :=
  Expr.isBlank_of_isStart (by simp [Expr.isStart, first])

theorem variable_solid (x : Variable) (rest : List Char) :
    (x.name.toList ++ rest).head?.any Text.isBlank = false := by
  obtain ⟨c, cs, shape, first⟩ := head_variable x rest
  rw [shape]
  exact isBlank_of_isNameStart first

theorem symbol_solid (op : Infix) (rest : List Char) :
    (op.symbol.toList ++ rest).head?.any Text.isBlank = false := by
  cases op with
  | binary op => cases op <;> rfl
  | logical op => cases op <;> rfl

/-- White space in front of what a parser reads makes no difference. -/
def SkipsBlank {α : Type} (p : Parser α) : Prop :=
  ∀ cs, (∀ a rest, p (cs.dropWhile Text.isBlank) = .ok a rest → p cs = .ok a rest) ∧
    (Misses p (cs.dropWhile Text.isBlank) → Misses p cs)

theorem skipsBlank_token (text : String) : SkipsBlank (token text) := by
  intro cs
  have same : token text (cs.dropWhile Text.isBlank) = token text cs := by
    show literal text _ = literal text _
    rw [List.dropWhile_idempotent]
  unfold Misses
  rw [same]
  exact ⟨fun _ _ => id, id⟩

theorem SkipsBlank.map {α β : Type} {p : Parser α} (skips : SkipsBlank p) (g : α → β) :
    SkipsBlank (p >>= fun a => pure (g a)) := by
  intro cs
  obtain ⟨value, miss⟩ := skips cs
  refine ⟨fun b rest read => ?_, fun misses => ?_⟩
  · obtain ⟨a, between, reply, ends⟩ := bind_eq_ok read
    exact (bind_ok (value a between reply) _).trans ends
  · rcases misses.of_bind with misses | ⟨a, between, reply, misses⟩
    · exact (miss misses).bind _
    · exact .bind_ok (value a between reply) misses

theorem skipsBlank_oneOf {α : Type} (table : List (String × α)) : SkipsBlank (oneOf table) := by
  induction table with
  | nil =>
    intro cs
    refine ⟨fun a rest read => ?_, fun _ => ⟨_, _, rfl, rfl⟩⟩
    cases read
  | cons entry table ih =>
    intro cs
    obtain ⟨value, miss⟩ := (skipsBlank_token entry.1).map (fun _ => entry.2) cs
    obtain ⟨value', miss'⟩ := ih cs
    refine ⟨fun a rest read => ?_, fun misses => ?_⟩
    · rcases orElse_eq_ok read with read | ⟨misses, read⟩
      · exact orElse_ok _ (value a rest read)
      · exact (orElse_misses (miss misses) _).trans (value' a rest read)
    · obtain ⟨misses, misses'⟩ := misses.of_orElse
      exact (miss misses).orElse (miss' misses')

theorem skipsBlank_operators : ∀ p ∈ operators, SkipsBlank p := by
  intro p mem
  have tables (table : List (String × BinaryOp)) : SkipsBlank (binaryOps table) :=
    (skipsBlank_oneOf table).map _
  have single (text : String) (op : LogicalOp) : SkipsBlank (logicalOp text op) :=
    (skipsBlank_token text).map _
  simp only [operators, List.mem_cons, List.not_mem_nil, or_false] at mem
  rcases mem with rfl | rfl | rfl | rfl | rfl | rfl
  · exact tables _
  · exact tables _
  · exact tables _
  · exact tables _
  · exact single _ _
  · exact single _ _

/-! ## Operators -/

/-- The place of the operator's parser among those of all precedences, the tightest first. -/
def rank (op : Infix) : Nat :=
  5 - op.precedence

theorem precedence_le_of_rank {op other : Infix} (less : rank op ≤ rank other) :
    other.precedence ≤ op.precedence := by
  have bound (op : Infix) : op.precedence ≤ 5 := by
    cases op with
    | binary op => cases op <;> decide
    | logical op => cases op <;> decide
  have low := bound op
  have low' := bound other
  unfold rank at less
  omega

theorem precedence_lt_of_rank {op other : Infix} (less : rank op < rank other) :
    other.precedence < op.precedence := by
  unfold rank at less
  omega

theorem rank_lt (op : Infix) : rank op < operators.length := by
  show 5 - op.precedence < 6
  omega

/-- An operator of a table is read if none before it is. -/
theorem binary_ok {op : BinaryOp} {sign : String} (before : List (String × BinaryOp))
    {after : List (String × BinaryOp)} (misses : ∀ other ∈ before, Misses (token other.1) cs)
    (read : token sign cs = .ok () rest) :
    binaryOps (before ++ (sign, op) :: after) cs = .ok (.binary op) rest := by
  have found : oneOf (before ++ (sign, op) :: after) cs = .ok op rest := by
    induction before with
    | nil => exact orElse_ok _ (bind_ok read _)
    | cons other before ih =>
      have first := (misses other List.mem_cons_self).bind fun _ => pure other.2
      exact (orElse_misses first _).trans (ih fun o mem => misses o (List.mem_cons_of_mem _ mem))
  exact bind_ok found _

/-- An operator is read by the parser of its precedence. What follows it is no `=`. -/
theorem read_operator (op : Infix) {c : Char} (other : c ≠ '=') (cs : List Char) :
    ∃ reader, operators[rank op]? = some reader ∧
      reader (op.symbol.toList ++ c :: cs) = .ok op.join (c :: cs) := by
  -- a longer token of the same beginning goes on with the sign that does not follow
  have longer : afterFront? ['='] (c :: cs) = none := if_neg other.symm
  cases op with
  | logical op => cases op <;> exact ⟨_, rfl, rfl⟩
  | binary op =>
    cases op with
    | add | sub | mul | div | rem | le | ge | strictEq | strictNe => exact ⟨_, rfl, rfl⟩
    | lt =>
      have misses : Misses (token "<=") ('<' :: c :: cs) := token_misses longer
      have misses' : Misses (token ">=") ('<' :: c :: cs) := token_misses rfl
      refine ⟨_, rfl, binary_ok [("<=", .le), (">=", .ge)] ?_ rfl⟩
      simp [Infix.symbol, BinaryOp.symbol, misses, misses']
    | gt =>
      have misses : Misses (token "<=") ('>' :: c :: cs) := token_misses rfl
      have misses' : Misses (token ">=") ('>' :: c :: cs) := token_misses longer
      have misses'' : Misses (token "<") ('>' :: c :: cs) := token_misses rfl
      refine ⟨_, rfl, binary_ok [("<=", .le), (">=", .ge), ("<", .lt)] ?_ rfl⟩
      simp [Infix.symbol, BinaryOp.symbol, misses, misses', misses'']
    | eq =>
      have misses : Misses (token "===") ('=' :: '=' :: c :: cs) := token_misses longer
      have misses' : Misses (token "!==") ('=' :: '=' :: c :: cs) := token_misses rfl
      refine ⟨_, rfl, binary_ok [("===", .strictEq), ("!==", .strictNe)] ?_ rfl⟩
      simp [Infix.symbol, BinaryOp.symbol, misses, misses']
    | ne =>
      have misses : Misses (token "===") ('!' :: '=' :: c :: cs) := token_misses rfl
      have misses' : Misses (token "!==") ('!' :: '=' :: c :: cs) := token_misses longer
      have misses'' : Misses (token "==") ('!' :: '=' :: c :: cs) := token_misses rfl
      refine ⟨_, rfl, binary_ok [("===", .strictEq), ("!==", .strictNe), ("==", .eq)] ?_ rfl⟩
      simp [Infix.symbol, BinaryOp.symbol, misses, misses', misses'']

/-- An operator is not read by the parsers of tighter ones. -/
theorem misses_operator (op : Infix) (mem : reader ∈ operators.take (rank op)) (cs : List Char) :
    Misses reader (op.symbol.toList ++ cs) := by
  have tighter :
      ((operators.take (rank op)).all fun p => fails p (op.symbol.toList ++ cs)) = true := by
    cases op with
    | binary op => cases op <;> rfl
    | logical op => cases op <;> rfl
  exact misses_of_fails (List.all_eq_true.mp tighter reader mem)

/-! ## What follows -/

/-- What can follow the operators of the tightest `level` precedences. -/
structure Boundary (level : Nat) (rest : List Char) : Prop extends ChainEnd rest where
  misses : ∀ reader ∈ operators.take level, Misses reader rest

theorem Boundary.mono {less : Nat} (boundary : Boundary level rest) (lower : less ≤ level) :
    Boundary less rest :=
  ⟨boundary.toChainEnd, fun reader mem =>
    boundary.misses reader (List.take_subset_take_left operators lower mem)⟩

/-- White space changes nothing where a chain ends. -/
theorem chainEnd_blanks (blanks : Blanks) (solid : rest.head?.any Text.isBlank = false)
    (chain : ChainEnd rest) : ChainEnd (blanks.chars ++ rest) := by
  have passed := dropBlank_blanks blanks solid
  have sign {text : String} (misses : Misses (token text) rest) :
      Misses (token text) (blanks.chars ++ rest) := by
    refine (skipsBlank_token text _).2 ?_
    rw [passed]
    exact misses
  obtain ⟨chars, blank⟩ := blanks
  cases chars with
  | nil => exact chain
  | cons c chars =>
    have space := blank c List.mem_cons_self
    have word : isNameRest c = false := by
      refine Bool.eq_false_iff.mpr fun part => ?_
      rw [Expr.isBlank_of_isStart (isStart_of_isNameRest part)] at space
      cases space
    have noPoint : c ≠ '.' := by
      rintro rfl
      exact absurd space (by decide)
    exact ⟨⟨word, (char_misses noPoint _).bind _, sign chain.arrow⟩, sign chain.optional,
      sign chain.point, sign chain.bracket, sign chain.paren⟩

/-- Operators that do not bind tighter than these are not read by their parsers. -/
theorem boundary_operation (looser : level ≤ rank o.op) (rest : List Char) :
    Boundary level (o.write rest) := by
  unfold InfixOperation.write
  generalize o.between.chars ++ (o.operand.name.toList ++ rest) = behind
  have solid := symbol_solid o.op behind
  have chain : ChainEnd (o.op.symbol.toList ++ behind) := by
    refine .of_computed ?_
    cases o.op with
    | binary op => cases op <;> rfl
    | logical op => cases op <;> rfl
  refine ⟨chainEnd_blanks o.before solid chain, fun reader mem => ?_⟩
  have mem' := List.take_subset_take_left operators looser mem
  refine (skipsBlank_operators reader (List.mem_of_mem_take mem) _).2 ?_
  rw [dropBlank_blanks o.before solid]
  exact misses_operator o.op mem' behind

/-- White space at the end of a text is followed by nothing. -/
theorem boundary_trail (blanks : Blanks) (level : Nat) : Boundary level blanks.chars := by
  have none : (operators.all fun p => fails p []) = true := rfl
  have passed : blanks.chars.dropWhile Text.isBlank = [] :=
    List.dropWhile_eq_nil_iff.mpr blanks.blank
  have chain := chainEnd_blanks blanks rfl Closed.finish.chainEnd
  rw [List.append_nil] at chain
  refine ⟨chain, fun reader mem => ?_⟩
  have mem' := List.mem_of_mem_take mem
  refine (skipsBlank_operators reader mem' _).2 ?_
  rw [passed]
  exact misses_of_fails (List.all_eq_true.mp none reader mem')

/-! ## One loop for each precedence -/

/-- The answer to an expression: the expression if it is not too high, and the end of the parse if it
is. -/
def Yields (reply : Reply Expr) (e : Expr) (rest : List Char) : Prop :=
  (e.height ≤ maxHeight ∧ reply = .ok e rest) ∨
    (maxHeight < e.height ∧ ∃ behind, reply = .fail ⟨true, some "nesting depth", []⟩ behind)

theorem bind_fail {α β : Type} {p : Parser α} {failure : Failure} (fails : p cs = .fail failure rest)
    (f : α → Parser β) : (p >>= f) cs = .fail failure rest := by
  simp only [Bind.bind, fails]

/-- A part that is too high makes the whole too high. -/
theorem Yields.bind {p : Parser Expr} {f : Expr → Parser Expr} {part : Expr} {between : List Char}
    (first : Yields (p cs) part between) (below : part.height ≤ e.height)
    (next : part.height ≤ maxHeight → Yields (f part between) e rest) :
    Yields ((p >>= f) cs) e rest := by
  rcases first with ⟨shallow, read⟩ | ⟨deep, behind, fails⟩
  · rw [bind_ok read]
    exact next shallow
  · exact Or.inr ⟨Nat.lt_of_lt_of_le deep below, behind, bind_fail fails f⟩

theorem Yields.commit {p : Parser Expr} (yields : Yields (p cs) e rest) :
    Yields (Parser.commit p cs) e rest := by
  rcases yields with ⟨shallow, read⟩ | ⟨deep, behind, fails⟩
  · exact Or.inl ⟨shallow, commit_ok read⟩
  · refine Or.inr ⟨deep, behind, ?_⟩
    unfold Parser.commit
    rw [fails]

theorem yields_bounded (e : Expr) (cs : List Char) : Yields (bounded e cs) e cs := by
  unfold bounded
  rw [Expr.depth_eq_height]
  by_cases deep : maxHeight < e.height
  · rw [if_pos deep]
    exact Or.inr ⟨deep, cs, rfl⟩
  · rw [if_neg deep]
    exact Or.inl ⟨Nat.le_of_not_lt deep, rfl⟩

/-- The tree of the variable with the operations behind it. -/
def treeOf (x : Variable) (operations : List InfixOperation) : Expr :=
  grouped x.expr (operations.map InfixOperation.item)

/-- The loops for the tightest `level` precedences. -/
def tightest (steps : Nat) (operand : Parser Expr) (level : Nat) : Parser Expr :=
  climb steps operand (operators.take level)

theorem tightest_succ (steps : Nat) (operand : Parser Expr)
    (found : operators[level]? = some reader) :
    tightest steps operand (level + 1) =
      infixChain steps (tightest steps operand level) reader := by
  unfold tightest climb
  rw [List.take_add_one, found, List.foldl_append]
  rfl

/-- The parser reads what stands between operators that are looser than the tightest `level`
precedences. -/
def YieldsTree (steps level : Nat) (p : Parser Expr) : Prop :=
  ∀ (x : Variable) (operations : List InfixOperation) {cs rest : List Char},
    cs.dropWhile Text.isBlank = x.name.toList ++ writeAll operations rest →
    (∀ o ∈ operations, rank o.op < level) → Boundary level rest → operations.length ≤ steps →
    Yields (p cs) (treeOf x operations) rest

theorem writeAll_append (front back : List InfixOperation) (rest : List Char) :
    writeAll (front ++ back) rest = writeAll front (writeAll back rest) :=
  List.foldr_append

theorem boundary_writeAll (boundary : Boundary level rest)
    (looser : ∀ o ∈ more.head?, level ≤ rank o.op) : Boundary level (writeAll more rest) := by
  cases more with
  | nil => exact boundary
  | cons o more => exact boundary_operation (looser o rfl) _

/-- Operations are parted in front of the first one that is not tighter. -/
theorem exists_parted (bound : ∀ o ∈ operations, rank o.op ≤ level) :
    ∃ front back, operations = front ++ back ∧ (∀ o ∈ front, rank o.op < level) ∧
      ∀ o ∈ back.head?, rank o.op = level := by
  refine ⟨operations.takeWhile fun o => decide (rank o.op < level),
    operations.dropWhile fun o => decide (rank o.op < level), ?_, ?_, ?_⟩
  · exact List.takeWhile_append_dropWhile.symm
  · intro o mem
    have taken := List.mem_takeWhile_imp mem
    exact of_decide_eq_true taken
  · intro o head
    have mem := (List.dropWhile_suffix _).mem (List.mem_of_mem_head? head)
    have stopped := List.head?_dropWhile_not (fun o => decide (rank o.op < level)) operations
    rw [head] at stopped
    have looser : ¬ rank o.op < level := of_decide_eq_false stopped
    have tight := bound o mem
    omega

/-- A tree with one more operation of this precedence has the tree so far on its left. -/
theorem treeOf_append (x : Variable) (before : ∀ o' ∈ done, rank o'.op ≤ rank o.op)
    (after : ∀ o' ∈ more, rank o'.op < rank o.op) :
    treeOf x (done ++ o :: more) = o.op.join (treeOf x done) (treeOf o.operand more) := by
  unfold treeOf
  rw [List.map_append, List.map_cons]
  exact grouped_append _ _
    (List.forall_mem_map.mpr fun o' mem => precedence_le_of_rank (before o' mem))
    (List.forall_mem_map.mpr fun o' mem => precedence_lt_of_rank (after o' mem))

theorem height_treeOf_le (x : Variable) (done more : List InfixOperation) :
    (treeOf x done).height ≤ (treeOf x (done ++ more)).height := by
  unfold treeOf
  rw [List.map_append]
  exact height_grouped_le _ _ _

/-- An operation is read up to its operand. -/
theorem read_operation (found : operators[rank o.op]? = some reader) (rest : List Char) :
    reader (o.write rest) = .ok o.op.join
      (o.between.chars ++ (o.operand.name.toList ++ rest)) := by
  unfold InfixOperation.write
  obtain ⟨c, cs, shape, other⟩ : ∃ c cs,
      o.between.chars ++ (o.operand.name.toList ++ rest) = c :: cs ∧ c ≠ '=' := by
    cases blanks : o.between.chars with
    | nil =>
      obtain ⟨c, cs, shape, first⟩ := head_variable o.operand rest
      refine ⟨c, cs, shape, ?_⟩
      rintro rfl
      exact absurd first (by decide)
    | cons c chars =>
      refine ⟨c, _, rfl, ?_⟩
      rintro rfl
      have space := o.between.blank '=' (by rw [blanks]; exact List.mem_cons_self)
      exact absurd space (by decide)
  obtain ⟨reader', found', read⟩ := read_operator o.op other cs
  cases found.symm.trans found'
  refine (skipsBlank_operators reader (List.mem_of_getElem? found) _).1 _ _ ?_
  rw [dropBlank_blanks o.before (symbol_solid o.op _), shape]
  exact read

/-- **One loop.** The tree so far grows by the operations of its precedence, each with the tighter
operations behind it as its right operand. -/
theorem yields_more {inner : Parser Expr} (tight : YieldsTree steps level inner)
    (found : operators[level]? = some reader) (enough : more.length ≤ rounds)
    (few : more.length ≤ steps) (shallow : (treeOf x done).height ≤ maxHeight)
    (doneBound : ∀ o ∈ done, rank o.op ≤ level) (bound : ∀ o ∈ more, rank o.op ≤ level)
    (head : ∀ o ∈ more.head?, rank o.op = level) (boundary : Boundary (level + 1) rest) :
    Yields (infixMore inner reader rounds (treeOf x done) (writeAll more rest))
      (treeOf x (done ++ more)) rest := by
  induction rounds generalizing done more with
  | zero =>
    obtain rfl := List.length_eq_zero_iff.mp (Nat.le_zero.mp enough)
    rw [List.append_nil]
    exact Or.inl ⟨shallow, rfl⟩
  | succ rounds ih =>
    cases more with
    | nil =>
      have mem : reader ∈ operators.take (level + 1) := by
        rw [List.take_add_one, found]
        exact List.mem_append_right _ List.mem_cons_self
      rw [List.append_nil]
      exact Or.inl ⟨shallow, infixMore_misses (boundary.misses reader mem) _⟩
    | cons o others =>
      have same : rank o.op = level := head o rfl
      subst same
      obtain ⟨front, back, rfl, tighter, next⟩ :=
        exists_parted fun o' mem => bound o' (List.mem_cons_of_mem _ mem)
      rw [List.length_cons, List.length_append] at enough few
      have joined := treeOf_append x doneBound tighter
      have lower := height_treeOf_le x (done ++ o :: front) back
      have side : (treeOf o.operand front).height ≤ (treeOf x (done ++ o :: front)).height := by
        rw [joined, Infix.height_join]
        omega
      have whole : done ++ o :: (front ++ back) = (done ++ o :: front) ++ back := by
        rw [List.append_assoc, List.cons_append]
      have right := tight o.operand front
        (dropBlank_blanks o.between (variable_solid o.operand _)) tighter
        (boundary_writeAll (boundary.mono (Nat.le_succ _)) fun o' mem => (next o' mem).ge)
        (Nat.le_trans (Nat.le_add_right _ _) (Nat.le_of_succ_le few))
      have sign := optional_ok (read_operation found (writeAll front (writeAll back rest)))
      show Yields (infixMore inner reader (rounds + 1) _ (o.write (writeAll (front ++ back) rest)))
        _ rest
      rw [writeAll_append, infixMore, bind_ok sign, whole]
      -- the operand, the tree with it, and the operations behind it
      refine right.commit.bind (Nat.le_trans side lower) fun _ => ?_
      rw [← joined]
      refine (yields_bounded _ _).bind lower fun shallow' => ?_
      refine ih (by omega) (by omega) shallow' ?_ ?_ next
      · intro o' mem
        rw [List.mem_append, List.mem_cons] at mem
        rcases mem with mem | rfl | mem
        · exact doneBound o' mem
        · exact Nat.le_refl _
        · exact Nat.le_of_lt (tighter o' mem)
      · intro o' mem
        exact bound o' (List.mem_cons_of_mem _ (List.mem_append_right _ mem))

/-- **All loops**, one for each precedence, by induction. -/
theorem yieldsTree_tightest (reads : ∀ x : Variable, ReadsOperand operand x.expr)
    (within : level ≤ operators.length) : YieldsTree steps level (tightest steps operand level) := by
  induction level with
  | zero =>
    intro x operations cs rest ahead tighter boundary _
    cases operations with
    | cons o operations => exact absurd (tighter o List.mem_cons_self) (Nat.not_lt_zero _)
    | nil =>
      refine Or.inl ?_
      unfold treeOf
      rw [List.map_nil, grouped_nil]
      exact ⟨Nat.one_le_iff_ne_zero.mpr (by decide), reads x cs rest ahead boundary.toChainEnd⟩
  | succ level ih =>
    intro x operations cs rest ahead tighter boundary few
    have found : operators[level]? = some operators[level] := List.getElem?_eq_getElem within
    have bound (o : InfixOperation) (mem : o ∈ operations) : rank o.op ≤ level :=
      Nat.le_of_lt_succ (tighter o mem)
    obtain ⟨front, back, rfl, tight, next⟩ := exists_parted bound
    rw [List.length_append] at few
    rw [writeAll_append] at ahead
    have inner : YieldsTree steps level (tightest steps operand level) := ih (Nat.le_of_succ_le within)
    have first := inner x front ahead tight
      (boundary_writeAll (boundary.mono (Nat.le_succ _)) fun o mem => (next o mem).ge) (by omega)
    rw [tightest_succ steps operand found]
    refine first.bind (height_treeOf_le x front back) fun shallow => ?_
    exact yields_more inner found (by omega) (by omega) shallow
      (fun o mem => Nat.le_of_lt (tight o mem))
      (fun o mem => bound o (List.mem_append_right _ mem)) next boundary

/-! ## Programs -/

theorem reads_variable (x : Variable) (frames : Nat) :
    ReadsOperand (unary steps (frames + 1)) x.expr := by
  have chain : ReadsChain steps (assignment steps frames) x.expr :=
    (readsPrimary_ident x.named x.free).readsChain rfl
  refine chain.readsOperand (.ident x.named x.free) rfl (Nat.zero_le _) ?_
  rw [Expr.depth_eq_height]
  exact Nat.one_le_iff_ne_zero.mpr (by decide)

/-- Behind the last operand there is neither a conditional nor an assignment. -/
theorem yields_assignment (f : Formula) (few : f.operations.length ≤ steps) :
    Yields (assignment steps maxFrames
      (f.first.name.toList ++ writeAll f.operations f.trail.chars)) f.tree f.trail.chars := by
  have passed : f.trail.chars.dropWhile Text.isBlank = [] :=
    List.dropWhile_eq_nil_iff.mpr f.trail.blank
  have sign (text : String) (nonempty : text.toList ≠ []) : Misses (token text) f.trail.chars := by
    refine token_misses ?_
    rw [passed]
    cases shape : text.toList with
    | nil => exact absurd shape nonempty
    | cons c cs => rfl
  have all : YieldsTree steps 6 (disjunction steps (unary steps 127)) :=
    yieldsTree_tightest (fun x => reads_variable x 126) (Nat.le_refl _)
  have test := all f.first f.operations (dropWhile_eq_self (variable_solid f.first _))
    (fun o _ => rank_lt o.op) (boundary_trail f.trail 6) few
  have whole : Yields (conditional steps (assignment steps 127) (unary steps 127)
      (f.first.name.toList ++ writeAll f.operations f.trail.chars)) f.tree f.trail.chars := by
    refine test.bind (Nat.le_refl _) fun shallow => Or.inl ⟨shallow, ?_⟩
    exact ifFound_misses ((sign "?" (by decide)).bind _)
  have body : Yields (assignmentBody steps (assignment steps 127) (unary steps 127)
      (f.first.name.toList ++ writeAll f.operations f.trail.chars)) f.tree f.trail.chars := by
    refine whole.bind (Nat.le_refl _) fun shallow => Or.inl ⟨shallow, ?_⟩
    exact ifFound_misses ((sign "=" (by decide)).bind _)
  show Yields (assignment steps (127 + 1) _) _ _
  rw [assignment_succ]
  exact body.bind (Nat.le_refl _) fun _ => yields_bounded _ _

theorem length_le_writeAll (operations : List InfixOperation) (rest : List Char) :
    operations.length ≤ (writeAll operations rest).length := by
  induction operations with
  | nil => exact Nat.zero_le _
  | cons o operations ih =>
    obtain ⟨c, cs, shape, -⟩ := isName_cons o.operand.named
    show operations.length + 1 ≤ (o.write (writeAll operations rest)).length
    unfold InfixOperation.write
    simp only [List.length_append, shape, List.length_cons]
    omega

/-- A statement that is refused ends the whole parse, and says so. -/
theorem afterStatement_refused {behind : List Char}
    (fails : assignment steps maxFrames cs = .fail ⟨true, some "nesting depth", []⟩ behind)
    (done : List Expr) :
    (do let statement ← describe "statement" (commit (assignment steps maxFrames))
        afterStatement steps rounds (statement :: done) : Parser Program) cs =
      .fail ⟨true, some "nesting depth", ["statement"]⟩ behind := by
  refine bind_fail ?_ _
  unfold describe commit
  rw [fails]
  rfl

end Grammar

/-- **Infix operators group by precedence, and to the left where it is the same.** The program of a
formula is the tree whose root is the last operator of lowest precedence, and so on on both sides; a
formula whose tree is too high is refused for its nesting. -/
theorem parse_formula (f : Formula) :
    (f.tree.depth ≤ Grammar.maxHeight ∧ parse f.text = .ok [f.tree]) ∨
      (Grammar.maxHeight < f.tree.depth ∧
        ∃ offset, parse f.text = .error ⟨offset, some "nesting depth", ["statement"]⟩) := by
  obtain ⟨c, front, shape, first⟩ :=
    Grammar.head_variable f.first (writeAll f.operations f.trail.chars)
  have source : f.text.toList = f.lead.chars ++ c :: front := by
    rw [← shape]
    exact String.toList_ofList
  have ahead : f.text.toList.dropWhile Text.isBlank = c :: front := by
    rw [source, ← shape]
    exact Grammar.dropBlank_blanks f.lead (Grammar.variable_solid f.first _)
  have other : c ≠ ';' := by
    rintro rfl
    exact absurd first (by decide)
  have few : f.operations.length ≤ f.text.toList.length := by
    have longer := Grammar.length_le_writeAll f.operations f.trail.chars
    rw [source, ← shape, List.length_append, List.length_append]
    omega
  obtain ⟨rounds, length⟩ : ∃ rounds, f.text.toList.length = rounds + 1 := by
    rw [source, List.length_append, List.length_cons]
    exact ⟨_, rfl⟩
  have yields := Grammar.yields_assignment f few
  rw [shape] at yields
  have program : Grammar.program f.text.toList.length f.text.toList =
      Grammar.statements f.text.toList.length (rounds + 1) [] f.text.toList :=
    congrArg (Grammar.statements f.text.toList.length · [] f.text.toList) length
  rw [Grammar.statements_statement ahead other] at program
  rw [Expr.depth_eq_height]
  unfold parse
  dsimp only
  rcases yields with ⟨shallow, read⟩ | ⟨deep, behind, fails⟩
  · refine Or.inl ⟨shallow, ?_⟩
    rw [program, Parser.bind_ok (Parser.describe_ok _ (Parser.commit_ok read)),
      Grammar.afterStatement_end (List.dropWhile_eq_nil_iff.mpr f.trail.blank)]
    rfl
  · refine Or.inr ⟨deep, utf8Length f.text.toList - utf8Length behind, ?_⟩
    rw [program, Grammar.afterStatement_refused fails]

/-- The variable `x` added to itself a number of times. -/
def Formula.sum (additions : Nat) : Formula :=
  let x : Variable := ⟨"x", by decide, by decide⟩
  let none : Blanks := ⟨[], nofun⟩
  ⟨none, x, List.replicate additions ⟨none, .binary .add, none, x⟩, none⟩

/-- Sums group to the left, so each addition makes the tree higher. -/
theorem height_sum (additions : Nat) : (Formula.sum additions).tree.height = additions + 1 := by
  unfold Formula.tree Formula.sum
  dsimp only
  rw [List.map_replicate]
  induction additions with
  | zero =>
    rw [List.replicate_zero, grouped_nil]
    rfl
  | succ additions ih =>
    rw [List.replicate_succ']
    refine (congrArg Expr.height (grouped_append _ _ ?_ (List.forall_mem_nil _))).trans ?_
    · intro item mem
      obtain rfl := List.eq_of_mem_replicate mem
      exact Nat.le_refl _
    · rw [Infix.height_join, ih, grouped_nil]
      show 1 + max (additions + 1) 1 = additions + 1 + 1
      omega

/-- A sum with 63 additions is read, and one with 64 is refused. -/
theorem parse_formula_sum : parse (Formula.sum 63).text = .ok [(Formula.sum 63).tree] ∧
    ∃ offset, parse (Formula.sum 64).text = .error ⟨offset, some "nesting depth", ["statement"]⟩ := by
  have low : (Formula.sum 63).tree.depth = 64 := by rw [Expr.depth_eq_height, height_sum]
  have high : (Formula.sum 64).tree.depth = 65 := by rw [Expr.depth_eq_height, height_sum]
  constructor
  · rcases parse_formula (Formula.sum 63) with ⟨-, read⟩ | ⟨deep, -⟩
    · exact read
    · exact absurd deep (by rw [low]; decide)
  · rcases parse_formula (Formula.sum 64) with ⟨shallow, -⟩ | ⟨-, refused⟩
    · exact absurd shallow (by rw [high]; decide)
    · exact refused

end FormLogic
