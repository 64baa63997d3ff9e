import FormLogic.Proofs.Expr.Operation
import FormLogic.Proofs.Expr.Statements

/-!
# `FormLogic.Proofs.Expr.RoundTrip` — a program is read back from its text

Every rule of the grammar reads the text of an expression back as the expression, if the rule can
build it and if what follows does not run on from it.

The frames that are open grow by three for each level of the tree at most: one for the parentheses,
one for the operand in them, and one for the operator in front of an operand, or for the branch of a
conditional. So 128 frames are enough for 40 levels.

## Contents
- `Fits`: an expression for which there are rounds enough.
- `ReadBack`, `readBack`: an expression is read back, by induction.
- `statements_ok`, `parse_print`: the program of the text of a program.
-/

namespace FormLogic

namespace Grammar

open FormLogic.Parser

variable {steps frames : Nat} {cs rest : List Char} {e : Expr}

/-! ## All expressions -/

/-- The loops have a round for each character of the expression, and it is not refused for its
height. -/
structure Fits (steps : Nat) (e : Expr) : Prop where
  length : e.print.toList.length ≤ steps
  height : e.height ≤ maxHeight

theorem Fits.part (fits : Fits steps e) {part : Expr} (mem : part ∈ e.children) :
    Fits steps part :=
  ⟨Nat.le_trans (Nat.le_of_lt (Expr.length_lt_of_mem mem)) fits.length,
    Nat.le_trans (Nat.le_of_lt (Expr.height_lt_of_mem mem)) fits.height⟩

theorem Fits.shallow (fits : Fits steps e) : e.depth ≤ maxHeight := by
  rw [Expr.depth_eq_height]
  exact fits.height

theorem Fits.some (fits : Fits steps e) (readable : e.Readable) : 0 < steps :=
  Nat.lt_of_lt_of_le (List.length_pos_iff.mpr (Expr.print_ne_nil readable)) fits.length

/-- A chain has a character for each link. -/
theorem linkCount_le_length (e : Expr) : linkCount e ≤ e.print.toList.length := by
  fun_induction linkCount e with
  | case1 base key optional ih =>
    have front : base.print.toList.length < (Expr.member base key optional).print.toList.length :=
      Expr.length_lt_of_mem List.mem_cons_self
    omega
  | case2 callee args ih =>
    have front : callee.print.toList.length < (Expr.call callee args).print.toList.length :=
      Expr.length_lt_of_mem List.mem_cons_self
    omega
  | case3 => exact Nat.zero_le _

/-- **The expression is read back** wherever it can stand, with three frames for each level. -/
structure ReadBack (steps : Nat) (e : Expr) : Prop where
  /-- As the front of a chain, where the frame of an operand is already open. -/
  chain : e.isBase = true → ∀ frames, 3 * e.height ≤ frames + 1 →
    ReadsChain steps (assignment steps frames) e
  /-- As an operand. -/
  operand : e.isOperand = true → ∀ frames, 3 * e.height ≤ frames →
    ReadsOperand (unary steps frames) e
  /-- As a whole expression. -/
  whole : ∀ frames, 3 * e.height + 1 ≤ frames → ReadsWhole (assignment steps frames) e

theorem ReadBack.of_operand (fits : Fits steps e)
    (chain : e.isBase = true → ∀ frames, 3 * e.height ≤ frames + 1 →
      ReadsChain steps (assignment steps frames) e)
    (operand : ∀ frames, 3 * e.height ≤ frames → ReadsOperand (unary steps frames) e) :
    ReadBack steps e := by
  -- a whole expression opens one frame in front of its first operand
  refine ⟨chain, fun _ => operand, fun frames enough => ?_⟩
  obtain ⟨frames, rfl⟩ := Nat.exists_eq_add_of_le' (Nat.le_trans (Nat.le_add_left 1 _) enough)
  exact (operand frames (Nat.le_of_succ_le_succ enough)).readsWhole fits.shallow

theorem ReadBack.of_chain (readable : e.Readable) (base : e.isBase = true) (fits : Fits steps e)
    (chain : ∀ frames, 3 * e.height ≤ frames + 1 → ReadsChain steps (assignment steps frames) e) :
    ReadBack steps e := by
  -- an operand opens one frame in front of its chain
  refine .of_operand fits (fun _ => chain) fun frames enough => ?_
  have tall := e.height_pos
  obtain ⟨frames, rfl⟩ : ∃ left, frames = left + 1 := ⟨frames - 1, by omega⟩
  exact (chain frames enough).readsOperand readable base
    (Nat.le_trans (linkCount_le_length e) fits.length) fits.shallow

theorem ReadBack.of_primary (readable : e.Readable) (base : e.isBase = true) (fits : Fits steps e)
    (single : linkCount e = 0)
    (reads : ∀ frames, 3 * e.height ≤ frames + 1 → ReadsPrimary steps (assignment steps frames) e) :
    ReadBack steps e :=
  .of_chain readable base fits fun frames enough => (reads frames enough).readsChain single

/-- No expression starts with a closing bracket. -/
theorem assignment_misses {close : Char} (closing : close ∈ [')', ']']) (frames : Nat)
    (rest : List Char) : Misses (assignment steps (frames + 2)) (close :: rest) := by
  simp only [List.mem_cons, List.not_mem_nil, or_false] at closing
  rcases closing with rfl | rfl <;> exact misses_of_fails rfl

section

variable {part : Expr}

/-- A direct part is read back as a whole in the frames that are left to its parent. -/
theorem ReadBack.part_whole (back : ReadBack steps part) (mem : part ∈ e.children)
    (enough : 3 * e.height ≤ frames + 2) : ReadsWhole (assignment steps frames) part := by
  have lower := Expr.height_lt_of_mem mem
  exact back.whole frames (by omega)

theorem ReadBack.part_operand (back : ReadBack steps part) (mem : part ∈ e.children)
    (tight : part.isOperand = true) (enough : 3 * e.height ≤ frames + 3) :
    ReadsOperand (unary steps frames) part := by
  have lower := Expr.height_lt_of_mem mem
  exact back.operand tight frames (by omega)

theorem ReadBack.part_chain (back : ReadBack steps part) (mem : part ∈ e.children)
    (base : part.isBase = true) (enough : 3 * e.height ≤ frames + 1) :
    ReadsChain steps (assignment steps frames) part := by
  have lower := Expr.height_lt_of_mem mem
  exact back.chain base frames (by omega)

end

/-- At least two frames are left where three are taken for each level. -/
theorem two_frames (enough : 3 * e.height ≤ frames + 1) : ∃ left, frames = left + 2 := by
  have tall := e.height_pos
  exact ⟨frames - 2, by omega⟩

theorem Literal.readsPrimary {value : Literal} {assignment : Parser Expr}
    (readable : value.Readable) : ReadsPrimary steps assignment (.literal value) := by
  cases value with
  | undefined => exact readsPrimary_constant (w := "undefined") (by decide) rfl rfl
  | null => exact readsPrimary_constant (w := "null") (by decide) rfl rfl
  | bool b =>
    cases b with
    | false => exact readsPrimary_constant (w := "false") (by decide) rfl rfl
    | true => exact readsPrimary_constant (w := "true") (by decide) rfl rfl
  | number x => exact readsPrimary_number readable
  | string s => exact readsPrimary_string readable

/-- **Every readable expression is read back**, by induction on how it is built. -/
theorem readBack (readable : e.Readable) (fits : Fits steps e) : ReadBack steps e := by
  induction readable with
  | literal plain =>
    exact .of_primary (.literal plain) rfl fits rfl fun _ _ => Literal.readsPrimary plain
  | ident named free =>
    exact .of_primary (.ident named free) rfl fits rfl fun _ _ => readsPrimary_ident named free
  | @array items each ih =>
    refine .of_primary (.array each) rfl fits rfl fun frames enough => ?_
    obtain ⟨left, rfl⟩ := two_frames enough
    refine readsPrimary_array each (fun item mem => ?_)
      (Nat.le_trans (Expr.length_items_le each) fits.length) (assignment_misses (by decide) left)
    have part : item ∈ (Expr.array items).children := mem
    exact (ih item mem (fits.part part)).part_whole part (Nat.le_succ_of_le enough)
  | @object entries keys each ih =>
    refine .of_primary (.object keys each) rfl fits rfl fun frames enough => ?_
    refine readsPrimary_object keys each (fun entry mem => ?_)
      (Nat.le_trans (Expr.length_entries_le entries) fits.length)
    have part : entry.2 ∈ (Expr.object entries).children := List.mem_map_of_mem mem
    exact (ih entry mem (fits.part part)).part_whole part (Nat.le_succ_of_le enough)
  | @named base name optional front simple named ih =>
    refine .of_chain (.named front simple named) rfl fits fun frames enough => ?_
    have mem : base ∈ (Expr.member base (.named name) optional).children := List.mem_cons_self
    exact readsChain_named ((ih (fits.part mem)).part_chain mem simple enough) named fits.shallow
  | @computed base key optional front simple inner ih ih' =>
    refine .of_chain (.computed front simple inner) rfl fits fun frames enough => ?_
    have mem : base ∈ (Expr.member base (.computed key) optional).children := List.mem_cons_self
    have mem' : key ∈ (Expr.member base (.computed key) optional).children :=
      List.mem_cons_of_mem _ List.mem_cons_self
    exact readsChain_computed ((ih (fits.part mem)).part_chain mem simple enough) inner
      ((ih' (fits.part mem')).part_whole mem' (Nat.le_succ_of_le enough)) fits.shallow
  | @call callee args front simple each ih ih' =>
    refine .of_chain (.call front simple each) rfl fits fun frames enough => ?_
    obtain ⟨left, rfl⟩ := two_frames enough
    have mem : callee ∈ (Expr.call callee args).children := List.mem_cons_self
    have few : args.length ≤ steps := Nat.le_trans (Expr.length_args_le callee each) fits.length
    refine readsChain_call ((ih (fits.part mem)).part_chain mem simple enough) each
      (fun arg argument => ?_) few (assignment_misses (by decide) left) fits.shallow
    have mem' : arg ∈ (Expr.call callee args).children := List.mem_cons_of_mem _ argument
    exact (ih' arg argument (fits.part mem')).part_whole mem' (Nat.le_succ_of_le enough)
  | @unary op operand inner tight ih =>
    refine .of_primary (.unary inner tight) rfl fits rfl fun frames enough => ?_
    obtain ⟨left, rfl⟩ := two_frames enough
    have mem : operand ∈ (Expr.unary op operand).children := List.mem_cons_self
    exact readsPrimary_unary inner ((ih (fits.part mem)).part_operand mem tight enough) fits.shallow
  | @binary op lhs rhs left tight right tight' ih ih' =>
    refine .of_primary (.binary left tight right tight') rfl fits rfl fun frames enough => ?_
    obtain ⟨frames, rfl⟩ := two_frames enough
    have mem : lhs ∈ (Expr.binary op lhs rhs).children := List.mem_cons_self
    have mem' : rhs ∈ (Expr.binary op lhs rhs).children :=
      List.mem_cons_of_mem _ List.mem_cons_self
    have room := Nat.le_succ_of_le enough
    exact readsPrimary_infix (Expr.toList_print_binary op lhs rhs) (operator_binary op)
      (operandEnd_binary op) (fits.some (.binary left tight right tight')) left tight right
      ((ih (fits.part mem)).part_operand mem tight room)
      ((ih' (fits.part mem')).part_operand mem' tight' room) fits.shallow
  | @logical op lhs rhs left tight right tight' ih ih' =>
    refine .of_primary (.logical left tight right tight') rfl fits rfl fun frames enough => ?_
    obtain ⟨frames, rfl⟩ := two_frames enough
    have mem : lhs ∈ (Expr.logical op lhs rhs).children := List.mem_cons_self
    have mem' : rhs ∈ (Expr.logical op lhs rhs).children :=
      List.mem_cons_of_mem _ List.mem_cons_self
    have room := Nat.le_succ_of_le enough
    exact readsPrimary_infix (Expr.toList_print_logical op lhs rhs) (operator_logical op)
      (operandEnd_logical op) (fits.some (.logical left tight right tight')) left tight right
      ((ih (fits.part mem)).part_operand mem tight room)
      ((ih' (fits.part mem')).part_operand mem' tight' room) fits.shallow
  | @conditional test consequent alternate first tight second third ih ih' ih'' =>
    refine .of_primary (.conditional first tight second third) rfl fits rfl
      fun frames enough => ?_
    obtain ⟨frames, rfl⟩ := two_frames enough
    have mem : test ∈ (Expr.conditional test consequent alternate).children := List.mem_cons_self
    have mem' : consequent ∈ (Expr.conditional test consequent alternate).children :=
      List.mem_cons_of_mem _ List.mem_cons_self
    have mem'' : alternate ∈ (Expr.conditional test consequent alternate).children :=
      List.mem_cons_of_mem _ (List.mem_cons_of_mem _ List.mem_cons_self)
    exact readsPrimary_conditional first tight second third
      ((ih (fits.part mem)).part_operand mem tight (Nat.le_succ_of_le enough))
      ((ih' (fits.part mem')).part_whole mem' enough)
      ((ih'' (fits.part mem'')).part_whole mem'' enough) fits.shallow
  | @arrow params body named inner ih =>
    refine ⟨nofun, nofun, fun frames enough => ?_⟩
    obtain ⟨left, rfl⟩ := two_frames (Nat.le_of_succ_le (Nat.le_succ_of_le enough))
    have mem : body ∈ (Expr.arrow params body).children := List.mem_cons_self
    exact readsWhole_arrow named (Nat.le_trans (Expr.length_params_le named) fits.length) inner
      ((ih (fits.part mem)).part_whole mem (by omega)) fits.shallow
  | @assign target value left assignable right ih ih' =>
    refine ⟨nofun, nofun, fun frames enough => ?_⟩
    obtain ⟨frames, rfl⟩ := Nat.exists_eq_add_of_le' (Nat.le_trans (Nat.le_add_left 1 _) enough)
    have mem : target ∈ (Expr.assign target value).children := List.mem_cons_self
    have mem' : value ∈ (Expr.assign target value).children :=
      List.mem_cons_of_mem _ List.mem_cons_self
    exact readsWhole_assign assignable right
      ((ih (fits.part mem)).part_operand mem (Expr.isOperand_of_isAssignable assignable) (by omega))
      ((ih' (fits.part mem')).part_whole mem' (by omega)) fits.shallow
  | @delete target inner member ih =>
    refine .of_operand fits nofun fun frames enough => ?_
    have tall := (Expr.delete target).height_pos
    obtain ⟨frames, rfl⟩ : ∃ left, frames = left + 1 := ⟨frames - 1, by omega⟩
    have mem : target ∈ (Expr.delete target).children := List.mem_cons_self
    exact readsOperand_delete inner member ((ih (fits.part mem)).part_operand mem
      (Expr.isOperand_of_isMember member) (by omega)) fits.shallow

/-! ## Programs -/

/-- One statement is read, up to where it ends. -/
theorem statements_read {rounds : Nat} (readable : e.Readable)
    (reads : ReadsWhole (assignment steps maxFrames) e) (done : List Expr)
    (ahead : cs.dropWhile Text.isBlank = e.print.toList ++ rest) (closed : Closed rest) :
    statements steps (rounds + 1) done cs = afterStatement steps rounds (e :: done) rest := by
  obtain ⟨c, tail, shape, starts⟩ := Expr.print_head readable
  have solid := dropWhile_eq_self (Expr.print_solid readable rest)
  have statement := describe_ok "statement" (commit_ok (reads _ rest solid closed))
  rw [shape, List.cons_append] at ahead statement
  have other : c ≠ ';' := by
    rintro rfl
    cases starts
  rw [statements_statement ahead other]
  exact bind_ok statement _

/-- The texts with semicolons between them. -/
def statementTexts (program : Program) : List Char :=
  [';', ' '].intercalate (program.map fun e => e.print.toList)

theorem toList_print_program (program : Program) :
    program.print.toList = statementTexts program := by
  unfold Program.print
  rw [String.toList_intercalate, List.map_map]
  rfl

theorem statementTexts_one (e : Expr) : statementTexts [e] = e.print.toList ++ [] := by
  unfold statementTexts
  rw [List.map_singleton, List.intercalate_singleton, List.append_nil]

theorem statementTexts_cons (e other : Expr) (program : Program) :
    statementTexts (e :: other :: program) =
      e.print.toList ++ ';' :: ' ' :: statementTexts (other :: program) := by
  unfold statementTexts
  rw [List.map_cons, List.map_cons, List.intercalate_cons_cons, List.append_assoc]
  rfl

theorem statementTexts_solid {program : Program} (readable : e.Readable) :
    (statementTexts (e :: program)).head?.any Text.isBlank = false := by
  cases program with
  | nil =>
    rw [statementTexts_one]
    exact Expr.print_solid readable _
  | cons other program =>
    rw [statementTexts_cons]
    exact Expr.print_solid readable _

/-- Statements are read back, one in each round. -/
theorem statements_ok {rounds : Nat} {program : Program} (enough : program.length < rounds)
    (readable : ∀ statement ∈ e :: program, statement.Readable)
    (reads : ∀ statement ∈ e :: program, ReadsWhole (assignment steps maxFrames) statement)
    (done : List Expr) (ahead : cs.dropWhile Text.isBlank = statementTexts (e :: program)) :
    statements steps rounds done cs = .ok (done.reverse ++ e :: program) [] := by
  have front := readable e List.mem_cons_self
  have whole := reads e List.mem_cons_self
  induction program generalizing e rounds done cs with
  | nil =>
    obtain ⟨rounds, rfl⟩ : ∃ left, rounds = left + 1 := ⟨rounds - 1, by omega⟩
    rw [statementTexts_one] at ahead
    rw [statements_read front whole done ahead .finish, ← List.reverse_cons]
    rfl
  | cons other program ih =>
    obtain ⟨rounds, rfl⟩ : ∃ left, rounds = left + 1 := ⟨rounds - 1, by omega⟩
    have others : other ∈ e :: other :: program := List.mem_cons_of_mem _ List.mem_cons_self
    have next := readable other others
    have blank : (' ' :: statementTexts (other :: program)).dropWhile Text.isBlank =
        statementTexts (other :: program) := dropWhile_eq_self (statementTexts_solid next)
    have behind := ih (Nat.lt_of_succ_lt_succ enough)
      (fun statement mem => readable statement (List.mem_cons_of_mem _ mem))
      (fun statement mem => reads statement (List.mem_cons_of_mem _ mem)) (e :: done) blank next
      (reads other others)
    rw [statementTexts_cons] at ahead
    have separated : (';' :: ' ' :: statementTexts (other :: program)).dropWhile Text.isBlank =
        ';' :: ' ' :: statementTexts (other :: program) := rfl
    rw [statements_read front whole done ahead (.sign (by decide) _),
      afterStatement_semicolon separated, behind, List.reverse_cons, List.append_assoc]
    rfl

end Grammar

/-- **A program is read back from its text**, if each of its statements can be and has at most 40
levels. -/
theorem parse_print (program : Program) (readable : ∀ e ∈ program, e.Readable)
    (shallow : ∀ e ∈ program, e.depth ≤ 40) : parse program.print = .ok program := by
  have length := Grammar.toList_print_program program
  have whole : Grammar.program program.print.toList.length program.print.toList =
      .ok program [] := by
    rw [length]
    cases program with
    | nil => rfl
    | cons e program =>
      have texts : ∀ text ∈ (e :: program).map fun e => e.print.toList, text ≠ [] :=
        List.forall_mem_map.mpr fun e mem => Expr.print_ne_nil (readable e mem)
      have rounds := Expr.length_le_intercalate texts [';', ' ']
      rw [List.length_map] at rounds
      refine Grammar.statements_ok rounds readable (fun statement mem => ?_) []
        (Parser.dropWhile_eq_self (Grammar.statementTexts_solid (readable e List.mem_cons_self)))
      have low := shallow statement mem
      rw [Expr.depth_eq_height] at low
      have text : statement.print.toList ∈ (e :: program).map fun e => e.print.toList :=
        List.mem_map_of_mem mem
      have fits : Grammar.Fits (Grammar.statementTexts (e :: program)).length statement :=
        ⟨Expr.length_le_of_mem text _, Nat.le_trans low (by decide)⟩
      refine (Grammar.readBack (readable statement mem) fits).whole _ ?_
      show 3 * statement.height + 1 ≤ 128
      omega
  unfold parse
  dsimp only
  rw [whole]

/-- Two statements: one deletes a member, and one assigns to a computed member a conditional whose
branches are an object and a call with a function as its argument. -/
def mixed : Program :=
  let order := Expr.ident "order"
  let lines := Expr.member order (.named "lines") true
  [.delete (.member order (.named "draft") false),
    .assign (.member order (.computed (.literal (.string "the \"total\"\n"))) false)
      (.conditional (.unary .typeof lines)
        (.object [("lines", .array [.literal .null, .literal (.bool true)])])
        (.call (.member lines (.named "map") false)
          [.arrow ["line", "typeof"]
            (.logical .or (.binary .strictEq (.ident "line") (.unary .not order)) (.ident "i"))]))]

theorem parse_print_mixed : (∀ e ∈ mixed, e.Readable) ∧ (∀ e ∈ mixed, e.depth ≤ 40) ∧
    parse mixed.print = .ok mixed := by
  have order : (Expr.ident "order").Readable := .ident (by decide) (by decide)
  have lines : (Expr.member (.ident "order") (.named "lines") true).Readable :=
    .named order rfl (by decide)
  have deletion : (Expr.delete (.member (.ident "order") (.named "draft") false)).Readable :=
    .delete (.named order rfl (by decide)) rfl
  have listed : (Expr.object
      [("lines", .array [.literal .null, .literal (.bool true)])]).Readable := by
    refine .object (List.forall_mem_singleton.mpr (List.all_eq_true.mp rfl)) ?_
    simp only [List.mem_singleton, forall_eq]
    refine .array ?_
    simp only [List.mem_cons, List.not_mem_nil, or_false, forall_eq_or_imp, forall_eq]
    exact ⟨.literal trivial, .literal trivial⟩
  have compared : (Expr.logical .or (.binary .strictEq (.ident "line")
      (.unary .not (.ident "order"))) (.ident "i")).Readable :=
    .logical (.binary (.ident (by decide) (by decide)) rfl (.unary order rfl) rfl) rfl
      (.ident (by decide) (by decide)) rfl
  have readable : ∀ e ∈ mixed, e.Readable := by
    simp only [mixed, List.mem_cons, List.not_mem_nil, or_false, forall_eq_or_imp, forall_eq]
    refine ⟨deletion, .assign (.computed order rfl (.literal ?_)) rfl
      (.conditional (.unary lines rfl) rfl listed (.call (.named lines rfl (by decide)) rfl ?_))⟩
    · exact List.all_eq_true.mp rfl
    · simp only [List.mem_singleton, forall_eq]
      exact .arrow (by decide) compared
  have shallow : ∀ e ∈ mixed, e.depth ≤ 40 := by decide
  exact ⟨readable, shallow, parse_print mixed readable shallow⟩

end FormLogic
