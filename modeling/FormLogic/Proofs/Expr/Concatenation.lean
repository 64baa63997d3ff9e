import FormLogic.Expr.Printer
import FormLogic.Proofs.Expr.Carries
import FormLogic.Proofs.Expr.Statements

/-!
# `FormLogic.Proofs.Expr.Concatenation` — programs with a semicolon between them

No rule of the grammar decides otherwise on a text because a semicolon and another text follow it.
So a program is read up to the semicolon behind it as it is read alone, and what follows is read as
it is alone.

## Contents
- `carries_primary`, `carries_unaryBody`, `carries_assignmentBody`: the rules of the grammar.
- `carries_recursive`: the two recursive rules, by induction on the frames.
- `Statements`: the statements of a text, without rounds.
- `parse_append`: the program of two programs with a semicolon between them.
-/

namespace FormLogic

namespace Grammar

open FormLogic.Parser

variable {steps more : Nat} {tail cs rest : List Char} {a a' u u' : Parser Expr} {e : Expr}

/-! ## Words and constants -/

theorem carries_tooDeep {α : Type} : Carries steps tail (tooDeep : Parser α) tooDeep :=
  .fail _

theorem carries_bounded (e : Expr) : Carries steps tail (bounded e) (bounded e) :=
  carries_tooDeep.ite (.pure e)

section

variable (stop : Stop tail)

include stop

theorem carries_name : Carries steps tail name name :=
  (Carries.satisfy stop (by decide)).bind fun _ =>
    (Carries.span stop (by decide)).bind fun _ => .pure _

theorem carries_keyword (word : String) : Carries steps tail (keyword word) (keyword word) :=
  (carries_name stop).bind fun _ => .ite (.pure _) (.fail _)

theorem carries_fraction : Carries steps tail fraction fraction :=
  (Carries.char stop (by decide)).bind fun _ => .span1 stop (by decide)

theorem carries_exponent : Carries steps tail exponent exponent :=
  (Carries.satisfy stop (by decide)).bind fun _ =>
    (Carries.satisfy stop (by decide)).optional.bind fun _ =>
      (Carries.span1 stop (by decide)).bind fun _ => .pure _

theorem carries_number : Carries steps tail number number :=
  (Carries.span1 stop (by decide)).bind fun _ =>
    (carries_fraction stop).optional.bind fun _ =>
      (carries_exponent stop).optional.bind fun _ => .pure _

omit stop in
/-- A quoted text ends with its quote, whatever stands behind it. -/
theorem textAfter_append {quote : Char} {content : List Char} {s : String}
    (read : textAfter quote content cs = .ok s rest) :
    rest.length ≤ cs.length ∧ textAfter quote content (cs ++ tail) = .ok s (rest ++ tail) := by
  fun_induction textAfter quote content cs with
  | case1 => cases read
  | case2 content rest =>
    cases read
    refine ⟨Nat.le_succ _, ?_⟩
    rw [List.cons_append, textAfter.eq_def]
    exact if_pos rfl
  | case3 => cases read
  | case4 content escaped rest other ih =>
    obtain ⟨less, again⟩ := ih read
    refine ⟨Nat.le_trans less (Nat.le_add_right _ 2), ?_⟩
    rw [List.cons_append, List.cons_append, textAfter.eq_def]
    dsimp only
    rw [if_neg other, if_pos rfl, again]
  | case5 content c rest other other' ih =>
    obtain ⟨less, again⟩ := ih read
    refine ⟨Nat.le_succ_of_le less, ?_⟩
    rw [List.cons_append, textAfter.eq_def]
    dsimp only
    rw [if_neg other, if_neg other', again]

omit stop in
/-- A quoted text that does not end ends the whole parse. -/
theorem not_misses_textAfter (quote : Char) (content : List Char) :
    ¬ Misses (textAfter quote content) cs := by
  rintro ⟨failure, rest, fails, free⟩
  fun_induction textAfter quote content cs with
  | case1 | case3 =>
    cases fails
    cases free
  | case2 => cases fails
  | case4 content other escaped rest ih => exact ih fails
  | case5 content c rest other other' ih => exact ih fails

theorem carries_text : Carries steps tail text text := by
  refine (Carries.satisfy stop (by decide)).bind fun quote => ⟨fun _ read => ?_, fun _ misses => ?_⟩
  · exact textAfter_append read
  · exact absurd misses (not_misses_textAfter quote [])

/-! ## Primary expressions -/

theorem carries_close {text what : String} (other : ';' ∉ text.toList) :
    Carries steps tail (describe what (commit (token text))) (describe what (commit (token text))) :=
  (Carries.token stop other).commit.describe

/-- Elements with commas between them. -/
theorem carries_items {α : Type} {p p' : Parser α} (elem : Carries steps tail p p')
    (fewer : steps ≤ more) :
    Carries steps tail (sepBy steps p (token ",")) (sepBy more p' (token ",")) :=
  elem.sepBy (.token stop (by decide)) (.token (by decide)) (token_misses rfl) fewer

theorem carries_array (inner : Carries steps tail a a') (fewer : steps ≤ more) :
    Carries steps tail (array steps a) (array more a') :=
  (Carries.char stop (by decide)).bind fun _ =>
    (carries_items stop inner fewer).bind fun _ =>
      (Carries.token stop (by decide)).optional.bind fun _ =>
        (carries_close stop (by decide)).bind fun _ => .pure _

theorem carries_entryKey : Carries steps tail entryKey entryKey :=
  (Carries.blank stop).bind fun _ => (carries_text stop).orElse <|
    (carries_name stop).orElse <| (Carries.span1 stop (by decide)).bind fun _ => .pure _

theorem carries_entry (inner : Carries steps tail a a') :
    Carries steps tail (entry a) (entry a') :=
  (carries_entryKey stop).bind fun _ =>
    (carries_close stop (by decide)).bind fun _ => inner.commit.bind fun _ => .pure _

theorem carries_object (inner : Carries steps tail a a') (fewer : steps ≤ more) :
    Carries steps tail (object steps a) (object more a') :=
  (Carries.char stop (by decide)).bind fun _ =>
    (carries_items stop (carries_entry stop inner) fewer).bind fun _ =>
      (Carries.token stop (by decide)).optional.bind fun _ =>
        (carries_close stop (by decide)).bind fun _ => .pure _

theorem carries_arrowParams (fewer : steps ≤ more) :
    Carries steps tail (arrowParams steps) (arrowParams more) :=
  (Carries.char stop (by decide)).bind fun _ =>
    (carries_items stop ((Carries.blank stop).bind fun _ => carries_name stop) fewer).bind fun _ =>
      (Carries.token stop (by decide)).bind fun _ =>
        (Carries.token stop (by decide)).bind fun _ => .pure _

omit stop in
theorem carries_arrowBody (inner : Carries steps tail a a') (params : List String) :
    Carries steps tail (arrowBody a params) (arrowBody a' params) :=
  inner.commit.describe.bind fun _ => .pure _

theorem carries_parenthesized (inner : Carries steps tail a a') (fewer : steps ≤ more) :
    Carries steps tail (parenthesized steps a) (parenthesized more a') := by
  refine (carries_arrowParams stop fewer).optional.bind fun params => ?_
  cases params with
  | some params => exact carries_arrowBody inner params
  | none =>
    exact (Carries.char stop (by decide)).bind fun _ => inner.commit.bind fun _ =>
      (carries_close stop (by decide)).bind fun _ => .pure _

theorem carries_word (inner : Carries steps tail a a') : Carries steps tail (word a) (word a') := by
  refine (carries_name stop).bind fun name => ?_
  cases constant? name with
  | some value => exact .pure _
  | none =>
    exact (Carries.token stop (by decide)).ifFound (carries_arrowBody inner [name]) (.pure _)

theorem carries_primary (inner : Carries steps tail a a') (fewer : steps ≤ more) :
    Carries steps tail (primary steps a) (primary more a') := by
  refine (Carries.blank stop).bind fun _ => Carries.describe ?_
  exact ((carries_number stop).bind fun _ => .pure _).orElse <|
    ((carries_text stop).bind fun _ => .pure _).orElse <|
    (carries_array stop inner fewer).orElse <| (carries_object stop inner fewer).orElse <|
    (carries_parenthesized stop inner fewer).orElse (carries_word stop inner)

/-! ## Chains of member accesses and calls -/

theorem carries_computedKey (inner : Carries steps tail a a') :
    Carries steps tail (computedKey a) (computedKey a') :=
  inner.commit.bind fun _ => (carries_close stop (by decide)).bind fun _ => .pure _

theorem carries_callArgs (inner : Carries steps tail a a') (fewer : steps ≤ more) :
    Carries steps tail (callArgs steps a) (callArgs more a') :=
  (carries_items stop inner fewer).bind fun _ =>
    (carries_close stop (by decide)).bind fun _ => .pure _

/-- A link is read alike, and if one is read it is at least one character. -/
theorem carries_link (inner : Carries steps tail a a') (fewer : steps ≤ more) :
    Carries steps tail (link steps a) (link more a') ∧ Progress steps (link steps a) := by
  have key (optional : Bool) : Carries steps tail
      (do let key ← computedKey a; return some fun base => Expr.member base key optional)
      (do let key ← computedKey a'; return some fun base => Expr.member base key optional) :=
    (carries_computedKey stop inner).bind fun _ => .pure _
  have property {named : Parser String} (carries : Carries steps tail named named)
      (optional : Bool) : Carries steps tail
        (do let name ← describe "property name" (commit named)
            return some fun base => Expr.member base (.named name) optional)
        (do let name ← describe "property name" (commit named)
            return some fun base => Expr.member base (.named name) optional) :=
    carries.commit.describe.bind fun _ => .pure _
  have sign (text : String) (other : ';' ∉ text.toList) :
      Carries steps tail (token text) (token text) := .token stop other
  have afterOptional := (Carries.char stop (by decide : '[' ≠ ';')).ifFound (key true)
    (property (carries_name stop) true)
  have afterPoint := property ((Carries.blank stop).bind fun _ => carries_name stop) false
  have args := (carries_callArgs stop inner fewer).bind fun args =>
    Carries.pure (some fun callee => Expr.call callee args)
  constructor
  · exact (sign _ (by decide)).ifFound afterOptional <| (sign _ (by decide)).ifFound afterPoint <|
      (sign _ (by decide)).ifFound (key false) <| (sign _ (by decide)).ifFound args (.pure none)
  · exact .ifFound (.token (by decide)) afterOptional <| .ifFound (.token (by decide)) afterPoint <|
      .ifFound (.token (by decide)) (key false) <| .ifFound (.token (by decide)) args .none

omit stop in
/-- No link is read at the end of a text. -/
theorem link_finish (steps : Nat) (a : Parser Expr) : link steps a [] = .ok none [] := by
  rfl

theorem carries_links (inner : Carries steps tail a a') (fewer : steps ≤ more)
    {rounds rounds' : Nat} (few : rounds ≤ steps) (fewer' : rounds ≤ rounds') (e : Expr) :
    Carries rounds tail (links steps a rounds e) (links more a' rounds' e) := by
  obtain ⟨carries, progress⟩ := carries_link stop inner fewer
  induction rounds generalizing rounds' e with
  | zero =>
    refine .spent ?_
    cases rounds' with
    | zero => rfl
    | succ rounds' =>
      obtain ⟨-, again⟩ := carries.value (Nat.zero_le _) (link_finish steps a)
      exact bind_ok again _
  | succ rounds ih =>
    obtain ⟨rounds', rfl⟩ := Nat.exists_eq_add_of_le' (Nat.le_trans (Nat.le_add_left 1 _) fewer')
    refine .round (carries.mono few) (fun cs c rest short => progress cs c rest
      (Nat.le_trans short few)) (.pure e) fun extend => ?_
    exact (carries_bounded _).bind fun e =>
      ih (Nat.le_of_succ_le few) (Nat.le_of_succ_le_succ fewer') e

theorem carries_chain (inner : Carries steps tail a a') (fewer : steps ≤ more) :
    Carries steps tail (chain steps a) (chain more a') :=
  (carries_primary stop inner fewer).bind fun e =>
    carries_links stop inner fewer (Nat.le_refl _) fewer e

/-! ## Operators -/

theorem carries_unaryOp : Carries steps tail unaryOp unaryOp := by
  refine Carries.orElse ?_ (.oneOf stop (by decide))
  exact (Carries.token stop (by decide)).bind fun _ =>
    (Carries.notNext stop (by decide)).bind fun _ => .pure _

theorem carries_unaryBody (inner : Carries steps tail a a') (operand : Carries steps tail u u')
    (fewer : steps ≤ more) : Carries steps tail (unaryBody steps a u) (unaryBody more a' u') := by
  refine (Carries.blank stop).bind fun _ => ?_
  refine (carries_keyword stop "typeof").ifFound (operand.commit.bind fun _ => .pure _) ?_
  refine (carries_keyword stop "delete").ifFound
    (operand.commit.bind fun _ => .ite (.pure _) (.fail _)) ?_
  refine (carries_unaryOp stop).optional.bind fun op => ?_
  cases op with
  | some op => exact operand.commit.bind fun _ => .pure _
  | none => exact carries_chain stop inner fewer

omit stop in
theorem carries_infixMore {operator : Parser (Expr → Expr → Expr)}
    (operand : Carries steps tail u u') (carries : Carries steps tail operator operator)
    (takes : Takes operator) (misses : Misses operator []) {rounds rounds' : Nat}
    (few : rounds ≤ steps) (fewer : rounds ≤ rounds') (e : Expr) :
    Carries rounds tail (infixMore u operator rounds e) (infixMore u' operator rounds' e) := by
  induction rounds generalizing rounds' e with
  | zero =>
    refine .spent ?_
    have misses' := carries.miss (Nat.zero_le _) misses
    cases rounds' with
    | zero => rfl
    | succ rounds' => exact bind_ok (optional_misses misses') _
  | succ rounds ih =>
    obtain ⟨rounds', rfl⟩ := Nat.exists_eq_add_of_le' (Nat.le_trans (Nat.le_add_left 1 _) fewer)
    refine .round (carries.mono few).optional (.optional takes) (.pure e) fun join => ?_
    refine (operand.mono (Nat.le_of_succ_le few)).commit.bind fun rhs =>
      (carries_bounded _).bind fun e => ?_
    exact ih (Nat.le_of_succ_le few) (Nat.le_of_succ_le_succ fewer) e

omit stop in
theorem carries_infixChain {operator : Parser (Expr → Expr → Expr)}
    (operand : Carries steps tail u u') (carries : Carries steps tail operator operator)
    (takes : Takes operator) (misses : Misses operator []) (fewer : steps ≤ more) :
    Carries steps tail (infixChain steps u operator) (infixChain more u' operator) :=
  operand.bind fun e => carries_infixMore operand carries takes misses (Nat.le_refl _) fewer e

/-- Operands with the operators of a table between them. -/
theorem carries_binary {table : List (String × BinaryOp)}
    (other : ∀ entry ∈ table, ';' ∉ entry.1.toList)
    (nonempty : ∀ entry ∈ table, entry.1.toList ≠ []) (misses : Misses (binaryOps table) [])
    (operand : Carries steps tail u u') (fewer : steps ≤ more) :
    Carries steps tail (infixChain steps u (binaryOps table))
      (infixChain more u' (binaryOps table)) :=
  carries_infixChain operand ((Carries.oneOf stop other).bind fun _ => .pure _)
    ((Takes.oneOf nonempty).map _) misses fewer

/-- Operands with one logical operator between them. -/
theorem carries_logical {text : String} (op : LogicalOp) (other : ';' ∉ text.toList)
    (nonempty : text.toList ≠ []) (misses : Misses (logicalOp text op) [])
    (operand : Carries steps tail u u') (fewer : steps ≤ more) :
    Carries steps tail (infixChain steps u (logicalOp text op))
      (infixChain more u' (logicalOp text op)) :=
  carries_infixChain operand ((Carries.token stop other).bind fun _ => .pure _)
    ((Takes.token nonempty).map _) misses fewer

theorem carries_disjunction (operand : Carries steps tail u u') (fewer : steps ≤ more) :
    Carries steps tail (disjunction steps u) (disjunction more u') := by
  have products : Carries steps tail (multiplicative steps u) (multiplicative more u') :=
    carries_binary stop (by decide) (by decide) ⟨_, _, rfl, rfl⟩ operand fewer
  have sums : Carries steps tail (additive steps u) (additive more u') :=
    carries_binary stop (by decide) (by decide) ⟨_, _, rfl, rfl⟩ products fewer
  have orders : Carries steps tail (relational steps u) (relational more u') :=
    carries_binary stop (by decide) (by decide) ⟨_, _, rfl, rfl⟩ sums fewer
  have equalities : Carries steps tail (equality steps u) (equality more u') :=
    carries_binary stop (by decide) (by decide) ⟨_, _, rfl, rfl⟩ orders fewer
  have conjunctions : Carries steps tail (conjunction steps u) (conjunction more u') :=
    carries_logical stop .and (by decide) (by decide) ⟨_, _, rfl, rfl⟩ equalities fewer
  exact carries_logical stop .or (by decide) (by decide) ⟨_, _, rfl, rfl⟩ conjunctions fewer

theorem carries_conditional (inner : Carries steps tail a a') (operand : Carries steps tail u u')
    (fewer : steps ≤ more) :
    Carries steps tail (conditional steps a u) (conditional more a' u') := by
  refine (carries_disjunction stop operand fewer).bind fun test => ?_
  refine Carries.ifFound ((Carries.token stop (by decide)).bind fun _ => .notNext stop (by decide))
    (inner.commit.bind fun _ => ?_) (.pure test)
  exact (carries_close stop (by decide)).bind fun _ => inner.commit.bind fun _ => .pure _

theorem carries_assignmentBody (inner : Carries steps tail a a')
    (operand : Carries steps tail u u') (fewer : steps ≤ more) :
    Carries steps tail (assignmentBody steps a u) (assignmentBody more a' u') := by
  refine (carries_conditional stop inner operand fewer).bind fun target => ?_
  refine Carries.ifFound ((Carries.token stop (by decide)).bind fun _ => .notNext stop (by decide))
    (.ite (inner.commit.bind fun _ => .pure _) (.fail _)) (.pure target)

/-! ## The recursive rules -/

/-- The frames bound both rules alike, so their number is the same behind the text as before it. -/
theorem carries_recursive (fewer : steps ≤ more) (frames : Nat) :
    Carries steps tail (assignment steps frames) (assignment more frames) ∧
      Carries steps tail (unary steps frames) (unary more frames) := by
  induction frames with
  | zero =>
    constructor
    · have none (steps : Nat) : assignment steps 0 = tooDeep := by funext cs; rw [assignment]
      rw [none, none]
      exact carries_tooDeep
    · have none (steps : Nat) : unary steps 0 = tooDeep := by funext cs; rw [unary]
      rw [none, none]
      exact carries_tooDeep
  | succ frames ih =>
    rw [assignment_succ, assignment_succ, unary_succ, unary_succ]
    exact ⟨(carries_assignmentBody stop ih.1 ih.2 fewer).bind carries_bounded,
      (carries_unaryBody stop ih.1 ih.2 fewer).bind carries_bounded⟩

end

/-! ## Statements -/

/-- The statements of a text, read in loops of `steps` rounds. -/
inductive Statements (steps : Nat) : List Char → Program → Prop where
  | finish {cs : List Char} (ends : cs.dropWhile Text.isBlank = []) : Statements steps cs []
  | semicolon {cs rest : List Char} {program : Program}
      (ahead : cs.dropWhile Text.isBlank = ';' :: rest) (others : Statements steps rest program) :
      Statements steps cs program
  | last {cs front rest : List Char} {c : Char} {e : Expr}
      (ahead : cs.dropWhile Text.isBlank = c :: front) (other : c ≠ ';')
      (read : assignment steps maxFrames (c :: front) = .ok e rest)
      (ends : rest.dropWhile Text.isBlank = []) : Statements steps cs [e]
  | next {cs front rest behind : List Char} {c : Char} {e : Expr} {program : Program}
      (ahead : cs.dropWhile Text.isBlank = c :: front) (other : c ≠ ';')
      (read : assignment steps maxFrames (c :: front) = .ok e rest)
      (separated : rest.dropWhile Text.isBlank = ';' :: behind)
      (others : Statements steps behind program) : Statements steps cs (e :: program)

section

variable {rounds : Nat} {program ps qs : Program} {done : List Expr}

/-- What stands behind white space and a character is shorter than all of it. -/
theorem length_lt_of_ahead {c : Char} (ahead : cs.dropWhile Text.isBlank = c :: rest) :
    rest.length < cs.length := by
  have passed := (List.dropWhile_suffix (l := cs) Text.isBlank).length_le
  rw [ahead] at passed
  exact passed

/-- A loop with a round for each character has one for the next character and for each behind it. -/
theorem exists_round {c : Char} (ahead : cs.dropWhile Text.isBlank = c :: rest)
    (short : cs.length ≤ rounds) : ∃ left, rounds = left + 1 ∧ rest.length ≤ left := by
  have less := length_lt_of_ahead ahead
  exact ⟨rounds - 1, by omega, by omega⟩

/-- A statement takes no more characters than there are. -/
theorem assignment_shorter (few : cs.length ≤ steps)
    (read : assignment steps maxFrames cs = .ok e rest) : rest.length ≤ cs.length :=
  (carries_recursive .finish (Nat.le_refl steps) maxFrames).1.shorter few read

theorem dropBlank_stop (stop : Stop tail) (cs : List Char) :
    (cs ++ tail).dropWhile Text.isBlank = cs.dropWhile Text.isBlank ++ tail :=
  Carries.dropWhile_stop stop (by decide) cs

/-- The statements are those that the loop reads, if it has a round for each character. -/
theorem Statements.of_read (short : cs.length ≤ rounds) (few : cs.length ≤ steps)
    (read : statements steps rounds done cs = .ok program rest) :
    ∃ ps, program = done.reverse ++ ps ∧ Statements steps cs ps := by
  induction rounds generalizing done cs with
  | zero =>
    obtain rfl := List.length_eq_zero_iff.mp (Nat.le_zero.mp short)
    cases read
    exact ⟨[], (List.append_nil _).symm, .finish rfl⟩
  | succ rounds ih =>
    cases ahead : cs.dropWhile Text.isBlank with
    | nil =>
      cases (statements_end ahead).symm.trans read
      exact ⟨[], (List.append_nil _).symm, .finish ahead⟩
    | cons c front =>
      have passed := length_lt_of_ahead ahead
      by_cases semicolon : c = ';'
      · subst semicolon
        rw [statements_semicolon ahead] at read
        obtain ⟨ps, rfl, others⟩ := ih (by omega) (by omega) read
        exact ⟨ps, rfl, .semicolon ahead others⟩
      · rw [statements_statement ahead semicolon] at read
        obtain ⟨e, behind, statement, read⟩ := bind_eq_ok read
        have statement := commit_eq_ok (describe_eq_ok statement)
        have less := assignment_shorter (Nat.le_trans passed few) statement
        rw [List.length_cons] at less
        rcases afterStatement_eq_ok read with ⟨ends, rfl⟩ | ⟨others, separated, read⟩
        · exact ⟨[e], List.reverse_cons, .last ahead semicolon statement ends⟩
        · have passed' := length_lt_of_ahead separated
          obtain ⟨ps, rfl, more⟩ := ih (by omega) (by omega) read
          refine ⟨e :: ps, ?_, .next ahead semicolon statement separated more⟩
          rw [List.reverse_cons, List.append_assoc]
          rfl

/-- The loop reads the statements to the end, if it has a round for each character. -/
theorem Statements.read (stated : Statements steps cs ps) (short : cs.length ≤ rounds)
    (few : cs.length ≤ steps) (done : List Expr) :
    statements steps rounds done cs = .ok (done.reverse ++ ps) [] := by
  induction stated generalizing rounds done with
  | @finish cs ends =>
    rw [List.append_nil]
    cases rounds with
    | zero =>
      obtain rfl := List.length_eq_zero_iff.mp (Nat.le_zero.mp short)
      rfl
    | succ rounds => exact statements_end ends
  | @semicolon cs rest program ahead others ih =>
    obtain ⟨rounds, rfl, fits⟩ := exists_round ahead short
    rw [statements_semicolon ahead]
    exact ih fits (Nat.le_trans (Nat.le_of_lt (length_lt_of_ahead ahead)) few) done
  | @last cs front rest c e ahead other read ends =>
    obtain ⟨rounds, rfl, -⟩ := exists_round ahead short
    rw [statements_statement ahead other, bind_ok (describe_ok _ (commit_ok read)),
      afterStatement_end ends, List.reverse_cons]
  | @next cs front rest behind c e program ahead other read separated others ih =>
    have passed := length_lt_of_ahead ahead
    have passed' := length_lt_of_ahead separated
    have less := assignment_shorter (Nat.le_trans passed few) read
    rw [List.length_cons] at less
    obtain ⟨rounds, rfl, -⟩ := exists_round ahead short
    rw [statements_statement ahead other, bind_ok (describe_ok _ (commit_ok read)),
      afterStatement_semicolon separated, ih (by omega) (by omega), List.reverse_cons,
      List.append_assoc]
    rfl

/-- A statement is read alike where the text stops, and by loops with more rounds. -/
theorem assignment_stop (stop : Stop tail) (fewer : steps ≤ more) (short : cs.length ≤ steps)
    (read : assignment steps maxFrames cs = .ok e rest) :
    rest.length ≤ cs.length ∧ assignment more maxFrames (cs ++ tail) = .ok e (rest ++ tail) :=
  (carries_recursive stop fewer maxFrames).1.value short read

/-- Loops with more rounds read the same statements. -/
theorem Statements.mono (stated : Statements steps cs ps) (few : cs.length ≤ steps)
    (fewer : steps ≤ more) : Statements more cs ps := by
  induction stated with
  | finish ends => exact .finish ends
  | @semicolon cs rest program ahead others ih =>
    exact .semicolon ahead (ih (Nat.le_trans (Nat.le_of_lt (length_lt_of_ahead ahead)) few))
  | @last cs front rest c e ahead other read ends =>
    have room : (c :: front).length ≤ steps := Nat.le_trans (length_lt_of_ahead ahead) few
    obtain ⟨-, again⟩ := assignment_stop .finish fewer room read
    rw [List.append_nil, List.append_nil] at again
    exact .last ahead other again ends
  | @next cs front rest behind c e program ahead other read separated others ih =>
    have room : (c :: front).length ≤ steps := Nat.le_trans (length_lt_of_ahead ahead) few
    obtain ⟨less, again⟩ := assignment_stop .finish fewer room read
    rw [List.append_nil, List.append_nil] at again
    have passed := Nat.le_trans (Nat.le_of_lt (length_lt_of_ahead separated)) less
    exact .next ahead other again separated (ih (Nat.le_trans passed room))

/-- **Statements go on behind a semicolon.** No statement runs on over it. -/
theorem Statements.append (front : Statements steps cs ps) (few : cs.length ≤ steps)
    (fewer : steps ≤ more) (back : Statements more rest qs) :
    Statements more (cs ++ ';' :: rest) (ps ++ qs) := by
  have stop := Stop.semicolon rest
  induction front with
  | @finish cs ends => exact .semicolon (by rw [dropBlank_stop stop, ends]; rfl) back
  | @semicolon cs behind program ahead others ih =>
    exact .semicolon (by rw [dropBlank_stop stop, ahead]; rfl)
      (ih (Nat.le_trans (Nat.le_of_lt (length_lt_of_ahead ahead)) few))
  | @last cs front behind c e ahead other read ends =>
    have room : (c :: front).length ≤ steps := Nat.le_trans (length_lt_of_ahead ahead) few
    obtain ⟨-, again⟩ := assignment_stop stop fewer room read
    exact .next (by rw [dropBlank_stop stop, ahead]; rfl) other again
      (by rw [dropBlank_stop stop, ends]; rfl) back
  | @next cs front behind others c e program ahead other read separated more ih =>
    have room : (c :: front).length ≤ steps := Nat.le_trans (length_lt_of_ahead ahead) few
    obtain ⟨less, again⟩ := assignment_stop stop fewer room read
    have passed := Nat.le_trans (Nat.le_of_lt (length_lt_of_ahead separated)) less
    exact .next (by rw [dropBlank_stop stop, ahead]; rfl) other again
      (by rw [dropBlank_stop stop, separated]; rfl) (ih (Nat.le_trans passed room))

end

end Grammar

/-- A text is a program if its statements are read to the end. -/
theorem parse_eq_ok_iff {source : String} {program : Program} : parse source = .ok program ↔
    Grammar.Statements source.toList.length source.toList program := by
  have room := Nat.le_refl source.toList.length
  unfold parse
  dsimp only
  constructor
  · intro parsed
    split at parsed
    · next rest read =>
      cases parsed
      obtain ⟨ps, rfl, stated⟩ := Grammar.Statements.of_read room room read
      exact stated
    · cases parsed
  · intro stated
    have read : Grammar.program source.toList.length source.toList = .ok program [] :=
      stated.read room room []
    rw [read]

/-- **Programs are put together with a semicolon**: the text of two programs with a semicolon between
them is the program of the statements of both. -/
theorem parse_append {p q : String} {ps qs : Program} (front : parse p = .ok ps)
    (back : parse q = .ok qs) : parse (p ++ ";" ++ q) = .ok (ps ++ qs) := by
  rw [parse_eq_ok_iff] at front back ⊢
  have text : (p ++ ";" ++ q).toList = p.toList ++ ';' :: q.toList := by
    rw [String.toList_append, String.toList_append, List.append_assoc]
    rfl
  have length : (p.toList ++ ';' :: q.toList).length = p.toList.length + (q.toList.length + 1) := by
    rw [List.length_append, List.length_cons]
  rw [text]
  exact front.append (Nat.le_refl _) (by omega) (back.mono (Nat.le_refl _) (by omega))

/-- The semicolon in a quoted text ends no statement. -/
theorem parse_append_quoted : ∃ ps qs, parse "x.k = y " = .ok ps ∧ parse "'a;'; b" = .ok qs ∧
    ps.print = "x.k = y" ∧ qs.print = "\"a;\"; b" ∧
    parse ("x.k = y " ++ ";" ++ "'a;'; b") = .ok (ps ++ qs) := by
  have front : (parse "x.k = y ").toOption.map Program.print = some "x.k = y" := by
    decide +kernel
  have back : (parse "'a;'; b").toOption.map Program.print = some "\"a;\"; b" := by
    decide +kernel
  cases read : parse "x.k = y " with
  | error e =>
    rw [read] at front
    cases front
  | ok ps =>
    cases read' : parse "'a;'; b" with
    | error e =>
      rw [read'] at back
      cases back
    | ok qs =>
      rw [read] at front
      rw [read'] at back
      exact ⟨ps, qs, rfl, rfl, Option.some.inj front, Option.some.inj back,
        parse_append read read'⟩

end FormLogic
