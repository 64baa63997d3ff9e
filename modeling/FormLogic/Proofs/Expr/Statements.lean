import FormLogic.Expr.Grammar
import FormLogic.Proofs.Expr.Replies

/-!
# `FormLogic.Proofs.Expr.Statements` — the loop over the statements, one round at a time

What a round of the loop does is known from the first character behind the white space: at the end
the loop ends, a semicolon is an empty statement, and everything else has to be a statement with the
end or a semicolon behind it.

## Contents
- `statements_end`, `statements_semicolon`, `statements_statement`: one round.
- `afterStatement`: what is read behind a statement.
-/

namespace FormLogic

namespace Grammar

open FormLogic.Parser

variable {steps rounds : Nat} {done : List Expr} {cs rest : List Char} {program : Program}

theorem atEnd_cons (c : Char) (cs : List Char) : atEnd (c :: cs) = .ok false (c :: cs) :=
  rfl

/-- The loop ends with the text. -/
theorem statements_end (ends : cs.dropWhile Text.isBlank = []) :
    statements steps (rounds + 1) done cs = .ok done.reverse [] := by
  rw [statements_succ, blank_bind, ends]
  rfl

/-- An empty statement. -/
theorem statements_semicolon (ahead : cs.dropWhile Text.isBlank = ';' :: rest) :
    statements steps (rounds + 1) done cs = statements steps rounds done rest := by
  rw [statements_succ, blank_bind, ahead]
  refine (bind_ok (atEnd_cons ';' rest) _).trans ?_
  exact ifFound_ok (char_ok ';' rest)

/-- What is read behind a statement: the end, or a semicolon and further statements. -/
def afterStatement (steps rounds : Nat) (done : List Expr) : Parser Program := do
  blank
  if ← atEnd then
    return done.reverse
  else
    let _ ← describe "';'" (commit (char ';'))
    statements steps rounds done

/-- One statement. -/
theorem statements_statement {c : Char} (ahead : cs.dropWhile Text.isBlank = c :: rest)
    (other : c ≠ ';') : statements steps (rounds + 1) done cs =
      (do let statement ← describe "statement" (commit (assignment steps maxFrames))
          afterStatement steps rounds (statement :: done) : Parser Program) (c :: rest) := by
  rw [statements_succ, blank_bind, ahead]
  refine (bind_ok (atEnd_cons c rest) _).trans ?_
  exact ifFound_misses (char_misses other rest)

theorem afterStatement_end (ends : cs.dropWhile Text.isBlank = []) :
    afterStatement steps rounds done cs = .ok done.reverse [] := by
  unfold afterStatement
  rw [blank_bind, ends]
  rfl

theorem afterStatement_semicolon (ahead : cs.dropWhile Text.isBlank = ';' :: rest) :
    afterStatement steps rounds done cs = statements steps rounds done rest := by
  unfold afterStatement
  rw [blank_bind, ahead]
  refine (bind_ok (atEnd_cons ';' rest) _).trans ?_
  exact bind_ok (describe_ok "';'" (commit_ok (char_ok ';' rest))) _

/-- Behind a statement stands the end or a semicolon. -/
theorem afterStatement_eq_ok (read : afterStatement steps rounds done cs = .ok program rest) :
    (cs.dropWhile Text.isBlank = [] ∧ program = done.reverse) ∨
      ∃ behind, cs.dropWhile Text.isBlank = ';' :: behind ∧
        statements steps rounds done behind = .ok program rest := by
  unfold afterStatement at read
  rw [blank_bind] at read
  cases ahead : cs.dropWhile Text.isBlank with
  | nil =>
    rw [ahead] at read
    cases read
    exact .inl ⟨rfl, rfl⟩
  | cons c behind =>
    rw [ahead] at read
    obtain ⟨_, between, reply, read⟩ := bind_eq_ok (p := describe "';'" (commit (char ';'))) read
    have reply := commit_eq_ok (describe_eq_ok reply)
    by_cases semicolon : c = ';'
    · subst semicolon
      cases (char_ok ';' behind).symm.trans reply
      exact .inr ⟨behind, rfl, read⟩
    · obtain ⟨_, _, fails, -⟩ := char_misses semicolon behind
      cases fails.symm.trans reply

end Grammar

end FormLogic
