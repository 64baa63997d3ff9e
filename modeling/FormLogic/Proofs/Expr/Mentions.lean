import FormLogic.Proofs.Expr.Built
import FormLogic.Proofs.Expr.Names

/-!
# `FormLogic.Proofs.Expr.Mentions` — a text mentions the names of its program

Which slots an expression can see is found out by looking for their names as whole words in the
text, before the text is read. So every name of the program that the text reads as has to be a word
of the text. It is: a variable is only ever read at a place between words
(`FormLogic.Proofs.Expr.Built`).

## Contents
- `mentions_of_parse`: the names of a program are mentioned; `mentions_of_ident`: wherever a variable
  stands in it.
-/

namespace FormLogic

variable {source word : String} {program : Program}

theorem Grammar.Built.mentions {e : Expr} (built : Grammar.Built source.toList e)
    (used : (Expr.ident word).IsPartOf e) (whole : ∀ c ∈ word.toList, isWordPart c = true) :
    mentions source word = true := by
  unfold FormLogic.mentions
  rw [List.contains_iff_mem]
  exact (built _ used).2 word rfl whole

/-- **A text mentions the names of its program**, if they look like words. -/
theorem mentions_of_parse (parsed : parse source = .ok program) (used : word ∈ program.names)
    (whole : ∀ c ∈ word.toList, isWordPart c = true) : mentions source word = true := by
  obtain ⟨statement, mem, used⟩ := Expr.mem_namesOfItems.mp used
  exact (program_built parsed statement mem).1.mentions (Expr.mem_names_iff.mp used) whole

/-- **A text mentions each variable of its program**, wherever it stands in a statement. -/
theorem mentions_of_ident (parsed : parse source = .ok program) {statement : Expr}
    (mem : statement ∈ program) (used : (Expr.ident word).IsPartOf statement)
    (whole : ∀ c ∈ word.toList, isWordPart c = true) : mentions source word = true :=
  (program_built parsed statement mem).1.mentions used whole

/-- A variable in the body of a function, between a number and a text that is not ASCII. -/
theorem mentions_of_ident_callback :
    ∃ program statement, parse "a; x.some(y=>2-data_2/'é')" = .ok program ∧ statement ∈ program ∧
      (Expr.ident "data_2").IsPartOf statement ∧
      mentions "a; x.some(y=>2-data_2/'é')" "data_2" = true := by
  have names : (parse "a; x.some(y=>2-data_2/'é')").toOption.map Program.names =
      some ["a", "x", "data_2"] := by decide +kernel
  cases parsed : parse "a; x.some(y=>2-data_2/'é')" with
  | error e =>
    rw [parsed] at names
    cases names
  | ok program =>
    rw [parsed] at names
    have named : "data_2" ∈ program.names := by
      rw [Option.some.inj names]
      decide
    obtain ⟨statement, mem, used⟩ := Expr.mem_namesOfItems.mp named
    have within := Expr.mem_names_iff.mp used
    have whole : ∀ c ∈ "data_2".toList, isWordPart c = true := List.all_eq_true.mp (by decide)
    exact ⟨program, statement, rfl, mem, within, mentions_of_ident parsed mem within whole⟩

end FormLogic
