import FormLogic.Proofs.Eval.Confinement
import FormLogic.Proofs.Heap.RefTree
import Mathlib.Data.Finset.Card
import Mathlib.Data.List.DropRight

/-!
# `FormLogic.Proofs.Eval.Session` — the programs that are kept do not show

An interpreter keeps the programs that it has read. A host that goes on using the same interpreter,
changes the graphs in between and has the programs dropped now and then, finds at each point what a
fresh interpreter would do there. The only thing that shows is how many programs are kept: as many as
there are different texts since they were last dropped that are programs.

## Contents
- `Command`, `Command.perform`: what a host does with an interpreter; `Command.effect`: what becomes
  of the graphs if each evaluation has an interpreter of its own.
- `evaluate_congr`, `mem_texts_evaluate`: one evaluation.
- `mem_texts_session`, `heap_session`, `session_invisible`: all that a host does.
-/

namespace FormLogic

/-- What a host does with an interpreter: it has a text evaluated or the programs dropped, or it
changes the graphs on its own. -/
inductive Command where
  | evaluate (source : String) (ctx : Context)
  | clear
  | edit (change : Heap → Heap)

namespace Command

/-- The world after a command. -/
def perform (w : World Interpreter) : Command → World Interpreter
  | evaluate source ctx => (Interpreter.evaluate source ctx w).2
  | clear => { w with host := w.host.clear }
  | edit change => { w with heap := change w.heap }

/-- The heap after a command, if an interpreter that has read nothing evaluates. -/
def effect (h : Heap) : Command → Heap
  | evaluate source ctx => (Interpreter.evaluate source ctx ⟨h, .fresh⟩).2.heap
  | clear => h
  | edit change => change h

/-- Whether the command drops the programs. -/
def isClear : Command → Bool
  | clear => true
  | _ => false

/-- The text that is evaluated. -/
def text? : Command → Option String
  | evaluate source _ => some source
  | _ => none

/-- The texts that have been evaluated since the programs were last dropped. -/
def textsSinceClear (commands : List Command) : List String :=
  (commands.rtakeWhile fun command => !command.isClear).filterMap text?

theorem textsSinceClear_concat (commands : List Command) (command : Command) :
    textsSinceClear (commands ++ [command]) =
      if command.isClear then [] else textsSinceClear commands ++ command.text?.toList := by
  unfold textsSinceClear
  rw [List.rtakeWhile_concat]
  cases command <;> simp [isClear, text?]

end Command

/-- Whether the text is a program. -/
def isProgram (source : String) : Bool :=
  (parse source).isOk

namespace Interpreter

variable {source : String} {program : Program}

/-! ## One evaluation -/

/-- What an interpreter has read does not show in its answers, nor in what becomes of the heap. -/
theorem evaluate_congr (source : String) (ctx : Context) (h : Heap) (i j : Interpreter) :
    (evaluate source ctx ⟨h, i⟩).1 = (evaluate source ctx ⟨h, j⟩).1 ∧
      (evaluate source ctx ⟨h, i⟩).2.heap = (evaluate source ctx ⟨h, j⟩).2.heap := by
  cases parsed : parse source with
  | error e =>
    rw [evaluate_of_parse_error parsed, evaluate_of_parse_error parsed]
    exact ⟨rfl, rfl⟩
  | ok program =>
    obtain ⟨_, evaluated⟩ := evaluate_of_parse parsed i
    obtain ⟨_, evaluated'⟩ := evaluate_of_parse parsed j
    rw [evaluated, evaluated']
    exact ⟨rfl, rfl⟩

/-- The texts whose programs an interpreter keeps. -/
def texts (i : Interpreter) : List String :=
  i.programs.keys

/-- Reading a program adds its text to those that are kept. -/
theorem mem_texts_program {i i' : Interpreter} (found : i.program source = .ok (program, i'))
    (text : String) : text ∈ i'.texts ↔ text ∈ i.texts ∨ text = source := by
  unfold Interpreter.program at found
  cases known : i.programs.get? source with
  | some kept =>
    rw [known] at found
    cases found
    -- the text is among those that are kept already
    have mem : source ∈ i.texts := List.mem_map_of_mem (mem_of_valueAt? known)
    refine ⟨Or.inl, ?_⟩
    rintro (old | rfl)
    · exact old
    · exact mem
  | none =>
    rw [known] at found
    dsimp only at found
    split at found
    · cases found
      unfold texts keep
      rw [Fields.keys_insert]
      split
      · next mem =>
        refine ⟨Or.inl, ?_⟩
        rintro (old | rfl)
        · exact old
        · exact mem
      · rw [List.mem_append, List.mem_singleton]
    · cases found

/-- An evaluation adds its text to those that are kept, if it is a program. -/
theorem mem_texts_evaluate (source : String) (ctx : Context) (w : World Interpreter)
    (text : String) : text ∈ (evaluate source ctx w).2.host.texts ↔
      text ∈ w.host.texts ∨ (text = source ∧ isProgram source = true) := by
  obtain ⟨h, i⟩ := w
  unfold isProgram
  cases parsed : parse source with
  | error e =>
    rw [evaluate_of_parse_error parsed]
    simp [Except.isOk, Except.toBool]
  | ok program =>
    obtain ⟨i', found⟩ := program_of_parse (i := i) parsed
    have kept : (evaluate source ctx ⟨h, i⟩).2.host = i' := by
      unfold evaluate
      simp only [found]
      generalize Eval.run program ⟨h, .ofContext ctx⟩ = x
      rcases x with ⟨_ | _, _⟩ <;> rfl
    rw [kept, mem_texts_program found]
    simp [Except.isOk, Except.toBool]

/-- There is one program for each text. -/
theorem size_eq (i : Interpreter) : i.size = i.texts.toFinset.card := by
  have different : i.texts.Nodup := i.programs.nodup
  rw [List.toFinset_card_of_nodup different]
  exact (List.length_map _).symm

/-! ## All that a host does -/

/-- What the interpreter keeps after some commands are the programs among the texts that have been
evaluated since the programs were last dropped. -/
theorem mem_texts_session (commands : List Command) (h : Heap) (text : String) :
    text ∈ (commands.foldl Command.perform ⟨h, .fresh⟩).host.texts ↔
      text ∈ (Command.textsSinceClear commands).filter isProgram := by
  induction commands using List.reverseRecOn with
  | nil => rfl
  | append_singleton commands command ih =>
    rw [List.foldl_append, Command.textsSinceClear_concat]
    cases command with
    | evaluate source ctx =>
      show text ∈ (evaluate source ctx _).2.host.texts ↔ _
      rw [mem_texts_evaluate, ih]
      simp only [Command.isClear, Command.text?, Option.toList_some, Bool.false_eq_true, if_false,
        List.filter_append, List.mem_append, List.mem_filter, List.mem_singleton]
      refine or_congr_right (and_congr_right ?_)
      rintro rfl
      exact Iff.rfl
    | clear => rfl
    | edit change =>
      simp only [Command.isClear, Command.text?, Option.toList_none, Bool.false_eq_true, if_false,
        List.append_nil]
      exact ih

/-- The graphs become what they would become with an interpreter for each evaluation. -/
theorem heap_session (commands : List Command) (h : Heap) (i : Interpreter) :
    (commands.foldl Command.perform ⟨h, i⟩).heap = commands.foldl Command.effect h := by
  induction commands generalizing h i with
  | nil => rfl
  | cons command rest ih =>
    rw [List.foldl_cons, List.foldl_cons]
    cases command with
    | evaluate source ctx =>
      have same := (evaluate_congr source ctx h i .fresh).2
      exact (ih _ _).trans (congrArg (rest.foldl Command.effect) same)
    | clear => exact ih h _
    | edit change => exact ih (change h) i

/-- **The programs that are kept do not show.** Whatever a host has done with an interpreter that had
read nothing, the graphs are as if a fresh interpreter had been taken for each evaluation; at this
point every text is evaluated as by a fresh interpreter, with the same answer and the same changes of
the graphs; and there are as many programs as different texts, among those evaluated since the
programs were last dropped, that are programs. -/
theorem session_invisible (commands : List Command) (h : Heap) :
    let w := commands.foldl Command.perform ⟨h, .fresh⟩
    w.heap = commands.foldl Command.effect h ∧
      (∀ source ctx,
        (evaluate source ctx w).1 = (evaluate source ctx ⟨w.heap, .fresh⟩).1 ∧
          (evaluate source ctx w).2.heap = (evaluate source ctx ⟨w.heap, .fresh⟩).2.heap) ∧
      w.host.size = ((Command.textsSinceClear commands).filter isProgram).toFinset.card := by
  intro w
  refine ⟨heap_session commands h .fresh,
    fun source ctx => evaluate_congr source ctx w.heap w.host .fresh, ?_⟩
  rw [size_eq]
  congr 1
  ext text
  rw [List.mem_toFinset, List.mem_toFinset]
  exact mem_texts_session commands h text

end Interpreter

end FormLogic
