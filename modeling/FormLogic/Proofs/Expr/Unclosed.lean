import FormLogic.Proofs.Expr.Concatenation
import FormLogic.Proofs.Expr.Triple

/-!
# `FormLogic.Proofs.Expr.Unclosed` — a text with an open quote is no program

Outside quoted texts no rule of the grammar takes a quote. So what passes on from the characters ahead
over each character that is no quote, and over each quoted text as a whole, passes on over all that a
rule reads. That a quote is opened and never closed is such a property, and a program is read to the
end, where it does not hold.

## Contents
- `behindQuote?`, `LeavesOpen`: what is behind a quoted text, and texts that leave a quote open.
- `Inherited`, `Keeps`: properties that pass on over characters and quoted texts, and the parsers
  over which they do.
- `keeps_primary`, `keeps_unaryBody`, `keeps_assignmentBody`: the rules of the grammar.
- `parse_of_leavesOpen`: a text that leaves a quote open is refused.
-/

namespace FormLogic

namespace Grammar

open FormLogic.Parser

/-! ## Open quotes -/

/-- The characters that open a quoted text, and close it again. -/
def quotes : List Char :=
  ['"', '\'']

/-- What is behind the closing quote, if there is one. A backslash takes the next character with it. -/
def behindQuote? (quote : Char) : List Char → Option (List Char)
  | [] => none
  | c :: rest =>
    if c = quote then some rest
    else if c = '\\' then
      match rest with
      | [] => none
      | _ :: rest => behindQuote? quote rest
    else behindQuote? quote rest

/-- Whether there is no quote in the text. -/
def isQuoteless (text : String) : Bool :=
  text.toList.all fun c => c ∉ quotes

/-- The text opens a quote and never closes it, possibly behind other quoted texts. -/
inductive LeavesOpen : List Char → Prop where
  | never {quote : Char} {cs : List Char} (opens : quote ∈ quotes)
      (unclosed : behindQuote? quote cs = none) : LeavesOpen (quote :: cs)
  | behind {quote : Char} {cs rest : List Char} (opens : quote ∈ quotes)
      (closed : behindQuote? quote cs = some rest) (later : LeavesOpen rest) :
      LeavesOpen (quote :: cs)
  | other {c : Char} {cs : List Char} (other : c ∉ quotes) (later : LeavesOpen cs) :
      LeavesOpen (c :: cs)

theorem not_leavesOpen_nil : ¬ LeavesOpen [] :=
  nofun

/-- A quoted text is read up to its closing quote. -/
theorem behindQuote?_of_textAfter {quote : Char} {content cs rest : List Char} {s : String}
    (read : textAfter quote content cs = .ok s rest) : behindQuote? quote cs = some rest := by
  fun_induction textAfter quote content cs with
  | case1 => cases read
  | case2 content rest =>
    cases read
    rw [behindQuote?.eq_def]
    exact if_pos rfl
  | case3 => cases read
  | case4 content escaped rest other ih =>
    rw [behindQuote?.eq_def]
    dsimp only
    rw [if_neg other, if_pos rfl]
    exact ih read
  | case5 content c rest other other' ih =>
    rw [behindQuote?.eq_def]
    dsimp only
    rw [if_neg other, if_neg other']
    exact ih read

/-! ## What passes on -/

/-- What holds of the characters ahead holds behind the first one if that is no quote, and behind a
quoted text. -/
structure Inherited (P : List Char → Prop) : Prop where
  other : ∀ {c : Char} {cs : List Char}, P (c :: cs) → c ∉ quotes → P cs
  text : Triple P text fun _ => P

/-- An open quote stays open behind other characters and other quoted texts. -/
theorem inherited_leavesOpen : Inherited LeavesOpen where
  other := by
    intro c cs leaves noQuote
    cases leaves with
    | never opens => exact absurd opens noQuote
    | behind opens => exact absurd opens noQuote
    | other _ later => exact later
  text := by
    unfold text
    refine .bind (Q := fun quote cs => quote ∈ quotes ∧ LeavesOpen (quote :: cs))
      (.satisfy fun quote cs leaves opens => ⟨?_, leaves⟩) fun quote => .fact fun opens => ?_
    · simpa [quotes] using opens
    · intro cs s rest leaves read
      have closed := behindQuote?_of_textAfter read
      cases leaves with
      | never _ unclosed =>
        rw [closed] at unclosed
        cases unclosed
      | behind _ closed' later =>
        rw [closed] at closed'
        cases closed'
        exact later
      | other noQuote => exact absurd opens noQuote

/-- Wherever the parser succeeds, what held of the characters ahead holds of the rest. -/
def Keeps {α : Type} (P : List Char → Prop) (p : Parser α) : Prop :=
  Triple P p fun _ => P

namespace Keeps

variable {α β : Type} {P : List Char → Prop} {p q : Parser α}

theorem pure (a : α) : Keeps P (Pure.pure a) :=
  Triple.pure fun _ holds => holds

theorem bind {f : α → Parser β} (first : Keeps P p) (next : ∀ a, Keeps P (f a)) :
    Keeps P (p >>= f) :=
  Triple.bind first next

/-- A parser that never succeeds keeps everything. -/
theorem never (fails : ∀ cs, ∃ failure rest, p cs = .fail failure rest) : Keeps P p :=
  Triple.never fails

theorem ite {c : Prop} [Decidable c] (yes : Keeps P p) (no : Keeps P q) :
    Keeps P (if c then p else q) :=
  Triple.ite (fun _ => yes) fun _ => no

theorem commit (keeps : Keeps P p) : Keeps P (Parser.commit p) :=
  Triple.commit keeps

theorem describe {what : String} (keeps : Keeps P p) : Keeps P (Parser.describe what p) :=
  Triple.describe keeps

theorem optional (keeps : Keeps P p) : Keeps P (Parser.optional p) :=
  Triple.optional keeps fun _ holds => holds

theorem orElse (one : Keeps P p) (other : Keeps P q) : Keeps P (Parser.orElse p q) :=
  Triple.orElse one other

theorem ifFound {yes no : Parser β} (taken : Keeps P p) (there : Keeps P yes)
    (here : Keeps P no) : Keeps P (found p >>= fun b => if b = true then yes else no) :=
  Triple.ifFound taken there here

theorem notNext (good : Char → Bool) : Keeps P (Parser.notNext good) :=
  Triple.notNext fun _ holds => holds

theorem oneOf {table : List (String × α)} (each : ∀ entry ∈ table, Keeps P (token entry.1)) :
    Keeps P (Parser.oneOf table) :=
  Triple.oneOf each

theorem sepBy {separator : Parser β} (elem : Keeps P p) (apart : Keeps P separator) (steps : Nat) :
    Keeps P (Parser.sepBy steps p separator) :=
  (Triple.sepBy (A := fun _ => True) (elem.after fun _ _ holds => ⟨trivial, holds⟩) apart steps
    fun _ holds => holds).after fun _ _ holds => holds.2

end Keeps

theorem keeps_bounded {P : List Char → Prop} (e : Expr) : Keeps P (bounded e) :=
  .ite (.never fun _ => ⟨_, _, rfl⟩) (.pure e)

section

variable {P : List Char → Prop} {assignment unary : Parser Expr} (inherited : Inherited P)

include inherited

/-! ## Characters and tokens -/

section

variable {good : Char → Bool} (noQuote : quotes.any good = false)

include noQuote

omit inherited in
theorem not_mem_quotes {c : Char} (taken : good c = true) : c ∉ quotes :=
  fun quote => List.any_eq_false.mp noQuote c quote taken

theorem keeps_satisfy : Keeps P (satisfy good) :=
  Triple.satisfy fun _ _ holds taken => inherited.other holds (not_mem_quotes noQuote taken)

theorem Inherited.dropWhile {cs : List Char} (holds : P cs) : P (cs.dropWhile good) := by
  induction cs with
  | nil => exact holds
  | cons c cs ih =>
    rw [List.dropWhile_cons]
    split
    · next taken => exact ih (inherited.other holds (not_mem_quotes noQuote taken))
    · exact holds

theorem keeps_span : Keeps P (span good) :=
  Triple.span fun _ holds => inherited.dropWhile noQuote holds

theorem keeps_span1 : Keeps P (span1 good) :=
  Triple.span1 fun _ holds => inherited.dropWhile noQuote holds

end

theorem keeps_char {c : Char} (noQuote : c ∉ quotes) : Keeps P (char c) :=
  Triple.satisfy fun _ _ holds same => inherited.other holds (beq_iff_eq.mp same ▸ noQuote)

theorem dropBlank_inherited {cs : List Char} (holds : P cs) : P (cs.dropWhile Text.isBlank) :=
  inherited.dropWhile (by decide) holds

theorem keeps_blank : Keeps P blank :=
  Triple.blank fun _ holds => dropBlank_inherited inherited holds

theorem keeps_literal {text : String} (noQuote : isQuoteless text = true) :
    Keeps P (literal text) := by
  refine Triple.literal fun cs holds => ?_
  unfold isQuoteless at noQuote
  generalize text.toList = front at holds noQuote
  induction front with
  | nil => exact holds
  | cons c front ih =>
    obtain ⟨first, others⟩ := Bool.and_eq_true_iff.mp (List.all_cons.symm.trans noQuote)
    exact ih (inherited.other holds (of_decide_eq_true first)) others

theorem keeps_token {text : String} (noQuote : isQuoteless text = true) :
    Keeps P (token text) :=
  .bind (keeps_blank inherited) fun _ => keeps_literal inherited noQuote

theorem keeps_close {text what : String} (noQuote : isQuoteless text = true) :
    Keeps P (describe what (commit (token text))) :=
  (keeps_token inherited noQuote).commit.describe

theorem keeps_comma : Keeps P (token ",") :=
  keeps_token inherited (by decide)

/-! ## Words and constants -/

theorem keeps_name : Keeps P name :=
  .bind (keeps_satisfy inherited (by decide)) fun _ =>
    .bind (keeps_span inherited (by decide)) fun _ => .pure _

theorem keeps_keyword (word : String) : Keeps P (keyword word) :=
  .bind (keeps_name inherited) fun _ => .ite (.pure _) (.never fun _ => ⟨_, _, rfl⟩)

theorem keeps_digits : Keeps P (span1 Char.isDigit) :=
  keeps_span1 inherited (by decide)

theorem keeps_fraction : Keeps P fraction :=
  .bind (keeps_char inherited (by decide)) fun _ => keeps_digits inherited

theorem keeps_exponent : Keeps P exponent :=
  .bind (keeps_satisfy inherited (by decide)) fun _ =>
    .bind (.optional (keeps_satisfy inherited (by decide))) fun _ =>
      .bind (keeps_digits inherited) fun _ => .pure _

theorem keeps_number : Keeps P number :=
  .bind (keeps_digits inherited) fun _ =>
    .bind (.optional (keeps_fraction inherited)) fun _ =>
      .bind (.optional (keeps_exponent inherited)) fun _ => .pure _

/-! ## Primary expressions -/

theorem keeps_array (inner : Keeps P assignment) (steps : Nat) :
    Keeps P (array steps assignment) :=
  .bind (keeps_char inherited (by decide)) fun _ =>
    .bind (.sepBy inner (keeps_comma inherited) steps) fun _ =>
      .bind (.optional (keeps_comma inherited)) fun _ =>
        .bind (keeps_close inherited (by decide)) fun _ => .pure _

theorem keeps_entryKey : Keeps P entryKey :=
  .bind (keeps_blank inherited) fun _ => .orElse inherited.text <|
    .orElse (keeps_name inherited) <| .bind (keeps_digits inherited) fun _ => .pure _

theorem keeps_entry (inner : Keeps P assignment) : Keeps P (entry assignment) :=
  .bind (keeps_entryKey inherited) fun _ =>
    .bind (keeps_close inherited (by decide)) fun _ => .bind inner.commit fun _ => .pure _

theorem keeps_object (inner : Keeps P assignment) (steps : Nat) :
    Keeps P (object steps assignment) :=
  .bind (keeps_char inherited (by decide)) fun _ =>
    .bind (.sepBy (keeps_entry inherited inner) (keeps_comma inherited) steps) fun _ =>
      .bind (.optional (keeps_comma inherited)) fun _ =>
        .bind (keeps_close inherited (by decide)) fun _ => .pure _

theorem keeps_arrowParams (steps : Nat) : Keeps P (arrowParams steps) :=
  .bind (keeps_char inherited (by decide)) fun _ =>
    .bind (.sepBy (.bind (keeps_blank inherited) fun _ => keeps_name inherited)
      (keeps_comma inherited) steps) fun _ =>
      .bind (keeps_token inherited (by decide)) fun _ =>
        .bind (keeps_token inherited (by decide)) fun _ => .pure _

omit inherited in
theorem keeps_arrowBody (inner : Keeps P assignment) (params : List String) :
    Keeps P (arrowBody assignment params) :=
  .bind inner.commit.describe fun _ => .pure _

theorem keeps_parenthesized (inner : Keeps P assignment) (steps : Nat) :
    Keeps P (parenthesized steps assignment) := by
  refine .bind (.optional (keeps_arrowParams inherited steps)) fun params => ?_
  cases params with
  | some params => exact keeps_arrowBody inner params
  | none =>
    exact .bind (keeps_char inherited (by decide)) fun _ => .bind inner.commit fun _ =>
      .bind (keeps_close inherited (by decide)) fun _ => .pure _

theorem keeps_word (inner : Keeps P assignment) : Keeps P (word assignment) := by
  refine .bind (keeps_name inherited) fun name => ?_
  cases constant? name with
  | some value => exact .pure _
  | none =>
    exact .ifFound (keeps_token inherited (by decide)) (keeps_arrowBody inner [name]) (.pure _)

theorem keeps_primary (inner : Keeps P assignment) (steps : Nat) :
    Keeps P (primary steps assignment) := by
  refine .bind (keeps_blank inherited) fun _ => .describe ?_
  exact .orElse (.bind (keeps_number inherited) fun _ => .pure _) <|
    .orElse (.bind inherited.text fun _ => .pure _) <|
    .orElse (keeps_array inherited inner steps) <| .orElse (keeps_object inherited inner steps) <|
    .orElse (keeps_parenthesized inherited inner steps) (keeps_word inherited inner)

/-! ## Chains of member accesses and calls -/

theorem keeps_computedKey (inner : Keeps P assignment) : Keeps P (computedKey assignment) :=
  .bind inner.commit fun _ => .bind (keeps_close inherited (by decide)) fun _ => .pure _

theorem keeps_callArgs (inner : Keeps P assignment) (steps : Nat) :
    Keeps P (callArgs steps assignment) :=
  .bind (.sepBy inner (keeps_comma inherited) steps) fun _ =>
    .bind (keeps_close inherited (by decide)) fun _ => .pure _

theorem keeps_link (inner : Keeps P assignment) (steps : Nat) :
    Keeps P (link steps assignment) := by
  have sign {text : String} (noQuote : isQuoteless text = true) : Keeps P (token text) :=
    keeps_token inherited noQuote
  unfold link
  refine .ifFound (sign (by decide)) ?optional (.ifFound (sign (by decide)) ?point
    (.ifFound (sign (by decide)) ?bracket (.ifFound (sign (by decide)) ?call (.pure none))))
  case optional =>
    refine .ifFound (keeps_char inherited (by decide)) ?_ ?_
    · exact .bind (keeps_computedKey inherited inner) fun _ => .pure _
    · exact .bind (keeps_name inherited).commit.describe fun _ => .pure _
  case point =>
    have property : Keeps P (do blank; name) :=
      .bind (keeps_blank inherited) fun _ => keeps_name inherited
    exact .bind property.commit.describe fun _ => .pure _
  case bracket => exact .bind (keeps_computedKey inherited inner) fun _ => .pure _
  case call => exact .bind (keeps_callArgs inherited inner steps) fun _ => .pure _

theorem keeps_links (inner : Keeps P assignment) (steps rounds : Nat) (e : Expr) :
    Keeps P (links steps assignment rounds e) := by
  induction rounds generalizing e with
  | zero => exact .pure e
  | succ rounds ih =>
    refine .bind (keeps_link inherited inner steps) fun extend => ?_
    cases extend with
    | none => exact .pure e
    | some extend => exact .bind (keeps_bounded _) ih

theorem keeps_chain (inner : Keeps P assignment) (steps : Nat) : Keeps P (chain steps assignment) :=
  .bind (keeps_primary inherited inner steps) (keeps_links inherited inner steps steps)

/-! ## Operators -/

theorem keeps_oneOf {α : Type} {table : List (String × α)}
    (noQuote : ∀ entry ∈ table, isQuoteless entry.1 = true) : Keeps P (oneOf table) :=
  .oneOf fun entry mem => keeps_token inherited (noQuote entry mem)

theorem keeps_unaryOp : Keeps P unaryOp := by
  refine .orElse ?_ (keeps_oneOf inherited (by decide))
  exact .bind (keeps_token inherited (by decide)) fun _ => .bind (.notNext _) fun _ => .pure _

theorem keeps_unaryBody (inner : Keeps P assignment) (operand : Keeps P unary) (steps : Nat) :
    Keeps P (unaryBody steps assignment unary) := by
  refine .bind (keeps_blank inherited) fun _ => ?_
  refine .ifFound (keeps_keyword inherited "typeof") (.bind operand.commit fun _ => .pure _) ?_
  refine .ifFound (keeps_keyword inherited "delete")
    (.bind operand.commit fun _ => .ite (.pure _) (.never fun _ => ⟨_, _, rfl⟩)) ?_
  refine .bind (.optional (keeps_unaryOp inherited)) fun op => ?_
  cases op with
  | some op => exact .bind operand.commit fun _ => .pure _
  | none => exact keeps_chain inherited inner steps

omit inherited in
theorem keeps_infixMore {operator : Parser (Expr → Expr → Expr)} (operand : Keeps P unary)
    (sign : Keeps P operator) (rounds : Nat) (e : Expr) :
    Keeps P (infixMore unary operator rounds e) := by
  induction rounds generalizing e with
  | zero => exact .pure e
  | succ rounds ih =>
    refine .bind (.optional sign) fun join => ?_
    cases join with
    | none => exact .pure e
    | some join => exact .bind operand.commit fun _ => .bind (keeps_bounded _) ih

omit inherited in
theorem keeps_infixChain {operator : Parser (Expr → Expr → Expr)} (operand : Keeps P unary)
    (sign : Keeps P operator) (steps : Nat) : Keeps P (infixChain steps unary operator) :=
  .bind operand (keeps_infixMore operand sign steps)

theorem keeps_binaryOps {table : List (String × BinaryOp)}
    (noQuote : ∀ entry ∈ table, isQuoteless entry.1 = true) : Keeps P (binaryOps table) :=
  .bind (keeps_oneOf inherited noQuote) fun _ => .pure _

theorem keeps_logicalOp {text : String} (noQuote : isQuoteless text = true)
    (op : LogicalOp) : Keeps P (logicalOp text op) :=
  .bind (keeps_token inherited noQuote) fun _ => .pure _

theorem keeps_disjunction (operand : Keeps P unary) (steps : Nat) :
    Keeps P (disjunction steps unary) := by
  have products : Keeps P (multiplicative steps unary) :=
    keeps_infixChain operand (keeps_binaryOps inherited (by decide)) steps
  have sums : Keeps P (additive steps unary) :=
    keeps_infixChain products (keeps_binaryOps inherited (by decide)) steps
  have orders : Keeps P (relational steps unary) :=
    keeps_infixChain sums (keeps_binaryOps inherited (by decide)) steps
  have equalities : Keeps P (equality steps unary) :=
    keeps_infixChain orders (keeps_binaryOps inherited (by decide)) steps
  have conjunctions : Keeps P (conjunction steps unary) :=
    keeps_infixChain equalities (keeps_logicalOp inherited (by decide) .and) steps
  exact keeps_infixChain conjunctions (keeps_logicalOp inherited (by decide) .or) steps

theorem keeps_conditional (inner : Keeps P assignment) (operand : Keeps P unary) (steps : Nat) :
    Keeps P (conditional steps assignment unary) := by
  refine .bind (keeps_disjunction inherited operand steps) fun test => ?_
  refine .ifFound (.bind (keeps_token inherited (by decide)) fun _ => .notNext _)
    (.bind inner.commit fun _ => ?_) (.pure test)
  exact .bind (keeps_close inherited (by decide)) fun _ => .bind inner.commit fun _ => .pure _

theorem keeps_assignmentBody (inner : Keeps P assignment) (operand : Keeps P unary) (steps : Nat) :
    Keeps P (assignmentBody steps assignment unary) := by
  refine .bind (keeps_conditional inherited inner operand steps) fun target => ?_
  refine .ifFound (.bind (keeps_token inherited (by decide)) fun _ => .notNext _) ?_ (.pure target)
  exact .ite (.bind inner.commit fun _ => .pure _) (.never fun _ => ⟨_, _, rfl⟩)

/-! ## The recursive rules -/

theorem keeps_recursive (steps frames : Nat) :
    Keeps P (Grammar.assignment steps frames) ∧ Keeps P (Grammar.unary steps frames) := by
  induction frames with
  | zero =>
    constructor
    · exact .never fun cs => ⟨_, _, by unfold Grammar.assignment; rfl⟩
    · exact .never fun cs => ⟨_, _, by unfold Grammar.unary; rfl⟩
  | succ frames ih =>
    rw [assignment_succ, unary_succ]
    exact ⟨.bind (keeps_assignmentBody inherited ih.1 ih.2 steps) keeps_bounded,
      .bind (keeps_unaryBody inherited ih.1 ih.2 steps) keeps_bounded⟩

/-! ## Programs -/

/-- **What passes on over characters and quoted texts holds of the end of a program.** -/
theorem Statements.passes {steps : Nat} {cs : List Char} {program : Program}
    (stated : Statements steps cs program) (holds : P cs) : P [] := by
  have statement := (keeps_recursive inherited steps maxFrames).1
  induction stated with
  | finish ends => exact ends ▸ dropBlank_inherited inherited holds
  | semicolon ahead _ ih =>
    exact ih (inherited.other (ahead ▸ dropBlank_inherited inherited holds) (by decide))
  | last ahead _ read ends =>
    have behind := statement _ _ _ (ahead ▸ dropBlank_inherited inherited holds) read
    exact ends ▸ dropBlank_inherited inherited behind
  | next ahead _ read separated _ ih =>
    have behind := statement _ _ _ (ahead ▸ dropBlank_inherited inherited holds) read
    exact ih (inherited.other (separated ▸ dropBlank_inherited inherited behind) (by decide))

end

end Grammar

/-- **A text that leaves a quote open is refused.** -/
theorem parse_of_leavesOpen {source : String} (unclosed : Grammar.LeavesOpen source.toList) :
    ∃ e, parse source = .error e := by
  cases parsed : parse source with
  | error e => exact ⟨e, rfl⟩
  | ok program =>
    have stated := parse_eq_ok_iff.mp parsed
    exact absurd (stated.passes Grammar.inherited_leavesOpen unclosed) Grammar.not_leavesOpen_nil

end FormLogic
