import FormLogic.Proofs.Expr.Between
import FormLogic.Proofs.Expr.Part
import FormLogic.Proofs.Expr.Readable
import Mathlib.Data.List.DropRight

/-!
# `FormLogic.Proofs.Expr.Built` — what the grammar builds

A program that is read has more to it than its type says. Left of `=` there is something that can be
assigned to, only members are deleted, names are names, none of the words with a meaning of their own
is used as a variable, and each variable stands in the text as a whole word. The rules of the grammar
are gone through one by one: started at a place between words, each of them reads expressions of which
this holds at every node. A variable is read last of all, when every other reading has failed; so what
the rules before it have missed has to be known down to there.

## Contents
- `Expr.IsWellFormed`: what holds of a node in itself.
- `Built`, `Reads`: expressions with such nodes, and the parsers that read them.
- `AtOperand`: places at which no operator is read that is written as a word.
- `reads_assignment_unary`, `assignment_height`: the two recursive rules.
- `program_built`: the statements of a program.
-/

namespace FormLogic

/-- The node is one that the grammar can build. -/
def Expr.IsWellFormed : Expr → Prop
  | .ident name => Grammar.isName name = true ∧ name ∉ Grammar.keywords
  | .member _ (.named property) _ => Grammar.isName property = true
  | .arrow params _ => ∀ param ∈ params, Grammar.isName param = true
  | .assign target _ => target.isAssignable = true
  | .delete target => target.isMember = true
  | _ => True

namespace Grammar

open FormLogic.Parser

variable {source : List Char}

/-! ## Expressions that are built -/

/-- Every node is well formed, and every variable is mentioned. -/
def Built (source : List Char) (e : Expr) : Prop :=
  e.Everywhere fun node => node.IsWellFormed ∧ ∀ name, node = .ident name → Mentioned source name

/-- An expression is built from built ones. -/
theorem Built.node {e : Expr} (other : ∀ name, e ≠ .ident name) (wellFormed : e.IsWellFormed)
    (parts : ∀ part ∈ e.children, Built source part) : Built source e :=
  Expr.Everywhere.node ⟨wellFormed, fun name same => absurd same (other name)⟩ parts

theorem Built.literal (value : Literal) : Built source (.literal value) :=
  .node nofun trivial nofun

theorem Built.ident {w : String} (named : isName w = true) (free : w ∉ keywords)
    (mentioned : Mentioned source w) : Built source (.ident w) := by
  refine Expr.Everywhere.node ⟨⟨named, free⟩, ?_⟩ nofun
  rintro _ ⟨⟩
  exact mentioned

/-- What is left behind an expression: it is built, and the rest is an end of the text. -/
def Left (source : List Char) (e : Expr) (rest : List Char) : Prop :=
  Built source e ∧ rest <:+ source

/-- Started between words, the parser reads expressions that are built. -/
abbrev Reads (source : List Char) (p : Parser Expr) : Prop :=
  Triple (Between source) p (Left source)

/-- The function makes built expressions of built ones. -/
def Extends (source : List Char) (f : Expr → Expr) : Prop :=
  ∀ e, Built source e → Built source (f e)

section

variable {assignment unary : Parser Expr}

theorem reads_bounded {e : Expr} {P : List Char → Prop} (left : ∀ cs, P cs → Left source e cs) :
    Triple P (bounded e) (Left source) :=
  .ite (fun _ => .never fun _ => ⟨_, _, rfl⟩) fun _ => .pure left

/-- Punctuation that has to follow. -/
theorem close_between {text what : String}
    (other : text.toList.getLast?.map isWordPart = some false) :
    Triple (· <:+ source) (describe what (commit (token text))) fun _ => Between source :=
  (token_between other).commit.describe

theorem optional_comma : Triple (· <:+ source) (optional (token ",")) fun _ => (· <:+ source) :=
  .optional ((token_between rfl).after fun _ _ between => between.suffix) fun _ within => within

/-- Expressions with commas between them. -/
theorem reads_items (reads : Reads source assignment) (steps : Nat) :
    Triple (Between source) (sepBy steps assignment (token ",")) fun items rest =>
      (∀ item ∈ items, Built source item) ∧ rest <:+ source :=
  .sepBy reads (token_between rfl) steps fun _ between => between.suffix

/-- An opening bracket at the start of an expression. -/
theorem open_between {c : Char} (other : isWordPart c = false) :
    Triple (Between source) (char c) fun _ => Between source :=
  (char_between other).mono (fun _ between => between.suffix) fun _ _ between => between

/-! ## Primary expressions -/

theorem reads_array (reads : Reads source assignment) (steps : Nat) :
    Reads source (array steps assignment) := by
  unfold array
  refine .bind (open_between rfl) fun _ => ?_
  refine .bind (reads_items reads steps) fun items => .fact fun built => ?_
  refine .bind optional_comma fun _ => ?_
  refine .bind (close_between rfl) fun _ => ?_
  exact .pure fun _ between => ⟨.node nofun trivial built, between.suffix⟩

theorem entryKey_within : Triple (Between source) entryKey fun _ => (· <:+ source) := by
  unfold entryKey
  refine .bind blank_between fun _ => .orElse ?_ (.orElse ?_ ?_)
  · exact text_within.mono (fun _ between => between.suffix) fun _ _ within => within
  · exact name_mentioned.after fun _ _ holds => holds.2.suffix
  · refine .bind (digits_within.mono (fun _ between => between.suffix) fun _ _ within => within) ?_
    exact fun _ => .pure fun _ within => within

theorem reads_entry (reads : Reads source assignment) :
    Triple (Between source) (entry assignment) fun entry rest =>
      Built source entry.2 ∧ rest <:+ source := by
  unfold entry
  refine .bind entryKey_within fun key => ?_
  refine .bind (close_between rfl) fun _ => ?_
  refine .bind reads.commit fun value => ?_
  exact .pure fun _ left => left

theorem reads_object (reads : Reads source assignment) (steps : Nat) :
    Reads source (object steps assignment) := by
  unfold object
  refine .bind (open_between rfl) fun _ => ?_
  refine .bind (Triple.sepBy (reads_entry reads) (token_between rfl) steps
    fun _ between => between.suffix) fun entries => .fact fun built => ?_
  refine .bind optional_comma fun _ => ?_
  refine .bind (close_between rfl) fun _ => ?_
  refine .pure fun _ between => ⟨.node nofun trivial fun part mem => ?_, between.suffix⟩
  obtain ⟨entry, here, rfl⟩ := List.mem_map.mp mem
  exact built entry here

theorem reads_arrowBody (reads : Reads source assignment) {params : List String}
    (named : ∀ param ∈ params, isName param = true) : Reads source (arrowBody assignment params) := by
  unfold arrowBody
  refine .bind reads.commit.describe fun body => .fact fun built => ?_
  exact .pure fun _ within => ⟨.node nofun named (List.forall_mem_singleton.mpr built), within⟩

theorem arrowParams_named (steps : Nat) :
    Triple (Between source) (arrowParams steps) fun params rest =>
      (∀ param ∈ params, isName param = true) ∧ Between source rest := by
  have param : Triple (Between source) (do blank; name) fun param rest =>
      isName param = true ∧ rest <:+ source :=
    .bind blank_between fun _ =>
      name_named.and (name_mentioned.after fun _ _ holds => holds.2.suffix)
  unfold arrowParams
  refine .bind (open_between rfl) fun _ => ?_
  refine .bind (Triple.sepBy param (token_between rfl) steps fun _ between => between.suffix)
    fun params => .fact fun named => ?_
  refine .bind (token_between rfl) fun _ => ?_
  refine .bind ((token_between rfl).mono (fun _ between => between.suffix) fun _ _ h => h) fun _ => ?_
  exact .pure fun _ between => ⟨named, between⟩

theorem reads_parenthesized (reads : Reads source assignment) (steps : Nat) :
    Reads source (parenthesized steps assignment) := by
  unfold parenthesized
  refine .bind (Q := fun params rest =>
      (∀ names ∈ params, ∀ param ∈ names, isName param = true) ∧ Between source rest)
    (.optional ((arrowParams_named steps).after fun params rest holds => ?_)
      fun _ between => ⟨nofun, between⟩) fun params => .fact fun named => ?_
  · refine ⟨?_, holds.2⟩
    rintro _ ⟨⟩
    exact holds.1
  · cases params with
    | some params => exact reads_arrowBody reads (named params rfl)
    | none =>
      refine .bind (open_between rfl) fun _ => ?_
      refine .bind reads.commit fun inner => .fact fun built => ?_
      refine .bind (close_between rfl) fun _ => ?_
      exact .pure fun _ between => ⟨built, between.suffix⟩

/-- A place between words from where on no operator is read that is written as a word. -/
structure AtOperand (source ahead : List Char) : Prop where
  between : Between source ahead
  noOperator : ∀ w rest, name ahead = .ok w rest → w ∉ ["typeof", "delete"]

/-- What is neither a constant nor an operator is no keyword. -/
theorem not_mem_keywords {w : String} (noConstant : constant? w = none)
    (noOperator : w ∉ ["typeof", "delete"]) : w ∉ keywords := by
  unfold constant? at noConstant
  grind [keywords]

theorem reads_word (reads : Reads source assignment) :
    Triple (AtOperand source) (word assignment) (Left source) := by
  have free : Triple (AtOperand source) name fun w rest =>
      (isName w = true ∧ w ∉ ["typeof", "delete"] ∧ Mentioned source w) ∧ Between source rest := by
    intro cs w rest here ends
    obtain ⟨mentioned, between⟩ := name_mentioned cs w rest here.between ends
    exact ⟨⟨name_named cs w rest here ends, here.noOperator w rest ends, mentioned⟩, between⟩
  unfold word
  refine .bind free fun w => .fact fun ⟨named, noOperator, mentioned⟩ => ?_
  split
  · exact .pure fun _ between => ⟨.literal _, between.suffix⟩
  · next noConstant =>
    have arrow : Triple (Between source) (token "=>") fun _ => Between source :=
      (token_between rfl).mono (fun _ between => between.suffix) fun _ _ between => between
    refine .ifFound arrow (reads_arrowBody reads (List.forall_mem_singleton.mpr named)) ?_
    refine .pure fun _ between => ⟨?_, between.suffix⟩
    exact .ident named (not_mem_keywords noConstant noOperator) mentioned

theorem reads_primary (reads : Reads source assignment) (steps : Nat) :
    Triple (fun cs => AtOperand source (cs.dropWhile Text.isBlank)) (primary steps assignment)
      (Left source) := by
  have start : ∀ {p : Parser Expr}, Reads source p → Triple (AtOperand source) p (Left source) :=
    fun reads => reads.mono (fun _ here => here.between) fun _ _ left => left
  have number : Reads source (do return .literal (.number (← number))) :=
    .bind (number_within.mono (fun _ between => between.suffix) fun _ _ within => within)
      fun _ => .pure fun _ within => ⟨.literal _, within⟩
  have text : Reads source (do return .literal (.string (← text))) :=
    .bind (text_within.mono (fun _ between => between.suffix) fun _ _ within => within)
      fun _ => .pure fun _ within => ⟨.literal _, within⟩
  unfold primary
  refine .bind (Q := fun _ => AtOperand source) (.blank fun _ here => here) fun _ => .describe ?_
  refine .orElse (start number) <| .orElse (start text) <|
    .orElse (start (reads_array reads steps)) <| .orElse (start (reads_object reads steps)) <|
    .orElse (start (reads_parenthesized reads steps)) (reads_word reads)

/-! ## Chains of member accesses and calls -/

theorem reads_computedKey (reads : Reads source assignment) :
    Triple (Between source) (computedKey assignment) fun key rest =>
      (∃ inner, key = .computed inner ∧ Built source inner) ∧ rest <:+ source := by
  unfold computedKey
  refine .bind reads.commit fun key => .fact fun built => ?_
  refine .bind (close_between rfl) fun _ => ?_
  exact .pure fun _ between => ⟨⟨key, rfl, built⟩, between.suffix⟩

theorem reads_callArgs (reads : Reads source assignment) (steps : Nat) :
    Triple (Between source) (callArgs steps assignment) fun args rest =>
      (∀ arg ∈ args, Built source arg) ∧ rest <:+ source := by
  unfold callArgs
  refine .bind (reads_items reads steps) fun args => .fact fun built => ?_
  refine .bind (close_between rfl) fun _ => ?_
  exact .pure fun _ between => ⟨built, between.suffix⟩

/-- A name behind a point. -/
theorem extends_named {property : String} (named : isName property = true) (optional : Bool) :
    Extends source fun base => .member base (.named property) optional :=
  fun _ built => .node nofun named (List.forall_mem_singleton.mpr built)

/-- A key in brackets. -/
theorem extends_computed {key : Key Expr}
    (computed : ∃ inner, key = .computed inner ∧ Built source inner) (optional : Bool) :
    Extends source fun base => .member base key optional := by
  obtain ⟨inner, rfl, built'⟩ := computed
  intro base built
  exact .node nofun trivial (List.forall_mem_cons.mpr ⟨built, List.forall_mem_singleton.mpr built'⟩)

/-- Arguments in parentheses. -/
theorem extends_call {args : List Expr} (built' : ∀ arg ∈ args, Built source arg) :
    Extends source fun callee => .call callee args :=
  fun _ built => .node nofun trivial (List.forall_mem_cons.mpr ⟨built, built'⟩)

theorem reads_link (reads : Reads source assignment) (steps : Nat) :
    Triple (· <:+ source) (link steps assignment) fun extend rest =>
      (∀ f ∈ extend, Extends source f) ∧ rest <:+ source := by
  have property : Triple (Between source) name fun w rest => isName w = true ∧ rest <:+ source :=
    name_named.and (name_mentioned.after fun _ _ holds => holds.2.suffix)
  have some : ∀ {f : Expr → Expr}, Extends source f → ∀ f' ∈ some f, Extends source f' := by
    rintro f extends' _ ⟨⟩
    exact extends'
  unfold link
  refine .ifFound (token_between rfl) ?optional (.ifFound (token_between rfl) ?point
    (.ifFound (token_between rfl) ?bracket (.ifFound (token_between rfl) ?call ?none)))
  case optional =>
    refine .ifFound (open_between rfl) ?_ ?_
    · refine .bind (reads_computedKey reads) fun key => .fact fun computed => ?_
      exact .pure fun _ within => ⟨some (extends_computed computed true), within⟩
    · refine .bind property.commit.describe fun name => .fact fun named => ?_
      exact .pure fun _ within => ⟨some (extends_named named true), within⟩
  case point =>
    refine .bind (Triple.bind blank_between fun _ => property).commit.describe fun name =>
      .fact fun named => ?_
    exact .pure fun _ within => ⟨some (extends_named named false), within⟩
  case bracket =>
    refine .bind (reads_computedKey reads) fun key => .fact fun computed => ?_
    exact .pure fun _ within => ⟨some (extends_computed computed false), within⟩
  case call =>
    refine .bind (reads_callArgs reads steps) fun args => .fact fun built => ?_
    exact .pure fun _ within => ⟨some (extends_call built), within⟩
  case none => exact .pure fun _ within => ⟨nofun, within⟩

theorem reads_links (reads : Reads source assignment) (steps rounds : Nat) {e : Expr}
    (built : Built source e) :
    Triple (· <:+ source) (links steps assignment rounds e) (Left source) := by
  induction rounds generalizing e with
  | zero => exact .pure fun _ within => ⟨built, within⟩
  | succ rounds ih =>
    unfold links
    refine .bind (reads_link reads steps) fun extend => .fact fun extends' => ?_
    cases extend with
    | none => exact .pure fun _ within => ⟨built, within⟩
    | some extend =>
      refine .bind (reads_bounded fun _ within => ⟨extends' extend rfl e built, within⟩) fun e => ?_
      exact .fact ih

theorem reads_chain (reads : Reads source assignment) (steps : Nat) :
    Triple (fun cs => AtOperand source (cs.dropWhile Text.isBlank)) (chain steps assignment)
      (Left source) := by
  unfold chain
  exact .bind (reads_primary reads steps) fun _ => .fact (reads_links reads steps steps)

/-! ## Operators -/

theorem unaryOp_between : Triple (Between source) unaryOp fun _ => Between source := by
  have sign : ∀ {text : String}, text.toList.getLast?.map isWordPart = some false →
      Triple (Between source) (token text) fun _ => Between source :=
    fun other => (token_between other).mono (fun _ between => between.suffix) fun _ _ h => h
  unfold unaryOp
  refine .orElse ?_ (.oneOf fun entry mem => ?_)
  · refine .bind (sign rfl) fun _ => ?_
    exact .bind (.notNext (Q := fun _ => Between source) fun _ between => between) fun _ =>
      .pure fun _ between => between
  · simp only [List.mem_cons, List.not_mem_nil, or_false] at mem
    rcases mem with rfl | rfl <;> exact sign rfl

/-- Where both operators that are written as words are missing, no such word is read. -/
theorem AtOperand.of_misses {cs : List Char} (between : Between source cs)
    (noTypeof : Misses (keyword "typeof") cs) (noDelete : Misses (keyword "delete") cs) :
    AtOperand source cs := by
  refine ⟨between, fun w rest read mem => ?_⟩
  have hit : ¬ Misses (keyword w) cs := by
    rintro ⟨failure, rest', fails, _⟩
    cases (keyword_ok read).symm.trans fails
  simp only [List.mem_cons, List.not_mem_nil, or_false] at mem
  rcases mem with rfl | rfl
  · exact hit noTypeof
  · exact hit noDelete

theorem reads_unaryBody (reads : Reads source assignment) (reads' : Reads source unary)
    (steps : Nat) : Reads source (unaryBody steps assignment unary) := by
  unfold unaryBody
  -- white space has been passed over, so none is passed over again before the operand
  refine .bind (Q := fun _ cs => Between source cs ∧ cs.dropWhile Text.isBlank = cs)
    (.blank fun cs between => ⟨between.dropBlank, List.dropWhile_idempotent ..⟩) fun _ => ?_
  have word : ∀ w, Triple (fun cs => Between source cs ∧ cs.dropWhile Text.isBlank = cs) (keyword w)
      fun _ => Between source :=
    fun w => (keyword_between w).mono (fun _ holds => holds.1) fun _ _ between => between
  refine .ifFound_or_misses (word _) ?typeof (.ifFound_or_misses
    ((word _).mono (fun _ holds => holds.1) fun _ _ between => between) ?delete ?operand)
  case typeof =>
    refine .bind reads'.commit fun operand => .fact fun built => ?_
    exact .pure fun _ within =>
      ⟨.node nofun trivial (List.forall_mem_singleton.mpr built), within⟩
  case delete =>
    refine .bind reads'.commit fun target => .fact fun built => .ite (fun member => ?_) fun _ => ?_
    · exact .pure fun _ within =>
        ⟨.node nofun member (List.forall_mem_singleton.mpr built), within⟩
    · exact .never fun cs => ⟨_, _, rfl⟩
  case operand =>
    refine .bind (Q := fun op cs => if op.isSome then Between source cs else
        AtOperand source (cs.dropWhile Text.isBlank)) (.optional ?_ ?_) fun op => ?_
    · exact unaryOp_between.mono (fun _ holds => holds.1.1.1) fun _ _ between => between
    · rintro cs ⟨⟨⟨between, passed⟩, noTypeof⟩, noDelete⟩
      rw [passed]
      exact .of_misses between noTypeof noDelete
    · cases op with
      | none => exact reads_chain reads steps
      | some op =>
        refine .bind reads'.commit fun operand => .fact fun built => ?_
        exact .pure fun _ within =>
          ⟨.node nofun trivial (List.forall_mem_singleton.mpr built), within⟩

/-- An operator between operands, that builds from two expressions. -/
abbrev Joins (source : List Char) (operator : Parser (Expr → Expr → Expr)) : Prop :=
  Triple (· <:+ source) operator fun join rest =>
    (∀ e e', Built source e → Built source e' → Built source (join e e')) ∧ Between source rest

theorem reads_infixMore {operand : Parser Expr} {operator : Parser (Expr → Expr → Expr)}
    (reads : Reads source operand) (joins : Joins source operator) (rounds : Nat) {e : Expr}
    (built : Built source e) :
    Triple (· <:+ source) (infixMore operand operator rounds e) (Left source) := by
  induction rounds generalizing e with
  | zero => exact .pure fun _ within => ⟨built, within⟩
  | succ rounds ih =>
    unfold infixMore
    refine .bind (Q := fun join rest => match join with
      | some join => (∀ e e', Built source e → Built source e' → Built source (join e e')) ∧
          Between source rest
      | none => rest <:+ source) (.optional joins fun _ within => within) fun join => ?_
    cases join with
    | none => exact .pure fun _ within => ⟨built, within⟩
    | some join =>
      refine .fact fun joined => .bind reads.commit fun rhs => .fact fun built' => ?_
      exact .bind (reads_bounded fun _ within => ⟨joined e rhs built built', within⟩) fun e => .fact ih

theorem reads_infixChain {operand : Parser Expr} {operator : Parser (Expr → Expr → Expr)}
    (reads : Reads source operand) (joins : Joins source operator) (steps : Nat) :
    Reads source (infixChain steps operand operator) := by
  unfold infixChain
  exact .bind reads fun _ => .fact (reads_infixMore reads joins steps)

/-- The tokens of a table of operators are punctuation. -/
theorem joins_binaryOps {table : List (String × BinaryOp)}
    (other : ∀ entry ∈ table, entry.1.toList.getLast?.map isWordPart = some false) :
    Joins source (binaryOps table) := by
  unfold binaryOps
  refine .bind (Q := fun _ => Between source)
    (.oneOf fun entry mem => token_between (other entry mem)) fun op => .pure fun _ between => ?_
  refine ⟨fun e e' built built' => .node nofun trivial ?_, between⟩
  exact List.forall_mem_cons.mpr ⟨built, List.forall_mem_singleton.mpr built'⟩

theorem joins_logicalOp {text : String} (other : text.toList.getLast?.map isWordPart = some false)
    (op : LogicalOp) : Joins source (logicalOp text op) := by
  unfold logicalOp
  refine .bind (token_between other) fun _ => .pure fun _ between => ?_
  refine ⟨fun e e' built built' => .node nofun trivial ?_, between⟩
  exact List.forall_mem_cons.mpr ⟨built, List.forall_mem_singleton.mpr built'⟩

/-- All levels of binary operators read expressions if the prefix expressions are read. -/
theorem reads_disjunction (reads : Reads source unary) (steps : Nat) :
    Reads source (disjunction steps unary) := by
  have multiplicative : Reads source (multiplicative steps unary) :=
    reads_infixChain reads (joins_binaryOps (by decide)) steps
  have additive : Reads source (additive steps unary) :=
    reads_infixChain multiplicative (joins_binaryOps (by decide)) steps
  have relational : Reads source (relational steps unary) :=
    reads_infixChain additive (joins_binaryOps (by decide)) steps
  have equality : Reads source (equality steps unary) :=
    reads_infixChain relational (joins_binaryOps (by decide)) steps
  have conjunction : Reads source (conjunction steps unary) :=
    reads_infixChain equality (joins_logicalOp rfl .and) steps
  exact reads_infixChain conjunction (joins_logicalOp rfl .or) steps

theorem questionMark_between : Triple (· <:+ source) questionMark fun _ => Between source := by
  unfold questionMark
  exact .bind (token_between rfl) fun _ => .notNext fun _ between => between

theorem assignSign_between : Triple (· <:+ source) assignSign fun _ => Between source := by
  unfold assignSign
  exact .bind (token_between rfl) fun _ => .notNext fun _ between => between

theorem reads_conditional (reads : Reads source assignment) (reads' : Reads source unary)
    (steps : Nat) : Reads source (conditional steps assignment unary) := by
  unfold conditional
  refine .bind (reads_disjunction reads' steps) fun test => .fact fun built => ?_
  refine .ifFound questionMark_between ?_ (.pure fun _ within => ⟨built, within⟩)
  refine .bind reads.commit fun consequent => .fact fun built' => ?_
  refine .bind (close_between rfl) fun _ => ?_
  refine .bind reads.commit fun alternate => .fact fun built'' => ?_
  refine .pure fun _ within => ⟨.node nofun trivial ?_, within⟩
  exact List.forall_mem_cons.mpr
    ⟨built, List.forall_mem_cons.mpr ⟨built', List.forall_mem_singleton.mpr built''⟩⟩

theorem reads_assignmentBody (reads : Reads source assignment) (reads' : Reads source unary)
    (steps : Nat) : Reads source (assignmentBody steps assignment unary) := by
  unfold assignmentBody
  refine .bind (reads_conditional reads reads' steps) fun target => .fact fun built => ?_
  refine .ifFound assignSign_between ?_ (.pure fun _ within => ⟨built, within⟩)
  refine .ite (fun assignable => ?_) fun _ => .never fun cs => ⟨_, _, rfl⟩
  refine .bind reads.commit fun value => .fact fun built' => ?_
  refine .pure fun _ within => ⟨.node nofun assignable ?_, within⟩
  exact List.forall_mem_cons.mpr ⟨built, List.forall_mem_singleton.mpr built'⟩

end

/-! ## The recursive rules -/

/-- The two recursive rules, with each number of frames left to open. -/
theorem reads_assignment_unary (source : List Char) (steps frames : Nat) :
    Reads source (Grammar.assignment steps frames) ∧ Reads source (Grammar.unary steps frames) := by
  -- each of the rules starts both with one frame less
  induction frames with
  | zero =>
    constructor
    · exact .never fun cs => ⟨_, _, by unfold Grammar.assignment; rfl⟩
    · exact .never fun cs => ⟨_, _, by unfold Grammar.unary; rfl⟩
  | succ frames ih =>
    obtain ⟨reads, reads'⟩ := ih
    rw [assignment_succ, unary_succ]
    constructor
    · exact .bind (reads_assignmentBody reads reads' steps) fun _ => reads_bounded fun _ left => left
    · exact .bind (reads_unaryBody reads reads' steps) fun _ => reads_bounded fun _ left => left

/-- An expression that is read is not too high. -/
theorem assignment_height (steps frames : Nat) {P : List Char → Prop} :
    Triple P (Grammar.assignment steps frames) fun e _ => e.depth ≤ maxHeight := by
  cases frames with
  | zero => exact .never fun cs => ⟨_, _, by unfold Grammar.assignment; rfl⟩
  | succ frames =>
    rw [assignment_succ]
    refine .bind (Q := fun _ _ => True) (fun _ _ _ _ _ => trivial) fun e => ?_
    exact .ite (fun _ => .never fun _ => ⟨_, _, rfl⟩) fun low => .pure fun _ _ => Nat.le_of_not_lt low

/-! ## Programs -/

/-- What is left of each statement holds of all statements that are read one after the other. -/
theorem statements_each {A : Expr → Prop} {steps : Nat}
    (each : Triple (Between source) (Grammar.assignment steps maxFrames) fun e rest =>
      A e ∧ rest <:+ source) (rounds : Nat) {done : List Expr} (known : ∀ e ∈ done, A e) :
    Triple (Between source) (statements steps rounds done) fun program _ =>
      ∀ statement ∈ program, A statement := by
  have reversed : ∀ {es : List Expr}, (∀ e ∈ es, A e) → ∀ e ∈ es.reverse, A e :=
    fun known e mem => known e (List.mem_reverse.mp mem)
  induction rounds generalizing done with
  | zero => exact .pure fun _ _ => reversed known
  | succ rounds ih =>
    rw [statements_succ]
    refine .bind blank_between fun _ => .bind (.atEnd (Q := fun _ => Between source)
      fun _ _ between => between) fun ended => ?_
    refine .ite (fun _ => .pure fun _ _ => reversed known) fun _ => ?_
    refine .ifFound (open_between rfl) (ih known) ?_
    refine .bind each.commit.describe fun statement => .fact fun here => ?_
    -- the statement joins those that are done, whatever comes behind it
    have known' : ∀ e ∈ statement :: done, A e := List.forall_mem_cons.mpr ⟨here, known⟩
    refine .bind (Q := fun _ => (· <:+ source)) (.blank fun cs within => ?_) fun _ => ?_
    · exact (List.dropWhile_suffix _).trans within
    · refine .bind (.atEnd (Q := fun _ => (· <:+ source)) fun _ _ within => within) fun ended => ?_
      refine .ite (fun _ => .pure fun _ _ => reversed known') fun _ => ?_
      exact .bind (char_between rfl).commit.describe fun _ => ih known'

end Grammar

/-- **The statements of a program that is read** are built by the grammar, and not too high. -/
theorem program_built {source : String} {program : Program} (parsed : parse source = .ok program) :
    ∀ statement ∈ program,
      Grammar.Built source.toList statement ∧ statement.depth ≤ Grammar.maxHeight := by
  unfold parse at parsed
  dsimp only at parsed
  split at parsed
  · next program' rest read =>
    obtain rfl : program' = program := Except.ok.inj parsed
    have each := (Grammar.reads_assignment_unary source.toList source.toList.length
      Grammar.maxFrames).1.and (Grammar.assignment_height source.toList.length Grammar.maxFrames)
    have all := Grammar.statements_each
      (A := fun e => Grammar.Built source.toList e ∧ e.depth ≤ Grammar.maxHeight)
      (each.after fun _ _ left => ⟨⟨left.1.1, left.2⟩, left.1.2⟩) source.toList.length
      (List.forall_mem_nil _)
    exact all source.toList program' rest (.start _) read
  · cases parsed

end FormLogic
