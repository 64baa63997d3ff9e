import FormLogic.Eval.Interpreter
import FormLogic.Proofs.Expr.RoundTrip
import FormLogic.Proofs.Expr.Unclosed

/-!
# `FormLogic.Proofs.Expr.Quotation` — any text can be quoted

A text is quoted by putting a backslash in front of each backslash and of each quote of the kind that
stands around it. Nothing else has to be escaped: line ends, semicolons, brackets, the other quote and
what is not ASCII stand for themselves. What is quoted is read as the text, and nothing behind the
closing quote is taken. A quote that is opened has to be closed (`FormLogic.Proofs.Expr.Unclosed`).

## Contents
- `Text.guarded`, `Text.quotation`: the quoted form; `text_quotation`: it is read as the text.
- `assignment_of_primary`: what starts with a quote or a brace as a whole expression.
- `assignment_quotation`, `entry_quotation`, `computedKey_quotation`: the rules that take a text.
- `parse_quotation`, `parse_object_quotation`, `parse_member_quotation`: programs.
- `Denotes`, `quotations_denote`: all of it together.
-/

namespace FormLogic

namespace Text

/-- A character as it is written between quotes: a backslash stands in front of the quote and of
another backslash. -/
def guarded (quote c : Char) : List Char :=
  if c = quote ∨ c = '\\' then ['\\', c] else [c]

/-- The text between two quotes. -/
def quotation (quote : Char) (s : String) : String :=
  String.ofList (quote :: (s.toList.flatMap (guarded quote) ++ [quote]))

theorem toList_quotation (quote : Char) (s : String) (rest : List Char) :
    (quotation quote s).toList ++ rest =
      quote :: (s.toList.flatMap (guarded quote) ++ quote :: rest) := by
  rw [quotation, String.toList_ofList, List.cons_append, List.append_assoc]
  rfl

end Text

namespace Grammar

open FormLogic.Parser

variable {steps frames : Nat} {cs rest : List Char} {e : Expr} {quote : Char} {s : String}

/-! ## Quoted texts -/

/-- Quotes and backslashes stand for themselves behind a backslash. -/
theorem unescape_guarded {c : Char} (opens : quote ∈ quotes) (marked : c = quote ∨ c = '\\') :
    unescape c = c := by
  simp only [quotes, List.mem_cons, List.not_mem_nil, or_false] at opens
  rcases marked with rfl | rfl
  · rcases opens with rfl | rfl <;> rfl
  · rfl

/-- One character is read back from its guarded form. -/
theorem textAfter_guarded (opens : quote ∈ quotes) (c : Char) (content ahead : List Char) :
    textAfter quote content (Text.guarded quote c ++ ahead) =
      textAfter quote (c :: content) ahead := by
  have other : '\\' ≠ quote := by
    rintro rfl
    revert opens
    decide
  unfold Text.guarded
  split
  · next marked =>
    rw [List.cons_append, textAfter.eq_def]
    dsimp only
    rw [if_neg other, if_pos rfl]
    exact congrArg (fun d => textAfter quote (d :: content) ahead) (unescape_guarded opens marked)
  · next plain =>
    obtain ⟨noQuote, noBackslash⟩ := not_or.mp plain
    rw [List.singleton_append, textAfter.eq_def]
    dsimp only
    rw [if_neg noQuote, if_neg noBackslash]

/-- **A quoted text is read as the text**, up to the closing quote. -/
theorem text_quotation (opens : quote ∈ quotes) (s : String) (rest : List Char) :
    text ((Text.quotation quote s).toList ++ rest) = .ok s rest := by
  have content := textAfter_flatMap (fun c (_ : c ∈ s.toList) => textAfter_guarded opens c) [] rest
  have opening : (quote == '"' || quote == '\'') = true := by
    simpa [quotes] using opens
  rw [Text.toList_quotation, text, bind_ok (satisfy_ok opening _), content, List.reverse_nil,
    List.nil_append, String.ofList_toList]

/-! ## Primary expressions that start with a sign -/

/-- A quote or a brace. -/
def signs : List Char :=
  '\x7b' :: quotes

/-- No sign has a property that can be computed to hold of none. -/
theorem eq_false_of_sign (good : Char → Bool) {c : Char} (none : signs.any good = false)
    (sign : c ∈ signs) : good c = false :=
  Bool.eq_false_iff.mpr (List.any_eq_false.mp none c sign)

theorem solid_of_sign {c : Char} (sign : c ∈ signs) (cs : List Char) :
    (c :: cs).dropWhile Text.isBlank = c :: cs :=
  dropWhile_eq_self (eq_false_of_sign Text.isBlank rfl sign)

/-- What starts with such a sign has no prefix operator in front. -/
theorem assignment_of_primary {c : Char} {tail : List Char} (sign : c ∈ signs)
    (ahead : cs.dropWhile Text.isBlank = c :: tail)
    (read : primary steps (assignment steps frames) (c :: tail) = .ok e rest)
    (closed : Closed rest) (shallow : e.depth ≤ maxHeight) :
    assignment steps (frames + 2) cs = .ok e rest := by
  have noName : isNameStart c = false := eq_false_of_sign isNameStart rfl sign
  have noSign : Misses unaryOp (c :: tail) := by
    simp only [signs, quotes, List.mem_cons, List.not_mem_nil, or_false] at sign
    rcases sign with rfl | rfl | rfl <;> exact misses_of_fails rfl
  have whole : chain steps (assignment steps frames) (c :: tail) = .ok e rest :=
    (bind_ok read _).trans (links_end closed.chainEnd e)
  have noPrefix : NoPrefix (c :: tail) := noPrefix_of_sign noName
  rw [← ahead] at noPrefix noSign whole
  have operand := unary_of_chain noPrefix noSign whole shallow
  exact assignment_ok (disjunction_pass operand closed.noOperator) closed shallow

section

variable (opens : quote ∈ quotes)

include opens

theorem sign_of_quote : quote ∈ signs :=
  List.mem_cons_of_mem _ opens

theorem quotation_solid (s : String) (rest : List Char) :
    ((Text.quotation quote s).toList ++ rest).dropWhile Text.isBlank =
      (Text.quotation quote s).toList ++ rest := by
  rw [Text.toList_quotation, solid_of_sign (sign_of_quote opens)]

/-- A quoted text is a constant. -/
theorem primary_quotation {assignment : Parser Expr}
    (ahead : cs.dropWhile Text.isBlank = (Text.quotation quote s).toList ++ rest) :
    primary steps assignment cs = .ok (.literal (.string s)) rest := by
  have noDigit : quote.isDigit = false := eq_false_of_sign Char.isDigit rfl (sign_of_quote opens)
  have read := text_quotation opens s rest
  rw [primary_eq, ahead]
  rw [Text.toList_quotation] at read ⊢
  refine describe_ok _ ?_
  rw [orElse_misses ((number_misses noDigit _).bind _)]
  exact orElse_ok _ (bind_ok read _)

/-- A quoted text is a whole expression where an expression ends. -/
theorem assignment_quotation (closed : Closed rest)
    (ahead : cs.dropWhile Text.isBlank = (Text.quotation quote s).toList ++ rest) :
    assignment steps (frames + 2) cs = .ok (.literal (.string s)) rest := by
  have shape := ahead.trans (Text.toList_quotation quote s rest)
  have sign := sign_of_quote opens
  refine assignment_of_primary sign shape ?_ closed (Nat.le_of_ble_eq_true rfl)
  rw [← Text.toList_quotation]
  exact primary_quotation opens (quotation_solid opens s rest)

/-! ## Keys -/

/-- A quoted text with a colon behind it is the key of an entry. -/
theorem entry_quotation {assignment : Parser Expr} {behind ahead : List Char} {value : Expr}
    (key : cs.dropWhile Text.isBlank = (Text.quotation quote s).toList ++ behind)
    (colon : behind.dropWhile Text.isBlank = ':' :: ahead)
    (read : assignment ahead = .ok value rest) :
    entry assignment cs = .ok (s, value) rest := by
  have named : text (cs.dropWhile Text.isBlank) = .ok s behind := by
    rw [key, text_quotation opens]
  exact entry_of_text named colon read

/-- A quoted text with a bracket behind it is a computed key. -/
theorem computedKey_quotation
    (ahead : cs.dropWhile Text.isBlank = (Text.quotation quote s).toList ++ ']' :: rest) :
    computedKey (assignment steps (frames + 2)) cs = .ok (.computed (.literal (.string s))) rest :=
  computedKey_ok (assignment_quotation opens (closed_of_bracket (by decide) rest) ahead)

/-! ## Objects and members with such keys -/

/-- A mapping of one entry. -/
theorem primary_object_quotation {assignment : Parser Expr} {value : Expr}
    (readable : value.Readable) (inner : ReadsWhole assignment value)
    (ahead : cs.dropWhile Text.isBlank = '\x7b' :: ((Text.quotation quote s).toList ++
      ':' :: ' ' :: (value.print.toList ++ '\x7d' :: rest))) :
    primary steps assignment cs = .ok (.object [(s, value)]) rest := by
  have read := inner _ _ (dropWhile_space (Expr.print_solid readable ('\x7d' :: rest)))
    (closed_of_bracket (by decide) rest)
  exact primary_object ahead
    (sepBy_one (entry_quotation opens (quotation_solid opens s _) rfl read)
      (comma_misses (by decide) rest))

omit opens in
theorem wordEnd_bracket (optional : Bool) (rest : List Char) :
    WordEnd (bracket optional ++ rest) := by
  cases optional <;> exact (LinkStart.of_computed rfl).toWordEnd

/-- A member of a chain, by a key that is quoted. -/
theorem chain_quotation {base : Expr} (reads : ReadsChain steps (assignment steps (frames + 2)) base)
    (readable : base.Readable) (few : linkCount base < steps) (optional : Bool)
    (chainEnd : ChainEnd rest)
    (shallow : (Expr.member base (.computed (.literal (.string s))) optional).depth ≤ maxHeight) :
    chain steps (assignment steps (frames + 2)) (base.print.toList ++
      (bracket optional ++ ((Text.quotation quote s).toList ++ ']' :: rest))) =
        .ok (.member base (.computed (.literal (.string s))) optional) rest := by
  have solid := dropWhile_eq_self (Expr.print_solid readable
    (bracket optional ++ ((Text.quotation quote s).toList ++ ']' :: rest)))
  have front := reads steps _ _ (Nat.le_of_lt few) solid (wordEnd_bracket optional _)
  have key : computedKey (assignment steps (frames + 2))
      ((Text.quotation quote s).toList ++ ']' :: rest) =
        .ok (.computed (.literal (.string s))) rest :=
    computedKey_quotation opens (quotation_solid opens s _)
  obtain ⟨left, more⟩ : ∃ left, steps - linkCount base = left + 1 :=
    ⟨steps - linkCount base - 1, by omega⟩
  rw [more] at front
  exact front.trans <| (bind_ok (link_bracket key optional) _).trans <|
    (bind_ok (bounded_ok shallow rest) _).trans (links_end chainEnd _)

end

/-! ## Trees of 40 levels -/

theorem fits_of_shallow (long : e.print.toList.length ≤ steps) (shallow : e.depth ≤ 40) :
    Fits steps e := by
  rw [Expr.depth_eq_height] at shallow
  exact ⟨long, Nat.le_trans shallow (by decide)⟩

/-- Two frames of the 128 are taken by the expression around such a tree. -/
theorem three_levels_le (shallow : e.depth ≤ 40) : 3 * e.height + 1 ≤ 126 := by
  rw [Expr.depth_eq_height] at shallow
  omega

theorem depth_le_of_parts (parts : ∀ part ∈ e.children, part.depth ≤ 40) :
    e.depth ≤ maxHeight := by
  rw [Expr.depth_eq_height]
  refine Nat.le_trans (Expr.height_le_iff (n := 40).mpr fun part mem => ?_) (by decide)
  rw [← Expr.depth_eq_height]
  exact parts part mem

end Grammar

/-! ## Programs -/

section

open Grammar

variable {source : String} {e value base : Expr} {quote : Char}

/-- An expression up to the end is a program of one statement. -/
theorem parse_of_assignment {c : Char} {tail : List Char} (shape : source.toList = c :: tail)
    (solid : Text.isBlank c = false) (other : c ≠ ';')
    (read : assignment source.toList.length maxFrames source.toList = .ok e []) :
    parse source = .ok [e] := by
  have ahead : source.toList.dropWhile Text.isBlank = c :: tail := by
    rw [shape]
    exact Parser.dropWhile_eq_self solid
  have read' : assignment source.toList.length maxFrames (c :: tail) = .ok e [] := by
    rw [← shape, read]
  exact parse_eq_ok_iff.mpr (.last ahead other read' rfl)

/-- What starts with a quote or a brace is no empty statement. -/
theorem parse_of_sign {c : Char} {tail : List Char} (shape : source.toList = c :: tail)
    (sign : c ∈ signs)
    (read : assignment source.toList.length maxFrames source.toList = .ok e []) :
    parse source = .ok [e] :=
  parse_of_assignment shape (eq_false_of_sign Text.isBlank rfl sign)
    (beq_eq_false_iff_ne.mp (eq_false_of_sign (· == ';') rfl sign)) read

section

variable (opens : quote ∈ quotes) (s : String)

include opens

/-- A quoted text is a program: the constant that it is. -/
theorem parse_quotation : parse (Text.quotation quote s) = .ok [.literal (.string s)] := by
  have shape := Text.toList_quotation quote s []
  rw [List.append_nil] at shape
  have solid := quotation_solid opens s []
  rw [List.append_nil] at solid
  refine parse_of_sign shape (sign_of_quote opens) (assignment_quotation opens .finish ?_)
  rw [solid, List.append_nil]

/-- A quoted text is the key of an object. -/
theorem parse_object_quotation (readable : value.Readable) (shallow : value.depth ≤ 40) :
    parse ("\x7b" ++ Text.quotation quote s ++ ": " ++ value.print ++ "\x7d") =
      .ok [.object [(s, value)]] := by
  have shape : ("\x7b" ++ Text.quotation quote s ++ ": " ++ value.print ++ "\x7d").toList =
      '\x7b' :: ((Text.quotation quote s).toList ++
        ':' :: ' ' :: (value.print.toList ++ '\x7d' :: [])) := by
    simp [String.toList_append]
  have long : value.print.toList.length ≤
      ("\x7b" ++ Text.quotation quote s ++ ": " ++ value.print ++ "\x7d").toList.length := by
    rw [shape]
    simp only [List.length_cons, List.length_append]
    omega
  have low : (Expr.object [(s, value)]).depth ≤ maxHeight :=
    depth_le_of_parts (List.forall_mem_singleton.mpr shallow)
  have inner := (readBack readable (fits_of_shallow long shallow)).whole 126
    (three_levels_le shallow)
  have sign : '\x7b' ∈ signs := List.mem_cons_self
  have ahead := (congrArg (List.dropWhile Text.isBlank) shape).trans (solid_of_sign sign _)
  refine parse_of_sign shape sign ?_
  exact assignment_of_primary sign ahead
    (primary_object_quotation opens readable inner (solid_of_sign sign _)) .finish low

/-- A quoted text is the key of a member. -/
theorem parse_member_quotation (readable : base.Readable) (simple : base.isBase = true)
    (shallow : base.depth ≤ 40) (optional : Bool) :
    parse (base.print ++ (if optional then "?.[" else "[") ++ Text.quotation quote s ++ "]") =
      .ok [.member base (.computed (.literal (.string s))) optional] := by
  have shape : (base.print ++ (if optional then "?.[" else "[") ++ Text.quotation quote s ++
      "]").toList = base.print.toList ++
        (bracket optional ++ ((Text.quotation quote s).toList ++ ']' :: [])) := by
    cases optional <;> simp [String.toList_append, bracket]
  have long : base.print.toList.length < (base.print ++ (if optional then "?.[" else "[") ++
      Text.quotation quote s ++ "]").toList.length := by
    rw [shape]
    simp only [List.length_cons, List.length_append]
    omega
  have low : (Expr.member base (.computed (.literal (.string s))) optional).depth ≤ maxHeight :=
    depth_le_of_parts (List.forall_mem_cons.mpr
      ⟨shallow, List.forall_mem_singleton.mpr (Nat.le_of_ble_eq_true rfl)⟩)
  have front := (readBack readable (fits_of_shallow (Nat.le_of_lt long) shallow)).chain simple 126
    (Nat.le_of_succ_le (Nat.le_succ_of_le (three_levels_le shallow)))
  have whole := chain_quotation (s := s) opens front readable
    (Nat.lt_of_le_of_lt (linkCount_le_length base) long) optional Closed.finish.chainEnd low
  obtain ⟨c, tail, head, starts⟩ := Expr.print_head readable
  have ahead := (congrArg (List.dropWhile Text.isBlank) shape).trans
    (Parser.dropWhile_eq_self (Expr.print_solid readable _))
  have operand := unary_of_front readable simple (wordEnd_bracket optional _) ahead whole low
  refine parse_of_assignment (shape.trans (by rw [head]; rfl)) (Expr.isBlank_of_isStart starts) ?_
    (assignment_ok (disjunction_pass operand Closed.finish.noOperator) .finish low)
  rintro rfl
  cases starts

end

/-! ## All together -/

/-- The text `written` is read as `s` wherever a text can stand. -/
structure Denotes (written s : String) : Prop where
  /-- As a program it is a constant. -/
  program : parse written = .ok [.literal (.string s)]
  /-- With a colon behind it, it is the key of an entry, whatever the value is. -/
  entry : ∀ (assignment : Parser Expr) (cs behind ahead rest : List Char) (value : Expr),
    cs.dropWhile Text.isBlank = written.toList ++ behind →
    behind.dropWhile Text.isBlank = ':' :: ahead → assignment ahead = .ok value rest →
    Grammar.entry assignment cs = .ok (s, value) rest
  /-- An object with it as the key of a value. -/
  object : ∀ value : Expr, value.Readable → value.depth ≤ 40 →
    parse ("\x7b" ++ written ++ ": " ++ value.print ++ "\x7d") = .ok [.object [(s, value)]]
  /-- With a bracket behind it, it is a computed key, unless the frames are used up. -/
  computedKey : ∀ (steps frames : Nat) (cs rest : List Char),
    cs.dropWhile Text.isBlank = written.toList ++ ']' :: rest →
    Grammar.computedKey (assignment steps (frames + 2)) cs =
      .ok (.computed (.literal (.string s))) rest
  /-- A member of something with it as the key. -/
  member : ∀ (base : Expr) (optional : Bool), base.Readable → base.isBase = true →
    base.depth ≤ 40 → parse (base.print ++ (if optional then "?.[" else "[") ++ written ++ "]") =
      .ok [.member base (.computed (.literal (.string s))) optional]
  /-- Such a key has the text as its value, and nothing happens when it is evaluated. -/
  key : ∀ m : Machine, Eval.keyValue (.computed (.literal (.string s))) m = (.ok (.string s), m)

/-- **Any text can be quoted, and no quote stays open.** The quoted form of a text denotes it, with
either quote. A text that opens a quote and never closes it is refused. -/
theorem quotations_denote :
    (∀ quote ∈ quotes, ∀ s : String, Denotes (Text.quotation quote s) s) ∧
      ∀ source : String, LeavesOpen source.toList → ∃ e, parse source = .error e := by
  refine ⟨fun quote opens s => ?_, fun _ => parse_of_leavesOpen⟩
  exact {
    program := parse_quotation opens s
    entry := fun _ _ _ _ _ _ key colon read => entry_quotation opens key colon read
    object := fun _ readable shallow => parse_object_quotation opens s readable shallow
    computedKey := fun _ _ _ _ ahead => computedKey_quotation opens ahead
    member := fun _ optional readable simple shallow =>
      parse_member_quotation opens s readable simple shallow optional
    key := fun m => by unfold Eval.keyValue Eval.chain; rfl }

/-- Both quotes, a line end, brackets and a backslash in one text, and a quote that only seems to be
closed. -/
theorem quotations_denote_mixed :
    Text.quotation '\'' "it's [\"\\\"];\né" = "'it\\'s [\"\\\\\"];\né'" ∧
      Denotes "'it\\'s [\"\\\\\"];\né'" "it's [\"\\\"];\né" ∧
      LeavesOpen "x + 'y\\'".toList ∧ ∃ e, parse "x + 'y\\'" = .error e := by
  have written : Text.quotation '\'' "it's [\"\\\"];\né" = "'it\\'s [\"\\\\\"];\né'" := rfl
  have quoted : LeavesOpen ['\'', 'y', '\\', '\''] := .never (by decide) rfl
  have unclosed : LeavesOpen "x + 'y\\'".toList :=
    .other (by decide) <| .other (by decide) <| .other (by decide) <| .other (by decide) quoted
  exact ⟨written, written ▸ quotations_denote.1 '\'' (by decide) _, unclosed,
    quotations_denote.2 _ unclosed⟩

end

end FormLogic
