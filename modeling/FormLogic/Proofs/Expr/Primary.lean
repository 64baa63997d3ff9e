import FormLogic.Proofs.Expr.Ending

/-!
# `FormLogic.Proofs.Expr.Primary` — primary expressions and chains are read back

The rules for the recursive parts of a primary expression or a link are taken as they come: if they
read the parts back, the primary expression and the chain that the link extends are read back.

## Contents
- `ReadsWhole`, `ReadsOperand`, `ReadsPrimary`, `ReadsChain`: what it is to be read back.
- `readsPrimary_number` and the like: one lemma for each primary expression.
- `primary_parens`, `primary_arrow`: what starts with a parenthesis.
- `link_named`, `link_bracket`, `link_call`: the kinds of links; `ReadsChain.next`: one link more.
-/

namespace FormLogic

namespace Grammar

open FormLogic.Parser

variable {steps frames rounds : Nat} {cs rest : List Char} {e : Expr}

/-! ## What it is to be read back -/

/-- The parser reads the expression back where an expression ends. -/
def ReadsWhole (assignment : Parser Expr) (e : Expr) : Prop :=
  ∀ cs rest, cs.dropWhile Text.isBlank = e.print.toList ++ rest → Closed rest →
    assignment cs = .ok e rest

/-- The parser reads the expression back where a chain ends. -/
def ReadsOperand (unary : Parser Expr) (e : Expr) : Prop :=
  ∀ cs rest, cs.dropWhile Text.isBlank = e.print.toList ++ rest → ChainEnd rest →
    unary cs = .ok e rest

/-- The rule for primary expressions reads the expression back where a word ends. -/
def ReadsPrimary (steps : Nat) (assignment : Parser Expr) (e : Expr) : Prop :=
  ∀ cs rest, cs.dropWhile Text.isBlank = e.print.toList ++ rest → WordEnd rest →
    primary steps assignment cs = .ok e rest

/-- The number of links of the chain that the expression is. -/
def linkCount : Expr → Nat
  | .member base _ _ => linkCount base + 1
  | .call callee _ => linkCount callee + 1
  | _ => 0

/-- The rules for chains read the expression back, and go on behind it with the rounds they have
left. -/
def ReadsChain (steps : Nat) (assignment : Parser Expr) (e : Expr) : Prop :=
  ∀ rounds cs rest, linkCount e ≤ rounds →
    cs.dropWhile Text.isBlank = e.print.toList ++ rest → WordEnd rest →
    (primary steps assignment >>= links steps assignment rounds) cs =
      links steps assignment (rounds - linkCount e) e rest

section

variable {assignment : Parser Expr}

theorem ReadsPrimary.readsChain (reads : ReadsPrimary steps assignment e)
    (single : linkCount e = 0) : ReadsChain steps assignment e := by
  intro rounds cs rest _ ahead wordEnd
  rw [single]
  exact bind_ok (reads cs rest ahead wordEnd) _

/-! ## Primary expressions -/

/-- What a primary expression is, after white space. -/
theorem primary_eq (steps : Nat) (assignment : Parser Expr) (cs : List Char) :
    primary steps assignment cs = describe "expression" (
      orElse (do return .literal (.number (← number))) <|
      orElse (do return .literal (.string (← text))) <|
      orElse (array steps assignment) <|
      orElse (object steps assignment) <|
      orElse (parenthesized steps assignment) (word assignment)) (cs.dropWhile Text.isBlank) :=
  rfl

section

variable {c : Char}

theorem number_misses (other : c.isDigit = false) (cs : List Char) : Misses number (c :: cs) := by
  have front : Misses (span1 Char.isDigit) (c :: cs) := span1_misses other
  exact front.bind _

theorem text_misses (other : c ≠ '"') (other' : c ≠ '\'') (cs : List Char) :
    Misses text (c :: cs) := by
  refine (satisfy_misses ?_).bind _
  simp [other, other']

theorem array_misses (other : c ≠ '[') (cs : List Char) :
    Misses (array steps assignment) (c :: cs) :=
  (char_misses other cs).bind _

theorem object_misses (other : c ≠ '\x7b') (cs : List Char) :
    Misses (object steps assignment) (c :: cs) :=
  (char_misses other cs).bind _

theorem parenthesized_misses (other : c ≠ '(') (cs : List Char) :
    Misses (parenthesized steps assignment) (c :: cs) := by
  have front := char_misses other cs
  exact .bind_ok (optional_misses (front.bind _)) (front.bind _)

end

/-- A number is read back. -/
theorem readsPrimary_number {x : Float} (back : Number.ReadsBack x) :
    ReadsPrimary steps assignment (.literal (.number x)) := by
  intro cs rest ahead wordEnd
  obtain ⟨whole, fraction, nonempty, digits, digits', shape, denotes⟩ := back.numeral
  have written : (Expr.print (.literal (.number x))).toList = whole ++ pointed fraction := shape
  rw [written, List.append_assoc] at ahead
  rw [primary_eq, ahead]
  refine describe_ok _ (orElse_ok _ ?_)
  rw [bind_ok (number_ok nonempty digits digits' wordEnd.word wordEnd.fraction), denotes]
  rfl

/-- A text is read back. -/
theorem readsPrimary_string {s : String} (plain : ∀ c ∈ s.toList, isPlain c = true) :
    ReadsPrimary steps assignment (.literal (.string s)) := by
  intro cs rest ahead wordEnd
  have written : (Expr.print (.literal (.string s))).toList = (Text.quote s).toList := rfl
  have quoted : (Text.quote s).toList =
      '"' :: (s.toList.flatMap Text.escape ++ ['"']) := String.toList_ofList
  have read := text_ok plain rest
  rw [written] at ahead
  rw [primary_eq, ahead]
  rw [quoted] at read ⊢
  refine describe_ok _ ?_
  rw [List.cons_append, orElse_misses ((number_misses rfl _).bind _)]
  exact orElse_ok _ (bind_ok read _)

/-- A word is no other primary expression. -/
theorem primary_word {w : String} (named : isName w = true)
    (ahead : cs.dropWhile Text.isBlank = w.toList ++ rest)
    (read : word assignment (w.toList ++ rest) = .ok e rest) :
    primary steps assignment cs = .ok e rest := by
  obtain ⟨c, tail, shape, first, -⟩ := isName_cons named
  have noDigit : c.isDigit = false := isDigit_of_isNameStart first
  have noSign (d : Char) (other : isNameStart d = false) : c ≠ d := by
    rintro rfl
    rw [first] at other
    cases other
  rw [primary_eq, ahead]
  refine describe_ok _ ?_
  rw [shape, List.cons_append] at read ⊢
  rw [orElse_misses ((number_misses noDigit _).bind _),
    orElse_misses ((text_misses (noSign '"' rfl) (noSign '\'' rfl) _).bind _),
    orElse_misses (array_misses (noSign '[' rfl) _),
    orElse_misses (object_misses (noSign '\x7b' rfl) _),
    orElse_misses (parenthesized_misses (noSign '(' rfl) _)]
  exact read

/-- A constant that is a word is read back. -/
theorem readsPrimary_constant {value : Literal} {w : String} (named : isName w = true)
    (constant : constant? w = some value) (written : value.print = w) :
    ReadsPrimary steps assignment (.literal value) := by
  intro cs rest ahead wordEnd
  have whole : (Expr.print (.literal value)).toList = w.toList := congrArg String.toList written
  rw [whole] at ahead
  refine primary_word named ahead ?_
  unfold word
  rw [bind_ok (name_ok named wordEnd.word), constant]
  rfl

/-- A variable is read back. -/
theorem readsPrimary_ident {w : String} (named : isName w = true) (free : w ∉ keywords) :
    ReadsPrimary steps assignment (.ident w) := by
  intro cs rest ahead wordEnd
  have whole : (Expr.print (.ident w)).toList = w.toList := rfl
  have noConstant : constant? w = none := by
    simp only [keywords, List.mem_cons, List.not_mem_nil, or_false, not_or] at free
    obtain ⟨true, false, null, undefined, -, -⟩ := free
    unfold constant?
    rw [if_neg true, if_neg false, if_neg null, if_neg undefined]
  rw [whole] at ahead
  refine primary_word named ahead ?_
  unfold word
  rw [bind_ok (name_ok named wordEnd.word), noConstant]
  exact ifFound_misses wordEnd.arrow

/-! ## Lists between brackets -/

/-- A closing bracket is no comma. -/
theorem comma_misses {close : Char} (closing : close ∈ [')', ']', '\x7d']) (rest : List Char) :
    Misses (token ",") (close :: rest) := by
  simp only [List.mem_cons, List.not_mem_nil, or_false] at closing
  rcases closing with rfl | rfl | rfl <;> exact misses_of_fails rfl

theorem closed_of_bracket {close : Char} (closing : close ∈ [')', ']', '\x7d'])
    (rest : List Char) : Closed (close :: rest) := by
  simp only [List.mem_cons, List.not_mem_nil, or_false] at closing
  rcases closing with rfl | rfl | rfl <;> exact .sign (by decide) rest

/-- White space in front of a text that has none there. -/
theorem dropWhile_space {front : List Char}
    (solid : (front ++ rest).head?.any Text.isBlank = false) :
    (' ' :: (front ++ rest)).dropWhile Text.isBlank = front ++ rest :=
  dropWhile_eq_self solid

/-- Elements with commas between them are read back, up to the closing bracket. -/
theorem sepBy_listed {items : List Expr} {close : Char} (closing : close ∈ [')', ']', '\x7d'])
    (readable : ∀ item ∈ items, item.Readable) (each : ∀ item ∈ items, ReadsWhole assignment item)
    (few : items.length ≤ steps) (none : Misses assignment (close :: rest)) :
    sepBy steps assignment (token ",") (Expr.listed items ++ close :: rest) =
      .ok items (close :: rest) := by
  cases items with
  | nil => exact sepBy_nil none
  | cons item items =>
    have fewer : items.length ≤ steps := Nat.le_of_succ_le few
    exact sepBy_ok Closed item fewer each
      (fun item mem rest => Expr.print_solid (readable item mem) rest)
      (fun rest => .sign (by decide) rest) (closed_of_bracket closing rest)
      (comma_misses closing rest)

/-- A sequence is read back. -/
theorem readsPrimary_array {items : List Expr} (readable : ∀ item ∈ items, item.Readable)
    (each : ∀ item ∈ items, ReadsWhole assignment item) (few : items.length ≤ steps)
    (none : ∀ rest, Misses assignment (']' :: rest)) :
    ReadsPrimary steps assignment (.array items) := by
  intro cs rest ahead _
  have elements : sepBy steps assignment (token ",") (Expr.listed items ++ ']' :: rest) =
      .ok items (']' :: rest) := sepBy_listed (by decide) readable each few (none rest)
  have close : token "]" (']' :: rest) = .ok () rest := token_ok rfl
  have read : array steps assignment ('[' :: (Expr.listed items ++ ']' :: rest)) =
      .ok (.array items) rest := by
    unfold array
    rw [bind_ok (char_ok '[' _), bind_ok elements,
      bind_ok (optional_misses (comma_misses (by decide) rest)),
      bind_ok (describe_ok _ (commit_ok close))]
    rfl
  rw [Expr.toList_print_array, List.cons_append, List.append_assoc] at ahead
  rw [primary_eq, ahead]
  refine describe_ok _ ?_
  rw [orElse_misses ((number_misses rfl _).bind _),
    orElse_misses ((text_misses (by decide) (by decide) _).bind _)]
  exact orElse_ok _ read

/-- An entry is a text, a colon and a value, with white space around the colon. -/
theorem entry_of_text {w : String} {behind ahead : List Char} {value : Expr}
    (key : text (cs.dropWhile Text.isBlank) = .ok w behind)
    (colon : behind.dropWhile Text.isBlank = ':' :: ahead)
    (read : assignment ahead = .ok value rest) : entry assignment cs = .ok (w, value) rest := by
  have named : entryKey cs = .ok w behind := orElse_ok _ key
  have separated : token ":" behind = .ok () ahead := token_ok (by rw [colon]; rfl)
  unfold entry
  rw [bind_ok named, bind_ok (describe_ok _ (commit_ok separated)), bind_ok (commit_ok read)]
  rfl

/-- An entry is read back. -/
theorem entry_ok {en : String × Expr} (plain : ∀ c ∈ en.1.toList, isPlain c = true)
    (readable : en.2.Readable) (value : ReadsWhole assignment en.2)
    (ahead : cs.dropWhile Text.isBlank = Expr.printEntry en ++ rest) (closed : Closed rest) :
    entry assignment cs = .ok en rest := by
  rw [Expr.printEntry, List.append_assoc] at ahead
  exact entry_of_text (by rw [ahead, text_ok plain]) rfl
    (value _ _ (dropWhile_space (Expr.print_solid readable rest)) closed)

/-- A mapping is its entries between braces. -/
theorem primary_object {inner : List Char} {entries : List (String × Expr)}
    (ahead : cs.dropWhile Text.isBlank = '\x7b' :: inner)
    (elements : sepBy steps (entry assignment) (token ",") inner = .ok entries ('\x7d' :: rest)) :
    primary steps assignment cs = .ok (.object entries) rest := by
  have close : token "\x7d" ('\x7d' :: rest) = .ok () rest := token_ok rfl
  have read : object steps assignment ('\x7b' :: inner) = .ok (.object entries) rest := by
    unfold object
    rw [bind_ok (char_ok '\x7b' _), bind_ok elements,
      bind_ok (optional_misses (comma_misses (by decide) rest)),
      bind_ok (describe_ok _ (commit_ok close))]
    rfl
  rw [primary_eq, ahead]
  refine describe_ok _ ?_
  rw [orElse_misses ((number_misses rfl _).bind _),
    orElse_misses ((text_misses (by decide) (by decide) _).bind _),
    orElse_misses (array_misses (by decide) _)]
  exact orElse_ok _ read

/-- A mapping is read back. -/
theorem readsPrimary_object {entries : List (String × Expr)}
    (plain : ∀ en ∈ entries, ∀ c ∈ en.1.toList, isPlain c = true)
    (readable : ∀ en ∈ entries, en.2.Readable)
    (each : ∀ en ∈ entries, ReadsWhole assignment en.2) (few : entries.length ≤ steps) :
    ReadsPrimary steps assignment (.object entries) := by
  intro cs rest ahead _
  have elements : sepBy steps (entry assignment) (token ",")
      ([',', ' '].intercalate (entries.map Expr.printEntry) ++ '\x7d' :: rest) =
      .ok entries ('\x7d' :: rest) := by
    cases entries with
    | nil =>
      have none : Misses (entry assignment) ('\x7d' :: rest) := misses_of_fails rfl
      exact sepBy_nil none
    | cons en entries =>
      refine sepBy_ok Closed en (Nat.le_of_succ_le few) (fun en mem cs rest ahead closed => ?_)
        (fun en mem rest => ?_) (fun rest => .sign (by decide) rest)
        (closed_of_bracket (by decide) rest) (comma_misses (by decide) rest)
      · exact entry_ok (plain en mem) (readable en mem) (each en mem) ahead closed
      · rw [Expr.printEntry, Text.quote, String.toList_ofList]
        rfl
  rw [Expr.toList_print_object, List.cons_append, List.append_assoc] at ahead
  exact primary_object ahead elements

/-! ## Parentheses -/

/-- What starts with a parenthesis is no other primary expression. -/
theorem primary_paren (ahead : cs.dropWhile Text.isBlank = '(' :: rest) :
    primary steps assignment cs = describe "expression"
      (orElse (parenthesized steps assignment) (word assignment)) ('(' :: rest) := by
  rw [primary_eq, ahead]
  unfold describe
  rw [orElse_misses ((number_misses rfl _).bind _),
    orElse_misses ((text_misses (by decide) (by decide) _).bind _),
    orElse_misses (array_misses (by decide) _), orElse_misses (object_misses (by decide) _)]

/-- An expression in parentheses is read, unless it looks like parameters. -/
theorem primary_parens {inner : List Char}
    (ahead : cs.dropWhile Text.isBlank = '(' :: (inner ++ ')' :: rest))
    (noParams : Misses (arrowParams steps) ('(' :: (inner ++ ')' :: rest)))
    (read : assignment (inner ++ ')' :: rest) = .ok e (')' :: rest)) :
    primary steps assignment cs = .ok e rest := by
  have close : token ")" (')' :: rest) = .ok () rest := token_ok rfl
  have whole : parenthesized steps assignment ('(' :: (inner ++ ')' :: rest)) = .ok e rest := by
    unfold parenthesized
    rw [bind_ok (optional_misses noParams)]
    dsimp only
    rw [bind_ok (char_ok '(' _), bind_ok (commit_ok read),
      bind_ok (describe_ok _ (commit_ok close))]
    rfl
  rw [primary_paren ahead]
  exact describe_ok _ (orElse_ok _ whole)

/-- The parameters of a function are read back. -/
theorem arrowParams_ok {params : List String} (named : ∀ param ∈ params, isName param = true)
    (few : params.length ≤ steps) (rest : List Char) :
    arrowParams steps ('(' :: ([',', ' '].intercalate (params.map String.toList) ++
      ')' :: ' ' :: '=' :: '>' :: rest)) = .ok params rest := by
  have names : sepBy steps (do blank; name) (token ",")
      ([',', ' '].intercalate (params.map String.toList) ++ ')' :: ' ' :: '=' :: '>' :: rest) =
      .ok params (')' :: ' ' :: '=' :: '>' :: rest) := by
    cases params with
    | nil =>
      have none : Misses (do blank; name) (')' :: ' ' :: '=' :: '>' :: rest) := misses_of_fails rfl
      exact sepBy_nil none
    | cons param params =>
      refine sepBy_ok (fun rest => rest.head?.any isNameRest = false) param
        (Nat.le_of_succ_le few) (fun param mem cs rest ahead other => ?_)
        (fun param mem rest => ?_) (fun rest => rfl) rfl (comma_misses (by decide) _)
      · show name (cs.dropWhile Text.isBlank) = _
        rw [ahead]
        exact name_ok (named param mem) other
      · obtain ⟨c, tail, shape, first, -⟩ := isName_cons (named param mem)
        rw [shape]
        exact Expr.isBlank_of_isStart (by simp [Expr.isStart, first])
  have close : token ")" (')' :: ' ' :: '=' :: '>' :: rest) = .ok () (' ' :: '=' :: '>' :: rest) :=
    token_ok rfl
  have arrow : token "=>" (' ' :: '=' :: '>' :: rest) = .ok () rest := token_ok rfl
  unfold arrowParams
  rw [bind_ok (char_ok '(' _), bind_ok names, bind_ok close, bind_ok arrow]
  rfl

/-- A function is read back where an expression ends, as its body goes on until there. -/
theorem primary_arrow {params : List String} {body : Expr}
    (named : ∀ param ∈ params, isName param = true) (few : params.length ≤ steps)
    (readable : body.Readable) (inner : ReadsWhole assignment body)
    (ahead : cs.dropWhile Text.isBlank = (Expr.print (.arrow params body)).toList ++ rest)
    (closed : Closed rest) : primary steps assignment cs = .ok (.arrow params body) rest := by
  rw [Expr.toList_print_arrow] at ahead
  simp only [List.cons_append, List.append_assoc] at ahead
  have params_read := arrowParams_ok named few (' ' :: (body.print.toList ++ rest))
  have body_read := inner _ _ (dropWhile_space (Expr.print_solid readable rest)) closed
  have whole : parenthesized steps assignment ('(' ::
      ([',', ' '].intercalate (params.map String.toList) ++
        ')' :: ' ' :: '=' :: '>' :: ' ' :: (body.print.toList ++ rest))) =
      .ok (.arrow params body) rest := by
    unfold parenthesized
    rw [bind_ok (optional_ok params_read)]
    exact (bind_ok (describe_ok _ (commit_ok body_read)) _)
  rw [primary_paren ahead]
  exact describe_ok _ (orElse_ok _ whole)

/-! ## Chains -/

/-- A chain ends where no link follows. -/
theorem links_end (chainEnd : ChainEnd rest) (e : Expr) :
    links steps assignment rounds e rest = .ok e rest := by
  cases rounds with
  | zero => rfl
  | succ rounds =>
    have none : link steps assignment rest = .ok none rest :=
      (ifFound_misses chainEnd.optional).trans <| (ifFound_misses chainEnd.point).trans <|
        (ifFound_misses chainEnd.bracket).trans (ifFound_misses chainEnd.paren)
    exact bind_ok none _

/-! ### The kinds of links -/

/-- A link starts here. -/
structure LinkStart (cs : List Char) : Prop extends WordEnd cs, NoParam cs

theorem LinkStart.of_computed (computed : (!cs.head?.any isNameRest && fails fraction cs &&
    fails (token "=>") cs && fails (token ",") cs && fails (token ")") cs) = true) :
    LinkStart cs := by
  simp only [Bool.and_eq_true, Bool.not_eq_true'] at computed
  obtain ⟨⟨⟨⟨word, fraction⟩, arrow⟩, comma⟩, close⟩ := computed
  exact ⟨⟨word, misses_of_fails fraction, misses_of_fails arrow⟩, misses_of_fails comma,
    misses_of_fails close⟩

theorem linkStart_named {w : String} (named : isName w = true) (optional : Bool)
    (rest : List Char) : LinkStart (Expr.namedLink optional w ++ rest) := by
  obtain ⟨c, tail, shape, first, -⟩ := isName_cons named
  unfold Expr.namedLink
  rw [shape]
  cases optional with
  | true => exact .of_computed rfl
  | false =>
    -- the point is no part of a number in front, as no digit follows
    have apart : Misses fraction ('.' :: (c :: tail ++ rest)) :=
      fraction_misses_of_point (isDigit_of_isNameStart first)
    exact ⟨⟨rfl, apart, misses_of_fails rfl⟩, misses_of_fails rfl, misses_of_fails rfl⟩

theorem linkStart_computed (optional : Bool) (key : Expr) (rest : List Char) :
    LinkStart (Expr.computedLink optional key ++ rest) := by
  cases optional <;> exact .of_computed rfl

theorem linkStart_call (args : List Expr) (rest : List Char) :
    LinkStart (Expr.callLink args ++ rest) :=
  .of_computed rfl

/-- A property after a point is read back. -/
theorem link_named {w : String} (named : isName w = true) (optional : Bool)
    (wordEnd : WordEnd rest) : link steps assignment (Expr.namedLink optional w ++ rest) =
      .ok (some fun base => .member base (.named w) optional) rest := by
  obtain ⟨c, tail, shape, first, -⟩ := isName_cons named
  have start : Expr.isStart c = true := by simp [Expr.isStart, first]
  have property := name_ok named wordEnd.word
  cases optional with
  | true =>
    have dots : token "?." ('?' :: '.' :: (w.toList ++ rest)) = .ok () (w.toList ++ rest) :=
      token_ok rfl
    have noBracket : Misses (char '[') (w.toList ++ rest) := by
      rw [shape]
      refine char_misses ?_ _
      rintro rfl
      cases first
    show link steps assignment ('?' :: '.' :: (w.toList ++ rest)) = _
    unfold link
    rw [ifFound_ok dots, ifFound_misses noBracket, bind_ok (describe_ok _ (commit_ok property))]
    rfl
  | false =>
    have noDots : Misses (token "?.") ('.' :: (w.toList ++ rest)) := misses_of_fails rfl
    have point : token "." ('.' :: (w.toList ++ rest)) = .ok () (w.toList ++ rest) := token_ok rfl
    have solid : (w.toList ++ rest).dropWhile Text.isBlank = w.toList ++ rest := by
      rw [shape]
      exact dropWhile_eq_self (Expr.isBlank_of_isStart start)
    have property' : (do blank; name) (w.toList ++ rest) = .ok w rest := by
      show name ((w.toList ++ rest).dropWhile Text.isBlank) = _
      rw [solid, property]
    show link steps assignment ('.' :: (w.toList ++ rest)) = _
    unfold link
    rw [ifFound_misses noDots, ifFound_ok point, bind_ok (describe_ok _ (commit_ok property'))]
    rfl

/-- What opens the brackets of a computed key. -/
def bracket (optional : Bool) : List Char :=
  if optional then ['?', '.', '['] else ['[']

/-- A key in brackets is a link. -/
theorem link_bracket {key : Key Expr} (read : computedKey assignment cs = .ok key rest)
    (optional : Bool) : link steps assignment (bracket optional ++ cs) =
      .ok (some fun base => .member base key optional) rest := by
  cases optional with
  | true =>
    have dots : token "?." ('?' :: '.' :: '[' :: cs) = .ok () ('[' :: cs) := token_ok rfl
    show link steps assignment ('?' :: '.' :: '[' :: cs) = _
    unfold link
    rw [ifFound_ok dots, ifFound_ok (char_ok '[' _), bind_ok read]
    rfl
  | false =>
    have noDots : Misses (token "?.") ('[' :: cs) := misses_of_fails rfl
    have noPoint : Misses (token ".") ('[' :: cs) := misses_of_fails rfl
    have bracket : token "[" ('[' :: cs) = .ok () cs := token_ok rfl
    show link steps assignment ('[' :: cs) = _
    unfold link
    rw [ifFound_misses noDots, ifFound_misses noPoint, ifFound_ok bracket, bind_ok read]
    rfl

/-- The key is what is read up to the closing bracket. -/
theorem computedKey_ok {key : Expr} (read : assignment cs = .ok key (']' :: rest)) :
    computedKey assignment cs = .ok (.computed key) rest := by
  have close : token "]" (']' :: rest) = .ok () rest := token_ok rfl
  unfold computedKey
  rw [bind_ok (commit_ok read), bind_ok (describe_ok _ (commit_ok close))]
  rfl

/-- A property in brackets is read back. -/
theorem link_computed {key : Expr} (readable : key.Readable) (inner : ReadsWhole assignment key)
    (optional : Bool) : link steps assignment (Expr.computedLink optional key ++ rest) =
      .ok (some fun base => .member base (.computed key) optional) rest := by
  have closed : Closed (']' :: rest) := closed_of_bracket (by decide) rest
  have read := inner _ _ (dropWhile_eq_self (Expr.print_solid readable _)) closed
  unfold Expr.computedLink
  rw [List.append_assoc, List.append_assoc]
  exact link_bracket (computedKey_ok read) optional

/-- The arguments of a call are read back. -/
theorem link_call {args : List Expr} (readable : ∀ arg ∈ args, arg.Readable)
    (each : ∀ arg ∈ args, ReadsWhole assignment arg) (few : args.length ≤ steps)
    (none : ∀ rest, Misses assignment (')' :: rest)) :
    link steps assignment (Expr.callLink args ++ rest) =
      .ok (some fun callee => .call callee args) rest := by
  have elements : sepBy steps assignment (token ",") (Expr.listed args ++ ')' :: rest) =
      .ok args (')' :: rest) := sepBy_listed (by decide) readable each few (none rest)
  have close : token ")" (')' :: rest) = .ok () rest := token_ok rfl
  have read : callArgs steps assignment (Expr.listed args ++ ')' :: rest) = .ok args rest := by
    unfold callArgs
    rw [bind_ok elements, bind_ok (describe_ok _ (commit_ok close))]
    rfl
  have noDots : Misses (token "?.") ('(' :: (Expr.listed args ++ ')' :: rest)) :=
    misses_of_fails rfl
  have noPoint : Misses (token ".") ('(' :: (Expr.listed args ++ ')' :: rest)) :=
    misses_of_fails rfl
  have noBracket : Misses (token "[") ('(' :: (Expr.listed args ++ ')' :: rest)) :=
    misses_of_fails rfl
  have paren : token "(" ('(' :: (Expr.listed args ++ ')' :: rest)) =
      .ok () (Expr.listed args ++ ')' :: rest) := token_ok rfl
  unfold Expr.callLink
  rw [List.cons_append, List.append_assoc, List.singleton_append]
  unfold link
  rw [ifFound_misses noDots, ifFound_misses noPoint, ifFound_misses noBracket, ifFound_ok paren,
    bind_ok read]
  rfl

/-! ### One link more -/

/-- **One link more.** What the link makes of the chain in front is the whole. -/
theorem ReadsChain.next {base : Expr} {extend : Expr → Expr} {front : List Char}
    (reads : ReadsChain steps assignment base)
    (begins : ∀ rest, LinkStart (front ++ rest))
    (read : ∀ rest, WordEnd rest → link steps assignment (front ++ rest) = .ok (some extend) rest)
    (written : (extend base).print.toList = base.print.toList ++ front)
    (count : linkCount (extend base) = linkCount base + 1)
    (shallow : (extend base).depth ≤ maxHeight) :
    ReadsChain steps assignment (extend base) := by
  intro rounds cs rest enough ahead wordEnd
  rw [written, List.append_assoc] at ahead
  rw [count] at enough ⊢
  have first := reads rounds cs _ (Nat.le_of_succ_le enough) ahead (begins rest).toWordEnd
  obtain ⟨left, more⟩ : ∃ left, rounds - linkCount base = left + 1 :=
    ⟨rounds - (linkCount base + 1), by omega⟩
  have fewer : rounds - (linkCount base + 1) = left := by omega
  rw [first, more, fewer, links, bind_ok (read rest wordEnd)]
  exact bind_ok (bounded_ok shallow rest) _

theorem readsChain_named {base : Expr} {w : String} {optional : Bool}
    (reads : ReadsChain steps assignment base) (named : isName w = true)
    (shallow : (Expr.member base (.named w) optional).depth ≤ maxHeight) :
    ReadsChain steps assignment (.member base (.named w) optional) :=
  reads.next (linkStart_named named optional) (fun _ wordEnd => link_named named optional wordEnd)
    (Expr.toList_print_named base w optional) (by rw [linkCount]) shallow

theorem readsChain_computed {base key : Expr} {optional : Bool}
    (reads : ReadsChain steps assignment base) (readable : key.Readable)
    (inner : ReadsWhole assignment key)
    (shallow : (Expr.member base (.computed key) optional).depth ≤ maxHeight) :
    ReadsChain steps assignment (.member base (.computed key) optional) :=
  reads.next (linkStart_computed optional key) (fun _ _ => link_computed readable inner optional)
    (Expr.toList_print_computed base key optional) (by rw [linkCount]) shallow

theorem readsChain_call {callee : Expr} {args : List Expr}
    (reads : ReadsChain steps assignment callee) (readable : ∀ arg ∈ args, arg.Readable)
    (each : ∀ arg ∈ args, ReadsWhole assignment arg) (few : args.length ≤ steps)
    (none : ∀ rest, Misses assignment (')' :: rest))
    (shallow : (Expr.call callee args).depth ≤ maxHeight) :
    ReadsChain steps assignment (.call callee args) :=
  reads.next (linkStart_call args) (fun _ _ => link_call readable each few none)
    (Expr.toList_print_call callee args) (by rw [linkCount]) shallow

end

end Grammar

end FormLogic
