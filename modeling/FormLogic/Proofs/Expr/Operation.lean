import FormLogic.Proofs.Expr.Primary

/-!
# `FormLogic.Proofs.Expr.Operation` — operations are read back

Operators are written between parentheses, and a text in parentheses could be the parameters of a
function. It is none: if an operand starts with a word at all, then what is behind the word is
neither a comma nor a closing parenthesis. The word is a prefix operator only if the operand is one.

## Contents
- `Lead`, `lead`: the first word of an operand and what is behind it.
- `arrowParams_misses`: an operand with an operator behind it is no parameters.
- `unary_of_chain`, `ReadsChain.readsOperand`, `readsOperand_delete`: operands.
- `readsPrimary_unary`, `readsPrimary_infix`, `readsPrimary_conditional`: operations in parentheses.
- `ReadsOperand.readsWhole`, `readsWhole_arrow`, `readsWhole_assign`: whole expressions.
-/

namespace FormLogic

namespace Grammar

open FormLogic.Parser

variable {steps frames : Nat} {cs rest : List Char} {e : Expr}

/-! ## The word an expression starts with -/

/-- A token that no expression starts with is not read where one starts. -/
theorem token_misses_of_start {sign : String} {c d : Char} {ds : List Char}
    (starts : Expr.isStart c = true) (shape : sign.toList = d :: ds)
    (other : Expr.isStart d = false) (ahead : cs.dropWhile Text.isBlank = c :: rest) :
    Misses (token sign) cs := by
  have differ : d ≠ c := by
    rintro rfl
    rw [starts] at other
    cases other
  refine token_misses ?_
  rw [ahead, shape, afterFront?, if_neg differ]

/-- The text of an expression does not go on as parameters. -/
theorem noParam_of_start {c : Char} (starts : Expr.isStart c = true)
    (ahead : cs.dropWhile Text.isBlank = c :: rest) : NoParam cs :=
  ⟨token_misses_of_start starts rfl (by decide) ahead,
    token_misses_of_start starts rfl (by decide) ahead⟩

/-- The text of an expression behind a space does not go on as parameters. -/
theorem noParam_of_print (readable : e.Readable) (rest : List Char) :
    NoParam (' ' :: (e.print.toList ++ rest)) := by
  obtain ⟨c, tail, shape, starts⟩ := Expr.print_head readable
  rw [shape]
  exact noParam_of_start starts (dropWhile_space (Expr.isBlank_of_isStart starts))

/-- **The first word of an operand**, if it starts with one, and what is behind it. A chain does not
start with a prefix operator that is a word. -/
inductive Lead (base : Bool) (cs rest : List Char) : Prop where
  | sign (other : cs.head?.any isNameStart = false)
  | word {w : String} {behind : List Char} (read : name cs = .ok w behind)
      (follows : behind = rest ∨ NoParam behind)
      (other : base = true → w ≠ "typeof" ∧ w ≠ "delete")

theorem lead_word {w : String} {base : Bool} (named : isName w = true)
    (other : w ≠ "typeof" ∧ w ≠ "delete") (wordEnd : WordEnd rest) :
    Lead base (w.toList ++ rest) rest :=
  .word (name_ok named wordEnd.word) (Or.inl rfl) fun _ => other

/-- A chain starts with the word that its front starts with. -/
theorem Lead.next {base : Bool} {link : List Char} (lead : Lead true cs (link ++ rest))
    (start : LinkStart (link ++ rest)) : Lead base cs rest := by
  cases lead with
  | sign other => exact .sign other
  | word read follows other =>
    refine .word read (Or.inr ?_) fun _ => other rfl
    rcases follows with rfl | noParam
    · exact start.toNoParam
    · exact noParam

/-- A constant starts with itself if it is a word. -/
theorem lead_literal {value : Literal} {base : Bool} (plain : value.Readable)
    (wordEnd : WordEnd rest) :
    Lead base ((Expr.print (.literal value)).toList ++ rest) rest := by
  cases value with
  | undefined => exact lead_word (w := "undefined") (by decide) (by decide) wordEnd
  | null => exact lead_word (w := "null") (by decide) (by decide) wordEnd
  | bool b =>
    cases b with
    | false => exact lead_word (w := "false") (by decide) (by decide) wordEnd
    | true => exact lead_word (w := "true") (by decide) (by decide) wordEnd
  | number x =>
    obtain ⟨whole, fraction, nonempty, digits, -, shape, -⟩ := Number.ReadsBack.numeral plain
    obtain ⟨c, tail, rfl⟩ := List.exists_cons_of_ne_nil nonempty
    have written : (Expr.print (.literal (.number x))).toList =
        c :: tail ++ pointed fraction := shape
    have noName : isNameStart c = false := by
      cases first : isNameStart c with
      | false => rfl
      | true =>
        have digit := digits c List.mem_cons_self
        rw [isDigit_of_isNameStart first] at digit
        cases digit
    refine .sign ?_
    rw [written]
    exact noName
  | string s =>
    have written : (Expr.print (.literal (.string s))).toList =
        '"' :: (s.toList.flatMap Text.escape ++ ['"']) := String.toList_ofList
    refine .sign ?_
    rw [written]
    rfl

/-- **Every operand has a first word of that kind**, or starts with a sign. -/
theorem lead (readable : e.Readable) (tight : e.isOperand = true) (wordEnd : WordEnd rest) :
    Lead e.isBase (e.print.toList ++ rest) rest := by
  -- a chain starts as its front does, so the induction goes along the fronts
  induction readable generalizing rest with
  | literal plain => exact lead_literal plain wordEnd
  | array => exact .sign (by rw [Expr.toList_print_array]; rfl)
  | object => exact .sign (by rw [Expr.toList_print_object]; rfl)
  | @ident w named free =>
    have written : (Expr.print (.ident w)).toList = w.toList := rfl
    simp only [keywords, List.mem_cons, List.not_mem_nil, or_false, not_or] at free
    rw [written]
    exact lead_word named free.2.2.2.2 wordEnd
  | @named base w optional front simple named ih =>
    have start := linkStart_named named optional rest
    have begins := ih (Expr.isOperand_of_isBase simple) start.toWordEnd
    rw [Expr.toList_print_named, List.append_assoc]
    rw [simple] at begins
    exact begins.next start
  | @computed base key optional front simple inner ih =>
    have start := linkStart_computed optional key rest
    have begins := ih (Expr.isOperand_of_isBase simple) start.toWordEnd
    rw [Expr.toList_print_computed, List.append_assoc]
    rw [simple] at begins
    exact begins.next start
  | @call callee args front simple each ih =>
    have start := linkStart_call args rest
    have begins := ih (Expr.isOperand_of_isBase simple) start.toWordEnd
    rw [Expr.toList_print_call, List.append_assoc]
    rw [simple] at begins
    exact begins.next start
  | arrow => cases tight
  | unary => exact .sign (by rw [Expr.toList_print_unary]; rfl)
  | binary => exact .sign (by rw [Expr.toList_print_binary]; rfl)
  | logical => exact .sign (by rw [Expr.toList_print_logical]; rfl)
  | conditional => exact .sign (by rw [Expr.toList_print_conditional]; rfl)
  | assign => cases tight
  | @delete target inner member =>
    -- the word is the operator itself, and its operand stands behind it
    have read : name ("delete".toList ++ ' ' :: (target.print.toList ++ rest)) =
        .ok "delete" (' ' :: (target.print.toList ++ rest)) := name_ok (by decide) rfl
    rw [Expr.toList_print_delete, List.append_assoc]
    refine .word read (Or.inr (noParam_of_print inner rest)) fun base => ?_
    cases base

/-! ## Operands are no parameters -/

/-- A sign is no parameter. -/
theorem arrowParams_misses_sign (solid : cs.dropWhile Text.isBlank = cs)
    (other : cs.head?.any isNameStart = false) (close : Misses (token ")") cs) :
    Misses (arrowParams steps) ('(' :: cs) := by
  have noName : Misses (do blank; name) cs := by
    refine .bind_ok (rfl : blank cs = .ok () (cs.dropWhile Text.isBlank)) ?_
    rw [solid]
    exact name_misses other
  exact .bind_ok (char_ok '(' cs) (.bind_ok (sepBy_nil noName) (close.bind _))

/-- A word is no parameter unless a comma or the closing parenthesis follows. -/
theorem arrowParams_misses_word {w : String} {behind : List Char}
    (read : name (cs.dropWhile Text.isBlank) = .ok w behind) (noParam : NoParam behind) :
    Misses (arrowParams steps) ('(' :: cs) := by
  have named : (do blank; name) cs = .ok w behind := read
  exact .bind_ok (char_ok '(' cs)
    (.bind_ok (sepBy_one named noParam.comma) (noParam.close.bind _))

/-- An operand with an operator behind it is not the parameters of a function. -/
theorem arrowParams_misses (readable : e.Readable) (tight : e.isOperand = true)
    (ends : OperandEnd rest) : Misses (arrowParams steps) ('(' :: (e.print.toList ++ rest)) := by
  obtain ⟨c, tail, shape, starts⟩ := Expr.print_head readable
  have solid := dropWhile_eq_self (Expr.print_solid readable rest)
  have ahead : (e.print.toList ++ rest).dropWhile Text.isBlank = c :: (tail ++ rest) := by
    rw [solid, shape]
    rfl
  cases lead readable tight ends.toWordEnd with
  | sign other =>
    exact arrowParams_misses_sign solid other (noParam_of_start starts ahead).close
  | word read follows _ =>
    refine arrowParams_misses_word (by rw [solid]; exact read) ?_
    rcases follows with rfl | noParam
    · exact ends.toNoParam
    · exact noParam

/-! ## Prefix operators -/

/-- A prefix operator that is a word is not the first word here. -/
def NoPrefix (cs : List Char) : Prop :=
  ∀ word ∈ ["typeof", "delete"], Misses (keyword word) cs

theorem noPrefix_of_sign (other : cs.head?.any isNameStart = false) : NoPrefix cs :=
  fun word _ => keyword_misses_of_head other word

/-- A chain is an operand where no prefix operator is read. -/
theorem unary_of_chain (noPrefix : NoPrefix (cs.dropWhile Text.isBlank))
    (noSign : Misses unaryOp (cs.dropWhile Text.isBlank))
    (read : chain steps (assignment steps frames) (cs.dropWhile Text.isBlank) = .ok e rest)
    (shallow : e.depth ≤ maxHeight) : unary steps (frames + 1) cs = .ok e rest := by
  refine unary_of_body ((blank_bind _ cs).trans ?_) shallow
  exact (ifFound_misses (noPrefix "typeof" (by decide))).trans <|
    (ifFound_misses (noPrefix "delete" (by decide))).trans <|
      (bind_ok (optional_misses noSign) _).trans read

/-- A chain without a prefix operator is an operand. -/
theorem unary_ok {c : Char} {tail : List Char} (ahead : cs.dropWhile Text.isBlank = c :: tail)
    (starts : Expr.isStart c = true) (noPrefix : NoPrefix (c :: tail))
    (read : chain steps (assignment steps frames) (c :: tail) = .ok e rest)
    (shallow : e.depth ≤ maxHeight) : unary steps (frames + 1) cs = .ok e rest := by
  have solid : (c :: tail).dropWhile Text.isBlank = c :: tail :=
    dropWhile_eq_self (Expr.isBlank_of_isStart starts)
  have noSign : Misses unaryOp (c :: tail) := by
    refine .orElse ((token_misses_of_start starts rfl (by decide) solid).bind _) ?_
    refine oneOf_misses (List.forall_mem_cons.mpr ⟨?_, List.forall_mem_singleton.mpr ?_⟩)
    · exact token_misses_of_start starts rfl (by decide) solid
    · exact token_misses_of_start starts rfl (by decide) solid
  rw [← ahead] at noPrefix noSign read
  exact unary_of_chain noPrefix noSign read shallow

/-- The first word of a chain is neither of the two words that are operators. -/
theorem noPrefix_of_base (readable : e.Readable) (base : e.isBase = true)
    (wordEnd : WordEnd rest) : NoPrefix (e.print.toList ++ rest) := by
  cases lead readable (Expr.isOperand_of_isBase base) wordEnd with
  | sign other => exact noPrefix_of_sign other
  | word read _ other =>
    obtain ⟨noType, noDelete⟩ := other base
    exact List.forall_mem_cons.mpr
      ⟨keyword_misses read noType, List.forall_mem_singleton.mpr (keyword_misses read noDelete)⟩

/-- What is read in front of the end of a word starts a chain, and the chain is an operand. -/
theorem unary_of_front {front : Expr} {between : List Char} (readable : front.Readable)
    (base : front.isBase = true) (wordEnd : WordEnd between)
    (ahead : cs.dropWhile Text.isBlank = front.print.toList ++ between)
    (read : chain steps (assignment steps frames) (front.print.toList ++ between) = .ok e rest)
    (shallow : e.depth ≤ maxHeight) : unary steps (frames + 1) cs = .ok e rest := by
  obtain ⟨c, tail, shape, starts⟩ := Expr.print_head readable
  have whole : front.print.toList ++ between = c :: (tail ++ between) := by rw [shape]; rfl
  have noPrefix := noPrefix_of_base readable base wordEnd
  rw [whole] at ahead noPrefix read
  exact unary_ok ahead starts noPrefix read shallow

/-- A chain is an operand. -/
theorem ReadsChain.readsOperand (reads : ReadsChain steps (assignment steps frames) e)
    (readable : e.Readable) (base : e.isBase = true) (few : linkCount e ≤ steps)
    (shallow : e.depth ≤ maxHeight) : ReadsOperand (unary steps (frames + 1)) e := by
  intro cs rest ahead chainEnd
  have solid := dropWhile_eq_self (Expr.print_solid readable rest)
  have read : chain steps (assignment steps frames) (e.print.toList ++ rest) = .ok e rest :=
    (reads steps _ rest few solid chainEnd.toWordEnd).trans (links_end chainEnd e)
  exact unary_of_front readable base chainEnd.toWordEnd ahead read shallow

/-- What is deleted is read back. -/
theorem readsOperand_delete {target : Expr} (readable : target.Readable)
    (member : target.isMember = true) (inner : ReadsOperand (unary steps frames) target)
    (shallow : (Expr.delete target).depth ≤ maxHeight) :
    ReadsOperand (unary steps (frames + 1)) (.delete target) := by
  intro cs rest ahead chainEnd
  have word : name ("delete".toList ++ ' ' :: (target.print.toList ++ rest)) =
      .ok "delete" (' ' :: (target.print.toList ++ rest)) := name_ok (by decide) rfl
  have target_read := inner _ _ (dropWhile_space (Expr.print_solid readable rest)) chainEnd
  refine unary_of_body ((blank_bind _ cs).trans ?_) shallow
  rw [ahead, Expr.toList_print_delete, List.append_assoc]
  refine (ifFound_misses (keyword_misses word (by decide))).trans <|
    (ifFound_ok (keyword_ok word)).trans <| (bind_ok (commit_ok target_read) _).trans ?_
  rw [if_pos member]
  rfl

/-- The text of a prefix operator is read as the operator, in front of its operand. -/
theorem unaryBody_ok {assignment unary : Parser Expr} (op : UnaryOp) {operand : Expr}
    (readable : operand.Readable) (inner : ReadsOperand unary operand) (chainEnd : ChainEnd rest) :
    unaryBody steps assignment unary (op.symbol.toList ++ (operand.print.toList ++ rest)) =
      .ok (.unary op operand) rest := by
  have solid := Expr.print_solid readable rest
  have read := inner _ _ (dropWhile_eq_self solid) chainEnd
  -- the three operators that are signs are read alike
  have signed (sign : Char) (noBlank : Text.isBlank sign = false)
      (noName : isNameStart sign = false)
      (found : unaryOp (sign :: (operand.print.toList ++ rest)) =
        .ok op (operand.print.toList ++ rest)) :
      unaryBody steps assignment unary (sign :: (operand.print.toList ++ rest)) =
        .ok (.unary op operand) rest := by
    have front : blank (sign :: (operand.print.toList ++ rest)) =
        .ok () (sign :: (operand.print.toList ++ rest)) :=
      congrArg (Reply.ok ()) (dropWhile_eq_self noBlank)
    have noPrefix : NoPrefix (sign :: (operand.print.toList ++ rest)) := noPrefix_of_sign noName
    exact (bind_ok front _).trans <| (ifFound_misses (noPrefix "typeof" (by decide))).trans <|
      (ifFound_misses (noPrefix "delete" (by decide))).trans <|
        (bind_ok (optional_ok found) _).trans (bind_ok (commit_ok read) _)
  cases op with
  | not =>
    obtain ⟨c, tail, shape, starts⟩ := Expr.print_head readable
    -- `!=` would be no prefix operator
    have noEquals : (operand.print.toList ++ rest).head?.any (· == '=') = false := by
      rw [shape]
      refine beq_eq_false_iff_ne.mpr ?_
      rintro rfl
      cases starts
    have sign : token "!" ('!' :: (operand.print.toList ++ rest)) =
        .ok () (operand.print.toList ++ rest) := token_ok rfl
    exact signed '!' (by decide) rfl
      (orElse_ok _ ((bind_ok sign _).trans (bind_ok (notNext_ok noEquals) _)))
  | neg => exact signed '-' (by decide) rfl rfl
  | plus => exact signed '+' (by decide) rfl rfl
  | typeof =>
    have word : name ("typeof".toList ++ ' ' :: (operand.print.toList ++ rest)) =
        .ok "typeof" (' ' :: (operand.print.toList ++ rest)) := name_ok (by decide) rfl
    have read := inner _ _ (dropWhile_space solid) chainEnd
    have front : blank (UnaryOp.typeof.symbol.toList ++ (operand.print.toList ++ rest)) =
        .ok () ("typeof".toList ++ ' ' :: (operand.print.toList ++ rest)) := rfl
    exact (bind_ok front _).trans <|
      (ifFound_ok (keyword_ok word)).trans (bind_ok (commit_ok read) _)

/-! ## Operations in parentheses -/

/-- Reading an expression in parentheses is reading what is between them. -/
theorem readsPrimary_parens {assignment : Parser Expr} (inner : List Char)
    (written : e.print.toList = '(' :: (inner ++ [')']))
    (noParams : ∀ rest, Misses (arrowParams steps) ('(' :: (inner ++ ')' :: rest)))
    (read : ∀ rest, assignment (inner ++ ')' :: rest) = .ok e (')' :: rest)) :
    ReadsPrimary steps assignment e := by
  intro cs rest ahead _
  rw [written, List.cons_append, List.append_assoc] at ahead
  exact primary_parens ahead (noParams rest) (read rest)

theorem closed_paren (rest : List Char) : Closed (')' :: rest) :=
  closed_of_bracket (by decide) rest

/-- A prefix operator with its operand is read back. -/
theorem readsPrimary_unary {op : UnaryOp} {operand : Expr} (readable : operand.Readable)
    (inner : ReadsOperand (unary steps frames) operand)
    (shallow : (Expr.unary op operand).depth ≤ maxHeight) :
    ReadsPrimary steps (assignment steps (frames + 2)) (.unary op operand) := by
  refine readsPrimary_parens (op.symbol.toList ++ operand.print.toList)
    (by rw [Expr.toList_print_unary, List.append_assoc]) (fun rest => ?_) fun rest => ?_
  · rw [List.append_assoc]
    cases op with
    | not | neg | plus => exact misses_of_fails rfl
    | typeof =>
      have word : name ("typeof".toList ++ ' ' :: (operand.print.toList ++ ')' :: rest)) =
          .ok "typeof" (' ' :: (operand.print.toList ++ ')' :: rest)) := name_ok (by decide) rfl
      exact arrowParams_misses_word word (noParam_of_print readable _)
  · have closed := closed_paren rest
    have read : unary steps (frames + 1) (op.symbol.toList ++
        (operand.print.toList ++ ')' :: rest)) = .ok (.unary op operand) (')' :: rest) :=
      unary_of_body (unaryBody_ok op readable inner closed.chainEnd) shallow
    rw [List.append_assoc]
    exact assignment_ok (disjunction_pass read closed.noOperator) closed shallow

/-- Two operands with an operator between them are read back. -/
theorem readsPrimary_infix {join : Expr → Expr → Expr} {lhs rhs : Expr} {symbol : String}
    (written : (join lhs rhs).print.toList =
      '(' :: (lhs.print.toList ++ spaced symbol (rhs.print.toList ++ [')'])))
    (operator : ∀ rest, Operator join (spaced symbol rest) (' ' :: rest))
    (ends : ∀ rest, OperandEnd (spaced symbol rest)) (some : 0 < steps)
    (readable : lhs.Readable) (tight : lhs.isOperand = true) (readable' : rhs.Readable)
    (left : ReadsOperand (unary steps frames) lhs) (right : ReadsOperand (unary steps frames) rhs)
    (shallow : (join lhs rhs).depth ≤ maxHeight) :
    ReadsPrimary steps (assignment steps (frames + 1)) (join lhs rhs) := by
  have inner (rest : List Char) :
      lhs.print.toList ++ spaced symbol rhs.print.toList ++ ')' :: rest =
        lhs.print.toList ++ spaced symbol (rhs.print.toList ++ ')' :: rest) := by
    rw [List.append_assoc, spaced_append]
  refine readsPrimary_parens _ (written.trans (congrArg (List.cons '(') (inner []).symm))
    (fun rest => ?_) fun rest => ?_
  · rw [inner]
    exact arrowParams_misses readable tight (ends _)
  · have closed := closed_paren rest
    have first := left _ _ (dropWhile_eq_self (Expr.print_solid readable _))
      (ends (rhs.print.toList ++ ')' :: rest)).toChainEnd
    have second := right _ _ (dropWhile_space (Expr.print_solid readable' (')' :: rest)))
      closed.chainEnd
    have joined := disjunction_join some first (operator _) second closed.noOperator shallow
    rw [inner]
    exact assignment_ok joined closed shallow

/-- A conditional is read back. -/
theorem readsPrimary_conditional {test consequent alternate : Expr} (readable : test.Readable)
    (tight : test.isOperand = true) (readable' : consequent.Readable)
    (readable'' : alternate.Readable) (first : ReadsOperand (unary steps frames) test)
    (second : ReadsWhole (assignment steps frames) consequent)
    (third : ReadsWhole (assignment steps frames) alternate)
    (shallow : (Expr.conditional test consequent alternate).depth ≤ maxHeight) :
    ReadsPrimary steps (assignment steps (frames + 1))
      (.conditional test consequent alternate) := by
  have inner (rest : List Char) : test.print.toList ++ spaced "?" (consequent.print.toList ++
      spaced ":" alternate.print.toList) ++ ')' :: rest =
        test.print.toList ++ spaced "?" (consequent.print.toList ++
          spaced ":" (alternate.print.toList ++ ')' :: rest)) := by
    rw [List.append_assoc, spaced_append, List.append_assoc, spaced_append]
  refine readsPrimary_parens _ ((Expr.toList_print_conditional test consequent alternate).trans
    (congrArg (List.cons '(') (inner []).symm)) (fun rest => ?_) fun rest => ?_
  · rw [inner]
    exact arrowParams_misses readable tight (.of_computed rfl rfl rfl)
  · rw [inner]
    have tested := first _ (spaced "?" (consequent.print.toList ++
      spaced ":" (alternate.print.toList ++ ')' :: rest)))
      (dropWhile_eq_self (Expr.print_solid readable _)) (.of_computed rfl)
    have asked : questionMark (spaced "?" (consequent.print.toList ++
        spaced ":" (alternate.print.toList ++ ')' :: rest))) =
          .ok () (' ' :: (consequent.print.toList ++
            spaced ":" (alternate.print.toList ++ ')' :: rest))) := rfl
    have accepted := second _ _ (dropWhile_space (Expr.print_solid readable' _))
      (.colon (' ' :: (alternate.print.toList ++ ')' :: rest)))
    have colon : token ":" (spaced ":" (alternate.print.toList ++ ')' :: rest)) =
        .ok () (' ' :: (alternate.print.toList ++ ')' :: rest)) := token_ok rfl
    have rejected := third _ _ (dropWhile_space (Expr.print_solid readable'' _)) (closed_paren rest)
    have noSign : Misses assignSign (')' :: rest) := misses_of_fails rfl
    have disjunct : disjunction steps (unary steps frames) _ = _ :=
      disjunction_pass tested (NoOperator.of_fails rfl)
    have whole : conditional steps (assignment steps frames) (unary steps frames) _ =
        .ok (.conditional test consequent alternate) (')' :: rest) :=
      (bind_ok disjunct _).trans <| (ifFound_ok asked).trans <|
        (bind_ok (commit_ok accepted) _).trans <|
          (bind_ok (describe_ok _ (commit_ok colon)) _).trans (bind_ok (commit_ok rejected) _)
    exact assignment_of_body ((bind_ok whole _).trans (ifFound_misses noSign)) shallow

/-! ## Whole expressions -/

/-- An operand is a whole expression. -/
theorem ReadsOperand.readsWhole (reads : ReadsOperand (unary steps frames) e)
    (shallow : e.depth ≤ maxHeight) : ReadsWhole (assignment steps (frames + 1)) e := by
  intro cs rest ahead closed
  have read := reads cs rest ahead closed.chainEnd
  exact assignment_ok (disjunction_pass read closed.noOperator) closed shallow

/-- A function is read back. -/
theorem readsWhole_arrow {params : List String} {body : Expr}
    (named : ∀ param ∈ params, isName param = true) (few : params.length ≤ steps)
    (readable : body.Readable) (inner : ReadsWhole (assignment steps frames) body)
    (shallow : (Expr.arrow params body).depth ≤ maxHeight) :
    ReadsWhole (assignment steps (frames + 2)) (.arrow params body) := by
  intro cs rest ahead closed
  have read := primary_arrow named few readable inner
    (dropWhile_eq_self (Expr.print_solid (.arrow named readable) rest)) closed
  have whole : chain steps (assignment steps frames) _ = _ :=
    (bind_ok read _).trans (links_end closed.chainEnd _)
  rw [Expr.toList_print_arrow] at ahead whole
  have operand : unary steps (frames + 1) cs = .ok (.arrow params body) rest :=
    unary_ok ahead rfl (noPrefix_of_sign rfl) whole shallow
  exact assignment_ok (disjunction_pass operand closed.noOperator) closed shallow

/-- An assignment is read back. -/
theorem readsWhole_assign {target value : Expr} (assignable : target.isAssignable = true)
    (readable : value.Readable) (left : ReadsOperand (unary steps frames) target)
    (right : ReadsWhole (assignment steps frames) value)
    (shallow : (Expr.assign target value).depth ≤ maxHeight) :
    ReadsWhole (assignment steps (frames + 1)) (.assign target value) := by
  intro cs rest ahead closed
  rw [Expr.toList_print_assign, List.append_assoc] at ahead
  have place := left _ _ ahead (.of_computed rfl)
  have disjunct : disjunction steps (unary steps frames) cs = _ :=
    disjunction_pass place (NoOperator.of_fails rfl)
  have noQuestion : Misses questionMark (' ' :: '=' :: ' ' :: (value.print.toList ++ rest)) :=
    misses_of_fails rfl
  have sign : assignSign (' ' :: '=' :: ' ' :: (value.print.toList ++ rest)) =
      .ok () (' ' :: (value.print.toList ++ rest)) := rfl
  have assigned := right _ _ (dropWhile_space (Expr.print_solid readable rest)) closed
  have test : conditional steps (assignment steps frames) (unary steps frames) cs =
      .ok target (' ' :: '=' :: ' ' :: (value.print.toList ++ rest)) :=
    (bind_ok disjunct _).trans (ifFound_misses noQuestion)
  refine assignment_of_body ((bind_ok test _).trans <| (ifFound_ok sign).trans ?_) shallow
  rw [if_pos assignable]
  exact bind_ok (commit_ok assigned) _

end Grammar

end FormLogic
