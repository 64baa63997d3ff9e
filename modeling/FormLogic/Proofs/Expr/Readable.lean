import FormLogic.Proofs.Expr.Depth
import FormLogic.Proofs.Expr.Lexical

/-!
# `FormLogic.Proofs.Expr.Readable` — expressions whose text can be read back

The text of an expression shows its tree only if the tree is one that the grammar can build: names
are names, an assignment or a function does not stand where it would need parentheses that are not
written, and what is deleted is a member.

## Contents
- `Expr.Readable`: these expressions.
- `toList_print_array` and the like: their texts, as characters.
- `print_head`, `length_lt_of_mem`: how a text starts, and that the text of a part is shorter.
-/

namespace FormLogic

/-- The words that stand for something else than a variable. -/
def Grammar.keywords : List String :=
  ["true", "false", "null", "undefined", "typeof", "delete"]

/-- A space and what an operator is written as, with a space behind it. -/
def Grammar.spaced (symbol : String) (rest : List Char) : List Char :=
  ' ' :: (symbol.toList ++ ' ' :: rest)

theorem Grammar.spaced_append (symbol : String) (cs rest : List Char) :
    spaced symbol cs ++ rest = spaced symbol (cs ++ rest) := by
  unfold spaced
  rw [List.cons_append, List.append_assoc, List.cons_append]

/-- The constant is read back from its text. -/
def Literal.Readable : Literal → Prop
  | .undefined => True
  | .null => True
  | .bool _ => True
  | .number x => Number.ReadsBack x
  | .string s => ∀ c ∈ s.toList, Grammar.isPlain c = true

namespace Expr

/-- Whether the expression can be an operand: no assignment and no function. -/
def isOperand : Expr → Bool
  | .assign _ _ | .arrow _ _ => false
  | _ => true

/-- Whether a member access or a call can follow the expression. -/
def isBase : Expr → Bool
  | .assign _ _ | .arrow _ _ | .delete _ => false
  | _ => true

theorem isOperand_of_isBase {e : Expr} (base : e.isBase = true) : e.isOperand = true := by
  cases e with
  | assign _ _ | arrow _ _ => cases base
  | _ => rfl

theorem isOperand_of_isAssignable {e : Expr} (assignable : e.isAssignable = true) :
    e.isOperand = true := by
  cases e with
  | assign _ _ | arrow _ _ => cases assignable
  | _ => rfl

theorem isOperand_of_isMember {e : Expr} (member : e.isMember = true) : e.isOperand = true := by
  cases e with
  | assign _ _ | arrow _ _ => cases member
  | _ => rfl

/-- The expression is one whose text can be read back. -/
inductive Readable : Expr → Prop where
  | literal {value : Literal} (plain : value.Readable) : Readable (.literal value)
  | array {items : List Expr} (each : ∀ item ∈ items, Readable item) : Readable (.array items)
  | object {entries : List (String × Expr)}
      (keys : ∀ entry ∈ entries, ∀ c ∈ entry.1.toList, Grammar.isPlain c = true)
      (each : ∀ entry ∈ entries, Readable entry.2) : Readable (.object entries)
  | ident {name : String} (named : Grammar.isName name = true) (free : name ∉ Grammar.keywords) :
      Readable (.ident name)
  | named {base : Expr} {name : String} {optional : Bool} (front : Readable base)
      (simple : base.isBase = true) (named : Grammar.isName name = true) :
      Readable (.member base (.named name) optional)
  | computed {base key : Expr} {optional : Bool} (front : Readable base)
      (simple : base.isBase = true) (inner : Readable key) :
      Readable (.member base (.computed key) optional)
  | call {callee : Expr} {args : List Expr} (front : Readable callee)
      (simple : callee.isBase = true) (each : ∀ arg ∈ args, Readable arg) :
      Readable (.call callee args)
  | arrow {params : List String} {body : Expr}
      (named : ∀ param ∈ params, Grammar.isName param = true) (inner : Readable body) :
      Readable (.arrow params body)
  | unary {op : UnaryOp} {operand : Expr} (inner : Readable operand)
      (tight : operand.isOperand = true) : Readable (.unary op operand)
  | binary {op : BinaryOp} {lhs rhs : Expr} (left : Readable lhs) (tight : lhs.isOperand = true)
      (right : Readable rhs) (tight' : rhs.isOperand = true) : Readable (.binary op lhs rhs)
  | logical {op : LogicalOp} {lhs rhs : Expr} (left : Readable lhs) (tight : lhs.isOperand = true)
      (right : Readable rhs) (tight' : rhs.isOperand = true) : Readable (.logical op lhs rhs)
  | conditional {test consequent alternate : Expr} (first : Readable test)
      (tight : test.isOperand = true) (second : Readable consequent)
      (third : Readable alternate) : Readable (.conditional test consequent alternate)
  | assign {target value : Expr} (left : Readable target) (assignable : target.isAssignable = true)
      (right : Readable value) : Readable (.assign target value)
  | delete {target : Expr} (inner : Readable target) (member : target.isMember = true) :
      Readable (.delete target)

/-! ## Texts as characters -/

theorem printItems_eq (items : List Expr) : printItems items = items.map print := by
  induction items with
  | nil => rfl
  | cons item rest ih => exact congrArg (print item :: ·) ih

/-- The text of an entry. -/
def printEntry (entry : String × Expr) : List Char :=
  (Text.quote entry.1).toList ++ ':' :: ' ' :: entry.2.print.toList

theorem printEntries_eq (entries : List (String × Expr)) :
    (printEntries entries).map String.toList = entries.map printEntry := by
  induction entries with
  | nil => rfl
  | cons entry rest ih =>
    obtain ⟨key, value⟩ := entry
    rw [printEntries, List.map_cons, List.map_cons, ih]
    simp [printEntry, String.toList_append]

/-- The texts with commas between them. -/
def listed (items : List Expr) : List Char :=
  [',', ' '].intercalate (items.map fun item => item.print.toList)

theorem toList_intercalate_printItems (items : List Expr) :
    (", ".intercalate (printItems items)).toList = listed items := by
  rw [String.toList_intercalate, printItems_eq, List.map_map]
  rfl

theorem toList_print_array (items : List Expr) :
    (print (.array items)).toList = '[' :: (listed items ++ [']']) := by
  show ("[" ++ ", ".intercalate (printItems items) ++ "]").toList = _
  simp [String.toList_append, -String.toList_intercalate, toList_intercalate_printItems]

theorem toList_print_object (entries : List (String × Expr)) :
    (print (.object entries)).toList =
      '\x7b' :: ([',', ' '].intercalate (entries.map printEntry) ++ ['\x7d']) := by
  show ("\x7b" ++ ", ".intercalate (printEntries entries) ++ "\x7d").toList = _
  simp [String.toList_append, printEntries_eq]

/-- A member access by name, behind its object. -/
def namedLink (optional : Bool) (name : String) : List Char :=
  (if optional then ['?', '.'] else ['.']) ++ name.toList

/-- A member access by a computed key, behind its object. -/
def computedLink (optional : Bool) (key : Expr) : List Char :=
  (if optional then ['?', '.', '['] else ['[']) ++ (key.print.toList ++ [']'])

/-- The arguments of a call, behind what is called. -/
def callLink (args : List Expr) : List Char :=
  '(' :: (listed args ++ [')'])

theorem toList_print_named (base : Expr) (name : String) (optional : Bool) :
    (print (.member base (.named name) optional)).toList =
      base.print.toList ++ namedLink optional name := by
  show (print base ++ ((if optional then "?." else ".") ++ name)).toList = _
  unfold namedLink
  cases optional <;> simp [String.toList_append]

theorem toList_print_computed (base key : Expr) (optional : Bool) :
    (print (.member base (.computed key) optional)).toList =
      base.print.toList ++ computedLink optional key := by
  show (print base ++ ((if optional then "?.[" else "[") ++ print key ++ "]")).toList = _
  unfold computedLink
  cases optional <;> simp [String.toList_append]

theorem toList_print_call (callee : Expr) (args : List Expr) :
    (print (.call callee args)).toList = callee.print.toList ++ callLink args := by
  show (print callee ++ "(" ++ ", ".intercalate (printItems args) ++ ")").toList = _
  unfold callLink
  simp [String.toList_append, -String.toList_intercalate, toList_intercalate_printItems]

theorem toList_print_arrow (params : List String) (body : Expr) :
    (print (.arrow params body)).toList =
      '(' :: ([',', ' '].intercalate (params.map String.toList) ++
        ')' :: ' ' :: '=' :: '>' :: ' ' :: body.print.toList) := by
  show ("(" ++ ", ".intercalate params ++ ") => " ++ print body).toList = _
  simp [String.toList_append]

theorem toList_print_unary (op : UnaryOp) (operand : Expr) :
    (print (.unary op operand)).toList =
      '(' :: (op.symbol.toList ++ (operand.print.toList ++ [')'])) := by
  show ("(" ++ op.symbol ++ print operand ++ ")").toList = _
  simp [String.toList_append]

theorem toList_print_binary (op : BinaryOp) (lhs rhs : Expr) :
    (print (.binary op lhs rhs)).toList =
      '(' :: (lhs.print.toList ++ Grammar.spaced op.symbol (rhs.print.toList ++ [')'])) := by
  show ("(" ++ print lhs ++ " " ++ op.symbol ++ " " ++ print rhs ++ ")").toList = _
  simp [String.toList_append, Grammar.spaced]

theorem toList_print_logical (op : LogicalOp) (lhs rhs : Expr) :
    (print (.logical op lhs rhs)).toList =
      '(' :: (lhs.print.toList ++ Grammar.spaced op.symbol (rhs.print.toList ++ [')'])) := by
  show ("(" ++ print lhs ++ " " ++ op.symbol ++ " " ++ print rhs ++ ")").toList = _
  simp [String.toList_append, Grammar.spaced]

theorem toList_print_conditional (test consequent alternate : Expr) :
    (print (.conditional test consequent alternate)).toList =
      '(' :: (test.print.toList ++ Grammar.spaced "?" (consequent.print.toList ++
        Grammar.spaced ":" (alternate.print.toList ++ [')']))) := by
  show ("(" ++ print test ++ " ? " ++ print consequent ++ " : " ++ print alternate ++ ")").toList = _
  simp [String.toList_append, Grammar.spaced]

theorem toList_print_assign (target value : Expr) :
    (print (.assign target value)).toList =
      target.print.toList ++ Grammar.spaced "=" value.print.toList := by
  show (print target ++ " = " ++ print value).toList = _
  simp [String.toList_append, Grammar.spaced]

theorem toList_print_delete (target : Expr) :
    (print (.delete target)).toList = "delete".toList ++ ' ' :: target.print.toList := by
  show ("delete " ++ print target).toList = _
  simp [String.toList_append]

/-! ## How a text starts -/

/-- Whether the text of an expression can start with the character. -/
def isStart (c : Char) : Bool :=
  c.isDigit || Grammar.isNameStart c || c == '"' || c == '[' || c == '\x7b' || c == '('

/-- The text of an expression is not empty, and starts like an expression. -/
theorem print_head {e : Expr} (readable : e.Readable) :
    ∃ c cs, e.print.toList = c :: cs ∧ isStart c = true := by
  -- a chain starts as its front does, and an assignment as its target
  have start {front : List Char} (head : ∃ c cs, front = c :: cs ∧ isStart c = true)
      (behind : List Char) : ∃ c cs, front ++ behind = c :: cs ∧ isStart c = true := by
    obtain ⟨c, cs, rfl, starts⟩ := head
    exact ⟨c, cs ++ behind, rfl, starts⟩
  have word {name : String} (named : Grammar.isName name = true) :
      ∃ c cs, name.toList = c :: cs ∧ isStart c = true := by
    obtain ⟨c, cs, shape, first, -⟩ := Grammar.isName_cons named
    exact ⟨c, cs, shape, by simp [isStart, first]⟩
  induction readable with
  | @literal value plain =>
    cases value with
    | undefined | null => exact word (by decide)
    | bool b => cases b <;> exact word (by decide)
    | number x =>
      obtain ⟨whole, fraction, nonempty, digits, -, shape, -⟩ := Number.ReadsBack.numeral plain
      obtain ⟨c, cs, rfl⟩ := List.exists_cons_of_ne_nil nonempty
      exact ⟨c, _, shape, by simp [isStart, digits c List.mem_cons_self]⟩
    | string s => exact ⟨'"', _, String.toList_ofList, by decide⟩
  | array => exact ⟨_, _, toList_print_array _, by decide⟩
  | object => exact ⟨_, _, toList_print_object _, by decide⟩
  | ident named free => exact word named
  | named front simple named ih =>
    rw [toList_print_named]
    exact start ih _
  | computed front simple inner ih =>
    rw [toList_print_computed]
    exact start ih _
  | call front simple each ih =>
    rw [toList_print_call]
    exact start ih _
  | arrow => exact ⟨_, _, toList_print_arrow _ _, by decide⟩
  | unary => exact ⟨_, _, toList_print_unary _ _, by decide⟩
  | binary => exact ⟨_, _, toList_print_binary _ _ _, by decide⟩
  | logical => exact ⟨_, _, toList_print_logical _ _ _, by decide⟩
  | conditional => exact ⟨_, _, toList_print_conditional _ _ _, by decide⟩
  | assign left assignable right ih =>
    rw [toList_print_assign]
    exact start ih _
  | delete =>
    rw [toList_print_delete]
    exact ⟨'d', _, rfl, by decide⟩

theorem toNat_of_isStart {c : Char} (starts : isStart c = true) :
    0x20 < c.toNat ∧ c.toNat < 0x7F := by
  unfold isStart Grammar.isNameStart Char.isAlpha Char.isUpper Char.isLower Char.isDigit at starts
  simp only [Bool.or_eq_true, Bool.and_eq_true, decide_eq_true_eq, beq_iff_eq, ge_iff_le,
    UInt32.le_iff_toNat_le] at starts
  show 0x20 < c.val.toNat ∧ c.val.toNat < 0x7F
  have between {a b : UInt32} (within : a.toNat ≤ c.val.toNat ∧ c.val.toNat ≤ b.toNat)
      (low : 0x20 < a.toNat) (high : b.toNat < 0x7F) : 0x20 < c.val.toNat ∧ c.val.toNat < 0x7F :=
    ⟨Nat.lt_of_lt_of_le low within.1, Nat.lt_of_le_of_lt within.2 high⟩
  rcases starts with ((((digit | (((upper | lower) | rfl) | rfl)) | rfl) | rfl) | rfl) | rfl
  · exact between digit (by decide) (by decide)
  · exact between upper (by decide) (by decide)
  · exact between lower (by decide) (by decide)
  all_goals decide

/-- An expression does not start with white space. -/
theorem isBlank_of_isStart {c : Char} (starts : isStart c = true) : Text.isBlank c = false := by
  obtain ⟨low, high⟩ := toNat_of_isStart starts
  cases blank : Text.isBlank c with
  | false => rfl
  | true =>
    obtain ⟨range, mem, inside⟩ := Text.Ranges.contains_iff.mp blank
    simp only [Text.blankRanges, List.mem_cons, List.not_mem_nil, or_false] at mem
    rcases mem with rfl | rfl | rfl | rfl | rfl | rfl | rfl | rfl | rfl | rfl <;> omega

/-- There is nothing blank at the front of an expression. -/
theorem print_solid {e : Expr} (readable : e.Readable) (rest : List Char) :
    (e.print.toList ++ rest).head?.any Text.isBlank = false := by
  obtain ⟨c, cs, shape, starts⟩ := print_head readable
  rw [shape]
  exact isBlank_of_isStart starts

theorem print_ne_nil {e : Expr} (readable : e.Readable) : e.print.toList ≠ [] := by
  obtain ⟨c, cs, shape, -⟩ := print_head readable
  rw [shape]
  exact List.cons_ne_nil _ _

/-! ## How long a text is -/

section

variable {texts : List (List Char)}

theorem length_le_intercalate (each : ∀ text ∈ texts, text ≠ []) (separator : List Char) :
    texts.length ≤ (separator.intercalate texts).length := by
  induction texts with
  | nil => exact Nat.zero_le _
  | cons text texts ih =>
    have some := List.length_pos_iff.mpr (each text List.mem_cons_self)
    have others := ih fun other mem => each other (List.mem_cons_of_mem _ mem)
    cases texts with
    | nil =>
      rw [List.intercalate_singleton]
      exact some
    | cons other texts =>
      rw [List.intercalate_cons_cons, List.length_append, List.length_append, List.length_cons]
      omega

theorem length_le_of_mem {text : List Char} (mem : text ∈ texts) (separator : List Char) :
    text.length ≤ (separator.intercalate texts).length := by
  induction texts with
  | nil => cases mem
  | cons first texts ih =>
    cases texts with
    | nil =>
      obtain rfl := List.mem_singleton.mp mem
      exact Nat.le_of_eq (congrArg List.length List.intercalate_singleton.symm)
    | cons other texts =>
      rw [List.intercalate_cons_cons, List.length_append, List.length_append]
      rcases List.mem_cons.mp mem with rfl | mem
      · omega
      · have inside := ih mem
        omega

end

theorem length_le_listed {items : List Expr} (readable : ∀ item ∈ items, item.Readable) :
    items.length ≤ (listed items).length := by
  have counted := length_le_intercalate
    (List.forall_mem_map.mpr fun item mem => print_ne_nil (readable item mem)) [',', ' ']
  rwa [List.length_map] at counted

/-- **The text of a part is shorter**, so the length of the whole bounds every loop of the grammar
over the parts. -/
theorem length_lt_of_mem {e part : Expr} (mem : part ∈ e.children) :
    part.print.toList.length < e.print.toList.length := by
  have item {items : List Expr} (mem : part ∈ items) :
      part.print.toList.length ≤ (listed items).length := by
    have text : part.print.toList ∈ items.map fun item => item.print.toList :=
      List.mem_map_of_mem mem
    exact length_le_of_mem text _
  cases e with
  | literal _ | ident _ => cases mem
  | array items =>
    have inside : part.print.toList.length ≤ (listed items).length := item mem
    rw [toList_print_array]
    simp only [List.length_cons, List.length_append]
    omega
  | object entries =>
    have value : part ∈ entries.map Prod.snd := mem
    obtain ⟨entry, inside, rfl⟩ := List.mem_map.mp value
    have text : printEntry entry ∈ entries.map printEntry := List.mem_map_of_mem inside
    have inside := length_le_of_mem text [',', ' ']
    rw [printEntry] at inside
    rw [toList_print_object]
    simp only [List.length_cons, List.length_append] at inside ⊢
    omega
  | member base key optional =>
    cases key with
    | named name =>
      rw [List.mem_singleton.mp mem, toList_print_named, namedLink]
      cases optional <;> simp only [List.length_cons, List.length_append, if_true, if_false,
        Bool.false_eq_true] <;> omega
    | computed key =>
      rw [toList_print_computed, computedLink]
      rcases List.mem_cons.mp mem with rfl | mem
      · cases optional <;> simp only [List.length_cons, List.length_append, if_true, if_false,
          Bool.false_eq_true] <;> omega
      · rw [List.mem_singleton.mp mem]
        cases optional <;> simp only [List.length_cons, List.length_append, if_true, if_false,
          Bool.false_eq_true] <;> omega
  | call callee args =>
    rw [toList_print_call, callLink]
    simp only [List.length_cons, List.length_append]
    rcases List.mem_cons.mp mem with rfl | mem
    · omega
    · have inside := item mem
      omega
  | arrow params body =>
    rw [List.mem_singleton.mp mem, toList_print_arrow]
    simp only [List.length_cons, List.length_append]
    omega
  | unary op operand =>
    rw [List.mem_singleton.mp mem, toList_print_unary]
    simp only [List.length_cons, List.length_append]
    omega
  | binary op lhs rhs =>
    rw [toList_print_binary, Grammar.spaced]
    simp only [List.length_cons, List.length_append]
    simp only [children, List.mem_cons, List.not_mem_nil, or_false] at mem
    rcases mem with rfl | rfl <;> omega
  | logical op lhs rhs =>
    rw [toList_print_logical, Grammar.spaced]
    simp only [List.length_cons, List.length_append]
    simp only [children, List.mem_cons, List.not_mem_nil, or_false] at mem
    rcases mem with rfl | rfl <;> omega
  | conditional test consequent alternate =>
    rw [toList_print_conditional, Grammar.spaced, Grammar.spaced]
    simp only [List.length_cons, List.length_append]
    simp only [children, List.mem_cons, List.not_mem_nil, or_false] at mem
    rcases mem with rfl | rfl | rfl <;> omega
  | assign target value =>
    rw [toList_print_assign, Grammar.spaced]
    simp only [List.length_cons, List.length_append]
    simp only [children, List.mem_cons, List.not_mem_nil, or_false] at mem
    rcases mem with rfl | rfl <;> omega
  | delete target =>
    rw [List.mem_singleton.mp mem, toList_print_delete]
    simp only [List.length_cons, List.length_append]
    omega

/-! ### A character for each of a list of parts -/

theorem length_items_le {items : List Expr} (readable : ∀ item ∈ items, item.Readable) :
    items.length ≤ (print (.array items)).toList.length := by
  have counted := length_le_listed readable
  rw [toList_print_array]
  simp only [List.length_cons, List.length_append]
  omega

theorem length_args_le (callee : Expr) {args : List Expr}
    (readable : ∀ arg ∈ args, arg.Readable) :
    args.length ≤ (print (.call callee args)).toList.length := by
  have counted := length_le_listed readable
  rw [toList_print_call, callLink]
  simp only [List.length_cons, List.length_append]
  omega

theorem length_entries_le (entries : List (String × Expr)) :
    entries.length ≤ (print (.object entries)).toList.length := by
  have each : ∀ text ∈ entries.map printEntry, text ≠ [] := by
    refine List.forall_mem_map.mpr fun entry _ => ?_
    exact List.append_ne_nil_of_right_ne_nil _ (List.cons_ne_nil _ _)
  have counted := length_le_intercalate each [',', ' ']
  rw [List.length_map] at counted
  rw [toList_print_object]
  simp only [List.length_cons, List.length_append]
  omega

theorem length_params_le {params : List String} {body : Expr}
    (named : ∀ param ∈ params, Grammar.isName param = true) :
    params.length ≤ (print (.arrow params body)).toList.length := by
  have each : ∀ text ∈ params.map String.toList, text ≠ [] := by
    refine List.forall_mem_map.mpr fun param mem => ?_
    obtain ⟨c, cs, shape, -⟩ := Grammar.isName_cons (named param mem)
    rw [shape]
    exact List.cons_ne_nil _ _
  have counted := length_le_intercalate each [',', ' ']
  rw [List.length_map] at counted
  rw [toList_print_arrow]
  simp only [List.length_cons, List.length_append]
  omega

end Expr

end FormLogic
