import FormLogic.Eval.Interpreter
import FormLogic.Proofs.Eval.Method
import FormLogic.Proofs.Expr.Names

/-!
# `FormLogic.Proofs.Eval.Simulation` — evaluation does not see references

Evaluating an expression on two machines that are the same up to a renaming, as far as the names of
the expression go, gives the same error or related values, and machines that are again the same up to
a renaming. Each construct has its lemma; `exprAgrees` puts them together along the recursion of the
evaluator, and `agree_run` goes through the statements of a program.

## Contents
- `Chains`, `ExprAgrees`: what is shown of an expression.
- `agree_settle` to `agree_deleteMember`: the constructs.
- `exprAgrees`, `agree_run`: all expressions and all programs.
-/

namespace FormLogic

open Eval

namespace Renaming

variable {ρ : Renaming} {names : Set String}

/-- Chains that have both stopped, or that have related values. -/
def Chains (ρ : Renaming) : Option Value → Option Value → Prop :=
  Option.Rel ρ.Values

/-- The names are all in use. -/
def Uses (names : Set String) (used : List String) : Prop :=
  ∀ name ∈ used, name ∈ names

theorem uses_append {first second : List String} :
    Uses names (first ++ second) ↔ Uses names first ∧ Uses names second := by
  unfold Uses
  exact List.forall_mem_append

/-- The expression agrees with itself under every renaming. -/
def ExprAgrees (names : Set String) (e : Expr) : Prop :=
  ∀ ρ, Agree names Chains ρ (chain e) (chain e)

/-- The key agrees with itself under every renaming. -/
def KeyAgrees (names : Set String) (key : Key Expr) : Prop :=
  ∀ ρ, Agree names Values ρ (keyValue key) (keyValue key)

/-! ## The constructs -/

theorem values_ofLiteral (ρ : Renaming) (value : Literal) :
    ρ.Values (ofLiteral value) (ofLiteral value) := by
  cases value with
  | undefined => exact .undefined
  | null => exact .null
  | bool b => exact .bool b
  | number x => exact .number x
  | string s => exact .string s

theorem agree_settle {p q : Eval (Option Value)} (agree : Agree names Chains ρ p q) :
    Agree names Values ρ (settle p) (settle q) :=
  agree_bind agree fun _ _ _ _ same => agree_pure (values_getD same)

theorem agree_lookup {name : String} (used : name ∈ names) (ρ : Renaming) :
    Agree names Values ρ (lookup name) (lookup name) := by
  unfold lookup
  refine agree_bind agree_scope fun ρ₁ _ s s' scopes => ?_
  have found := frames_lookup? used scopes
  generalize s.lookup? name = o at found
  generalize s'.lookup? name = o' at found
  cases found with
  | none => exact agree_throw _
  | some same => exact agree_pure same

theorem agree_typeofName {name : String} (used : name ∈ names) :
    ExprAgrees names (.unary .typeof (.ident name)) := by
  intro ρ
  unfold chain
  refine agree_bind agree_scope fun ρ₁ _ s s' scopes => ?_
  have found := frames_lookup? used scopes
  generalize s.lookup? name = o at found
  generalize s'.lookup? name = o' at found
  cases found with
  | none => exact agree_pure (.some (.string _))
  | some same =>
    dsimp only
    rw [same.typeName_eq]
    exact agree_pure (.some (.string _))

/-- A prefix operator gives related values. -/
theorem Heaps.unary {h h' : Heap} {v w : Value} (heaps : ρ.Heaps h h') (op : UnaryOp)
    (same : ρ.Values v w) : ρ.Values (Eval.unary h op v) (Eval.unary h' op w) := by
  have numbers := heaps.number_eq same
  cases op <;> unfold Eval.unary <;>
    simp only [same.truthy_eq, same.typeName_eq, numbers] <;> constructor

theorem agree_unary {op : UnaryOp} {operand : Expr} (agree : ExprAgrees names operand)
    (plain : ∀ name, op = .typeof → operand = .ident name → False) :
    ExprAgrees names (.unary op operand) := by
  intro ρ
  rw [chain]
  · refine agree_bind (agree_settle (agree ρ)) fun ρ₁ _ v v' same => ?_
    refine agree_bind agree_heap fun ρ₂ later h h' heaps => ?_
    exact agree_pure (.some (heaps.unary op (later.values same)))
  · exact plain

theorem agree_binary {op : BinaryOp} {lhs rhs : Expr} (left : ExprAgrees names lhs)
    (right : ExprAgrees names rhs) : ExprAgrees names (.binary op lhs rhs) := by
  intro ρ
  unfold chain
  refine agree_bind (agree_settle (left ρ)) fun ρ₁ _ v v' same => ?_
  refine agree_bind (agree_settle (right ρ₁)) fun ρ₂ later w w' same' => ?_
  refine agree_bind agree_heap fun ρ₃ later₃ h h' heaps => ?_
  exact agree_pure (.some (heaps.binary op (later₃.values (later.values same))
    (later₃.values same')))

theorem decides_eq {v w : Value} (op : LogicalOp) (same : ρ.Values v w) :
    decides op v = decides op w := by
  cases op <;> unfold decides <;> simp only [same.truthy_eq]

theorem agree_logical {op : LogicalOp} {lhs rhs : Expr} (left : ExprAgrees names lhs)
    (right : ExprAgrees names rhs) : ExprAgrees names (.logical op lhs rhs) := by
  intro ρ
  unfold chain
  refine agree_bind (agree_settle (left ρ)) fun ρ₁ _ v v' same => ?_
  rw [decides_eq op same]
  split
  · exact agree_pure (.some same)
  · exact agree_bind (agree_settle (right ρ₁)) fun ρ₂ _ w w' same' => agree_pure (.some same')

theorem agree_conditional {test consequent alternate : Expr} (first : ExprAgrees names test)
    (second : ExprAgrees names consequent) (third : ExprAgrees names alternate) :
    ExprAgrees names (.conditional test consequent alternate) := by
  intro ρ
  unfold chain
  refine agree_bind (agree_settle (first ρ)) fun ρ₁ _ v v' same => ?_
  rw [same.truthy_eq]
  split
  · exact agree_bind (agree_settle (second ρ₁)) fun _ _ _ _ same' => agree_pure (.some same')
  · exact agree_bind (agree_settle (third ρ₁)) fun _ _ _ _ same' => agree_pure (.some same')

theorem agree_assignName {name : String} {value : Expr} (agree : ExprAgrees names value) :
    ExprAgrees names (.assign (.ident name) value) := by
  intro ρ
  unfold chain
  refine agree_bind (agree_settle (agree ρ)) fun ρ₁ _ v v' same => ?_
  refine agree_bind (agree_assign name same) fun ρ₂ later _ _ _ => ?_
  exact agree_pure (.some (later.values same))

theorem agree_assignMember {base value : Expr} {key : Key Expr} {optional : Bool}
    (atBase : ExprAgrees names base) (atKey : KeyAgrees names key)
    (atValue : ExprAgrees names value) :
    ExprAgrees names (.assign (.member base key optional) value) := by
  intro ρ
  unfold chain
  refine agree_bind (agree_settle (atBase ρ)) fun ρ₁ _ b b' sameBase => ?_
  refine agree_bind (atKey ρ₁) fun ρ₂ later₂ k k' sameKey => ?_
  refine agree_bind (agree_settle (atValue ρ₂)) fun ρ₃ later₃ v v' same => ?_
  refine agree_bind (agree_write (later₃.values (later₂.values sameBase)) (later₃.values sameKey)
    same) fun ρ₄ later₄ _ _ _ => ?_
  exact agree_pure (.some (later₄.values same))

/-- What follows the base of a link goes on from related bases, or stops on both sides. -/
theorem agree_link {base : Expr} {stop : Option Value} {optional : Bool}
    {next : Value → Eval (Option Value)} (agree : ExprAgrees names base)
    (stopped : ∀ ρ, Chains ρ stop stop)
    (goes : ∀ {ρ v v'}, ρ.Values v v' → Agree names Chains ρ (next v) (next v')) (ρ : Renaming) :
    Agree names Chains ρ
      (do
        match ← chain base with
        | none => return stop
        | some v => if optional && v.isNullish then return stop else next v)
      (do
        match ← chain base with
        | none => return stop
        | some v => if optional && v.isNullish then return stop else next v) := by
  refine agree_bind (agree ρ) fun ρ₁ _ o o' same => ?_
  cases same with
  | none => exact agree_pure (stopped ρ₁)
  | some same =>
    dsimp only
    rw [same.isNullish_eq]
    split
    · exact agree_pure (stopped ρ₁)
    · exact goes same

theorem agree_member {base : Expr} {key : Key Expr} {optional : Bool}
    (atBase : ExprAgrees names base) (atKey : KeyAgrees names key) :
    ExprAgrees names (.member base key optional) := by
  intro ρ
  unfold chain
  refine agree_link atBase (fun _ => .none) (fun {ρ₁ v v'} same => ?_) ρ
  refine agree_bind (atKey ρ₁) fun ρ₂ later k k' sameKey => ?_
  exact agree_bind (agree_read (later.values same) sameKey) fun _ _ _ _ answer =>
    agree_pure (.some answer)

theorem agree_callMember {base : Expr} {key : Key Expr} {optional : Bool} {args : List Expr}
    (atBase : ExprAgrees names base) (atKey : KeyAgrees names key)
    (atArgs : ∀ arg ∈ arguments args, ArgumentAgrees names arg) :
    ExprAgrees names (.call (.member base key optional) args) := by
  intro ρ
  unfold chain
  refine agree_link atBase (fun _ => .none) (fun {ρ₁ v v'} same => ?_) ρ
  refine agree_bind (atKey ρ₁) fun ρ₂ later k k' sameKey => ?_
  refine agree_bind (agree_text sameKey) fun ρ₃ later₃ t t' texts => ?_
  subst texts
  exact agree_bind (agree_callMethod (later₃.values (later.values same)) atArgs)
    fun _ _ _ _ answer => agree_pure (.some answer)

theorem agree_deleteMember {base : Expr} {key : Key Expr} {optional : Bool}
    (atBase : ExprAgrees names base) (atKey : KeyAgrees names key) :
    ExprAgrees names (.delete (.member base key optional)) := by
  intro ρ
  unfold chain
  refine agree_link atBase (fun _ => .some (.bool true)) (fun {ρ₁ v v'} same => ?_) ρ
  refine agree_bind (atKey ρ₁) fun ρ₂ later k k' sameKey => ?_
  exact agree_bind (agree_delete (later.values same) sameKey) fun _ _ _ _ _ =>
    agree_pure (.some (.bool true))

/-! ## All expressions -/

/-- What is shown of elements: their values go behind related ones. -/
def ItemsAgree (names : Set String) (items : List Expr) : Prop :=
  ∀ ρ known known', Items ρ known known' →
    Agree names Items ρ (values known items) (values known' items)

/-- What is shown of entries: their values go behind related ones. -/
def EntriesAgree (names : Set String) (entries : List (String × Expr)) : Prop :=
  ∀ (ρ : Renaming) (known known' : Fields Value),
    List.Forall₂ ρ.Entries known.entries known'.entries →
      Agree names (fun ρ a b => List.Forall₂ ρ.Entries a.entries b.entries) ρ
        (fields known entries) (fields known' entries)

theorem items_agree_cons {item : Expr} {rest : List Expr} (first : ExprAgrees names item)
    (others : ItemsAgree names rest) : ItemsAgree names (item :: rest) := by
  intro ρ known known' same
  unfold values
  refine agree_bind (agree_settle (first ρ)) fun ρ₁ later v v' value => ?_
  exact others _ _ _ (items_push (items_later later same) value)

theorem entries_agree_cons {key : String} {value : Expr} {rest : List (String × Expr)}
    (first : ExprAgrees names value) (others : EntriesAgree names rest) :
    EntriesAgree names ((key, value) :: rest) := by
  intro ρ known known' same
  unfold fields
  refine agree_bind (agree_settle (first ρ)) fun ρ₁ later v v' value => ?_
  exact others _ _ _ (entries_insert value (same.imp fun _ _ => later.entries))

/-- The parts of an expression are values of the same recursion, so their claims are shown along
with that of the expression. -/
theorem exprAgrees (e : Expr) : Uses names e.names → ExprAgrees names e := by
  -- the cases are those of the evaluator: `typeof` of a name and calls of members stand apart
  refine chain.induct
    (fun e => Uses names e.names → ExprAgrees names e)
    (fun args => Uses names (Expr.namesOfItems args) →
      ∀ arg ∈ arguments args, ArgumentAgrees names arg)
    (fun key => Uses names (Expr.namesOfKey key) → KeyAgrees names key)
    (fun _ entries => Uses names (Expr.namesOfEntries entries) → EntriesAgree names entries)
    (fun _ items => Uses names (Expr.namesOfItems items) → ItemsAgree names items)
    ?literal ?array ?object ?ident ?member ?callMember ?call ?arrow ?typeofName ?unary ?binary
    ?logical ?conditional ?assignName ?assignMember ?assign ?deleteMember ?delete
    ?noArguments ?callback ?plain ?noItems ?item ?noEntries ?entry ?named ?computed e
  case literal =>
    intro value _ ρ
    exact agree_pure (.some (values_ofLiteral ρ value))
  case array =>
    intro items ih used ρ
    unfold chain
    refine agree_bind (ih used _ _ _ (items_empty ρ)) fun ρ₁ _ a b same => ?_
    exact agree_bind (agree_alloc (.sequence same)) fun _ _ _ _ made => agree_pure (.some made)
  case object =>
    intro entries ih used ρ
    unfold chain
    refine agree_bind (ih used _ _ _ .nil) fun ρ₁ _ a b same => ?_
    exact agree_bind (agree_alloc (.mapping same)) fun _ _ _ _ made => agree_pure (.some made)
  case ident =>
    intro name used ρ
    unfold chain
    exact agree_bind (agree_lookup (used name List.mem_cons_self) ρ) fun _ _ _ _ same =>
      agree_pure (.some same)
  case member =>
    intro base key optional atBase atKey used
    have used := uses_append.mp used
    exact agree_member (atBase used.1) (atKey used.2)
  case callMember =>
    intro base key optional args atBase atKey atArgs used
    have used := uses_append.mp used
    have link := uses_append.mp used.1
    exact agree_callMember (atBase link.1) (atKey link.2) (atArgs used.2)
  case call =>
    intro callee args other atCallee used ρ
    have used := uses_append.mp used
    rw [chain]
    · exact agree_bind (atCallee used.1 ρ) fun _ _ _ _ _ => agree_throw _
    · exact other
  case arrow =>
    intro params body _ ρ
    rw [chain_arrow]
    exact agree_throw _
  case typeofName =>
    intro name used
    exact agree_typeofName (used name List.mem_cons_self)
  case unary =>
    intro op operand plain atOperand used
    exact agree_unary (atOperand used) plain
  case binary =>
    intro op lhs rhs left right used
    have used := uses_append.mp used
    exact agree_binary (left used.1) (right used.2)
  case logical =>
    intro op lhs rhs left right used
    have used := uses_append.mp used
    exact agree_logical (left used.1) (right used.2)
  case conditional =>
    intro test consequent alternate first second third used
    have used := uses_append.mp used
    have branches := uses_append.mp used.2
    exact agree_conditional (first used.1) (second branches.1) (third branches.2)
  case assignName =>
    intro name value atValue used
    exact agree_assignName (atValue (uses_append.mp used).2)
  case assignMember =>
    intro base key optional value atBase atKey atValue used
    have used := uses_append.mp used
    have link := uses_append.mp used.1
    exact agree_assignMember (atBase link.1) (atKey link.2) (atValue used.2)
  case assign =>
    intro target value noName noMember _ ρ
    rw [chain]
    · exact agree_throw _
    · exact noName
    · exact noMember
  case deleteMember =>
    intro base key optional atBase atKey used
    have used := uses_append.mp used
    exact agree_deleteMember (atBase used.1) (atKey used.2)
  case delete =>
    intro target noMember _ ρ
    rw [chain]
    · exact agree_pure (.some (.bool false))
    · exact noMember
  case noArguments =>
    intro _ arg mem
    exact absurd mem (List.not_mem_nil)
  case callback =>
    intro params body rest atBody others used arg mem
    have used := uses_append.mp used
    unfold arguments at mem
    rcases List.mem_cons.mp mem with rfl | later
    · exact fun ρ => agree_settle (atBody used.1 ρ)
    · exact others used.2 arg later
  case plain =>
    intro arg' rest noArrow atArg others used arg mem
    have used := uses_append.mp used
    rw [arguments] at mem
    · rcases List.mem_cons.mp mem with rfl | later
      · exact fun ρ => agree_settle (atArg used.1 ρ)
      · exact others used.2 arg later
    · exact noArrow
  case noItems =>
    intro _ _ ρ known known' same
    exact agree_pure same
  case item =>
    intro known item rest first others used
    have used := uses_append.mp used
    exact items_agree_cons (first used.1) (others .undefined used.2)
  case noEntries =>
    intro _ _ ρ known known' same
    exact agree_pure same
  case entry =>
    intro known key value rest first others used
    have used := uses_append.mp used
    exact entries_agree_cons (first used.1) (others .undefined used.2)
  case named =>
    intro name _ ρ
    exact agree_pure (.string name)
  case computed =>
    intro key atKey used ρ
    exact agree_settle (atKey used ρ)

/-! ## Programs -/

theorem agree_runFrom {program : Program} {v w : Value} (used : Uses names program.names)
    (same : ρ.Values v w) : Agree names Values ρ (runFrom v program) (runFrom w program) := by
  induction program generalizing ρ v w with
  | nil => exact agree_pure same
  | cons statement rest ih =>
    have used := uses_append.mp used
    unfold runFrom
    exact agree_bind (agree_settle (exprAgrees statement used.1 ρ)) fun _ _ _ _ answer =>
      ih used.2 answer

/-- A program whose names are in use agrees with itself under every renaming. -/
theorem agree_run {program : Program} (used : Uses names program.names) (ρ : Renaming) :
    Agree names Values ρ (run program) (run program) :=
  agree_runFrom used .undefined

end Renaming

end FormLogic
