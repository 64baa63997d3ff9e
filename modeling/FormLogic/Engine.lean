import FormLogic.Clone
import FormLogic.Eval.Interpreter
import FormLogic.Rule

/-!
# `FormLogic.Engine` — running the rules of a node

The rules stand in the presentation of the node and run in the order of their list. They change the
graphs of the node in place. Before an expression is evaluated, the children of every slot that its
text mentions can be replaced by deep copies, so that the expression works on containers of its own
and a change shows in the identity of what changed.

A rule is read when its turn comes, so earlier rules can change later ones. How many turns there are
is fixed when the list is first looked at.

## Contents
- `mentions`: whether a word occurs in a text.
- `Engine.Config`: the settings, with their reader.
- `Engine`, `Engine.evaluate`, `Engine.processDetailed`, `Engine.process`: the engine.
-/

namespace FormLogic

/-! ## Words in a text -/

/-- Whether a word can hold the character. -/
def isWordPart (c : Char) : Bool :=
  c.isAlphanum || c == '_'

/-- Whether `word` occurs in the text as a whole word. -/
def mentions (expression word : String) : Bool :=
  (expression.toList.splitOnP fun c => !isWordPart c).contains word.toList

namespace Engine

/-- The settings of the engine. -/
structure Config where
  /-- Whether the slots that an expression mentions get children of their own first. -/
  isolateBindings : Bool := true
  /-- Whether a rule with only one of condition and first branch is an error. -/
  strictRules : Bool := false
  /-- The depth limit of the copies. -/
  maxDepth : Nat := defaultMaxDepth

/-- Reads the settings of the engine. -/
def Config.decode : Json.Decoder Config :=
  Json.decodeRecord "EngineConfig"
    [Json.field "isolateBindings" Json.toBool fun b c => { c with isolateBindings := b },
      Json.field "strictRules" Json.toBool fun b c => { c with strictRules := b },
      Json.field "maxDepth" Json.toCount fun n c => { c with maxDepth := n }] {}

end Engine

/-- An engine that hands its expressions to an evaluator. -/
structure Engine (σ : Type) where
  evaluator : Evaluator σ
  config : Engine.Config

namespace Engine

variable {σ : Type}

/-- The names of the slots that are isolated, in order. -/
def isolatedNames : List String :=
  ["schema", "uiSchema", "arrayUiSchema", "data"]

/-- Replaces the children of the named slots that the expression mentions by deep copies. -/
def isolateSlots (config : Config) (expression : String) (ctx : Context) :
    List String → HeapM RecursionLimit Unit
  | [] => return
  | name :: rest => do
    if mentions expression name then
      Clone.children ⟨config.maxDepth⟩ ((ctx.binding? name).getD .undefined)
    isolateSlots config expression ctx rest

/-- Replaces the children of the slots that the expression mentions by deep copies. -/
def isolate (config : Config) (expression : String) (ctx : Context) : HeapM RecursionLimit Unit :=
  isolateSlots config expression ctx isolatedNames

/-- Evaluates an expression, isolating the slots it mentions first if the settings say so. -/
def evaluate (engine : Engine σ) (expression : String) (ctx : Context) :
    Action σ FormError Value := do
  if engine.config.isolateBindings then
    Action.onHeap .recursionLimit (isolate engine.config expression ctx)
  Action.withErrors .evaluation (engine.evaluator expression ctx)

/-- Why strict settings refuse a rule, if they do. -/
def incomplete? (rule : Rule) (index : Nat) : Option ConfigurationError :=
  match rule.condition.isEmpty, rule.consequent.isEmpty with
  | false, true => some (.incompleteRule index "if" "then")
  | true, false => some (.incompleteRule index "then" "if")
  | _, _ => none

/-- Evaluates the condition of a rule and the branch that it chooses. -/
def applyBranches (engine : Engine σ) (rule : Rule) (ctx : Context) :
    Action σ FormError Outcome := do
  if rule.condition.isEmpty || rule.consequent.isEmpty then
    return .notConfigured
  else if (← engine.evaluate rule.condition ctx).truthy then
    let _ ← engine.evaluate rule.consequent ctx
    return .consequent
  else if rule.alternate.isEmpty then
    return .noBranch
  else
    let _ ← engine.evaluate rule.alternate ctx
    return .alternate

/-- Whether the gate of a rule lets it through. -/
def gateHolds (engine : Engine σ) (rule : Rule) (ctx : Context) : Action σ FormError Bool := do
  if rule.gate.isEmpty then
    return true
  else
    return (← engine.evaluate rule.gate ctx).truthy

/-- Applies the rule at position `index`. -/
def applyRule (engine : Engine σ) (rule : Rule) (index : Nat) (ctx : Context) :
    Action σ FormError Outcome := do
  if !rule.active then
    return .inactive
  if engine.config.strictRules then
    if let some e := incomplete? rule index then
      throw (.configuration e)
  if ← engine.gateHolds rule ctx then
    engine.applyBranches rule ctx
  else
    return .gateClosed

/-- Reads the record at position `index` and applies it; an absent record is inactive. -/
def applyRecord (engine : Engine σ) (record : Value) (index : Nat) (ctx : Context) :
    Action σ FormError Outcome := do
  if record.isUndefined then
    return .inactive
  else
    match Rule.ofRecord (← Action.heap) record index with
    | .error e => throw (.configuration e)
    | .ok rule => engine.applyRule rule index ctx

/-- The rules from position `index` on, as many turns as are left; ends early if the list has become
shorter. `done` are the outcomes so far, last first. -/
def turns (engine : Engine σ) (rules : Value) (ctx : Context) :
    (left index : Nat) → (done : List Outcome) → Action σ FormError Report
  | 0, _, done => return ⟨done.reverse⟩
  | left + 1, index, done => do
    match (((← Action.heap).itemsOf? rules).getD #[])[index]? with
    | none => return ⟨done.reverse⟩
    | some record =>
      let outcome ← engine.applyRecord record index ctx
      turns engine rules ctx left (index + 1) (outcome :: done)

/-- The key of a presentation under which its options stand. -/
def optionsKey : String := "ui:options"

/-- The key of the options under which the rules stand. -/
def rulesKey : String := "formRules"

/-- The rule list of a node: nothing where the node has none. -/
def ruleList (h : Heap) (ctx : Context) : Except ConfigurationError (Option Value) :=
  let rules := h.lookup (h.lookup ctx.uiSchema optionsKey) rulesKey
  if h.kind rules = .sequence then .ok (some rules)
  else if rules.truthy then .error (.rulesNotSequence rules.typeName)
  else .ok none

/-- Runs the rules of a node and reports what became of each. -/
def processDetailed (engine : Engine σ) (ctx : Context) : Action σ FormError Report := do
  let h ← Action.heap
  match ruleList h ctx with
  | .error e => throw (.configuration e)
  | .ok none => return ⟨[]⟩
  | .ok (some rules) => engine.turns rules ctx ((h.itemsOf? rules).getD #[]).size 0 []

/-- Runs the rules of a node. -/
def process (engine : Engine σ) (ctx : Context) : Action σ FormError Unit := do
  let _ ← engine.processDetailed ctx

end Engine

end FormLogic
