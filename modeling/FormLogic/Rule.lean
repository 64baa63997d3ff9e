import FormLogic.Error
import FormLogic.Heap.Plain

/-!
# `FormLogic.Rule` — rules and what became of them

A rule has a gate, a condition and two branches, all of them expressions, and can be switched off.
It is read from a record, a mapping in the presentation of a node. Missing and `null` texts are
empty; a missing flag means that the rule is active, a `null` flag that it is not.

## Contents
- `Rule`, `Rule.ofRecord`, `Rule.toRecord`: rules and their records.
- `Outcome`, `Report`: what became of a rule, and of all rules of a node.
-/

namespace FormLogic

/-- A rule of a node. -/
structure Rule where
  desc : String := ""
  /-- The expression that must hold for the rule to be looked at, if there is one. -/
  gate : String := ""
  condition : String := ""
  consequent : String := ""
  alternate : String := ""
  active : Bool := true
  deriving DecidableEq

namespace Rule

/-- The reader of a text that may be `null`. -/
def textField (key : String) (set : String → Rule → Rule) : Json.Field Rule :=
  Json.field key (Json.orNull "" Json.toText) set

/-- The fields of a record. -/
def fields : List (Json.Field Rule) :=
  [textField "desc" fun s rule => { rule with desc := s },
    textField "context" fun s rule => { rule with gate := s },
    textField "if" fun s rule => { rule with condition := s },
    textField "then" fun s rule => { rule with consequent := s },
    textField "else" fun s rule => { rule with alternate := s },
    Json.field "active" (Json.orNull false Json.toBool) fun b rule => { rule with active := b }]

/-- Reads a rule from the plain tree of a record. -/
def decode : Json.Decoder Rule :=
  Json.decodeRecord "FormRule" fields {}

/-- Reads the rule record at position `index` of a rule list. -/
def ofRecord (h : Heap) (v : Value) (index : Nat) : Except ConfigurationError Rule :=
  if h.kind v = .mapping then
    match h.plain defaultMaxDepth v with
    | .error e => .error (.invalidRule index (.tooDeep e))
    | .ok tree =>
      match decode tree with
      | .error e => .error (.invalidRule index (.badField e))
      | .ok rule => .ok rule
  else
    .error (.invalidRule index (.notMapping v.typeName))

/-- The plain tree of the record of a rule. -/
def tree (rule : Rule) : Json :=
  .object [("desc", .string rule.desc), ("context", .string rule.gate),
    ("if", .string rule.condition), ("then", .string rule.consequent),
    ("else", .string rule.alternate), ("active", .bool rule.active)]

/-- The record of a rule, a new mapping. -/
def toRecord (h : Heap) (rule : Rule) : Value × Heap :=
  h.ofPlain rule.tree

end Rule

/-- What became of a rule. -/
inductive Outcome where
  /-- The rule is switched off. -/
  | inactive
  /-- The gate did not hold. -/
  | gateClosed
  /-- The condition or the first branch is empty. -/
  | notConfigured
  /-- The condition held and the first branch ran. -/
  | consequent
  /-- The condition did not hold and the second branch ran. -/
  | alternate
  /-- The condition did not hold and there is no second branch. -/
  | noBranch
  deriving DecidableEq

/-- Whether a branch ran. -/
def Outcome.applied : Outcome → Bool
  | .consequent | .alternate => true
  | _ => false

/-- The text of an outcome. -/
def Outcome.label : Outcome → String
  | .inactive => "inactive"
  | .gateClosed => "gate closed"
  | .notConfigured => "not configured"
  | .consequent => "then"
  | .alternate => "else"
  | .noBranch => "no branch"

/-- What became of the rules of a node, in the order of the list. -/
structure Report where
  outcomes : List Outcome

namespace Report

/-- How many rules ran a branch. -/
def applied (report : Report) : Nat :=
  report.outcomes.countP Outcome.applied

/-- The text of a report. -/
def render (report : Report) : String :=
  let entries := report.outcomes.zipIdx.map fun (outcome, i) =>
    "#" ++ toString i ++ " " ++ outcome.label
  "rules: [" ++ ", ".intercalate entries ++ "], applied: " ++ toString report.applied

end Report

end FormLogic
