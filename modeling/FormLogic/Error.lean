import FormLogic.Expr.Grammar
import FormLogic.Json.Decode
import FormLogic.Limit

/-!
# `FormLogic.Error` — what can go wrong

Errors are values that say what happened; their texts are functions of them.

## Contents
- `EvalError`, `EvaluationError`: an expression is malformed or fails while it runs.
- `RecordFault`, `ConfigurationError`: a rule list or a rule record is malformed.
- `FormError`: any error of processing rules or walking a form.
-/

namespace FormLogic

/-! ## Expressions -/

/-- Why an expression failed. -/
inductive EvalError where
  | malformed (e : SyntaxError)
  | undefinedIdentifier (name : String)
  | propertyOfNullish (property target : String)
  | invalidTarget (property target : String)
  | unknownMethod (method receiver : String)
  | notCallable
  | invalidArgument (method expected : String)
  | bareArrowFunction
  deriving DecidableEq

/-- The text of the reason. -/
def EvalError.message : EvalError → String
  | .malformed e => e.message
  | .undefinedIdentifier name => name ++ " is not defined"
  | .propertyOfNullish property target =>
    "cannot read property '" ++ property ++ "' of " ++ target
  | .invalidTarget property target => "cannot set property '" ++ property ++ "' on " ++ target
  | .unknownMethod method receiver =>
    "'" ++ method ++ "' is not a supported method of " ++ receiver
  | .notCallable => "expression is not callable"
  | .invalidArgument method expected => "'" ++ method ++ "' expects " ++ expected
  | .bareArrowFunction => "arrow functions are only allowed as callback arguments"

/-- An expression that failed, with its text. -/
structure EvaluationError where
  expression : String
  cause : EvalError
  deriving DecidableEq

/-- The text of the error. -/
def EvaluationError.message (e : EvaluationError) : String :=
  "error evaluating expression `" ++ e.expression ++ "`: " ++ e.cause.message

/-! ## Rules -/

/-- Why a value is no rule record. -/
inductive RecordFault where
  | notMapping (found : String)
  | tooDeep (e : RecursionLimit)
  | badField (e : Json.DecodeError)

/-- The text of the reason. -/
def RecordFault.message : RecordFault → String
  | .notMapping found => "expected a mapping, found " ++ found
  | .tooDeep e => e.message
  | .badField e => e.message

/-- A rule list or a rule record is malformed. -/
inductive ConfigurationError where
  | rulesNotSequence (found : String)
  | invalidRule (index : Nat) (fault : RecordFault)
  | incompleteRule (index : Nat) (present missing : String)

/-- The text of the error. -/
def ConfigurationError.message : ConfigurationError → String
  | .rulesNotSequence found => "formRules must be a sequence of rules, found " ++ found
  | .invalidRule index fault =>
    "rule #" ++ toString index ++ " is not a rule record: " ++ fault.message
  | .incompleteRule index present missing =>
    "rule #" ++ toString index ++ " defines `" ++ present ++ "` without `" ++ missing ++ "`"

/-! ## All of them -/

/-- An error of processing rules or of walking a form. -/
inductive FormError where
  | evaluation (e : EvaluationError)
  | recursionLimit (e : RecursionLimit)
  | configuration (e : ConfigurationError)

/-- The text of the error. -/
def FormError.message : FormError → String
  | .evaluation e => e.message
  | .recursionLimit e => e.message
  | .configuration e => e.message

end FormLogic
