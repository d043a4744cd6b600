/-!
# Evaluation errors

What can go wrong inside one formula.
-/

namespace FormulaEngine

/-- Why a formula has no value. -/
inductive EvalError where
  | divisionByZero
  | typeMismatch (operation found : String)
  | unresolvedIdentifier (name : String)
  | missingMember (name found : String)
  | noMatchingBranch (subject : String)
  | unknownFunction (name : String)
  | unawaitedCall (function : String)
  | host (function message : String)
  /-- The evaluator was handed something that no compiled program holds. -/
  | internal (what : String)
  deriving DecidableEq, Repr

namespace EvalError

def message : EvalError → String
  | .divisionByZero => "division by zero"
  | .typeMismatch operation found => "cannot apply '" ++ operation ++ "' to " ++ found
  | .unresolvedIdentifier name => "unresolved identifier '" ++ name ++ "'"
  | .missingMember name found => found ++ " has no member '" ++ name ++ "'"
  | .noMatchingBranch subject => "no branch matched " ++ subject
  | .unknownFunction name => "unknown function '" ++ name ++ "'"
  | .unawaitedCall function => "asynchronous function '" ++ function ++ "' must be awaited"
  | .host function message => "function '" ++ function ++ "' failed: " ++ message
  | .internal what => "internal error: " ++ what

end EvalError

end FormulaEngine
