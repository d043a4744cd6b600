import FormulaEngine.Program.Basic

/-!
# Compile errors

Why a source has no plan. An error names what is at fault; its text is made from that.
-/

namespace FormulaEngine

/-- Where names are unique. -/
inductive ScopeLabel where
  | program
  | module (name : String)
  deriving DecidableEq, Repr

namespace ScopeLabel

def text : ScopeLabel → String
  | .program => "program"
  | .module name => "module '" ++ name ++ "'"

end ScopeLabel

/-- What layers must never be like. -/
inductive InternalFault where
  | cyclicGraph (node : Nat)
  | unknownDeclaration (id : DeclId)
  | notAVertex (name : String)
  | repeated (name : String)
  | incomplete (covered total : Nat)
  deriving DecidableEq, Repr

namespace InternalFault

def message : InternalFault → String
  | .cyclicGraph node =>
    "cannot layer a cyclic graph (node " ++ toString node ++ " is on a cycle)"
  | .unknownDeclaration id => "layer references unknown declaration " ++ Program.label id
  | .notAVertex name => "'" ++ name ++ "' is scheduled but is not a graph vertex"
  | .repeated name => "'" ++ name ++ "' appears in more than one layer"
  | .incomplete covered total =>
    "layers cover " ++ toString covered ++ " of " ++ toString total ++ " vertices"

end InternalFault

inductive CompileError where
  | undecodable
  | duplicateDeclaration (scope : ScopeLabel) (name : String)
  | malformedImport (module name : String) (kind : ImportKind) (found : Nat)
  | invalidExpression (declaration : String) (flaw : Flaw)
  | cyclicDependency (declaration : String) (cycle : List String)
  | unknownProfile (name : String)
  | internal (fault : InternalFault)
  deriving DecidableEq, Repr

namespace CompileError

def message : CompileError → String
  | .undecodable => "invalid program source"
  | .duplicateDeclaration scope name =>
    "duplicate declaration '" ++ name ++ "' in " ++ scope.text
  | .malformedImport module name kind found =>
    "malformed import '" ++ module ++ "." ++ name ++ "': " ++ kind.name ++ " imports take " ++
      toString kind.pathLength ++ " path segment(s), found " ++ toString found
  | .invalidExpression declaration flaw =>
    "invalid expression in '" ++ declaration ++ "': " ++ flaw.message
  | .cyclicDependency declaration cycle =>
    "cyclic dependency detected at '" ++ declaration ++ "': " ++ " → ".intercalate cycle
  | .unknownProfile name =>
    "invalid configuration: unknown compilation profile '" ++ name ++
      "' (expected minimal, trace or verbose)"
  | .internal fault => "internal error: " ++ fault.message

end CompileError

end FormulaEngine
