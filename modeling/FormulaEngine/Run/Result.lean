import FormulaEngine.Compilation
import FormulaEngine.Eval.Outcome
import FormulaEngine.Json.Writer
import FormulaEngine.Value.Json

/-!
# Results

The result of a program has the values of exported formulas by module, and the errors in the order
in which they were recorded. A formula without a value reads null there; what happened to it is
among the errors.
-/

namespace FormulaEngine

/-- Whether a formula failed itself. -/
inductive ErrorKind where
  | runtime
  | skipped
  deriving DecidableEq, Repr

namespace ErrorKind

def name : ErrorKind → String
  | .runtime => "runtime"
  | .skipped => "skipped"

end ErrorKind

/-- An error of a program. The cause is kept only where the profile says so. -/
structure FormulaError where
  module : String
  formula : String
  message : String
  kind : ErrorKind
  cause : Option EvalError
  deriving DecidableEq, Repr

namespace FormulaError

def ofOutcome? (p : Program) (profile : Profile) (id : DeclId) (o : Outcome) :
    Option FormulaError := do
  let d ← p.declaration? id
  let module := ((p.moduleOf? id).map (·.name)).getD ""
  let keep (e : EvalError) := if profile.keepsErrorDetail then some e else none
  match o with
  | .value _ => none
  | .failed failure => some ⟨module, d.name, failure.error.message, .runtime, keep failure.error⟩
  | .skipped cause =>
    some ⟨module, d.name, "skipped because '" ++ p.qualifiedName cause.declaration ++
      "' failed: " ++ cause.error.message, .skipped, keep cause.error⟩

def toJson (e : FormulaError) : Json :=
  .object [("module", .string e.module), ("formula", .string e.formula),
    ("message", .string e.message), ("kind", .string e.kind.name)]

end FormulaError

structure ProgramResult where
  modules : List (String × List (String × Value))
  errors : List FormulaError

namespace ProgramResult

def exportsOf (p : Program) (slots : Slots) (m : ProgramModule) : List (String × Value) :=
  Fields.ofList ((p.exportedFormulas m.id).filterMap fun id =>
    (p.declaration? id).map fun d =>
      (d.name, ((slots.get? id).bind Outcome.value?).getD .null))

/-- The result by the slots, and the declarations whose failures were recorded. -/
def collect (p : Program) (profile : Profile) (slots : Slots) (recorded : List DeclId) :
    ProgramResult :=
  let errors := recorded.filterMap fun id =>
    (slots.get? id).bind (FormulaError.ofOutcome? p profile id)
  let modules :=
    if errors.isEmpty || profile.returnsPartialResults then
      Fields.ofList (p.modules.map fun m => (m.name, exportsOf p slots m))
    else []
  ⟨modules, errors⟩

def value? (r : ProgramResult) (module formula : String) : Option Value :=
  (Fields.get? r.modules module).bind fun values => Fields.get? values formula

def isSuccess (r : ProgramResult) : Bool := r.errors.isEmpty

def runtimeErrors (r : ProgramResult) : List FormulaError :=
  r.errors.filter (·.kind == .runtime)

def toJson (r : ProgramResult) : Json :=
  .object [("modules", .object (r.modules.map fun m => (m.1, (Value.object m.2).toJson))),
    ("errors", .array (r.errors.map FormulaError.toJson))]

def encode (r : ProgramResult) : String := r.toJson.indented

end ProgramResult

end FormulaEngine
