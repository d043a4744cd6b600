import FormulaEngine.CompileError
import FormulaEngine.Json.Record
import FormulaEngine.Text.Blank

/-!
# Settings

A profile says how much is kept of a failure, and the settings of a compilation are a profile and
whether groups are merged.
-/

namespace FormulaEngine

/-- How failures are treated. -/
inductive Profile where
  /-- The first failure ends the evaluation and discards the result. -/
  | minimal
  /-- Failures are contained; of each only the message is kept, and any discards the result. -/
  | trace
  /-- Failures are contained and kept whole, beside the values of the other formulas. -/
  | verbose
  deriving DecidableEq, Repr

namespace Profile

def name : Profile → String
  | .minimal => "minimal"
  | .trace => "trace"
  | .verbose => "verbose"

def table : List (String × Profile) :=
  [("minimal", .minimal), ("trace", .trace), ("verbose", .verbose)]

/-- Whether a failing step lets the others run. -/
def containsFailures : Profile → Bool
  | .minimal => false
  | .trace | .verbose => true

def returnsPartialResults : Profile → Bool
  | .verbose => true
  | .minimal | .trace => false

def keepsErrorDetail : Profile → Bool
  | .verbose => true
  | .minimal | .trace => false

/-- A name without the blanks around it and in small letters, where they are ASCII. -/
def normalize (text : String) : String :=
  String.ofList ((Text.trimBlanks text.toList).map Char.toLower)

def parse (text : String) : Except CompileError Profile :=
  match table.lookup (normalize text) with
  | some profile => .ok profile
  | none => .error (.unknownProfile (normalize text))

end Profile

structure Settings where
  profile : Profile := .verbose
  mergesSynchronousGroups : Bool := true
  deriving DecidableEq, Repr

namespace Settings

/-- For interactive use: partial results and full errors. -/
def development : Settings := {}

/-- For the least overhead: no containment. -/
def production : Settings := { profile := .minimal }

/-- For looking at schedules: one group for each layer. -/
def diagnostics : Settings := { profile := .trace, mergesSynchronousGroups := false }

def withProfile (s : Settings) (profile : Profile) : Settings := { s with profile := profile }

def toJson (s : Settings) : Json :=
  .object [("profile", .string s.profile.name),
    ("merge_synchronous_groups", .bool s.mergesSynchronousGroups)]

def ofJson? (j : Json) : Option Settings := do
  match ← Json.record? ["profile", "merge_synchronous_groups"] j with
  | [profile, merges] =>
    some ⟨← Json.fieldOr .verbose (Json.word? false Profile.table) profile,
      ← Json.fieldOr true Json.bool? merges⟩
  | _ => none

end Settings

end FormulaEngine
