import FormulaEngine.Json.Writer
import FormulaEngine.Plan.Basic

/-!
# Plans in JSON

The form in which code generators read a plan.
-/

namespace FormulaEngine

namespace StepKind

def name : StepKind → String
  | .synchronous => "synchronous"
  | .asynchronous => "asynchronous"

end StepKind

namespace Step

def toJson (s : Step) : Json :=
  .object [("id", .ofNat s.id), ("declaration", .ofNat s.declaration),
    ("kind", .string s.kind.name), ("dependents", .array (s.dependents.map .ofNat))]

end Step

namespace StepGroup

/-- The document of a group. It says outright whether the group suspends. -/
def toJson (g : StepGroup) : Json :=
  .object [("is_asynchronous", .bool g.isAsynchronous),
    ("synchronous", .array (g.synchronous.map .ofNat)),
    ("asynchronous", .array (g.asynchronous.map .ofNat))]

end StepGroup

namespace Plan

def toJson (plan : Plan) : Json :=
  .object [("steps", .array (plan.steps.map Step.toJson)),
    ("groups", .array (plan.groups.map StepGroup.toJson))]

def encode (plan : Plan) : String := plan.toJson.indented

end Plan

end FormulaEngine
