import FormulaEngine.Expr.Json
import FormulaEngine.Json.Reader
import FormulaEngine.Json.Writer
import FormulaEngine.Source.Basic

/-!
# Program sources in JSON

A program nests at most 127 arrays and objects. Of those an expression has all but the five around
it, and the value of a constant all but three.
-/

namespace FormulaEngine

/-- How deep a text nests at most. -/
def Json.greatestDepth : Nat := 127

namespace ImportKind

def table : List (String × ImportKind) :=
  [("argument", .argument), ("constant", .constant), ("formula", .formula), ("module", .module)]

end ImportKind

namespace ArgumentSource

def toJson (a : ArgumentSource) : Json := .object [("name", .string a.name)]

def ofJson? (j : Json) : Option ArgumentSource := do
  match ← Json.record? ["name"] j with
  | [name] => some ⟨← Json.field Json.string? name⟩
  | _ => none

end ArgumentSource

namespace ConstantSource

def toJson (c : ConstantSource) : Json :=
  .object [("name", .string c.name), ("value", c.value.toJson)]

def ofJson? (j : Json) : Option ConstantSource := do
  match ← Json.record? ["name", "value"] j with
  | [name, value] =>
    some ⟨← Json.field Json.string? name,
      ← Json.field (Value.decode? (Json.greatestDepth - 3)) value⟩
  | _ => none

end ConstantSource

namespace FormulaSource

def toJson (f : FormulaSource) : Json :=
  .object [("name", .string f.name), ("expr", f.expr.toJson), ("exported", .bool f.exported)]

def ofJson? (j : Json) : Option FormulaSource := do
  match ← Json.record? ["name", "expr", "exported"] j with
  | [name, expr, exported] =>
    some ⟨← Json.field Json.string? name,
      ← Json.field (Expr.decode? (Json.greatestDepth - 5)) expr,
      ← Json.fieldOr false Json.bool? exported⟩
  | _ => none

end FormulaSource

namespace ImportSource

def toJson (i : ImportSource) : Json :=
  .object [("name", .string i.name), ("path", .array (i.path.map .string)),
    ("kind", .string i.kind.name)]

def ofJson? (j : Json) : Option ImportSource := do
  match ← Json.record? ["name", "path", "kind"] j with
  | [name, path, kind] =>
    some ⟨← Json.field Json.string? name,
      ← Json.field (Json.listOf? Json.string?) path,
      ← Json.field (Json.word? false ImportKind.table) kind⟩
  | _ => none

end ImportSource

namespace ModuleSource

def toJson (m : ModuleSource) : Json :=
  .object [("name", .string m.name), ("imports", .array (m.imports.map ImportSource.toJson)),
    ("formulas", .array (m.formulas.map FormulaSource.toJson))]

def ofJson? (j : Json) : Option ModuleSource := do
  match ← Json.record? ["name", "imports", "formulas"] j with
  | [name, imports, formulas] =>
    some ⟨← Json.field Json.string? name,
      ← Json.fieldOr [] (Json.listOf? ImportSource.ofJson?) imports,
      ← Json.fieldOr [] (Json.listOf? FormulaSource.ofJson?) formulas⟩
  | _ => none

end ModuleSource

namespace ProgramSource

def toJson (p : ProgramSource) : Json :=
  .object [("arguments", .array (p.arguments.map ArgumentSource.toJson)),
    ("constants", .array (p.constants.map ConstantSource.toJson)),
    ("modules", .array (p.modules.map ModuleSource.toJson))]

def ofJson? (j : Json) : Option ProgramSource := do
  match ← Json.record? ["arguments", "constants", "modules"] j with
  | [arguments, constants, modules] =>
    some ⟨← Json.fieldOr [] (Json.listOf? ArgumentSource.ofJson?) arguments,
      ← Json.fieldOr [] (Json.listOf? ConstantSource.ofJson?) constants,
      ← Json.fieldOr [] (Json.listOf? ModuleSource.ofJson?) modules⟩
  | _ => none

def encode (p : ProgramSource) : String := p.toJson.compact

def decode? (text : String) : Option ProgramSource := do
  let j ← Json.parse? text
  ofJson? j

end ProgramSource

end FormulaEngine
