import FormulaEngine.Json.Basic

/-!
# Records in JSON

A record is written as an object, in which unknown names are passed over and no field stands twice,
or as an array of its fields in order, in which the last ones may be left off.
-/

namespace FormulaEngine.Json

variable {α : Type}

/-- The fields of a record in the order of their names, each if it is there. -/
def record? (names : List String) : Json → Option (List (Option Json))
  | .object members =>
    if names.any fun name => decide (1 < members.countP (·.1 == name)) then none
    else some (names.map fun name => members.lookup name)
  | .array items =>
    if items.length ≤ names.length then
      some (items.map some ++ List.replicate (names.length - items.length) none)
    else none
  | _ => none

def fieldOr (absent : α) (decode : Json → Option α) : Option Json → Option α
  | none => some absent
  | some j => decode j

def field (decode : Json → Option α) : Option Json → Option α
  | none => none
  | some j => decode j

def string? : Json → Option String
  | .string s => some s
  | _ => none

def bool? : Json → Option Bool
  | .bool b => some b
  | _ => none

def listOf? (decode : Json → Option α) : Json → Option (List α)
  | .array items => items.mapM decode
  | _ => none

/-- A word of a table, written as a string, or as the name of the only member of an object whose
value is null. Inside of an expression that value may also be an empty object. -/
def word? (inside : Bool) (table : List (String × α)) : Json → Option α
  | .string name => table.lookup name
  | .object [(name, .null)] => table.lookup name
  | .object [(name, .object [])] => if inside then table.lookup name else none
  | _ => none

end FormulaEngine.Json
