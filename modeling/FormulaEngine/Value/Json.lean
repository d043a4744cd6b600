import FormulaEngine.Json.Record
import FormulaEngine.Value.Basic

/-!
# Values in JSON

Every document is the JSON of a value: all numbers become doubles, and of members with one name the
last counts. A number that is not finite is written as null.
-/

namespace FormulaEngine.Value

/-- Numbers keep a point, and have an exponent from `1e+16` on and below `1e-5`. -/
def jsonStyle : NumberStyle := ⟨.even, fun e => -5 ≤ e && e < 16, true⟩

def numberToJson (x : Float) : Json :=
  if x.isFinite then .number (.ofFloat jsonStyle x) else .null

mutual

def toJson : Value → Json
  | .null => .null
  | .bool b => .bool b
  | .number x => numberToJson x
  | .string s => .string s
  | .list items => .array (itemsToJson items)
  | .object fields => .object (fieldsToJson fields)

def itemsToJson : List Value → List Json
  | [] => []
  | v :: rest => toJson v :: itemsToJson rest

def fieldsToJson : List (String × Value) → List (String × Json)
  | [] => []
  | (name, v) :: rest => (name, toJson v) :: fieldsToJson rest

end

mutual

/-- The value of a document in which every number is a double. -/
def ofJson? : Json → Option Value
  | .null => some .null
  | .bool b => some (.bool b)
  | .number n => n.toFloat?.map .number
  | .string s => some (.string s)
  | .array items => (itemsOfJson? items).map .list
  | .object members => (fieldsOfJson? members).map ofFields
  | .unreadable => none

def itemsOfJson? : List Json → Option (List Value)
  | [] => some []
  | j :: rest => do
    let v ← ofJson? j
    let vs ← itemsOfJson? rest
    some (v :: vs)

def fieldsOfJson? : List (String × Json) → Option (List (String × Value))
  | [] => some []
  | (name, j) :: rest => do
    let v ← ofJson? j
    let fields ← fieldsOfJson? rest
    some ((name, v) :: fields)

end

/-- The value of a document that nests at most `depth` deep. -/
def decode? (depth : Nat) (j : Json) : Option Value :=
  if j.isSound depth then ofJson? j else none

/-- The entries of a document that is an object nesting at most `depth` deep. -/
def decodeFields? (depth : Nat) (j : Json) : Option (List (String × Value)) :=
  match decode? depth j with
  | some (.object fields) => some fields
  | _ => none

end FormulaEngine.Value
