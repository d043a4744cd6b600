import FormulaEngine.Number.Numeral
import FormulaEngine.Text.Quoted
import FormulaEngine.Value.Basic

/-!
# Values in messages

The text of a value for people: numbers without exponents, quoted strings, bare names.
-/

namespace FormulaEngine.Value

/-- Numbers are written out in full, without a point after an integer. -/
def displayStyle : NumberStyle := ⟨.upward, fun _ => true, false⟩

def displayNumber (x : Float) : String :=
  if x.isNaN then "NaN"
  else if x.isInf then (if x < 0 then "-inf" else "inf")
  else String.ofList (Numeral.ofFloat displayStyle x).toChars

mutual

def display : Value → String
  | .null => "null"
  | .bool b => if b then "true" else "false"
  | .number x => displayNumber x
  | .string s => Text.quote s
  | .list items => "[" ++ ", ".intercalate (displayItems items) ++ "]"
  | .object fields => "\x7b" ++ ", ".intercalate (displayFields fields) ++ "\x7d"

def displayItems : List Value → List String
  | [] => []
  | v :: rest => display v :: displayItems rest

def displayFields : List (String × Value) → List String
  | [] => []
  | (name, v) :: rest => (name ++ ": " ++ display v) :: displayFields rest

end

end FormulaEngine.Value
