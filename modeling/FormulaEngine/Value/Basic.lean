import FormulaEngine.Fields

/-!
# Values

The values of formulas. Null is a value of its own and never stands for a failure. The entries of an
object are in ascending order of their names.
-/

namespace FormulaEngine

inductive Value where
  | null
  | bool (b : Bool)
  | number (x : Float)
  | string (s : String)
  | list (items : List Value)
  | object (fields : List (String × Value))
  deriving Inhabited

namespace Value

/-- The object with the given entries, of which the last with a name counts. -/
def ofFields (entries : List (String × Value)) : Value := .object (Fields.ofList entries)

mutual

/-- Equality of values. Numbers are equal as doubles: zero equals its negative. -/
def beq : Value → Value → Bool
  | .null, .null => true
  | .bool a, .bool b => a == b
  | .number x, .number y => x == y
  | .string s, .string t => s == t
  | .list xs, .list ys => beqList xs ys
  | .object fs, .object gs => beqFields fs gs
  | _, _ => false

def beqList : List Value → List Value → Bool
  | [], [] => true
  | x :: xs, y :: ys => beq x y && beqList xs ys
  | _, _ => false

def beqFields : List (String × Value) → List (String × Value) → Bool
  | [], [] => true
  | (j, x) :: fs, (k, y) :: gs => j == k && beq x y && beqFields fs gs
  | _, _ => false

end

instance : BEq Value := ⟨beq⟩

def isNull : Value → Bool
  | .null => true
  | _ => false

def asBool? : Value → Option Bool
  | .bool b => some b
  | _ => none

def typeName : Value → String
  | .null => "null"
  | .bool _ => "bool"
  | .number _ => "number"
  | .string _ => "string"
  | .list _ => "list"
  | .object _ => "object"

/-- The entry of an object. Nothing else has entries. -/
def member? (v : Value) (name : String) : Option Value :=
  match v with
  | .object fields => Fields.get? fields name
  | _ => none

mutual

/-- The entries of every object, at any depth, are in ascending order. -/
def Canonical : Value → Prop
  | .list items => AllCanonical items
  | .object fields => Fields.Ascending fields ∧ HaveCanonical fields
  | _ => True

def AllCanonical : List Value → Prop
  | [] => True
  | v :: rest => Canonical v ∧ AllCanonical rest

def HaveCanonical : List (String × Value) → Prop
  | [] => True
  | (_, v) :: rest => Canonical v ∧ HaveCanonical rest

end

end Value

end FormulaEngine
