import FormulaEngine.Number.Numeral

/-!
# JSON documents

A document keeps the order of members, names given more than once, and the way numbers are written.
-/

namespace FormulaEngine

inductive Json where
  | null
  | bool (b : Bool)
  | number (n : Numeral)
  | string (s : String)
  | array (items : List Json)
  | object (members : List (String × Json))
  /-- A text with half of a surrogate pair, or an object with such a name. -/
  | unreadable
  deriving Repr

namespace Json

def ofNat (n : Nat) : Json := .number (.ofNat n)

def ofOption : Option Json → Json
  | none => .null
  | some j => j

mutual

/-- Whether every part can be taken over: arrays and objects nest at most `depth` deep, each number
is a double, and nothing is unreadable. -/
def isSound (depth : Nat) : Json → Bool
  | .null | .bool _ | .string _ => true
  | .number n => n.toFloat?.isSome
  | .array items =>
    match depth with
    | 0 => false
    | depth + 1 => areSound depth items
  | .object members =>
    match depth with
    | 0 => false
    | depth + 1 => haveSound depth members
  | .unreadable => false

def areSound (depth : Nat) : List Json → Bool
  | [] => true
  | j :: rest => isSound depth j && areSound depth rest

def haveSound (depth : Nat) : List (String × Json) → Bool
  | [] => true
  | (_, j) :: rest => isSound depth j && haveSound depth rest

end

end Json

end FormulaEngine
