import FormulaEngine.Eval.Error
import FormulaEngine.Expr.Basic
import FormulaEngine.Number.Dyadic

/-!
# Operators

What operators make of values. Nothing is converted: a condition is a truth value, arithmetic takes
two numbers, and only addition and the orderings also take two strings.
-/

namespace FormulaEngine

namespace Value

/-- The truth value of a condition, or of an operand of the named operation. -/
def truth (operation : String) (v : Value) : Except EvalError Bool :=
  match v.asBool? with
  | some b => .ok b
  | none => .error (.typeMismatch operation v.typeName)

def member (v : Value) (name : String) : Except EvalError Value :=
  match v.member? name with
  | some w => .ok w
  | none => .error (.missingMember name v.typeName)

/-- The types of two operands that do not fit an operator; equal types are named once. -/
def typeNames (v w : Value) : String :=
  if v.typeName == w.typeName then v.typeName else v.typeName ++ " and " ++ w.typeName

end Value

namespace UnaryOp

def apply : UnaryOp → Value → Except EvalError Value
  | .neg, .number x => .ok (.number (-x))
  | .not, .bool b => .ok (.bool !b)
  | op, v => .error (.typeMismatch op.symbol v.typeName)

end UnaryOp

namespace BinaryOp

/-- Whether an operator looks at its second operand only if the first leaves the answer open. -/
def isLazy : BinaryOp → Bool
  | .and | .or => true
  | _ => false

/-- The first operand that decides a lazy operator alone. -/
def decides : BinaryOp → Bool → Bool
  | .and, b => !b
  | .or, b => b
  | _, _ => false

def onNumbers? (x y : Float) : BinaryOp → Option (Except EvalError Value)
  | .add => some (.ok (.number (x + y)))
  | .sub => some (.ok (.number (x - y)))
  | .mul => some (.ok (.number (x * y)))
  | .div => some (if y == 0 then .error .divisionByZero else .ok (.number (x / y)))
  | .rem => some (if y == 0 then .error .divisionByZero else .ok (.number (floatRemainder x y)))
  | .lt => some (.ok (.bool (x < y)))
  | .le => some (.ok (.bool (x ≤ y)))
  | .gt => some (.ok (.bool (y < x)))
  | .ge => some (.ok (.bool (y ≤ x)))
  | _ => none

def onStrings? (s t : String) : BinaryOp → Option (Except EvalError Value)
  | .add => some (.ok (.string (s ++ t)))
  | .lt => some (.ok (.bool (s < t)))
  | .le => some (.ok (.bool (s ≤ t)))
  | .gt => some (.ok (.bool (t < s)))
  | .ge => some (.ok (.bool (t ≤ s)))
  | _ => none

/-- The value of an operator at two operands, of which both are looked at. -/
def apply (op : BinaryOp) (v w : Value) : Except EvalError Value :=
  match op with
  | .eq => .ok (.bool (v == w))
  | .ne => .ok (.bool (v != w))
  | .and => do
    let a ← v.truth op.symbol
    let b ← w.truth op.symbol
    .ok (.bool (a && b))
  | .or => do
    let a ← v.truth op.symbol
    let b ← w.truth op.symbol
    .ok (.bool (a || b))
  | op =>
    let result :=
      match v, w with
      | .number x, .number y => onNumbers? x y op
      | .string s, .string t => onStrings? s t op
      | _, _ => none
    result.getD (.error (.typeMismatch op.symbol (v.typeNames w)))

end BinaryOp

end FormulaEngine
