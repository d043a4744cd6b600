import FormulaEngine.Value.Basic

/-!
# Expressions

The expression trees of formulas.
-/

namespace FormulaEngine

inductive UnaryOp where
  | neg
  | not
  deriving DecidableEq, Repr

inductive BinaryOp where
  | add
  | sub
  | mul
  | div
  | rem
  | eq
  | ne
  | lt
  | le
  | gt
  | ge
  | and
  | or
  deriving DecidableEq, Repr

namespace UnaryOp

def symbol : UnaryOp → String
  | .neg => "-"
  | .not => "!"

end UnaryOp

namespace BinaryOp

def symbol : BinaryOp → String
  | .add => "+"
  | .sub => "-"
  | .mul => "*"
  | .div => "/"
  | .rem => "%"
  | .eq => "=="
  | .ne => "!="
  | .lt => "<"
  | .le => "<="
  | .gt => ">"
  | .ge => ">="
  | .and => "&&"
  | .or => "||"

end BinaryOp

inductive Expr where
  | literal (value : Value)
  | ident (name : String)
  | member (target : Expr) (name : String)
  | unary (op : UnaryOp) (operand : Expr)
  | binary (op : BinaryOp) (lhs rhs : Expr)
  | conditional (condition consequent alternative : Expr)
  /-- The first case whose pattern equals the subject, or else the fallback if there is one. -/
  | switch (subject : Expr) (cases : List (Expr × Expr)) (fallback : Option Expr)
  | list (items : List Expr)
  | object (fields : List (String × Expr))
  | call (function : String) (args : List Expr)
  | await (operand : Expr)
  /-- The fallback where the target is null or nothing is there. -/
  | default (target fallback : Expr)
  deriving Inhabited

namespace Expr

def awaitCall (function : String) (args : List Expr) : Expr := .await (.call function args)

def add (lhs rhs : Expr) : Expr := .binary .add lhs rhs

def div (lhs rhs : Expr) : Expr := .binary .div lhs rhs

def kind : Expr → String
  | .literal _ => "literal"
  | .ident _ => "ident"
  | .member _ _ => "member"
  | .unary _ _ => "unary"
  | .binary _ _ _ => "binary"
  | .conditional _ _ _ => "if"
  | .switch _ _ _ => "switch"
  | .list _ => "list"
  | .object _ => "object"
  | .call _ _ => "call"
  | .await _ => "await"
  | .default _ _ => "default"

mutual

/-- Equality of expressions. Numbers in literals are equal as doubles. -/
def beq : Expr → Expr → Bool
  | .literal v, .literal w => v == w
  | .ident m, .ident n => m == n
  | .member s m, .member t n => beq s t && m == n
  | .unary o x, .unary p y => o == p && beq x y
  | .binary o a b, .binary p c d => o == p && beq a c && beq b d
  | .conditional a b c, .conditional d e f => beq a d && beq b e && beq c f
  | .switch s xs f, .switch t ys g => beq s t && beqCases xs ys && beqOption f g
  | .list xs, .list ys => beqList xs ys
  | .object xs, .object ys => beqFields xs ys
  | .call f xs, .call g ys => f == g && beqList xs ys
  | .await x, .await y => beq x y
  | .default a b, .default c d => beq a c && beq b d
  | _, _ => false

def beqList : List Expr → List Expr → Bool
  | [], [] => true
  | x :: xs, y :: ys => beq x y && beqList xs ys
  | _, _ => false

def beqCases : List (Expr × Expr) → List (Expr × Expr) → Bool
  | [], [] => true
  | (p, x) :: xs, (q, y) :: ys => beq p q && beq x y && beqCases xs ys
  | _, _ => false

def beqFields : List (String × Expr) → List (String × Expr) → Bool
  | [], [] => true
  | (m, x) :: xs, (n, y) :: ys => m == n && beq x y && beqFields xs ys
  | _, _ => false

def beqOption : Option Expr → Option Expr → Bool
  | none, none => true
  | some x, some y => beq x y
  | _, _ => false

end

instance : BEq Expr := ⟨beq⟩

end Expr

end FormulaEngine
