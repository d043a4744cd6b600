import FormulaEngine.Expr.Basic

/-!
# What an expression contains

Everything that is known about an expression before it is evaluated comes from its nodes in
preorder: the names it reads, whether it can suspend, and the first node that cannot be evaluated.
-/

namespace FormulaEngine

namespace Expr

/-- The direct parts of an expression, in the order in which they are evaluated. -/
def children : Expr → List Expr
  | .literal _ => []
  | .ident _ => []
  | .member target _ => [target]
  | .unary _ operand => [operand]
  | .binary _ lhs rhs => [lhs, rhs]
  | .conditional condition consequent alternative => [condition, consequent, alternative]
  | .switch subject cases fallback =>
    subject :: cases.flatMap (fun c => [c.1, c.2]) ++ fallback.toList
  | .list items => items
  | .object fields => fields.map (·.2)
  | .call _ args => args
  | .await operand => [operand]
  | .default target fallback => [target, fallback]

mutual

/-- The nodes of an expression, each before its parts. -/
def preorder : Expr → List Expr
  | .literal v => [.literal v]
  | .ident name => [.ident name]
  | .member target name => .member target name :: preorder target
  | .unary op operand => .unary op operand :: preorder operand
  | .binary op lhs rhs => .binary op lhs rhs :: (preorder lhs ++ preorder rhs)
  | .conditional c a b => .conditional c a b :: (preorder c ++ preorder a ++ preorder b)
  | .switch subject cases fallback =>
    .switch subject cases fallback ::
      (preorder subject ++ preorderCases cases ++ preorderOption fallback)
  | .list items => .list items :: preorderList items
  | .object fields => .object fields :: preorderFields fields
  | .call function args => .call function args :: preorderList args
  | .await operand => .await operand :: preorder operand
  | .default target fallback => .default target fallback :: (preorder target ++ preorder fallback)

def preorderList : List Expr → List Expr
  | [] => []
  | e :: rest => preorder e ++ preorderList rest

def preorderCases : List (Expr × Expr) → List Expr
  | [] => []
  | (pattern, value) :: rest => preorder pattern ++ preorder value ++ preorderCases rest

def preorderFields : List (String × Expr) → List Expr
  | [] => []
  | (_, e) :: rest => preorder e ++ preorderFields rest

def preorderOption : Option Expr → List Expr
  | none => []
  | some e => preorder e

end

def isAwait : Expr → Bool
  | .await _ => true
  | _ => false

def isAsync (e : Expr) : Bool := e.preorder.any isAwait

def readName? : Expr → Option String
  | .ident name => some name
  | _ => none

/-- A list without repetitions, in the order of first occurrence. -/
def distinct (names : List String) : List String :=
  names.foldl (fun seen name => if name ∈ seen then seen else seen ++ [name]) []

/-- The names that an expression reads, each once, in the order of first use. -/
def references (e : Expr) : List String := distinct (e.preorder.filterMap readName?)

end Expr

/-! ### Paths -/

/-- A name followed by any number of member accesses. -/
structure Path where
  root : String
  members : List String
  deriving DecidableEq, Repr

namespace Expr

def path? : Expr → Option Path
  | .ident name => some ⟨name, []⟩
  | .member target name => (path? target).map fun p => ⟨p.root, p.members ++ [name]⟩
  | _ => none

def isPath (e : Expr) : Bool := e.path?.isSome

end Expr

/-! ### Validity -/

inductive Flaw where
  | emptyIdentifier
  | emptyMember
  | emptyFunction
  | awaitsNonCall
  deriving DecidableEq, Repr

namespace Flaw

def message : Flaw → String
  | .emptyIdentifier => "empty identifier"
  | .emptyMember => "empty member name"
  | .emptyFunction => "empty function name"
  | .awaitsNonCall => "only host function calls can be awaited"

end Flaw

namespace Expr

def isCall : Expr → Bool
  | .call _ _ => true
  | _ => false

/-- The flaw of a node, its parts left out. -/
def ownFlaw? : Expr → Option Flaw
  | .ident name => if name.isEmpty then some .emptyIdentifier else none
  | .member _ name => if name.isEmpty then some .emptyMember else none
  | .call function _ => if function.isEmpty then some .emptyFunction else none
  | .await operand => if operand.isCall then none else some .awaitsNonCall
  | _ => none

/-- The flaw of the first node in preorder that has one. -/
def flaw? (e : Expr) : Option Flaw := e.preorder.findSome? ownFlaw?

end Expr

end FormulaEngine
