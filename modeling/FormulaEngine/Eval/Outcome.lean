import FormulaEngine.Eval.Error
import FormulaEngine.Program.Basic

/-!
# Outcomes

What has become of a declaration is kept in its slot: a value, its own failure, or the failure of
another that it needed. A failure is passed on as it is, so it always leads back to its root.
-/

namespace FormulaEngine

/-- A failure and the declaration in which it happened. -/
structure StepFailure where
  declaration : DeclId
  error : EvalError
  deriving DecidableEq, Repr

/-- Why an evaluation has no value. -/
inductive Fault where
  /-- The expression itself went wrong. -/
  | error (e : EvalError)
  /-- It read a slot without a value. -/
  | skip (cause : StepFailure)
  deriving DecidableEq, Repr

/-- What has become of a declaration. -/
inductive Outcome where
  | value (v : Value)
  | failed (failure : StepFailure)
  | skipped (cause : StepFailure)

namespace Outcome

def settle (d : DeclId) : Except Fault Value → Outcome
  | .ok v => .value v
  | .error (.error e) => .failed ⟨d, e⟩
  | .error (.skip cause) => .skipped cause

def value? : Outcome → Option Value
  | .value v => some v
  | _ => none

def isValue (o : Outcome) : Bool := o.value?.isSome

def read : Outcome → Except Fault Value
  | .value v => .ok v
  | .failed cause | .skipped cause => .error (.skip cause)

end Outcome

/-- The outcomes of declarations by their numbers, as far as there are any. -/
structure Slots where
  cells : List (Option Outcome)

namespace Slots

def empty : Slots := ⟨[]⟩

def get? (s : Slots) (id : DeclId) : Option Outcome := s.cells[id]?.join

/-- Puts an outcome into the cell of a number, behind as many empty ones as are needed. -/
def setCell (o : Outcome) : DeclId → List (Option Outcome) → List (Option Outcome)
  | 0, [] => [some o]
  | 0, _ :: rest => some o :: rest
  | id + 1, [] => none :: setCell o id []
  | id + 1, cell :: rest => cell :: setCell o id rest

def insert (s : Slots) (id : DeclId) (o : Outcome) : Slots := ⟨setCell o id s.cells⟩

def filled (s : Slots) : Nat := s.cells.countP Option.isSome

theorem setCell_self (o : Outcome) (id : DeclId) (cells : List (Option Outcome)) :
    (setCell o id cells)[id]? = some (some o) := by
  induction id generalizing cells with
  | zero => cases cells <;> rfl
  | succ id ih => cases cells <;> simp [setCell, ih]

theorem setCell_of_ne (o : Outcome) {id other : DeclId} (h : other ≠ id)
    (cells : List (Option Outcome)) :
    (setCell o id cells)[other]?.join = cells[other]?.join := by
  induction id generalizing other cells with
  | zero =>
    cases other with
    | zero => exact absurd rfl h
    | succ other => cases cells <;> simp [setCell]
  | succ id ih =>
    cases other with
    | zero => cases cells <;> simp [setCell]
    | succ other =>
      cases cells with
      | nil => simpa [setCell] using ih (fun e => h (congrArg _ e)) []
      | cons cell rest => simpa [setCell] using ih (fun e => h (congrArg _ e)) rest

theorem get?_insert_self (s : Slots) (id : DeclId) (o : Outcome) :
    (s.insert id o).get? id = some o := by
  simp [get?, insert, setCell_self]

theorem get?_insert_of_ne (s : Slots) {id other : DeclId} (h : other ≠ id) (o : Outcome) :
    (s.insert id o).get? other = s.get? other :=
  setCell_of_ne o h s.cells

end Slots

end FormulaEngine
