import FormulaEngine.Eval.Outcome

/-!
# Routines

An evaluation is a routine: it comes to a result, or asks the host for something and goes on with
the answer. Between the start and the end of an asynchronous call it may give other routines their
turn. Routines that run together take turns in their order, one turn each in every round.
-/

namespace FormulaEngine

/-- What a host function answers. A panic may come with a text. -/
inductive Reply where
  | value (v : Value)
  | failure (message : String)
  | panic (text : Option String)

/-- What comes of starting an asynchronous host function. -/
inductive Receipt where
  /-- The call is under way, and takes some turns. -/
  | accepted (turns : Nat)
  | panic (text : Option String)
  deriving DecidableEq, Repr

/-- A computation with calls of host functions in it. -/
inductive Routine (α : Type) where
  | done (a : α)
  | call (function : String) (args : List Value) (resume : Reply → Routine α)
  | start (function : String) (args : List Value) (resume : Receipt → Routine α)
  /-- Lets others have their turn. -/
  | turn (rest : Routine α)
  | finish (function : String) (args : List Value) (resume : Reply → Routine α)

namespace Routine

variable {α β γ : Type}

def bind : Routine α → (α → Routine β) → Routine β
  | .done a, f => f a
  | .call function args resume, f => .call function args fun r => bind (resume r) f
  | .start function args resume, f => .start function args fun r => bind (resume r) f
  | .turn rest, f => .turn (bind rest f)
  | .finish function args resume, f => .finish function args fun r => bind (resume r) f

instance : Monad Routine where
  pure := .done
  bind := bind

theorem bind_done (r : Routine α) : r.bind .done = r := by
  induction r with
  | done a => rfl
  | call function args resume ih => exact congrArg _ (funext ih)
  | start function args resume ih => exact congrArg _ (funext ih)
  | turn rest ih => exact congrArg _ ih
  | finish function args resume ih => exact congrArg _ (funext ih)

theorem bind_bind (r : Routine α) (f : α → Routine β) (g : β → Routine γ) :
    (r.bind f).bind g = r.bind fun a => (f a).bind g := by
  induction r with
  | done a => rfl
  | call function args resume ih => exact congrArg _ (funext ih)
  | start function args resume ih => exact congrArg _ (funext ih)
  | turn rest ih => exact congrArg _ ih
  | finish function args resume ih => exact congrArg _ (funext ih)

instance : LawfulMonad Routine :=
  LawfulMonad.mk' Routine bind_done (fun _ _ => rfl) bind_bind

def wait (turns : Nat) (r : Routine α) : Routine α := turns.repeat .turn r

/-- A routine whose partner has had its turn in this round. Once this one comes to its own turn or
to its end, a new round begins. -/
def secondHalf (next : Routine β → Routine γ) (last : β → Routine γ) : Routine β → Routine γ
  | .done b => .turn (last b)
  | .call function args resume =>
    .call function args fun r => secondHalf next last (resume r)
  | .start function args resume =>
    .start function args fun r => secondHalf next last (resume r)
  | .turn rest => .turn (next rest)
  | .finish function args resume =>
    .finish function args fun r => secondHalf next last (resume r)

/-- Two routines together. In every round the first goes on up to its turn, and then the second. -/
def join : Routine α → Routine β → Routine (α × β)
  | .done a, s => s.bind fun b => .done (a, b)
  | .call function args resume, s => .call function args fun r => join (resume r) s
  | .start function args resume, s => .start function args fun r => join (resume r) s
  | .turn rest, s => secondHalf (join rest) (fun b => rest.bind fun a => .done (a, b)) s
  | .finish function args resume, s => .finish function args fun r => join (resume r) s

def joinAll : List (Routine α) → Routine (List α)
  | [] => .done []
  | r :: rest => (join r (joinAll rest)).bind fun results => .done (results.1 :: results.2)

end Routine

end FormulaEngine
