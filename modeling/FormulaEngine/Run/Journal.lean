import FormulaEngine.Eval.Host
import FormulaEngine.Log
import FormulaEngine.Plan.Basic

/-!
# Journals

What happens in a run, in order. Observers see the part of it that concerns groups and steps, and
the log tells of some of it in words.
-/

namespace FormulaEngine

inductive Entry where
  | ignoredArgument (name : String)
  | groupStarted (index : Nat) (group : StepGroup)
  | stepStarted (step : StepId) (declaration : DeclId)
  | panicked (panic : Panic)
  | stepSettled (step : StepId) (declaration : DeclId) (outcome : Outcome)
  | groupCompleted (index : Nat)
  /-- The run ends with this group. -/
  | stopped (index : Nat)
  | finished (evaluated steps errors : Nat)

inductive Event where
  | groupStarted (index steps : Nat)
  | stepStarted (step : StepId) (name : String)
  | stepCompleted (step : StepId) (name : String)
  | stepFailed (step : StepId) (name : String) (error : EvalError)
  | stepSkipped (step : StepId) (name : String) (cause : StepFailure)
  | groupCompleted (index : Nat)
  deriving DecidableEq, Repr

namespace Entry

def event? (p : Program) : Entry → Option Event
  | .groupStarted index group => some (.groupStarted index group.size)
  | .stepStarted step d => some (.stepStarted step (p.qualifiedName d))
  | .stepSettled step d (.value _) => some (.stepCompleted step (p.qualifiedName d))
  | .stepSettled step d (.failed failure) =>
    some (.stepFailed step (p.qualifiedName d) failure.error)
  | .stepSettled step d (.skipped cause) => some (.stepSkipped step (p.qualifiedName d) cause)
  | .groupCompleted index => some (.groupCompleted index)
  | _ => none

def line? (p : Program) (profile : Profile) : Entry → Option LogLine
  | .ignoredArgument name => some ⟨.warn, "Ignoring unknown argument '" ++ name ++ "'"⟩
  | .groupStarted index group =>
    some ⟨.debug, "Group " ++ toString index ++ ": " ++ toString group.synchronous.length ++
      " sync, " ++ toString group.asynchronous.length ++ " async steps"⟩
  | .panicked panic =>
    some ⟨.error, "Host function '" ++ panic.function ++ "' panicked: " ++ panic.text⟩
  | .stepSettled _ d (.failed failure) =>
    some ⟨.debug, "'" ++ p.qualifiedName d ++ "' failed: " ++ failure.error.message⟩
  | .stepSettled _ d (.skipped cause) =>
    some ⟨.debug, "'" ++ p.qualifiedName d ++ "' skipped: '" ++
      p.qualifiedName cause.declaration ++ "' failed"⟩
  | .stopped index =>
    some ⟨.debug, "Stopping after group " ++ toString index ++ " (" ++ profile.name ++
      " profile)"⟩
  | .finished evaluated steps errors =>
    some ⟨.info, "Evaluated " ++ toString evaluated ++ " of " ++ toString steps ++ " steps: " ++
      toString errors ++ " errors"⟩
  | _ => none

end Entry

end FormulaEngine
