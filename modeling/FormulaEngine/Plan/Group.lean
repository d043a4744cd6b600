/-!
# Execution groups

A group is one wave of steps: the synchronous ones first, then the asynchronous ones together.
Merging folds groups into the ones after them as long as that adds no wait.
-/

namespace FormulaEngine

abbrev StepId := Nat

/-- Whether a step can suspend. -/
inductive StepKind where
  | synchronous
  | asynchronous
  deriving DecidableEq, Repr

structure StepGroup where
  synchronous : List StepId
  asynchronous : List StepId
  deriving DecidableEq, Repr

namespace StepGroup

def empty : StepGroup := ⟨[], []⟩

def push (g : StepGroup) (id : StepId) : StepKind → StepGroup
  | .synchronous => { g with synchronous := g.synchronous ++ [id] }
  | .asynchronous => { g with asynchronous := g.asynchronous ++ [id] }

def ofSteps (steps : List (StepId × StepKind)) : StepGroup :=
  steps.foldl (fun g step => g.push step.1 step.2) empty

/-- The steps of two groups in one. -/
def absorb (g h : StepGroup) : StepGroup :=
  ⟨g.synchronous ++ h.synchronous, g.asynchronous ++ h.asynchronous⟩

/-- The steps of a group, the synchronous ones first. -/
def steps (g : StepGroup) : List StepId := g.synchronous ++ g.asynchronous

def isAsynchronous (g : StepGroup) : Bool := !g.asynchronous.isEmpty

def size (g : StepGroup) : Nat := g.steps.length

def isEmpty (g : StepGroup) : Bool := g.steps.isEmpty

/-- Merges groups into one that comes before them. It takes up the next group as long as it does not
suspend, and is finished once it does. -/
def mergeInto (pending : StepGroup) : List StepGroup → List StepGroup
  | [] => if pending.isEmpty then [] else [pending]
  | g :: rest =>
    if pending.isAsynchronous then pending :: mergeInto g rest
    else mergeInto (pending.absorb g) rest

/-- Merges adjacent groups so that only asynchronous steps end one. -/
def merge (groups : List StepGroup) : List StepGroup :=
  mergeInto empty (groups.filter fun g => !g.isEmpty)

end StepGroup

end FormulaEngine
