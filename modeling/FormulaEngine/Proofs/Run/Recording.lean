import FormulaEngine.Run.Orchestration
import Mathlib.Data.List.Basic

/-!
# Calls on record

Host functions can be made to write down how they are called. That changes nothing else: with the
record left out, a run is as it would be without.
-/

namespace FormulaEngine

/-- A call of a host function. -/
abbrev Call := String × List Value

variable {σ : Type}

/-- A function of which each call is written down. An asynchronous call counts where it is
started. -/
def HostFunction.recorded (name : String) : HostFunction σ → HostFunction (σ × List Call)
  | .synchronous call => .synchronous fun args s =>
    ((call args s.1).1, (call args s.1).2, s.2 ++ [(name, args)])
  | .asynchronous start finish => .asynchronous
    (fun args s => ((start args s.1).1, (start args s.1).2, s.2 ++ [(name, args)]))
    fun args s => ((finish args s.1).1, (finish args s.1).2, s.2)

namespace Functions

variable {fs : Functions σ} {name : String}

def recorded (fs : Functions σ) : Functions (σ × List Call) :=
  ⟨fs.entries.map fun entry => (entry.1, entry.2.recorded entry.1)⟩

theorem get?_recorded (fs : Functions σ) (name : String) :
    fs.recorded.get? name = (fs.get? name).map (HostFunction.recorded name) := by
  unfold get? recorded
  induction fs.entries with
  | nil => rfl
  | cons entry rest ih =>
    rw [List.map_cons, List.lookup_cons, List.lookup_cons]
    cases hname : name == entry.1 with
    | true =>
      obtain rfl : name = entry.1 := by simpa using hname
      rfl
    | false => exact ih

theorem convention?_recorded (fs : Functions σ) :
    fs.recorded.convention? = fs.convention? := by
  funext name
  unfold convention?
  rw [get?_recorded]
  cases fs.get? name with
  | none => rfl
  | some f => cases f <;> rfl

/-! ### Leaving out the record -/

theorem call_recorded (fs : Functions σ) (name : String) (args : List Value)
    (s : σ × List Call) :
    fs.call name args s.1 =
      ((fs.recorded.call name args s).1, (fs.recorded.call name args s).2.1) := by
  unfold call
  rw [get?_recorded]
  cases fs.get? name with
  | none => rfl
  | some f => cases f <;> rfl

theorem start_recorded (fs : Functions σ) (name : String) (args : List Value)
    (s : σ × List Call) :
    fs.start name args s.1 =
      ((fs.recorded.start name args s).1, (fs.recorded.start name args s).2.1) := by
  unfold start
  rw [get?_recorded]
  cases fs.get? name with
  | none => rfl
  | some f => cases f <;> rfl

theorem finish_recorded (fs : Functions σ) (name : String) (args : List Value)
    (s : σ × List Call) :
    fs.finish name args s.1 =
      ((fs.recorded.finish name args s).1, (fs.recorded.finish name args s).2.1) := by
  unfold finish
  rw [get?_recorded]
  cases fs.get? name with
  | none => rfl
  | some f => cases f <;> rfl

end Functions

/-- A run of a routine without the calls that it made. -/
def Ran.erase {α : Type} (ran : Ran (σ × List Call) α) : Ran σ α :=
  ⟨ran.result, ran.host.1, ran.panics⟩

theorem Routine.run_erase {α : Type} (fs : Functions σ) (r : Routine α) (s : σ × List Call) :
    r.run fs s.1 = (r.run fs.recorded s).erase := by
  induction r generalizing s with
  | done a => rfl
  | call function args resume ih =>
    rw [run, run, fs.call_recorded]
    exact congrArg (Ran.after · _) (ih _ _)
  | start function args resume ih =>
    rw [run, run, fs.start_recorded]
    exact congrArg (Ran.after · _) (ih _ _)
  | turn rest ih => exact ih s
  | finish function args resume ih =>
    rw [run, run, fs.finish_recorded]
    exact congrArg (Ran.after · _) (ih _ _)

/-- The progress of a run without the calls that it made. -/
def Progress.erase (pr : Progress (σ × List Call)) : Progress σ :=
  ⟨pr.slots, pr.recorded, pr.stopped, pr.host.1, pr.journal⟩

theorem Progress.note_erase (pr : Progress (σ × List Call)) (entries : List Entry) :
    pr.erase.note entries = (pr.note entries).erase := rfl

theorem Progress.stopped_erase (pr : Progress (σ × List Call)) :
    pr.erase.stopped = pr.stopped := rfl

namespace Compilation

variable {c : Compilation} {fs : Functions σ}

theorem routine_recorded (mode : Mode) (slots : Slots) (d : Declaration) :
    c.routine fs.recorded mode slots d = c.routine fs mode slots d := by
  unfold routine evaluator
  rw [fs.convention?_recorded]

theorem runStep_erase (step : StepId) (d : Declaration) (pr : Progress (σ × List Call)) :
    c.runStep fs step d pr.erase = (c.runStep fs.recorded step d pr).erase := by
  have hran : (c.routine fs .synchronous pr.slots d).run fs pr.host.1 =
      ((c.routine fs.recorded .synchronous pr.slots d).run fs.recorded pr.host).erase := by
    rw [routine_recorded]
    exact Routine.run_erase fs _ pr.host
  unfold runStep
  change Progress.settle _ _ _ ((c.routine fs .synchronous pr.slots d).run fs pr.host.1).result
    (Progress.afterRan _ ((c.routine fs .synchronous pr.slots d).run fs pr.host.1)) = _
  rw [hran]
  rfl

theorem runSynchronous_erase (steps : List (StepId × Declaration))
    (pr : Progress (σ × List Call)) :
    c.runSynchronous fs steps pr.erase = (c.runSynchronous fs.recorded steps pr).erase := by
  induction steps generalizing pr with
  | nil => rfl
  | cons x rest ih =>
    rw [runSynchronous, runSynchronous, runStep_erase, ih]
    exact (apply_ite Progress.erase _ _ _).symm

theorem settleAll_erase (steps : List (StepId × Declaration))
    (results : List (Except Fault Value)) (pr : Progress (σ × List Call)) :
    c.settleAll steps results pr.erase = (c.settleAll steps results pr).erase := by
  unfold settleAll
  induction steps.zip results generalizing pr with
  | nil => rfl
  | cons x rest ih => exact ih (pr.settle c.failFast x.1.1 x.1.2.id x.2)

theorem runAsynchronous_erase (steps : List (StepId × Declaration))
    (pr : Progress (σ × List Call)) :
    c.runAsynchronous fs steps pr.erase = (c.runAsynchronous fs.recorded steps pr).erase := by
  have hroutines : (steps.map fun x => c.routine fs.recorded .asynchronous pr.slots x.2) =
      steps.map fun x => c.routine fs .asynchronous pr.slots x.2 :=
    List.map_congr_left fun x _ => routine_recorded .asynchronous pr.slots x.2
  have hran := Routine.run_erase fs
    (Routine.joinAll (steps.map fun x => c.routine fs .asynchronous pr.slots x.2)) pr.host
  unfold runAsynchronous
  change c.settleAll steps (Routine.run fs (Routine.joinAll
      (steps.map fun x => c.routine fs .asynchronous pr.slots x.2)) pr.host.1).result
    (Progress.afterRan _ (Routine.run fs (Routine.joinAll
      (steps.map fun x => c.routine fs .asynchronous pr.slots x.2)) pr.host.1)) =
    (c.settleAll steps (Routine.run fs.recorded (Routine.joinAll
      (steps.map fun x => c.routine fs.recorded .asynchronous pr.slots x.2)) pr.host).result
    (Progress.afterRan _ (Routine.run fs.recorded (Routine.joinAll
      (steps.map fun x => c.routine fs.recorded .asynchronous pr.slots x.2)) pr.host))).erase
  rw [hran, hroutines, ← settleAll_erase]
  rfl

theorem runGroup_erase (index : Nat) (group : StepGroup) (pr : Progress (σ × List Call)) :
    c.runGroup fs index group pr.erase = (c.runGroup fs.recorded index group pr).erase := by
  simp only [runGroup, Progress.note_erase, runSynchronous_erase, runAsynchronous_erase,
    Progress.stopped_erase]
  split <;> rfl

theorem runGroups_erase (index : Nat) (groups : List StepGroup)
    (pr : Progress (σ × List Call)) :
    c.runGroups fs index groups pr.erase = (c.runGroups fs.recorded index groups pr).erase := by
  induction groups generalizing index pr with
  | nil => rfl
  | cons group rest ih =>
    simp only [runGroups, runGroup_erase, Progress.stopped_erase, ih]
    split <;> rfl

/-- What host functions are called in a run of groups from the start, in order. -/
def callsIn (c : Compilation) (fs : Functions σ) (groups : List StepGroup)
    (arguments : List (String × Value)) (host : σ) : List Call :=
  (c.runGroups fs.recorded 0 groups (c.start arguments (host, []))).host.2

/-- To record calls makes no difference to a run. -/
theorem runPlan_recorded (c : Compilation) (fs : Functions σ)
    (arguments : List (String × Value)) (host : σ) :
    c.runPlan fs arguments host = (c.runPlan fs.recorded arguments (host, [])).erase :=
  runGroups_erase 0 c.plan.groups (c.start arguments (host, []))

end Compilation

end FormulaEngine
