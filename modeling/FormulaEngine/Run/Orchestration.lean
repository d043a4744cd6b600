import FormulaEngine.Eval.Evaluator
import FormulaEngine.Run.Journal
import FormulaEngine.Run.Result

/-!
# Runs

A run goes through the groups of a plan. In a group each synchronous step is settled before the next
one starts; then the asynchronous steps run together on the slots as they are, and are settled in
their order once all have ended. A failure settles its own step and those that read it. Under a
profile that does not contain failures the run ends with the group of the first one.
-/

namespace FormulaEngine

structure Progress (σ : Type) where
  slots : Slots
  /-- The declarations whose failures are in the result. -/
  recorded : List DeclId
  stopped : Bool
  host : σ
  journal : List Entry

namespace Progress

variable {σ : Type}

def note (pr : Progress σ) (entries : List Entry) : Progress σ :=
  { pr with journal := pr.journal ++ entries }

def afterRan {α : Type} (pr : Progress σ) (ran : Ran σ α) : Progress σ :=
  { pr with host := ran.host, journal := pr.journal ++ ran.panics.map .panicked }

/-- The recorded failures after an outcome. Without containment only the first failure counts. -/
def record (failFast : Bool) (recorded : List DeclId) (id : DeclId) : Outcome → List DeclId
  | .value _ => recorded
  | .failed _ => if failFast && !recorded.isEmpty then recorded else recorded ++ [id]
  | .skipped _ => if failFast then recorded else recorded ++ [id]

def settle (failFast : Bool) (step : StepId) (id : DeclId) (r : Except Fault Value)
    (pr : Progress σ) : Progress σ :=
  let o := Outcome.settle id r
  { pr with
    slots := pr.slots.insert id o
    recorded := record failFast pr.recorded id o
    stopped := pr.stopped || (failFast && !o.isValue)
    journal := pr.journal ++ [.stepSettled step id o] }

end Progress

namespace Compilation

variable {σ : Type} (c : Compilation) (fs : Functions σ)

/-- Whether the first failure ends the run. -/
def failFast : Bool := !c.profile.containsFailures

def scheduled (steps : List StepId) : List (StepId × Declaration) :=
  steps.filterMap fun id => do
    let s ← c.plan.step? id
    let d ← c.program.declaration? s.declaration
    some (id, d)

def evaluator (slots : Slots) (module : Option ModuleId) : Evaluator :=
  ⟨c.program, c.scopes, slots, module, fs.convention?⟩

def routine (mode : Mode) (slots : Slots) (d : Declaration) : Routine (Except Fault Value) :=
  ((c.evaluator fs slots d.module).run mode d).run

/-! ### Groups -/

def runStep (step : StepId) (d : Declaration) (pr : Progress σ) : Progress σ :=
  let pr := pr.note [.stepStarted step d.id]
  let ran := (c.routine fs .synchronous pr.slots d).run fs pr.host
  (pr.afterRan ran).settle c.failFast step d.id ran.result

/-- Runs synchronous steps, up to one with which the run ends. -/
def runSynchronous : List (StepId × Declaration) → Progress σ → Progress σ
  | [], pr => pr
  | (step, d) :: rest, pr =>
    let pr := c.runStep fs step d pr
    if pr.stopped then pr else runSynchronous rest pr

def settleAll (steps : List (StepId × Declaration)) (results : List (Except Fault Value))
    (pr : Progress σ) : Progress σ :=
  (steps.zip results).foldl
    (fun pr settled => pr.settle c.failFast settled.1.1 settled.1.2.id settled.2) pr

def runAsynchronous (steps : List (StepId × Declaration)) (pr : Progress σ) : Progress σ :=
  let pr := pr.note (steps.map fun s => .stepStarted s.1 s.2.id)
  let together := Routine.joinAll (steps.map fun s => c.routine fs .asynchronous pr.slots s.2)
  let ran := together.run fs pr.host
  c.settleAll steps ran.result (pr.afterRan ran)

def runGroup (index : Nat) (group : StepGroup) (pr : Progress σ) : Progress σ :=
  let pr := pr.note [.groupStarted index group]
  let pr := c.runSynchronous fs (c.scheduled group.synchronous) pr
  let pr := if pr.stopped then pr else c.runAsynchronous fs (c.scheduled group.asynchronous) pr
  pr.note [.groupCompleted index]

/-- Runs groups that are numbered from `index` on, up to one with which the run ends. -/
def runGroups (index : Nat) : List StepGroup → Progress σ → Progress σ
  | [], pr => pr
  | group :: rest, pr =>
    let pr := c.runGroup fs index group pr
    if pr.stopped then pr.note [.stopped index] else runGroups (index + 1) rest pr

/-! ### The run -/

/-- The slots before a run: arguments have the values that are supplied, or null, and constants have
their own. -/
def seed (arguments : List (String × Value)) : Slots :=
  ⟨c.program.declarations.map fun d =>
    match d.kind with
    | .argument => some (.value ((Fields.get? arguments d.name).getD .null))
    | .constant v => some (.value v)
    | _ => none⟩

def seededCount : Nat := c.program.declarations.countP (·.module.isNone)

def knowsArgument (name : String) : Bool :=
  ((c.scopes.program.local? name).bind c.program.declaration?).any fun d =>
    d.kind matches .argument

def start (arguments : List (String × Value)) (host : σ) : Progress σ :=
  { slots := c.seed arguments
    recorded := []
    stopped := false
    host := host
    journal := ((arguments.map (·.1)).filter fun name => !c.knowsArgument name).map
      .ignoredArgument }

def runPlan (arguments : List (String × Value)) (host : σ) : Progress σ :=
  c.runGroups fs 0 c.plan.groups (c.start arguments host)

def resultOf (pr : Progress σ) : ProgramResult :=
  .collect c.program c.profile pr.slots pr.recorded

def journalOf (pr : Progress σ) : List Entry :=
  pr.journal ++
    [.finished (pr.slots.filled - c.seededCount) c.plan.size (c.resultOf pr).errors.length]

def evaluate (arguments : List (String × Value)) (host : σ) : ProgramResult :=
  c.resultOf (c.runPlan fs arguments host)

end Compilation

end FormulaEngine
