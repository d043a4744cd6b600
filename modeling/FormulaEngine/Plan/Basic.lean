import FormulaEngine.Plan.Group
import FormulaEngine.Program.Dependencies

/-!
# Plans

A plan numbers the vertices of a graph as steps, in the order of layers, and puts the steps into
groups that run one after another. Layers make a plan if they list every vertex exactly once.
-/

namespace FormulaEngine

/-- A declaration that is scheduled. The steps that read its result are its dependents. -/
structure Step where
  id : StepId
  declaration : DeclId
  kind : StepKind
  dependents : List StepId
  deriving DecidableEq, Repr

namespace Step

def isAsync (s : Step) : Bool := s.kind == .asynchronous

end Step

structure Plan where
  steps : List Step
  groups : List StepGroup
  deriving DecidableEq, Repr

namespace Plan

def label (id : StepId) : String := "step_" ++ toString id

/-- The fault of the first of some declarations that cannot be scheduled after others. -/
def scheduleFault? (p : Program) (g : DependencyGraph) (scheduled : List DeclId) :
    List DeclId → Option InternalFault
  | [] => none
  | d :: rest =>
    if (p.declaration? d).isNone then some (.unknownDeclaration d)
    else if !g.contains d then some (.notAVertex (p.qualifiedName d))
    else if d ∈ scheduled then some (.repeated (p.qualifiedName d))
    else scheduleFault? p g (d :: scheduled) rest

/-- Why some declarations are not the vertices of a graph, each once. -/
def fault? (p : Program) (g : DependencyGraph) (order : List DeclId) : Option InternalFault :=
  (scheduleFault? p g [] order).or
    (if order.length = g.size then none else some (.incomplete order.length g.size))

def kindOf (p : Program) (d : DeclId) : StepKind :=
  if (p.declaration? d).any Declaration.isAsync then .asynchronous else .synchronous

/-- The step of a declaration that has a place in an order. -/
def stepAt (p : Program) (g : DependencyGraph) (order : List DeclId) (i : StepId) (d : DeclId) :
    Step :=
  ⟨i, d, kindOf p d, (g.dependents d).filterMap fun e => order.idxOf? e⟩

def stepsOf (p : Program) (g : DependencyGraph) (order : List DeclId) : List Step :=
  order.mapIdx (stepAt p g order)

def groupOf (p : Program) (order layer : List DeclId) : StepGroup :=
  .ofSteps (layer.filterMap fun d => (order.idxOf? d).map fun i => (i, kindOf p d))

/-- The groups of layers, merged or else one for each layer that is not empty. -/
def groupsOf (p : Program) (layers : List (List DeclId)) (merge : Bool) : List StepGroup :=
  let groups := layers.map (groupOf p layers.flatten)
  if merge then StepGroup.merge groups else groups.filter fun g => !g.isEmpty

def assemble (p : Program) (g : DependencyGraph) (layers : List (List DeclId)) (merge : Bool) :
    Except CompileError Plan :=
  match fault? p g layers.flatten with
  | some fault => .error (.internal fault)
  | none => .ok ⟨stepsOf p g layers.flatten, groupsOf p layers merge⟩

variable (plan : Plan)

def step? (id : StepId) : Option Step := plan.steps[id]?

def stepFor? (d : DeclId) : Option Step := plan.steps.find? (·.declaration == d)

def suspensionPoints : Nat := plan.groups.countP (·.isAsynchronous)

def size : Nat := plan.steps.length

/-! ### Texts -/

def renderStep (p : Program) (s : Step) : String :=
  if s.isAsync then "await " ++ p.qualifiedName s.declaration else p.qualifiedName s.declaration

def renderGroup (p : Program) (index : Nat) (g : StepGroup) : String :=
  "group " ++ toString index ++ " (" ++ (if g.isAsynchronous then "async" else "sync") ++ "): " ++
    ", ".intercalate ((g.steps.filterMap plan.step?).map (renderStep p)) ++ "\n"

/-- The listing of a plan, a line for each group. -/
def render (p : Program) : String :=
  String.join (plan.groups.mapIdx (plan.renderGroup p))

end Plan

end FormulaEngine
