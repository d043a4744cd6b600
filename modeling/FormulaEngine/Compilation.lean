import FormulaEngine.Plan.Basic
import FormulaEngine.Settings

/-!
# Compilation

A source is lowered, its dependencies are found and checked for cycles, and its layers become a
plan. The first stage that fails gives the error.
-/

namespace FormulaEngine

/-- A program with all that is needed to evaluate it. -/
structure Compilation where
  program : Program
  scopes : Scopes
  graph : DependencyGraph
  layers : List (List DeclId)
  plan : Plan
  profile : Profile

namespace Compilation

def checkAcyclic (p : Program) (g : DependencyGraph) : Except CompileError Unit :=
  match g.cycleError? p with
  | some e => .error e
  | none => .ok ()

def compile (settings : Settings) (source : ProgramSource) :
    Except CompileError Compilation := do
  let program ← Program.lower source
  let scopes := Scopes.ofProgram program
  let graph ← DependencyGraph.build program scopes
  checkAcyclic program graph
  let layers ← graph.layers
  let plan ← Plan.assemble program graph layers settings.mergesSynchronousGroups
  .ok ⟨program, scopes, graph, layers, plan, settings.profile⟩

end Compilation

end FormulaEngine
