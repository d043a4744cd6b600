import FormulaEngine.Graph.Layers
import FormulaEngine.Program.Lowering
import FormulaEngine.Program.Scope

/-!
# Dependencies

A formula depends on the formulas and imports of its own module that it names, an import of a
formula on that formula, and an import of a module on what the module exports. A name that stands
for nothing adds no dependency; only the length of an import path can be wrong.
-/

namespace FormulaEngine

namespace Program

def localVertex? (p : Program) (s : Scope) (name : String) : Option DeclId := do
  let id ← s.local? name
  let d ← p.declaration? id
  if d.isVertex then some id else none

def formulaNamed? (p : Program) (s : Scopes) (module name : String) : Option DeclId := do
  let m ← p.moduleNamed? module
  let scope ← s.module? m.id
  let id ← scope.local? name
  let d ← p.declaration? id
  if d.isFormula then some id else none

end Program

namespace Declaration

/-- The error of an import whose path has not the length of its kind. -/
def pathError? (p : Program) (d : Declaration) : Option CompileError :=
  match d.kind with
  | .imported path kind =>
    if path.length = kind.pathLength then none
    else
      let module := ((p.moduleOf? d.id).map (·.name)).getD ""
      some (.malformedImport module d.name kind path.length)
  | _ => none

def reads (p : Program) (s : Scopes) (d : Declaration) : List DeclId :=
  match d.kind with
  | .formula expr _ =>
    match d.module.bind s.module? with
    | none => []
    | some scope => expr.references.filterMap (p.localVertex? scope)
  | .imported [module, name] .formula => (p.formulaNamed? s module name).toList
  | .imported [module] .module =>
    match p.moduleNamed? module with
    | none => []
    | some m => p.exportedFormulas m.id
  | _ => []

end Declaration

/-- The dependencies between the formulas and imports of a program. An edge leads from what is read
to what reads it. -/
structure DependencyGraph where
  declarations : List Declaration
  digraph : Digraph declarations.length

namespace DependencyGraph

/-- The edges to one vertex, from what it reads in the order of declaration. -/
def edgesTo (p : Program) (s : Scopes) (vertices : List Declaration) (v : Fin vertices.length) :
    List (Fin vertices.length × Fin vertices.length) :=
  let reads := vertices[v].reads p s
  ((List.finRange vertices.length).filter fun u => reads.contains vertices[u].id).map (·, v)

/-- The edges to every vertex in the order of declaration. -/
def edgesOf (p : Program) (s : Scopes) (vertices : List Declaration) :
    List (Fin vertices.length × Fin vertices.length) :=
  (List.finRange vertices.length).flatMap (edgesTo p s vertices)

/-- The graph of a program whose imports are well formed. -/
def ofProgram (p : Program) (s : Scopes) : DependencyGraph :=
  let vertices := p.declarations.filter Declaration.isVertex
  ⟨vertices, ⟨edgesOf p s vertices⟩⟩

/-- The graph of a program, or else the error of the first malformed import. -/
def build (p : Program) (s : Scopes) : Except CompileError DependencyGraph :=
  match p.declarations.findSome? (Declaration.pathError? p) with
  | some e => .error e
  | none => .ok (ofProgram p s)

variable (g : DependencyGraph)

def size : Nat := g.declarations.length

def idOf (v : Fin g.declarations.length) : DeclId := g.declarations[v].id

/-- The vertices in the order of declaration. -/
def vertices : List DeclId := g.declarations.map (·.id)

def node? (id : DeclId) : Option Nat := g.vertices.idxOf? id

def contains (id : DeclId) : Bool := g.vertices.contains id

/-- The edges between declarations, from what is read to what reads it, in the order in which they
were added. -/
def links : List (DeclId × DeclId) := g.digraph.edges.map fun e => (g.idOf e.1, g.idOf e.2)

def linkLE (a b : DeclId × DeclId) : Bool := a.1 < b.1 || (a.1 == b.1 && a.2 ≤ b.2)

def edges : List (DeclId × DeclId) := g.links.mergeSort linkLE

/-- What a declaration reads, in ascending order. -/
def dependencies (id : DeclId) : List DeclId :=
  ((g.links.filter (·.2 == id)).map (·.1)).mergeSort

/-- What reads a declaration, in ascending order. -/
def dependents (id : DeclId) : List DeclId :=
  ((g.links.filter (·.1 == id)).map (·.2)).mergeSort

/-- Declarations in ascending order from one of them on, with those before it at the end. -/
def startingAt (id : DeclId) (members : List DeclId) : List DeclId :=
  let sorted := members.mergeSort
  sorted.rotateLeft ((sorted.idxOf? id).getD 0)

/-- The declarations of the nodes in the component of a node. -/
def component (v : Fin g.declarations.length) : List DeclId := (g.digraph.component v).map g.idOf

def cycleMembers (v : Fin g.declarations.length) : List DeclId :=
  startingAt (g.idOf v) (g.component v)

/-- The error of the first cycle that a search finds. It names where the cycle was entered, and all
declarations that lie on cycles through there. -/
def cycleError? (p : Program) : Option CompileError :=
  g.digraph.backEdge?.map fun edge =>
    let name := p.qualifiedName (g.idOf edge.2)
    .cyclicDependency name ((g.cycleMembers edge.2).map p.qualifiedName ++ [name])

def layers : Except CompileError (List (List DeclId)) :=
  match g.digraph.layers g.idOf with
  | .ok layers => .ok layers
  | .error node => .error (.internal (.cyclicGraph node))

end DependencyGraph

end FormulaEngine
