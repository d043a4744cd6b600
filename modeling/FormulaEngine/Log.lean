import FormulaEngine.Compilation

/-!
# Log lines

What a compilation says about itself while it goes on. The lines before a failing stage are said
also when the compilation fails.
-/

namespace FormulaEngine

inductive LogLevel where
  | debug
  | info
  | warn
  | error
  deriving DecidableEq, Repr

namespace LogLevel

def name : LogLevel → String
  | .debug => "DEBUG"
  | .info => "INFO"
  | .warn => "WARN"
  | .error => "ERROR"

end LogLevel

structure LogLine where
  level : LogLevel
  text : String
  deriving DecidableEq, Repr

namespace LogLine

def render (line : LogLine) : String := line.level.name ++ " " ++ line.text

def lowered (p : Program) : LogLine :=
  ⟨.debug, "Lowered program: " ++ toString p.size ++ " declarations in " ++
    toString p.modules.length ++ " modules"⟩

/-- What is said of an import whose target does not exist. -/
def missingTarget? (p : Program) (s : Scopes) (d : Declaration) : Option LogLine :=
  match d.kind with
  | .imported [module, name] .formula =>
    if (p.formulaNamed? s module name).isSome then none
    else some ⟨.debug, "Import '" ++ p.qualifiedName d.id ++ "' targets missing formula '" ++
      module ++ "." ++ name ++ "'"⟩
  | .imported [module] .module =>
    if (p.moduleNamed? module).isSome then none
    else some ⟨.debug, "Import '" ++ p.qualifiedName d.id ++ "' targets missing module '" ++
      module ++ "'"⟩
  | _ => none

def builtGraph (g : DependencyGraph) : LogLine :=
  ⟨.debug, "Built dependency graph: " ++ toString g.size ++ " vertices, " ++
    toString g.digraph.edges.length ++ " edges"⟩

/-- What is said while the dependencies are found, up to the first malformed import. -/
def ofGraph (p : Program) (s : Scopes) : List LogLine :=
  (p.declarations.takeWhile fun d => (d.pathError? p).isNone).filterMap (missingTarget? p s) ++
    match DependencyGraph.build p s with
    | .ok g => [builtGraph g]
    | .error _ => []

def ofCycle (p : Program) (g : DependencyGraph) : List LogLine :=
  match g.digraph.backEdge? with
  | none => []
  | some edge =>
    [⟨.debug, "Back edge " ++ p.qualifiedName (g.idOf edge.1) ++ " → " ++
      p.qualifiedName (g.idOf edge.2) ++ " closes a cycle"⟩]

def assembled (plan : Plan) (layers : List (List DeclId)) : LogLine :=
  ⟨.debug, "Assembled plan: " ++ toString plan.size ++ " steps in " ++
    toString plan.groups.length ++ " groups from " ++ toString layers.length ++ " layers (" ++
    toString plan.suspensionPoints ++ " suspension points)"⟩

def compiled (c : Compilation) : LogLine :=
  ⟨.info, "Compiled " ++ toString c.program.modules.length ++ " modules: " ++
    toString c.graph.size ++ " vertices, " ++ toString c.graph.digraph.edges.length ++
    " edges, " ++ toString c.layers.length ++ " layers, " ++ toString c.plan.groups.length ++
    " groups (" ++ c.profile.name ++ " profile)"⟩

def ofCompile (settings : Settings) (source : ProgramSource) : List LogLine :=
  match Program.lower source with
  | .error _ => []
  | .ok p =>
    let s := Scopes.ofProgram p
    let front := lowered p :: ofGraph p s
    match DependencyGraph.build p s with
    | .error _ => front
    | .ok g =>
      front ++ ofCycle p g ++
        match Compilation.compile settings source with
        | .error _ => []
        | .ok c => [assembled c.plan c.layers, compiled c]

end LogLine

end FormulaEngine
