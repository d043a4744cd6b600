import FormulaEngine.CompileError

/-!
# Lowering

A source becomes a program by laying out its parts in their order: arguments, constants, and module
by module the imports and then the formulas. It must not give one name twice in a scope, and each
expression must be one that can be evaluated; the first part that is not so is the error.
-/

namespace FormulaEngine

abbrev Member := String × DeclKind

namespace ModuleSource

/-- What a module declares: its imports and then its formulas. -/
def members (m : ModuleSource) : List Member :=
  m.imports.map (fun i => (i.name, .imported i.path i.kind)) ++
    m.formulas.map fun f => (f.name, .formula f.expr f.exported)

end ModuleSource

namespace ProgramSource

/-- What a program declares outside of modules: its arguments and then its constants. -/
def globals (p : ProgramSource) : List Member :=
  p.arguments.map (fun a => (a.name, .argument)) ++
    p.constants.map fun c => (c.name, .constant c.value)

/-! ### The first error -/

/-- The error of the first of some members that are not in a module. -/
def globalError? (seen : List String) : List Member → Option CompileError
  | [] => none
  | (name, _) :: rest =>
    if name ∈ seen then some (.duplicateDeclaration .program name)
    else globalError? (name :: seen) rest

/-- The error of the first of some members of a module. A name comes before its expression. -/
def memberError? (module : String) (seen : List String) : List Member → Option CompileError
  | [] => none
  | (name, kind) :: rest =>
    if name ∈ seen then some (.duplicateDeclaration (.module module) name)
    else
      let flaw :=
        match kind with
        | .formula expr _ => expr.flaw?
        | _ => none
      match flaw with
      | some flaw => some (.invalidExpression (module ++ "." ++ name) flaw)
      | none => memberError? module (name :: seen) rest

/-- The error of the first of some modules. A name comes before the members. -/
def moduleError? (seen : List String) : List ModuleSource → Option CompileError
  | [] => none
  | m :: rest =>
    if m.name ∈ seen then some (.duplicateDeclaration .program m.name)
    else (memberError? m.name [] m.members).or (moduleError? (m.name :: seen) rest)

def error? (p : ProgramSource) : Option CompileError :=
  (globalError? [] p.globals).or (moduleError? [] p.modules)

end ProgramSource

namespace Program

/-! ### The layout -/

/-- The declarations of some members, numbered from `first` on. -/
def place (first : DeclId) (module : Option ModuleId) (members : List Member) :
    List Declaration :=
  members.mapIdx fun i member => ⟨first + i, module, member.1, member.2⟩

def placeModules (first : DeclId) (module : ModuleId) : List ModuleSource → List Declaration
  | [] => []
  | m :: rest =>
    place first (some module) m.members ++
      placeModules (first + m.members.length) (module + 1) rest

/-- The modules, numbered from `module` on, that declare from `first` on. -/
def modulesFrom (first : DeclId) (module : ModuleId) : List ModuleSource → List ProgramModule
  | [] => []
  | m :: rest =>
    ⟨module, m.name, List.range' first m.members.length⟩ ::
      modulesFrom (first + m.members.length) (module + 1) rest

def ofSource (p : ProgramSource) : Program :=
  { declarations := place 0 none p.globals ++ placeModules p.globals.length 0 p.modules
    modules := modulesFrom p.globals.length 0 p.modules }

def lower (p : ProgramSource) : Except CompileError Program :=
  match p.error? with
  | some e => .error e
  | none => .ok (ofSource p)

end Program

end FormulaEngine
