import FormulaEngine.CompileError

/-!
# Scopes

Names are looked up from the inside out: first in the module, then in the program scope, which holds
arguments and constants.
-/

namespace FormulaEngine

structure Scope where
  label : ScopeLabel
  symbols : List (String × DeclId)
  deriving DecidableEq, Repr

namespace Scope

def local? (s : Scope) (name : String) : Option DeclId := s.symbols.lookup name

end Scope

structure Scopes where
  program : Scope
  modules : List Scope
  deriving DecidableEq, Repr

namespace Scopes

def ofProgram (p : Program) : Scopes :=
  { program :=
      ⟨.program, (p.declarations.filter (·.module.isNone)).map fun d => (d.name, d.id)⟩
    modules := p.modules.map fun m =>
      ⟨.module m.name, m.declarations.filterMap fun id =>
        (p.declaration? id).map fun d => (d.name, id)⟩ }

def module? (s : Scopes) (id : ModuleId) : Option Scope := s.modules[id]?

/-- The scopes that are seen from a module, or from outside of any, innermost first. -/
def chain (s : Scopes) (module : Option ModuleId) : List Scope :=
  (module.bind s.module?).toList ++ [s.program]

def resolve (s : Scopes) (module : Option ModuleId) (name : String) : Option DeclId :=
  (s.chain module).findSome? (·.local? name)

end Scopes

end FormulaEngine
