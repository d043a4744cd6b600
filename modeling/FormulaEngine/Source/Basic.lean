import FormulaEngine.Expr.Basic

/-!
# Program sources

A program as it is handed over for compilation: arguments, constants, and modules of imports and
formulas.
-/

namespace FormulaEngine

/-- What an import refers to. -/
inductive ImportKind where
  | argument
  | constant
  | formula
  | module
  deriving DecidableEq, Repr

namespace ImportKind

def name : ImportKind → String
  | .argument => "argument"
  | .constant => "constant"
  | .formula => "formula"
  | .module => "module"

def pathLength : ImportKind → Nat
  | .formula => 2
  | .argument | .constant | .module => 1

end ImportKind

structure ArgumentSource where
  name : String
  deriving BEq

structure ConstantSource where
  name : String
  value : Value
  deriving BEq

/-- A formula. An exported one is part of the result and of imports of its module. -/
structure FormulaSource where
  name : String
  expr : Expr
  exported : Bool
  deriving BEq

structure ImportSource where
  name : String
  path : List String
  kind : ImportKind
  deriving BEq

structure ModuleSource where
  name : String
  imports : List ImportSource
  formulas : List FormulaSource
  deriving BEq

structure ProgramSource where
  arguments : List ArgumentSource
  constants : List ConstantSource
  modules : List ModuleSource
  deriving BEq

namespace ModuleSource

def empty (name : String) : ModuleSource := ⟨name, [], []⟩

def withImport (m : ModuleSource) (i : ImportSource) : ModuleSource :=
  { m with imports := m.imports ++ [i] }

def withFormula (m : ModuleSource) (f : FormulaSource) : ModuleSource :=
  { m with formulas := m.formulas ++ [f] }

end ModuleSource

namespace ProgramSource

def empty : ProgramSource := ⟨[], [], []⟩

def withArgument (p : ProgramSource) (name : String) : ProgramSource :=
  { p with arguments := p.arguments ++ [⟨name⟩] }

def withConstant (p : ProgramSource) (name : String) (value : Value) : ProgramSource :=
  { p with constants := p.constants ++ [⟨name, value⟩] }

def withModule (p : ProgramSource) (m : ModuleSource) : ProgramSource :=
  { p with modules := p.modules ++ [m] }

end ProgramSource

end FormulaEngine
