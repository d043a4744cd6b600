import FormulaEngine.Expr.Walk
import FormulaEngine.Source.Basic

/-!
# Programs

A program is a list of declarations, numbered in their order, and of modules, which say by number
what they declare. Arguments and constants belong to no module.
-/

namespace FormulaEngine

abbrev DeclId := Nat

abbrev ModuleId := Nat

/-- What a declaration is. -/
inductive DeclKind where
  | argument
  | constant (value : Value)
  | formula (expr : Expr) (exported : Bool)
  | imported (path : List String) (kind : ImportKind)

structure Declaration where
  id : DeclId
  module : Option ModuleId
  name : String
  kind : DeclKind

namespace Declaration

/-- Whether a declaration is evaluated, and not given before. -/
def isVertex (d : Declaration) : Bool :=
  match d.kind with
  | .formula _ _ | .imported _ _ => true
  | .argument | .constant _ => false

def isFormula (d : Declaration) : Bool :=
  match d.kind with
  | .formula _ _ => true
  | _ => false

def isExported (d : Declaration) : Bool :=
  match d.kind with
  | .formula _ exported => exported
  | _ => false

def expr? (d : Declaration) : Option Expr :=
  match d.kind with
  | .formula expr _ => some expr
  | _ => none

def isAsync (d : Declaration) : Bool := d.expr?.any Expr.isAsync

end Declaration

/-- A module: its imports and then its formulas, by number. -/
structure ProgramModule where
  id : ModuleId
  name : String
  declarations : List DeclId
  deriving DecidableEq, Repr

structure Program where
  declarations : List Declaration
  modules : List ProgramModule

namespace Program

def size (p : Program) : Nat := p.declarations.length

def declaration? (p : Program) (id : DeclId) : Option Declaration := p.declarations[id]?

def module? (p : Program) (id : ModuleId) : Option ProgramModule := p.modules[id]?

def moduleNamed? (p : Program) (name : String) : Option ProgramModule :=
  p.modules.find? (·.name == name)

/-- The exported formulas of a module, in the order of their declaration. -/
def exportedFormulas (p : Program) (id : ModuleId) : List DeclId :=
  match p.module? id with
  | none => []
  | some m => m.declarations.filter fun d => (p.declaration? d).any Declaration.isExported

def moduleOf? (p : Program) (id : DeclId) : Option ProgramModule := do
  let d ← p.declaration? id
  let m ← d.module
  p.module? m

def label (id : DeclId) : String := "decl_" ++ toString id

/-- The name of a declaration, behind that of its module. -/
def qualifiedName (p : Program) (id : DeclId) : String :=
  match p.declaration? id with
  | none => label id
  | some d =>
    match p.moduleOf? id with
    | some m => m.name ++ "." ++ d.name
    | none => d.name

end Program

end FormulaEngine
