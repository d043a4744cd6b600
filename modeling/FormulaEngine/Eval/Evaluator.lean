import FormulaEngine.Eval.Host
import FormulaEngine.Eval.Operators
import FormulaEngine.Program.Scope
import FormulaEngine.Value.Display

/-!
# Evaluation

Expressions are evaluated against filled slots, from left to right, and only as far as they are
needed. Reading a slot without a value passes its failure on. A synchronous evaluation knows no
`await`. An asynchronous one suspends there, and leaves each part that awaits nothing to the
synchronous one.
-/

namespace FormulaEngine

abbrev Evaluation (α : Type) := ExceptT Fault Routine α

namespace Evaluation

variable {α : Type}

def ofResult (r : Except Fault α) : Evaluation α := ExceptT.mk (.done r)

def ofOperation (r : Except EvalError α) : Evaluation α := ofResult (r.mapError .error)

def raise (e : EvalError) : Evaluation α := ofResult (.error (.error e))

end Evaluation

namespace Reply

/-- What an answer means for the formula that called the function. -/
def toResult (function : String) : Reply → Except Fault Value
  | .value v => .ok v
  | .failure message => .error (.error (.host function message))
  | .panic text => .error (.error (.host function ("panicked: " ++ Panic.textOf text)))

end Reply

namespace Evaluation

def call (function : String) (args : List Value) : Evaluation Value :=
  ExceptT.mk (.call function args fun reply => .done (reply.toResult function))

def awaitCall (function : String) (args : List Value) : Evaluation Value :=
  ExceptT.mk (.start function args fun receipt =>
    match receipt with
    | .accepted turns =>
      Routine.wait turns (.finish function args fun reply => .done (reply.toResult function))
    | .panic text => .done (Reply.toResult function (.panic text)))

end Evaluation

/-- Whether an evaluation may suspend. -/
inductive Mode where
  | synchronous
  | asynchronous
  deriving DecidableEq, Repr

/-- All that an evaluation in a module looks at. -/
structure Evaluator where
  program : Program
  scopes : Scopes
  slots : Slots
  module : Option ModuleId
  convention? : String → Option Convention

namespace Evaluator

variable (ev : Evaluator)

/-! ### Reading -/

def readSlot (id : DeclId) : Except Fault Value :=
  match ev.slots.get? id with
  | some o => o.read
  | none =>
    .error (.error (.internal
      ("'" ++ ev.program.qualifiedName id ++ "' was read before it was evaluated")))

def read (name : String) : Except Fault Value :=
  match ev.scopes.resolve ev.module name with
  | some id => ev.readSlot id
  | none => .error (.error (.unresolvedIdentifier name))

def follow (v : Value) (members : List String) : Option Value :=
  members.foldl (fun found name => found.bind (·.member? name)) (some v)

/-- Reads a path, or finds that nothing is there: no such name, or no such member. Failures are not
hidden. -/
def probe (path : Path) : Except Fault (Option Value) :=
  match ev.scopes.resolve ev.module path.root with
  | none => .ok none
  | some id => (ev.readSlot id).map fun v => follow v path.members

/-! ### Imports -/

def findFormula? (module name : String) : Option DeclId := do
  let m ← ev.program.moduleNamed? module
  m.declarations.find? fun id =>
    (ev.program.declaration? id).any fun d => d.isFormula && d.name == name

/-- The global declaration of a name, if it is of the kind that is imported. -/
def findGlobal? (name : String) (fits : DeclKind → Bool) : Option DeclId := do
  let id ← ev.scopes.program.local? name
  let d ← ev.program.declaration? id
  if fits d.kind then some id else none

def readFound (path : List String) : Option DeclId → Except Fault Value
  | some id => ev.readSlot id
  | none => .error (.error (.unresolvedIdentifier (".".intercalate path)))

def readExports (m : ProgramModule) : Except Fault Value := do
  let fields ← (ev.program.exportedFormulas m.id).mapM fun id => do
    let v ← ev.readSlot id
    .ok (((ev.program.declaration? id).map (·.name)).getD "", v)
  .ok (.ofFields fields)

def importValue (path : List String) (kind : ImportKind) : Except Fault Value :=
  match kind, path with
  | .formula, [module, name] => ev.readFound path (ev.findFormula? module name)
  | .module, [module] =>
    match ev.program.moduleNamed? module with
    | some m => ev.readExports m
    | none => .error (.error (.unresolvedIdentifier module))
  | .argument, [name] =>
    ev.readFound path (ev.findGlobal? name fun kind => kind matches .argument)
  | .constant, [name] =>
    ev.readFound path (ev.findGlobal? name fun kind => kind matches .constant _)
  | _, _ =>
    .error (.error (.internal
      ("malformed " ++ kind.name ++ " import '" ++ ".".intercalate path ++ "'")))

/-! ### Expressions -/

/-- Calls a function outside of an `await`. -/
def invoke (function : String) (args : List Value) : Evaluation Value :=
  match ev.convention? function with
  | some .synchronous => Evaluation.call function args
  | some .asynchronous => Evaluation.raise (.unawaitedCall function)
  | none => Evaluation.raise (.unknownFunction function)

/-- Calls a function inside of an `await`. -/
def invokeAwaited (function : String) (args : List Value) : Evaluation Value :=
  match ev.convention? function with
  | some .synchronous => Evaluation.call function args
  | some .asynchronous => Evaluation.awaitCall function args
  | none => Evaluation.raise (.unknownFunction function)

mutual

/-- Evaluates an expression by one mode throughout. -/
def eval (mode : Mode) : Expr → Evaluation Value
  | .literal v => pure v
  | .ident name => Evaluation.ofResult (ev.read name)
  | .member target name => do
    let v ← eval mode target
    Evaluation.ofOperation (v.member name)
  | .unary op operand => do
    let v ← eval mode operand
    Evaluation.ofOperation (op.apply v)
  | .binary op lhs rhs => do
    let v ← eval mode lhs
    if op.isLazy then
      let a ← Evaluation.ofOperation (v.truth op.symbol)
      if op.decides a then pure (.bool a)
      else
        let w ← eval mode rhs
        let b ← Evaluation.ofOperation (w.truth op.symbol)
        pure (.bool b)
    else
      let w ← eval mode rhs
      Evaluation.ofOperation (op.apply v w)
  | .conditional condition consequent alternative => do
    let v ← eval mode condition
    let b ← Evaluation.ofOperation (v.truth "if")
    if b then eval mode consequent else eval mode alternative
  | .switch subject cases fallback => do
    let v ← eval mode subject
    match ← evalCases mode v cases with
    | some w => pure w
    | none => evalFallback mode v fallback
  | .list items => do
    let vs ← evalList mode items
    pure (.list vs)
  | .object fields => do
    let entries ← evalFields mode fields
    pure (.ofFields entries)
  | .call function args => do
    let vs ← evalList mode args
    ev.invoke function vs
  | .await operand =>
    match mode with
    | .synchronous => Evaluation.raise (.internal "await reached the synchronous evaluator")
    | .asynchronous =>
      match operand with
      | .call function args => do
        let vs ← evalList mode args
        ev.invokeAwaited function vs
      | _ => Evaluation.raise (.internal Flaw.awaitsNonCall.message)
  | .default target fallback => do
    let found ←
      match target.path? with
      | some path => Evaluation.ofResult (ev.probe path)
      | none => some <$> eval mode target
    match found with
    | some v => if v.isNull then eval mode fallback else pure v
    | none => eval mode fallback

def evalList (mode : Mode) : List Expr → Evaluation (List Value)
  | [] => pure []
  | e :: rest => do
    let v ← eval mode e
    let vs ← evalList mode rest
    pure (v :: vs)

def evalFields (mode : Mode) : List (String × Expr) → Evaluation (List (String × Value))
  | [] => pure []
  | (name, e) :: rest => do
    let v ← eval mode e
    let entries ← evalFields mode rest
    pure ((name, v) :: entries)

/-- The value of the first case whose pattern equals the subject. -/
def evalCases (mode : Mode) (subject : Value) :
    List (Expr × Expr) → Evaluation (Option Value)
  | [] => pure none
  | (pattern, value) :: rest => do
    let v ← eval mode pattern
    if v == subject then
      let w ← eval mode value
      pure (some w)
    else evalCases mode subject rest

/-- What a switch gives when no case matches. -/
def evalFallback (mode : Mode) (subject : Value) : Option Expr → Evaluation Value
  | some e => eval mode e
  | none => Evaluation.raise (.noMatchingBranch subject.display)

end

/-! ### Delegation -/

/-- The given evaluation of an expression if it awaits something, and else the synchronous one. -/
def ifAsync (e : Expr) (x : Evaluation Value) : Evaluation Value :=
  if e.isAsync then x else ev.eval .synchronous e

mutual

/-- Evaluates an expression part by part as far as something is awaited in it. -/
def evalAsync : Expr → Evaluation Value
  | .literal v => ev.eval .synchronous (.literal v)
  | .ident name => ev.eval .synchronous (.ident name)
  | .member target name => ev.ifAsync (.member target name) do
    let v ← evalAsync target
    Evaluation.ofOperation (v.member name)
  | .unary op operand => ev.ifAsync (.unary op operand) do
    let v ← evalAsync operand
    Evaluation.ofOperation (op.apply v)
  | .binary op lhs rhs => ev.ifAsync (.binary op lhs rhs) do
    if op.isLazy then
      let v ← evalAsync lhs
      let a ← Evaluation.ofOperation (v.truth op.symbol)
      if op.decides a then pure (.bool a)
      else
        let w ← evalAsync rhs
        let b ← Evaluation.ofOperation (w.truth op.symbol)
        pure (.bool b)
    else
      let v ← evalAsync lhs
      let w ← evalAsync rhs
      Evaluation.ofOperation (op.apply v w)
  | .conditional condition consequent alternative =>
    ev.ifAsync (.conditional condition consequent alternative) do
      let v ← evalAsync condition
      let b ← Evaluation.ofOperation (v.truth "if")
      if b then evalAsync consequent else evalAsync alternative
  | .switch subject cases fallback => ev.ifAsync (.switch subject cases fallback) do
    let v ← evalAsync subject
    evalAsyncCases v cases (evalAsyncFallback v fallback)
  | .list items => ev.ifAsync (.list items) do
    let vs ← evalAsyncList items
    pure (.list vs)
  | .object fields => ev.ifAsync (.object fields) do
    let entries ← evalAsyncFields fields
    pure (.ofFields entries)
  | .call function args => ev.ifAsync (.call function args) do
    let vs ← evalAsyncList args
    ev.invoke function vs
  | .await (.call function args) => do
    let vs ← evalAsyncList args
    ev.invokeAwaited function vs
  | .await _ => Evaluation.raise (.internal Flaw.awaitsNonCall.message)
  | .default target fallback => ev.ifAsync (.default target fallback) do
    let found ←
      match target.path? with
      | some path => Evaluation.ofResult (ev.probe path)
      | none => some <$> evalAsync target
    match found with
    | some v => if v.isNull then evalAsync fallback else pure v
    | none => evalAsync fallback

def evalAsyncList : List Expr → Evaluation (List Value)
  | [] => pure []
  | e :: rest => do
    let v ← evalAsync e
    let vs ← evalAsyncList rest
    pure (v :: vs)

def evalAsyncFields : List (String × Expr) → Evaluation (List (String × Value))
  | [] => pure []
  | (name, e) :: rest => do
    let v ← evalAsync e
    let entries ← evalAsyncFields rest
    pure ((name, v) :: entries)

/-- The value of the first case whose pattern equals the subject, or else what is given. -/
def evalAsyncCases (subject : Value) :
    List (Expr × Expr) → Evaluation Value → Evaluation Value
  | [], otherwise => otherwise
  | (pattern, value) :: rest, otherwise => do
    let v ← evalAsync pattern
    if v == subject then evalAsync value else evalAsyncCases subject rest otherwise

def evalAsyncFallback (subject : Value) : Option Expr → Evaluation Value
  | some e => evalAsync e
  | none => Evaluation.raise (.noMatchingBranch subject.display)

end

/-! ### Declarations -/

def run (mode : Mode) (d : Declaration) : Evaluation Value :=
  match d.kind with
  | .formula expr _ =>
    match mode with
    | .synchronous => ev.eval .synchronous expr
    | .asynchronous => ev.evalAsync expr
  | .imported path kind => Evaluation.ofResult (ev.importValue path kind)
  | .argument | .constant _ => Evaluation.ofResult (ev.readSlot d.id)

end Evaluator

end FormulaEngine
