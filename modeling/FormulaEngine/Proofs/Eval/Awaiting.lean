import FormulaEngine.Proofs.Compilation
import FormulaEngine.Proofs.Eval.Delegation
import FormulaEngine.Proofs.Eval.Steadiness

/-!
# Awaiting

To await a call is to make it, if nothing else goes on. An evaluation that may suspend comes to what
a synchronous one of the same expression without its awaits comes to, against functions that answer
at once, and the host sees the same calls in the same order.
-/

namespace FormulaEngine

variable {σ α β : Type} {fs : Functions σ}

/-! ### The calls of a routine -/

/-- What a routine calls, in order. An asynchronous call counts where it is started. -/
def Routine.calls (fs : Functions σ) : Routine α → σ → List (String × List Value)
  | .done _, _ => []
  | .call function args resume, s =>
    let (reply, s) := fs.call function args s
    (function, args) :: calls fs (resume reply) s
  | .start function args resume, s =>
    let (receipt, s) := fs.start function args s
    (function, args) :: calls fs (resume receipt) s
  | .turn rest, s => calls fs rest s
  | .finish function args resume, s =>
    let (reply, s) := fs.finish function args s
    calls fs (resume reply) s

theorem Routine.calls_wait (turns : Nat) (r : Routine α) (s : σ) :
    (wait turns r).calls fs s = r.calls fs s := by
  induction turns with
  | zero => rfl
  | succ turns ih => exact ih

theorem Routine.calls_bind (r : Routine α) (f : α → Routine β) (s : σ) :
    (r.bind f).calls fs s =
      r.calls fs s ++ (f (r.run fs s).result).calls fs (r.run fs s).host := by
  induction r generalizing s with
  | done a => rfl
  | call function args resume ih => exact congrArg ((function, args) :: ·) (ih _ _)
  | start function args resume ih => exact congrArg ((function, args) :: ·) (ih _ _)
  | turn rest ih => exact ih s
  | finish function args resume ih => exact ih _ _

theorem Ran.after_done (a : α) (s : σ) (panic : Option Panic) :
    Ran.after ⟨a, s, []⟩ panic = ⟨a, s, panic.toList⟩ := by
  rw [Ran.after, List.append_nil]

/-- Two routines, each against its own host, come to the same and call the same. -/
def Routine.RunAlike (fs fs' : Functions σ) (r r' : Routine α) : Prop :=
  ∀ s, r.run fs s = r'.run fs' s ∧ r.calls fs s = r'.calls fs' s

theorem Routine.RunAlike.bind {fs' : Functions σ} {r r' : Routine α} {f g : α → Routine β}
    (h : RunAlike fs fs' r r') (hfg : ∀ a, RunAlike fs fs' (f a) (g a)) :
    RunAlike fs fs' (r.bind f) (r'.bind g) := by
  intro s
  obtain ⟨hrun, hcalls⟩ := h s
  obtain ⟨hrun', hcalls'⟩ := hfg (r'.run fs' s).result (r'.run fs' s).host
  constructor
  · rw [run_bind, run_bind, hrun]
    simp only [hrun']
  · rw [calls_bind, calls_bind, hrun, hcalls, hcalls']

/-! ### Functions that answer at once -/

/-- A function that goes from its start to its end in one call. -/
def HostFunction.synchronized : HostFunction σ → HostFunction σ
  | .synchronous call => .synchronous call
  | .asynchronous start finish => .synchronous fun args s =>
    match start args s with
    | (.accepted _, s) => finish args s
    | (.panic text, s) => (.panic text, s)

namespace Functions

def synchronized (fs : Functions σ) : Functions σ :=
  ⟨fs.entries.map fun entry => (entry.1, entry.2.synchronized)⟩

theorem get?_synchronized (name : String) :
    fs.synchronized.get? name = (fs.get? name).map HostFunction.synchronized := by
  unfold get? synchronized
  induction fs.entries with
  | nil => rfl
  | cons entry rest ih =>
    rw [List.map_cons, List.lookup_cons, List.lookup_cons]
    cases name == entry.1 with
    | true => rfl
    | false => exact ih

theorem convention?_synchronized (name : String) :
    fs.synchronized.convention? name = (fs.convention? name).map fun _ => .synchronous := by
  unfold convention?
  rw [get?_synchronized, Option.map_map, Option.map_map]
  congr 1
  funext f
  cases f <;> rfl

theorem call_synchronized {name : String} (h : fs.convention? name = some .synchronous)
    (args : List Value) (s : σ) : fs.synchronized.call name args s = fs.call name args s := by
  unfold call
  rw [get?_synchronized]
  unfold convention? at h
  cases hf : fs.get? name with
  | none => rfl
  | some f =>
    cases f with
    | synchronous call => rfl
    | asynchronous start finish => simp [hf, HostFunction.convention] at h

/-- What starts an asynchronous call, and then ends it, makes it at once. -/
theorem call_synchronized_of_start {name : String} (h : fs.convention? name = some .asynchronous)
    (args : List Value) (s : σ) :
    fs.synchronized.call name args s =
      match fs.start name args s with
      | (.accepted _, s) => fs.finish name args s
      | (.panic text, s) => (.panic text, s) := by
  unfold call start finish
  rw [get?_synchronized]
  unfold convention? at h
  cases hf : fs.get? name with
  | none => simp [hf] at h
  | some f =>
    cases f with
    | synchronous call => simp [hf, HostFunction.convention] at h
    | asynchronous start finish => rfl

end Functions

namespace Evaluation

variable {function : String} {args : List Value}

theorem isCongruence_runAlike (fs fs' : Functions σ) :
    IsCongruence fun x y => Routine.RunAlike fs fs' x.run y.run where
  pure _ _ := ⟨rfl, rfl⟩
  operation _ _ := ⟨rfl, rfl⟩
  bind hxy hfg := by
    rw [ExceptT.run_bind, ExceptT.run_bind]
    apply hxy.bind
    intro r
    cases r with
    | error fault => exact fun _ => ⟨rfl, rfl⟩
    | ok a => exact hfg a

theorem run_call (s : σ) : (call function args).run.run fs s =
    ⟨(fs.call function args s).1.toResult function, (fs.call function args s).2,
      ((fs.call function args s).1.panic? function).toList⟩ :=
  Ran.after_done _ _ _

theorem runAlike_call (h : fs.convention? function = some .synchronous) :
    Routine.RunAlike fs fs.synchronized (call function args).run (call function args).run := by
  intro s
  refine ⟨?_, rfl⟩
  rw [run_call, run_call, Functions.call_synchronized h]

theorem runAlike_awaitCall (h : fs.convention? function = some .asynchronous) :
    Routine.RunAlike fs fs.synchronized (awaitCall function args).run
      (call function args).run := by
  intro s
  rw [run_call, Functions.call_synchronized_of_start h]
  cases hstart : fs.start function args s with
  | mk receipt t =>
    simp only [awaitCall, ExceptT.run_mk, Routine.run, Routine.calls, hstart]
    cases receipt with
    | accepted turns =>
      rw [Routine.run_wait, Routine.calls_wait]
      exact ⟨Ran.after_done _ _ _, rfl⟩
    | panic text => exact ⟨rfl, rfl⟩

end Evaluation

/-! ### Expressions without awaits -/

namespace Expr

mutual

/-- An expression in which calls are made that were awaited. -/
def withoutAwaits : Expr → Expr
  | .literal v => .literal v
  | .ident name => .ident name
  | .member target name => .member (withoutAwaits target) name
  | .unary op operand => .unary op (withoutAwaits operand)
  | .binary op lhs rhs => .binary op (withoutAwaits lhs) (withoutAwaits rhs)
  | .conditional c a b => .conditional (withoutAwaits c) (withoutAwaits a) (withoutAwaits b)
  | .switch subject cases fallback =>
    .switch (withoutAwaits subject) (withoutAwaitsCases cases) (withoutAwaitsOption fallback)
  | .list items => .list (withoutAwaitsList items)
  | .object fields => .object (withoutAwaitsFields fields)
  | .call function args => .call function (withoutAwaitsList args)
  | .await operand => withoutAwaits operand
  | .default target fallback => .default (withoutAwaits target) (withoutAwaits fallback)

def withoutAwaitsList : List Expr → List Expr
  | [] => []
  | e :: rest => withoutAwaits e :: withoutAwaitsList rest

def withoutAwaitsCases : List (Expr × Expr) → List (Expr × Expr)
  | [] => []
  | (pattern, value) :: rest =>
    (withoutAwaits pattern, withoutAwaits value) :: withoutAwaitsCases rest

def withoutAwaitsFields : List (String × Expr) → List (String × Expr)
  | [] => []
  | (name, e) :: rest => (name, withoutAwaits e) :: withoutAwaitsFields rest

def withoutAwaitsOption : Option Expr → Option Expr
  | none => none
  | some e => some (withoutAwaits e)

end

/-- An expression whose awaits are all of calls. -/
def AwaitsCalls (e : Expr) : Prop := ∀ operand, e.Contains (.await operand) → operand.isCall

variable {e : Expr}

theorem AwaitsCalls.part (h : e.AwaitsCalls) {part : Expr} (hpart : e.Contains part) :
    part.AwaitsCalls :=
  fun operand hoperand => h operand (hpart.trans hoperand)

/-- A call is not a path, so what was awaited does not become one. -/
theorem path?_withoutAwaits (h : e.AwaitsCalls) : e.withoutAwaits.path? = e.path? := by
  induction e using induction_parts with
  | h e ih =>
    cases e with
    | member target name =>
      have hmem : target ∈ (Expr.member target name).children := List.mem_singleton_self _
      have htarget := ih target hmem target (.refl _) (h.part (.step hmem (.refl _)))
      rw [withoutAwaits, path?, path?, htarget]
    | await operand =>
      obtain ⟨function, args, rfl⟩ := isCall_iff.mp (h operand (.refl _))
      rfl
    | _ => rfl

end Expr

namespace Evaluator

variable {ev : Evaluator}

theorem evalList_withoutAwaits {items : List Expr}
    (h : ∀ e ∈ items, ev.eval .asynchronous e = ev.eval .synchronous e.withoutAwaits) :
    ev.evalList .asynchronous items =
      ev.evalList .synchronous (Expr.withoutAwaitsList items) := by
  induction items with
  | nil => rfl
  | cons e rest ih =>
    rw [Expr.withoutAwaitsList, evalList, evalList, h e List.mem_cons_self,
      ih fun e he => h e (List.mem_cons_of_mem _ he)]

theorem evalFields_withoutAwaits {fields : List (String × Expr)}
    (h : ∀ field ∈ fields,
      ev.eval .asynchronous field.2 = ev.eval .synchronous field.2.withoutAwaits) :
    ev.evalFields .asynchronous fields =
      ev.evalFields .synchronous (Expr.withoutAwaitsFields fields) := by
  induction fields with
  | nil => rfl
  | cons field rest ih =>
    obtain ⟨name, e⟩ := field
    rw [Expr.withoutAwaitsFields, evalFields, evalFields, h (name, e) List.mem_cons_self,
      ih fun field hfield => h field (List.mem_cons_of_mem _ hfield)]

theorem evalCases_withoutAwaits {cases : List (Expr × Expr)}
    (h : ∀ c ∈ cases, ev.eval .asynchronous c.1 = ev.eval .synchronous c.1.withoutAwaits ∧
      ev.eval .asynchronous c.2 = ev.eval .synchronous c.2.withoutAwaits) (subject : Value) :
    ev.evalCases .asynchronous subject cases =
      ev.evalCases .synchronous subject (Expr.withoutAwaitsCases cases) := by
  induction cases with
  | nil => rfl
  | cons c rest ih =>
    obtain ⟨pattern, value⟩ := c
    obtain ⟨hpattern, hvalue⟩ := h (pattern, value) List.mem_cons_self
    rw [Expr.withoutAwaitsCases, evalCases, evalCases, hpattern, hvalue,
      ih fun c hc => h c (List.mem_cons_of_mem _ hc)]

theorem evalFallback_withoutAwaits {fallback : Option Expr}
    (h : ∀ e ∈ fallback, ev.eval .asynchronous e = ev.eval .synchronous e.withoutAwaits)
    (subject : Value) :
    ev.evalFallback .asynchronous subject fallback =
      ev.evalFallback .synchronous subject (Expr.withoutAwaitsOption fallback) := by
  cases fallback with
  | none => rfl
  | some e => rw [Expr.withoutAwaitsOption, evalFallback, evalFallback, h e rfl]

theorem invokeAwaited_eq (h : ∀ function, ev.convention? function ≠ some .asynchronous)
    (function : String) (args : List Value) :
    ev.invokeAwaited function args = ev.invoke function args := by
  have hfunction := h function
  rw [invokeAwaited, invoke]
  split
  · rfl
  · contradiction
  · rfl

/-- Where no function is asynchronous, nothing is lost with the awaits. -/
theorem eval_withoutAwaits (h : ∀ function, ev.convention? function ≠ some .asynchronous)
    {e : Expr} (he : e.AwaitsCalls) :
    ev.eval .asynchronous e = ev.eval .synchronous e.withoutAwaits := by
  induction e using Expr.induction_parts with
  | h e ih =>
    have hpart : ∀ part ∈ e.operands,
        ev.eval .asynchronous part = ev.eval .synchronous part.withoutAwaits := by
      intro part hmem
      obtain ⟨child, hchild, hcontains⟩ := Expr.exists_child_of_mem_operands hmem
      exact ih child hchild part hcontains (he.part (.step hchild hcontains))
    cases e with
    | literal v => rfl
    | ident name => rfl
    | member target name =>
      rw [Expr.withoutAwaits, eval, eval, hpart target (by simp [Expr.operands, Expr.children])]
    | unary op operand =>
      rw [Expr.withoutAwaits, eval, eval, hpart operand (by simp [Expr.operands, Expr.children])]
    | binary op lhs rhs =>
      rw [Expr.withoutAwaits, eval, eval, hpart lhs (by simp [Expr.operands, Expr.children]),
        hpart rhs (by simp [Expr.operands, Expr.children])]
    | conditional condition consequent alternative =>
      rw [Expr.withoutAwaits, eval, eval,
        hpart condition (by simp [Expr.operands, Expr.children]),
        hpart consequent (by simp [Expr.operands, Expr.children]),
        hpart alternative (by simp [Expr.operands, Expr.children])]
    | switch subject cases fallback =>
      have hcases : ∀ c ∈ cases,
          ev.eval .asynchronous c.1 = ev.eval .synchronous c.1.withoutAwaits ∧
            ev.eval .asynchronous c.2 = ev.eval .synchronous c.2.withoutAwaits := fun c hc =>
        ⟨hpart c.1 (Expr.mem_children_switch hc).1, hpart c.2 (Expr.mem_children_switch hc).2⟩
      have hfallback : ∀ e ∈ fallback,
          ev.eval .asynchronous e = ev.eval .synchronous e.withoutAwaits := fun e he =>
        hpart e (List.mem_append_right _ (Option.mem_toList.mpr he))
      rw [Expr.withoutAwaits, eval, eval, hpart subject (by simp [Expr.operands, Expr.children])]
      simp only [evalCases_withoutAwaits hcases, evalFallback_withoutAwaits hfallback]
    | list items => rw [Expr.withoutAwaits, eval, eval, @evalList_withoutAwaits _ items hpart]
    | object fields =>
      have hfields : ∀ field ∈ fields,
          ev.eval .asynchronous field.2 = ev.eval .synchronous field.2.withoutAwaits :=
        fun field hfield => hpart field.2 (List.mem_map_of_mem hfield)
      rw [Expr.withoutAwaits, eval, eval, evalFields_withoutAwaits hfields]
    | call function args =>
      rw [Expr.withoutAwaits, eval, eval, @evalList_withoutAwaits _ args hpart]
    | await operand =>
      obtain ⟨function, args, rfl⟩ := Expr.isCall_iff.mp (he operand (.refl _))
      rw [Expr.withoutAwaits, Expr.withoutAwaits, eval, eval,
        @evalList_withoutAwaits _ args hpart]
      simp only [invokeAwaited_eq h]
    | default target fallback =>
      have htarget : target ∈ (Expr.default target fallback).children := by simp [Expr.children]
      rw [Expr.withoutAwaits, eval, eval, hpart target htarget,
        hpart fallback (by simp [Expr.operands, Expr.children]),
        Expr.path?_withoutAwaits (he.part (.step htarget (.refl _)))]

end Evaluator

/-! ### Both evaluations -/

namespace Compilation

variable {c : Compilation} {slots : Slots} {module : Option ModuleId} {function : String}
  {args : List Value} {e : Expr}

theorem runAlike_invoke (h : fs.convention? function ≠ some .asynchronous) :
    Routine.RunAlike fs fs.synchronized ((c.evaluator fs slots module).invoke function args).run
      ((c.evaluator fs.synchronized slots module).invoke function args).run := by
  have hleft : (c.evaluator fs slots module).convention? function = fs.convention? function := rfl
  have hright : (c.evaluator fs.synchronized slots module).convention? function =
      (fs.convention? function).map fun _ => .synchronous := Functions.convention?_synchronized _
  rw [Evaluator.invoke, Evaluator.invoke, hleft, hright]
  cases hconvention : fs.convention? function with
  | none => exact fun _ => ⟨rfl, rfl⟩
  | some convention =>
    cases convention with
    | synchronous => exact Evaluation.runAlike_call hconvention
    | asynchronous => exact absurd hconvention h

theorem runAlike_invokeAwaited :
    Routine.RunAlike fs fs.synchronized
      ((c.evaluator fs slots module).invokeAwaited function args).run
      ((c.evaluator fs.synchronized slots module).invokeAwaited function args).run := by
  have hleft : (c.evaluator fs slots module).convention? function = fs.convention? function := rfl
  have hright : (c.evaluator fs.synchronized slots module).convention? function =
      (fs.convention? function).map fun _ => .synchronous := Functions.convention?_synchronized _
  rw [Evaluator.invokeAwaited, Evaluator.invokeAwaited, hleft, hright]
  cases hconvention : fs.convention? function with
  | none => exact fun _ => ⟨rfl, rfl⟩
  | some convention =>
    cases convention with
    | synchronous => exact Evaluation.runAlike_call hconvention
    | asynchronous => exact Evaluation.runAlike_awaitCall hconvention

/-- It makes no difference to an evaluation whether functions answer at once, as long as it awaits
those that do not. -/
theorem runAlike_synchronized
    (h : ∀ function args, e.Evaluates (.call function args) →
      fs.convention? function ≠ some .asynchronous) :
    Routine.RunAlike fs fs.synchronized
      ((c.evaluator fs slots module).eval .asynchronous e).run
      ((c.evaluator fs.synchronized slots module).eval .asynchronous e).run := by
  refine @Evaluator.eval_related (fun x y => Routine.RunAlike fs fs.synchronized x.run y.run) _ _
    _ _ _ (Evaluation.isCongruence_runAlike fs fs.synchronized) ?_
  exact {
    read _ _ _ := ⟨rfl, rfl⟩
    probe _ _ _ := ⟨rfl, rfl⟩
    invoke function args _ hcall := runAlike_invoke (h function args hcall)
    mode_eq _ _ := rfl
    await _ _ _ _ := runAlike_invokeAwaited
    internal _ _ := .inr fun _ _ => ⟨rfl, rfl⟩ }

theorem not_asynchronous_synchronized (name : String) :
    (c.evaluator fs.synchronized slots module).convention? name ≠ some .asynchronous := by
  have hconvention : (c.evaluator fs.synchronized slots module).convention? name =
      (fs.convention? name).map fun _ => .synchronous := Functions.convention?_synchronized name
  rw [hconvention]
  cases fs.convention? name <;> simp

/-- An evaluation that may suspend agrees with a synchronous one, of the same expression without
awaits and against functions that answer at once: in its result, in the panics that are noted, and
in what it calls in which order. It may as well leave what awaits nothing to the synchronous one. -/
theorem evaluators_agree (c : Compilation) (fs : Functions σ) (slots : Slots)
    (module : Option ModuleId) (e : Expr) (host : σ) (hawaits : e.AwaitsCalls)
    (hcalls : ∀ function args, e.Evaluates (.call function args) →
      fs.convention? function ≠ some .asynchronous) :
    let suspending := (c.evaluator fs slots module).evalAsync e
    let direct := (c.evaluator fs.synchronized slots module).eval .synchronous e.withoutAwaits
    suspending = (c.evaluator fs slots module).eval .asynchronous e ∧
      suspending.run.run fs host = direct.run.run fs.synchronized host ∧
      suspending.run.calls fs host = direct.run.calls fs.synchronized host := by
  intro suspending direct
  have hsuspending : suspending = (c.evaluator fs slots module).eval .asynchronous e :=
    Evaluator.evalAsync_eq e
  have hdirect : (c.evaluator fs.synchronized slots module).eval .asynchronous e = direct :=
    Evaluator.eval_withoutAwaits not_asynchronous_synchronized hawaits
  have halike := @runAlike_synchronized _ fs c slots module e hcalls host
  rw [← hsuspending, hdirect] at halike
  exact ⟨hsuspending, halike⟩

theorem exists_agreement_of_echo :
    ∃ c e, compile {} .checkout = .ok c ∧ e = Expr.awaitCall "fetch" [.literal .null] ∧
      e.AwaitsCalls ∧
      (∀ function args, e.Evaluates (.call function args) →
        Functions.echo.convention? function ≠ some .asynchronous) ∧
      (let suspending := (c.evaluator .echo .empty none).evalAsync e
       let direct :=
        (c.evaluator Functions.echo.synchronized .empty none).eval .synchronous e.withoutAwaits
       suspending = (c.evaluator .echo .empty none).eval .asynchronous e ∧
        suspending.run.run .echo () = direct.run.run Functions.echo.synchronized () ∧
        suspending.run.calls .echo () = direct.run.calls Functions.echo.synchronized ()) := by
  obtain ⟨c, hc, -⟩ := exists_checkout
  have hawaits : (Expr.awaitCall "fetch" [.literal .null]).AwaitsCalls := by
    intro operand hoperand
    have hmem := Expr.mem_preorder_iff.mpr hoperand
    obtain rfl : operand = .call "fetch" [.literal .null] := by
      simpa [Expr.awaitCall, Expr.preorder, Expr.preorderList] using hmem
    rfl
  have hcalls : ∀ function args,
      (Expr.awaitCall "fetch" [.literal .null]).Evaluates (.call function args) →
        Functions.echo.convention? function ≠ some .asynchronous := by
    intro function args hcall
    obtain _ | ⟨hmem, hpart⟩ := hcall
    obtain rfl := List.mem_singleton.mp hmem
    obtain _ | ⟨hmem, -⟩ := hpart
    exact absurd hmem List.not_mem_nil
  exact ⟨c, _, hc, rfl, hawaits, hcalls,
    evaluators_agree c .echo .empty none _ () hawaits hcalls⟩

end Compilation

end FormulaEngine
