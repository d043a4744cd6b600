import FormulaEngine.Eval.Routine

/-!
# Host functions

Functions that formulas can call. They may keep a state, which every call passes on. A routine runs
to its end against them; panics are caught and noted.
-/

namespace FormulaEngine

/-- How a function is to be called. -/
inductive Convention where
  | synchronous
  | asynchronous
  deriving DecidableEq, Repr

inductive HostFunction (σ : Type) where
  | synchronous (call : List Value → σ → Reply × σ)
  | asynchronous (start : List Value → σ → Receipt × σ) (finish : List Value → σ → Reply × σ)

namespace HostFunction

variable {σ : Type}

def convention : HostFunction σ → Convention
  | .synchronous _ => .synchronous
  | .asynchronous _ _ => .asynchronous

def isAsync (f : HostFunction σ) : Bool := f.convention == .asynchronous

end HostFunction

structure Functions (σ : Type) where
  entries : List (String × HostFunction σ)

namespace Functions

variable {σ : Type}

def empty : Functions σ := ⟨[]⟩

/-- Registers a function, instead of one with the same name. -/
def register (fs : Functions σ) (name : String) (f : HostFunction σ) : Functions σ :=
  ⟨(name, f) :: fs.entries.filter (·.1 != name)⟩

def get? (fs : Functions σ) (name : String) : Option (HostFunction σ) := fs.entries.lookup name

def contains (fs : Functions σ) (name : String) : Bool := (fs.get? name).isSome

def size (fs : Functions σ) : Nat := fs.entries.length

def convention? (fs : Functions σ) (name : String) : Option Convention :=
  (fs.get? name).map HostFunction.convention

/-- The answer to a call of a function that cannot be called so. -/
def noReply : Reply := .failure "not callable"

def call (fs : Functions σ) (name : String) (args : List Value) (s : σ) : Reply × σ :=
  match fs.get? name with
  | some (.synchronous call) => call args s
  | _ => (noReply, s)

def start (fs : Functions σ) (name : String) (args : List Value) (s : σ) : Receipt × σ :=
  match fs.get? name with
  | some (.asynchronous start _) => start args s
  | _ => (.accepted 0, s)

def finish (fs : Functions σ) (name : String) (args : List Value) (s : σ) : Reply × σ :=
  match fs.get? name with
  | some (.asynchronous _ finish) => finish args s
  | _ => (noReply, s)

theorem get?_register_self (fs : Functions σ) (name : String) (f : HostFunction σ) :
    (fs.register name f).get? name = some f := by
  simp [get?, register]

theorem get?_register_of_ne (fs : Functions σ) {name other : String} (h : other ≠ name)
    (f : HostFunction σ) : (fs.register name f).get? other = fs.get? other := by
  have hne : (other == name) = false := by simpa using h
  simp only [get?, register, List.lookup_cons, hne]
  induction fs.entries with
  | nil => rfl
  | cons entry rest ih =>
    obtain ⟨key, g⟩ := entry
    by_cases hkey : key = name
    · subst hkey
      simpa [List.lookup_cons, hne] using ih
    · simp [hkey, List.lookup_cons, ih]

end Functions

structure Panic where
  function : String
  text : String
  deriving DecidableEq, Repr

namespace Panic

def textOf (text : Option String) : String := text.getD "non-string panic payload"

end Panic

namespace Reply

def panic? (function : String) : Reply → Option Panic
  | .panic text => some ⟨function, Panic.textOf text⟩
  | _ => none

end Reply

namespace Receipt

def panic? (function : String) : Receipt → Option Panic
  | .panic text => some ⟨function, Panic.textOf text⟩
  | _ => none

end Receipt

/-- What comes of running a routine: its result, the state of the host, and the panics in order. -/
structure Ran (σ α : Type) where
  result : α
  host : σ
  panics : List Panic

namespace Ran

def after {σ α : Type} (r : Ran σ α) (panic : Option Panic) : Ran σ α :=
  { r with panics := panic.toList ++ r.panics }

end Ran

namespace Routine

variable {σ α : Type}

def run (fs : Functions σ) : Routine α → σ → Ran σ α
  | .done a, s => ⟨a, s, []⟩
  | .call function args resume, s =>
    let (reply, s) := fs.call function args s
    (run fs (resume reply) s).after (reply.panic? function)
  | .start function args resume, s =>
    let (receipt, s) := fs.start function args s
    (run fs (resume receipt) s).after (receipt.panic? function)
  | .turn rest, s => run fs rest s
  | .finish function args resume, s =>
    let (reply, s) := fs.finish function args s
    (run fs (resume reply) s).after (reply.panic? function)

/-- Waiting makes no difference to a routine that runs alone. -/
theorem run_wait (fs : Functions σ) (turns : Nat) (r : Routine α) (s : σ) :
    (wait turns r).run fs s = r.run fs s := by
  induction turns with
  | zero => rfl
  | succ turns ih => exact ih

theorem run_bind {β : Type} (fs : Functions σ) (r : Routine α) (f : α → Routine β) (s : σ) :
    (r.bind f).run fs s =
      let first := r.run fs s
      let second := (f first.result).run fs first.host
      { second with panics := first.panics ++ second.panics } := by
  induction r generalizing s with
  | done a => simp [bind, run]
  | call function args resume ih => simp [bind, run, ih, Ran.after]
  | start function args resume ih => simp [bind, run, ih, Ran.after]
  | turn rest ih => exact ih s
  | finish function args resume ih => simp [bind, run, ih, Ran.after]

end Routine

end FormulaEngine
