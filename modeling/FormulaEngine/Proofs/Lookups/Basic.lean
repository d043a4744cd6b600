import FormulaEngine.Plan.Group
import FormulaEngine.Program.Basic
import FormulaEngine.Proofs.Lists

/-!
# Look-ups

Something that is looked up where it has to be may still not be there. A computation that says so,
by the place where it looked, is compared with one that never looks in vain: the two agree, with
their results and their errors, if every look-up finds something.
-/

namespace FormulaEngine.Lookups

/-- Where something is looked up that has to be there. -/
inductive Place where
  /-- The node of a declaration in the table of nodes. -/
  | node (id : DeclId)
  /-- The declaration of a node. -/
  | weight (node : Nat)
  /-- A segment of an import path. -/
  | segment (index : Nat)
  /-- A declaration that a module lists. -/
  | declaration (id : DeclId)
  /-- The layer of a node in the table of layers. -/
  | layerOf (node : Nat)
  | layer (index : Nat)
  /-- The step of a declaration in the table of steps. -/
  | stepOf (id : DeclId)
  | step (id : StepId)
  /-- The number of slots that a run has filled beyond those that were filled before. -/
  | evaluated
  deriving DecidableEq, Repr

/-- Why a computation stops short. -/
inductive Halt (ε : Type) where
  | failed (e : ε)
  | missed (place : Place)

variable {ε α β γ : Type}

def look (place : Place) : Option α → Except (Halt ε) α
  | some a => .ok a
  | none => .error (.missed place)

/-- A computation that looks nothing up, or never in vain. -/
def certain (r : Except ε α) : Except (Halt ε) α := r.mapError .failed

/-- A result, unless there is an error. -/
def givenNo (error? : Option ε) (a : α) : Except (Halt ε) α :=
  match error? with
  | some e => .error (.failed e)
  | none => .ok a

@[simp]
theorem givenNo_none (a : α) : (givenNo none a : Except (Halt ε) α) = .ok a := rfl

@[simp]
theorem givenNo_some (e : ε) (a : α) : givenNo (some e) a = .error (.failed e) := rfl

theorem certain_ok (a : α) : certain (.ok a : Except ε α) = .ok a := rfl

theorem certain_error (e : ε) : certain (.error e : Except ε α) = .error (.failed e) := rfl

theorem certain_ne_missed (r : Except ε α) (place : Place) :
    certain r ≠ .error (.missed place) := by
  cases r with
  | ok a => simp [certain_ok]
  | error e => simp [certain_error]

theorem certain_bind (r : Except ε α) (next : α → Except ε β) :
    certain (r >>= next) = certain r >>= fun a => certain (next a) := by
  cases r <;> rfl

@[simp]
theorem ok_bind (a : α) (next : α → Except ε β) : (Except.ok a >>= next) = next a := rfl

theorem look_of_eq_some {place : Place} {found : Option α} {a : α} (h : found = some a) :
    (look place found : Except (Halt ε) α) = .ok a := by
  rw [h]
  rfl

/-! ### Lists -/

/-- The first element with an error decides. -/
theorem mapM_eq_givenNo {f : α → Except (Halt ε) β} {error? : α → Option ε} {g : α → β}
    {l : List α} (h : ∀ a ∈ l, f a = givenNo (error? a) (g a)) :
    l.mapM f = givenNo (l.findSome? error?) (l.map g) := by
  induction l with
  | nil => rfl
  | cons a rest ih =>
    rw [List.mapM_cons, h a List.mem_cons_self, List.findSome?_cons,
      ih fun b hb => h b (List.mem_cons_of_mem _ hb)]
    cases error? a with
    | some e => rfl
    | none => cases rest.findSome? error? <;> rfl

end FormulaEngine.Lookups
