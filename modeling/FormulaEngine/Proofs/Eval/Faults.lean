import FormulaEngine.Proofs.Eval.Endings
import FormulaEngine.Proofs.Eval.Frame

/-!
# Faults of evaluations

An evaluation ends in a fault because its expression went wrong, or because it looked at a slot
without a value. So the faults of the slots that it can look at, and the errors that a formula can
cause, are all that there is. Two things follow. It never ends in an internal error if those slots
hold none, only calls are awaited, and only where it may suspend. And it is skipped only for a
failure that stands in one of those slots.
-/

namespace FormulaEngine

/-- An error that no formula causes. -/
def EvalError.IsInternal (e : EvalError) : Prop := ∃ what, e = .internal what

def Fault.IsInternal : Fault → Prop
  | .error e => e.IsInternal
  | .skip cause => cause.error.IsInternal

def Outcome.IsInternal : Outcome → Prop
  | .value _ => False
  | .failed failure | .skipped failure => failure.error.IsInternal

theorem Outcome.settle_eq_failed_iff {d : DeclId} {r : Except Fault Value} {failure : StepFailure} :
    settle d r = .failed failure ↔ ∃ e, r = .error (.error e) ∧ failure = ⟨d, e⟩ := by
  cases r with
  | ok v => simp [settle]
  | error fault => cases fault <;> simp [settle, eq_comm]

theorem Outcome.settle_eq_skipped_iff {d : DeclId} {r : Except Fault Value} {cause : StepFailure} :
    settle d r = .skipped cause ↔ r = .error (.skip cause) := by
  cases r with
  | ok v => simp [settle]
  | error fault => cases fault <;> simp [settle]

theorem Outcome.isInternal_settle_iff {d : DeclId} {r : Except Fault Value} :
    (settle d r).IsInternal ↔ ∃ fault, r = .error fault ∧ fault.IsInternal := by
  cases r with
  | ok v => simp [settle, IsInternal]
  | error fault => cases fault <;> simp [settle, IsInternal, Fault.IsInternal]

theorem Outcome.isInternal_of_read {o : Outcome} {fault : Fault} (h : o.read = .error fault)
    (hfault : fault.IsInternal) : o.IsInternal := by
  cases o with
  | value v => exact absurd h (by simp [read])
  | failed failure | skipped failure =>
    obtain rfl := Except.error.inj h
    exact hfault

theorem EvalError.not_isInternal {e : EvalError} (h : ∀ what, e ≠ .internal what) :
    ¬e.IsInternal := fun ⟨what, hwhat⟩ => h what hwhat

/-- A host function that gives no value is an error of the formula that calls it. -/
theorem Reply.exists_of_toResult_eq_error {function : String} {reply : Reply} {fault : Fault}
    (h : reply.toResult function = .error fault) :
    ∃ message, fault = .error (.host function message) := by
  cases reply with
  | value v => exact absurd h (by simp [toResult])
  | failure message => exact ⟨message, (Except.error.inj h).symm⟩
  | panic text => exact ⟨_, (Except.error.inj h).symm⟩

/-- A slot has no value for a failure: its own, or another's that was passed on to it. -/
def Slots.Holds (s : Slots) (id : DeclId) (failure : StepFailure) : Prop :=
  s.get? id = some (.failed failure) ∨ s.get? id = some (.skipped failure)

namespace Evaluation

variable {σ α : Type} {fs : Functions σ} {P : Fault → Prop} {function : String} {args : List Value}

/-- All faults in which an evaluation can end are of one kind. -/
def FaultsAre (fs : Functions σ) (P : Fault → Prop) (x : Evaluation α) : Prop :=
  ∀ fault, x.run.Ends fs (.error fault) → P fault

/-- An evaluation does not end in an internal error. -/
def IsSound (fs : Functions σ) (x : Evaluation α) : Prop :=
  ∀ fault, x.run.Ends fs (.error fault) → ¬fault.IsInternal

theorem faultsAre_ofResult {r : Except Fault α} (h : ∀ fault, r = .error fault → P fault) :
    (ofResult r).FaultsAre fs P := fun fault hends => h fault hends

section

variable (hP : ∀ e : EvalError, ¬e.IsInternal → P (.error e))

include hP

theorem faultsAre_raise {e : EvalError} (h : ∀ what, e ≠ .internal what) :
    (raise e : Evaluation α).FaultsAre fs P := by
  apply faultsAre_ofResult
  intro fault heq
  obtain rfl := Except.error.inj heq
  exact hP e (EvalError.not_isInternal h)

theorem isCongruence_faultsAre : IsCongruence fun x _ => x.FaultsAre fs P where
  pure a := faultsAre_ofResult fun fault heq => absurd heq (by simp)
  operation {α r} hclean := faultsAre_ofResult fun fault heq => by
    cases r with
    | ok a => exact absurd heq (by simp [Except.mapError])
    | error e =>
      obtain rfl := Except.error.inj heq
      exact hP e (EvalError.not_isInternal fun what he => hclean what (congrArg Except.error he))
  bind hx hf := by
    intro fault hends
    rcases ends_bind_iff.mp hends with ⟨a, -, hrest⟩ | ⟨first, hfirst, heq⟩
    · exact hf a fault hrest
    · obtain rfl := Except.error.inj heq
      exact hx _ hfirst

theorem of_toResult_eq_error {reply : Reply} {fault : Fault}
    (h : reply.toResult function = .error fault) : P fault := by
  obtain ⟨message, rfl⟩ := Reply.exists_of_toResult_eq_error h
  exact hP _ (EvalError.not_isInternal (by simp))

theorem faultsAre_call : (call function args).FaultsAre fs P := by
  intro fault hends
  obtain ⟨_, hresult⟩ := ends_call_iff.mp hends
  exact of_toResult_eq_error hP hresult

theorem faultsAre_awaitCall : (awaitCall function args).FaultsAre fs P := by
  intro fault hends
  rcases ends_awaitCall_iff.mp hends with ⟨_, _, _, -, hresult⟩ | ⟨_, _, -, hresult⟩
  · exact of_toResult_eq_error hP hresult
  · exact of_toResult_eq_error hP hresult

end

end Evaluation

namespace Evaluator

variable {σ : Type} {fs : Functions σ} {ev : Evaluator} {d : Declaration} {mode : Mode}
  {id : DeclId} {P : Fault → Prop} {fault : Fault}

/-! ### Faults of reading -/

/-- Where the slot of a declaration has no value, this is the fault of reading it. -/
def SlotFaultsAre (ev : Evaluator) (P : Fault → Prop) (id : DeclId) : Prop :=
  ∀ fault, ev.readSlot id = .error fault → P fault

theorem of_probe_eq_error {path : Path}
    (h : ∀ id, ev.scopes.resolve ev.module path.root = some id → ev.SlotFaultsAre P id)
    (hprobe : ev.probe path = .error fault) : P fault := by
  unfold probe at hprobe
  split at hprobe
  case h_1 => exact absurd hprobe (by simp)
  case h_2 id hid =>
    cases hread : ev.readSlot id with
    | ok v => exact absurd hprobe (by simp [hread, Except.map])
    | error first =>
      rw [hread] at hprobe
      obtain rfl := Except.error.inj hprobe
      exact h id hid _ hread

theorem of_readExports_eq_error {m : ProgramModule}
    (h : ∀ id ∈ ev.program.exportedFormulas m.id, ev.SlotFaultsAre P id)
    (hread : ev.readExports m = .error fault) : P fault := by
  unfold readExports at hread
  cases hfields : (ev.program.exportedFormulas m.id).mapM fun id => do
      let v ← ev.readSlot id
      .ok (((ev.program.declaration? id).map Declaration.name).getD "", v) with
  | ok fields =>
    rw [hfields] at hread
    exact absurd hread (by simp [bind, Except.bind])
  | error first =>
    rw [hfields] at hread
    obtain rfl := Except.error.inj hread
    obtain ⟨id, hid, hfirst⟩ := exists_of_mapM_eq_error hfields
    cases hslot : ev.readSlot id with
    | ok v => exact absurd hfirst (by simp [hslot, bind, Except.bind])
    | error other =>
      rw [hslot] at hfirst
      obtain rfl := Except.error.inj hfirst
      exact h id hid _ hslot

section

variable (hP : ∀ e : EvalError, ¬e.IsInternal → P (.error e))

include hP

theorem of_read_eq_error {name : String}
    (h : ∀ id, ev.scopes.resolve ev.module name = some id → ev.SlotFaultsAre P id)
    (hread : ev.read name = .error fault) : P fault := by
  unfold read at hread
  split at hread
  case h_1 id hid => exact h id hid fault hread
  case h_2 =>
    obtain rfl := Except.error.inj hread
    exact hP _ (EvalError.not_isInternal (by simp))

theorem of_readFound_eq_error {path : List String} {found : Option DeclId}
    (h : ∀ id, found = some id → ev.SlotFaultsAre P id)
    (hread : ev.readFound path found = .error fault) : P fault := by
  cases found with
  | some id => exact h id rfl fault hread
  | none =>
    obtain rfl := Except.error.inj hread
    exact hP _ (EvalError.not_isInternal (by simp))

/-- An import reads what it finds, and fails by an error of its own only if it finds nothing. -/
theorem of_importValue_eq_error {path : List String} {kind : ImportKind}
    (hkind : d.kind = .imported path kind) (hlength : path.length = kind.pathLength)
    (h : ∀ id, ev.Reads d id → ev.SlotFaultsAre P id)
    (hvalue : ev.importValue path kind = .error fault) : P fault := by
  unfold importValue at hvalue
  split at hvalue
  case h_1 => exact of_readFound_eq_error hP (fun id hid => h id (.formula hkind hid)) hvalue
  case h_2 module =>
    split at hvalue
    case h_1 m hm =>
      exact of_readExports_eq_error (fun id hid => h id (.exports hkind hm hid)) hvalue
    case h_2 =>
      obtain rfl := Except.error.inj hvalue
      exact hP _ (EvalError.not_isInternal (by simp))
  case h_3 => exact of_readFound_eq_error hP (fun id hid => h id (.argument hkind hid)) hvalue
  case h_4 => exact of_readFound_eq_error hP (fun id hid => h id (.constant hkind hid)) hvalue
  case h_5 hformula hmodule hargument hconstant =>
    -- A path of the right length has one of the forms above.
    cases kind with
    | formula =>
      obtain ⟨module, name, rfl⟩ := List.length_eq_two.mp hlength
      exact absurd rfl (hformula module name rfl)
    | module =>
      obtain ⟨module, rfl⟩ := List.length_eq_one_iff.mp hlength
      exact absurd rfl (hmodule module rfl)
    | argument =>
      obtain ⟨name, rfl⟩ := List.length_eq_one_iff.mp hlength
      exact absurd rfl (hargument name rfl)
    | constant =>
      obtain ⟨name, rfl⟩ := List.length_eq_one_iff.mp hlength
      exact absurd rfl (hconstant name rfl)

/-! ### Faults of declarations -/

theorem faultsAre_invoke {function : String} {args : List Value} :
    (ev.invoke function args).FaultsAre fs P := by
  unfold invoke
  split
  · exact Evaluation.faultsAre_call hP
  · exact Evaluation.faultsAre_raise hP (by simp)
  · exact Evaluation.faultsAre_raise hP (by simp)

theorem faultsAre_invokeAwaited {function : String} {args : List Value} :
    (ev.invokeAwaited function args).FaultsAre fs P := by
  unfold invokeAwaited
  split
  · exact Evaluation.faultsAre_call hP
  · exact Evaluation.faultsAre_awaitCall hP
  · exact Evaluation.faultsAre_raise hP (by simp)

/-- The faults of a declaration are errors that a formula can cause, and those of the slots that it
can look at. -/
theorem faultsAre_run (hslots : ∀ id, ev.Reads d id → ev.SlotFaultsAre P id)
    (hawaits : ∀ expr exported, d.kind = .formula expr exported →
      ∀ operand, expr.Contains (.await operand) → mode = .asynchronous ∧ operand.isCall)
    (hpath : ∀ path kind, d.kind = .imported path kind → path.length = kind.pathLength) :
    (ev.run mode d).FaultsAre fs P := by
  refine @run_related (fun x _ => x.FaultsAre fs P) ev ev mode mode
    (Evaluation.isCongruence_faultsAre hP) d (fun expr exported hkind => ?_)
    (fun path kind hkind => ?_) fun hglobal => ?_
  · exact {
      read name hname := Evaluation.faultsAre_ofResult fun _ =>
        of_read_eq_error hP fun id hid => hslots id (.name hkind hname hid)
      probe path hpath := Evaluation.faultsAre_ofResult fun _ =>
        of_probe_eq_error fun id hid => hslots id (.name hkind hpath hid)
      invoke _ _ _ _ := faultsAre_invoke hP
      mode_eq _ _ := rfl
      await _ _ _ _ := faultsAre_invokeAwaited hP
      internal operand hoperand := .inl (hawaits expr exported hkind operand hoperand) }
  · exact Evaluation.faultsAre_ofResult fun _ =>
      of_importValue_eq_error hP hkind (hpath path kind hkind) hslots
  · exact Evaluation.faultsAre_ofResult fun fault => hslots d.id (.own hglobal) fault

end

/-! ### Internal errors -/

/-- A slot is filled, and not with an internal error. -/
def HasSoundSlot (ev : Evaluator) (id : DeclId) : Prop :=
  ∃ o, ev.slots.get? id = some o ∧ ¬o.IsInternal

theorem HasSoundSlot.slotFaultsAre (h : ev.HasSoundSlot id) :
    ev.SlotFaultsAre (fun fault => ¬fault.IsInternal) id := by
  intro fault hread
  obtain ⟨o, ho, hsound⟩ := h
  rw [readSlot, ho] at hread
  exact fun hfault => hsound (Outcome.isInternal_of_read hread hfault)

/-- What must be known of a declaration before it can be evaluated without internal errors. -/
structure CanRun (ev : Evaluator) (mode : Mode) (d : Declaration) : Prop where
  slots : ∀ id, ev.Reads d id → ev.HasSoundSlot id
  awaits : ∀ expr exported, d.kind = .formula expr exported →
    ∀ operand, expr.Contains (.await operand) → mode = .asynchronous ∧ operand.isCall
  path_length : ∀ path kind, d.kind = .imported path kind → path.length = kind.pathLength

theorem CanRun.isSound (h : ev.CanRun mode d) : (ev.run mode d).IsSound fs :=
  faultsAre_run (fun _ he => he) (fun id hreads => (h.slots id hreads).slotFaultsAre) h.awaits
    h.path_length

/-! ### Skips -/

/-- A slot that cannot be read for a failure holds it, as its own or as one passed on. -/
theorem holds_of_readSlot_eq_skip {cause : StepFailure}
    (h : ev.readSlot id = .error (.skip cause)) : ev.slots.Holds id cause := by
  unfold readSlot at h
  split at h
  case h_1 o ho =>
    cases o with
    | value v => exact absurd h (by simp [Outcome.read])
    | failed failure =>
      obtain rfl : failure = cause := by simpa [Outcome.read] using h
      exact .inl ho
    | skipped first =>
      obtain rfl : first = cause := by simpa [Outcome.read] using h
      exact .inr ho
  case h_2 => exact absurd h (by simp)

/-- A declaration is skipped only for a failure that stands in a slot that it can look at. -/
theorem exists_reads_of_ends_skip {cause : StepFailure}
    (hawaits : ∀ expr exported, d.kind = .formula expr exported →
      ∀ operand, expr.Contains (.await operand) → mode = .asynchronous ∧ operand.isCall)
    (hpath : ∀ path kind, d.kind = .imported path kind → path.length = kind.pathLength)
    (h : (ev.run mode d).run.Ends fs (.error (.skip cause))) :
    ∃ id, ev.Reads d id ∧ ev.slots.Holds id cause := by
  let P := fun fault : Fault => ∀ cause, fault = .skip cause →
    ∃ id, ev.Reads d id ∧ ev.slots.Holds id cause
  have hP : ∀ e : EvalError, ¬e.IsInternal → P (.error e) := fun e _ cause heq =>
    absurd heq (by simp)
  have hslots : ∀ id, ev.Reads d id → ev.SlotFaultsAre P id := by
    rintro id hreads fault hread cause rfl
    exact ⟨id, hreads, holds_of_readSlot_eq_skip hread⟩
  exact faultsAre_run hP hslots hawaits hpath _ h cause rfl

end Evaluator

end FormulaEngine
