import FormulaEngine.Proofs.Eval.Faults
import FormulaEngine.Proofs.Eval.Steadiness
import FormulaEngine.Proofs.Eval.Twins
import FormulaEngine.Proofs.Lists

/-!
# Evaluations that differ in causes only

An import of a module is skipped for the first of the exports that has no value. Which one that is
depends on the order of declaration; that it is skipped, and else its value, does not. So
evaluations are compared up to the causes of skips.
-/

namespace FormulaEngine

variable {σ α β : Type}

/-- Two results are one, or both are skips. -/
inductive SameButCause : Except Fault α → Except Fault α → Prop where
  | same (r : Except Fault α) : SameButCause r r
  | skip (cause cause' : StepFailure) :
    SameButCause (.error (.skip cause)) (.error (.skip cause'))

theorem SameButCause.eq_of_ok {r : Except Fault α} {a : α} (h : SameButCause (.ok a) r) :
    r = .ok a := by
  cases h
  rfl

theorem SameButCause.symm {r r' : Except Fault α} (h : SameButCause r r') : SameButCause r' r := by
  cases h with
  | same => exact .same r
  | skip cause cause' => exact .skip cause' cause

theorem SameButCause.error {fault fault' : Fault}
    (h : SameButCause (.error fault : Except Fault α) (.error fault')) :
    SameButCause (.error fault : Except Fault β) (.error fault') := by
  cases h with
  | same => exact .same _
  | skip cause cause' => exact .skip cause cause'

/-- Two outcomes are of one value, of one error, or of skips. -/
inductive Outcome.IsLike : Outcome → Outcome → Prop where
  | value (v : Value) : IsLike (.value v) (.value v)
  | failed (e : EvalError) (d d' : DeclId) : IsLike (.failed ⟨d, e⟩) (.failed ⟨d', e⟩)
  | skipped (cause cause' : StepFailure) : IsLike (.skipped cause) (.skipped cause')

namespace Outcome.IsLike

variable {o o' : Outcome}

theorem symm (h : o.IsLike o') : o'.IsLike o := by
  cases h with
  | value v => exact .value v
  | failed e d d' => exact .failed e d' d
  | skipped cause cause' => exact .skipped cause' cause

theorem settle {r r' : Except Fault Value} (h : SameButCause r r') (d d' : DeclId) :
    (Outcome.settle d r).IsLike (Outcome.settle d' r') := by
  cases h with
  | same =>
    rcases r with (e | cause) | v
    · exact .failed e d d'
    · exact .skipped cause cause
    · exact .value v
  | skip cause cause' => exact .skipped cause cause'

theorem read (h : o.IsLike o') : SameButCause o.read o'.read := by
  cases h with
  | value v => exact .same _
  | failed e d d' => exact .skip _ _
  | skipped cause cause' => exact .skip cause cause'

theorem value?_eq (h : o.IsLike o') : o.value? = o'.value? := by
  cases h <;> rfl

end Outcome.IsLike

namespace Evaluation

variable {fs : Functions σ} {x y : Evaluation α}

/-- Two evaluations against one host have endings that are the same but for the causes of skips. -/
def EndLike (fs : Functions σ) (x y : Evaluation α) : Prop :=
  ∀ r r', x.run.Ends fs r → y.run.Ends fs r' → SameButCause r r'

theorem EndAlike.endLike (h : EndAlike fs fs x y) : EndLike fs x y := by
  intro r r' hr hr'
  rw [h r r' hr hr']
  exact .same r'

theorem endLike_ofResult {r r' : Except Fault α} (h : SameButCause r r') :
    EndLike fs (ofResult r) (ofResult r') := by
  rintro _ _ rfl rfl
  exact h

theorem isCongruence_endLike : IsCongruence fun x y => EndLike fs x y where
  pure a := endLike_ofResult (.same (.ok a))
  operation _ := endLike_ofResult (.same _)
  bind hxy hfg := by
    intro r r' hr hr'
    rcases ends_bind_iff.mp hr with ⟨a, ha, hrest⟩ | ⟨fault, hfault, rfl⟩
    · rcases ends_bind_iff.mp hr' with ⟨a', ha', hrest'⟩ | ⟨fault', hfault', -⟩
      · obtain rfl := Except.ok.inj (hxy _ _ ha ha').eq_of_ok
        exact hfg _ r r' hrest hrest'
      · exact absurd (hxy _ _ ha hfault').eq_of_ok (by simp)
    · rcases ends_bind_iff.mp hr' with ⟨a', ha', -⟩ | ⟨fault', hfault', rfl⟩
      · exact absurd (hxy _ _ hfault ha').symm.eq_of_ok (by simp)
      · exact (hxy _ _ hfault hfault').error

end Evaluation

/-! ### Exports -/

namespace Evaluator

variable {ev : Evaluator} {m : ProgramModule}

/-- What an export adds to an import of its module if it has a value. -/
def exportEntry (ev : Evaluator) (id : DeclId) : String × Value :=
  (((ev.program.declaration? id).map (·.name)).getD "",
    ((ev.slots.get? id).bind Outcome.value?).getD .null)

/-- If all exports of a module have values, then these are what an import of it gives. -/
theorem readExports_of_values (hp : ev.program.WellFormed) (hm : ev.program.module? m.id = some m)
    (h : ∀ id ∈ ev.program.exportedFormulas m.id, ∃ v, ev.slots.get? id = some (.value v)) :
    ev.readExports m = .ok (.object (ProgramResult.exportsOf ev.program ev.slots m)) := by
  have hread : ∀ id ∈ ev.program.exportedFormulas m.id, (do
      let v ← ev.readSlot id
      Except.ok (((ev.program.declaration? id).map Declaration.name).getD "", v)) =
        .ok (ev.exportEntry id) := by
    intro id hid
    obtain ⟨v, hv⟩ := h id hid
    simp only [exportEntry, readSlot, hv]
    rfl
  have hentries : (ev.program.exportedFormulas m.id).map ev.exportEntry =
      (ev.program.exportedFormulas m.id).filterMap fun id => (ev.program.declaration? id).map
        fun d => (d.name, ((ev.slots.get? id).bind Outcome.value?).getD .null) := by
    rw [← List.filterMap_eq_map]
    apply List.filterMap_congr
    intro id hid
    obtain ⟨d, hd, -⟩ := (Program.mem_exportedFormulas_iff hp hm).mp hid
    simp [exportEntry, hd]
  unfold readExports
  rw [mapM_eq_ok hread, hentries]
  rfl

/-- If one of the exports of a module has no value, then an import of it is skipped. -/
theorem readExports_of_lacking {id : DeclId}
    (hfilled : ∀ id ∈ ev.program.exportedFormulas m.id, ∃ o, ev.slots.get? id = some o)
    (hid : id ∈ ev.program.exportedFormulas m.id)
    (hlacks : ∀ v, ev.slots.get? id ≠ some (.value v)) :
    ∃ cause, ev.readExports m = .error (.skip cause) := by
  have hskips : ∀ fault, ev.readExports m = .error fault → ∃ cause, fault = .skip cause := by
    intro fault hfault
    refine of_readExports_eq_error (P := fun fault => ∃ cause, fault = .skip cause)
      (fun id hid fault hfault => ?_) hfault
    obtain ⟨o, ho⟩ := hfilled id hid
    rw [readSlot, ho] at hfault
    cases o with
    | value v => cases hfault
    | failed cause | skipped cause => exact ⟨cause, (Except.error.inj hfault).symm⟩
  cases hread : ev.readExports m with
  | error fault =>
    obtain ⟨cause, rfl⟩ := hskips fault hread
    exact ⟨cause, rfl⟩
  | ok v =>
    unfold readExports at hread
    cases hfields : (ev.program.exportedFormulas m.id).mapM fun id => do
        let v ← ev.readSlot id
        .ok (((ev.program.declaration? id).map Declaration.name).getD "", v) with
    | error fault =>
      rw [hfields] at hread
      cases hread
    | ok fields =>
      obtain ⟨entry, -, hentry⟩ := exists_of_mem_left (forall₂_of_mapM_eq_ok hfields) hid
      obtain ⟨o, ho⟩ := hfilled id hid
      rw [readSlot, ho] at hentry
      cases o with
      | value v => exact absurd ho (hlacks v)
      | failed cause | skipped cause => cases hentry

end Evaluator

end FormulaEngine
