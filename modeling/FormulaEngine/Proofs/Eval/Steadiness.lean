import FormulaEngine.Proofs.Eval.Delegation
import FormulaEngine.Proofs.Eval.Endings
import FormulaEngine.Run.Orchestration

/-!
# Steady hosts

A host is steady if its answers depend only on what is called and not on its state. How long an
asynchronous call takes may still vary. Against a steady host an evaluation has one ending only.
-/

namespace FormulaEngine

variable {σ τ : Type} {fs : Functions σ} {fs' : Functions τ} {function : String}

/-- Two hosts answer the calls of a function in the same way, whatever states they are in. -/
structure Functions.AnswerAlike (fs : Functions σ) (fs' : Functions τ) (function : String) :
    Prop where
  convention : fs.convention? function = fs'.convention? function
  call : ∀ args s t, (fs.call function args s).1 = (fs'.call function args t).1
  start : ∀ args s t, (fs.start function args s).1.panic? function =
    (fs'.start function args t).1.panic? function
  finish : ∀ args s t, (fs.finish function args s).1 = (fs'.finish function args t).1

/-- A host answers by what is called alone. -/
def Functions.IsSteady (fs : Functions σ) : Prop := ∀ function, fs.AnswerAlike fs function

/-- A host with one function, which takes its time and answers with its arguments. -/
def Functions.echo : Functions Unit :=
  Functions.empty.register "fetch"
    (.asynchronous (fun _ s => (.accepted 1, s)) fun args s => (.value (.list args), s))

theorem Functions.isSteady_empty : (empty : Functions σ).IsSteady := fun _ =>
  ⟨rfl, fun _ _ _ => rfl, fun _ _ _ => rfl, fun _ _ _ => rfl⟩

theorem Functions.isSteady_echo : Functions.echo.IsSteady := fun _ => ⟨rfl, fun _ _ _ => rfl,
  fun _ _ _ => rfl, fun _ _ _ => rfl⟩

namespace Evaluation

variable {α : Type} {args : List Value}

/-- Two evaluations, each against its own host, have no two different endings. -/
def EndAlike (fs : Functions σ) (fs' : Functions τ) (x y : Evaluation α) : Prop :=
  ∀ r r', x.run.Ends fs r → y.run.Ends fs' r' → r = r'

theorem endAlike_ofResult (r : Except Fault α) : EndAlike fs fs' (ofResult r) (ofResult r) :=
  fun _ _ hr hr' => Eq.trans (Eq.symm hr) hr'

theorem isCongruence_endAlike : IsCongruence fun x y => EndAlike fs fs' x y where
  pure a := endAlike_ofResult (.ok a)
  operation _ := endAlike_ofResult _
  bind hxy hfg := by
    intro r r' hr hr'
    rcases ends_bind_iff.mp hr with ⟨a, ha, hrest⟩ | ⟨fault, hfault, rfl⟩
    · rcases ends_bind_iff.mp hr' with ⟨a', ha', hrest'⟩ | ⟨fault', hfault', -⟩
      · obtain rfl := Except.ok.inj (hxy _ _ ha ha')
        exact hfg a r r' hrest hrest'
      · exact absurd (hxy _ _ ha hfault') (by simp)
    · rcases ends_bind_iff.mp hr' with ⟨a', ha', -⟩ | ⟨fault', hfault', rfl⟩
      · exact absurd (hxy _ _ hfault ha') (by simp)
      · exact congrArg Except.error (Except.error.inj (hxy _ _ hfault hfault'))

theorem endAlike_call (h : fs.AnswerAlike fs' function) :
    EndAlike fs fs' (call function args) (call function args) := by
  intro r r' hr hr'
  obtain ⟨s, rfl⟩ := ends_call_iff.mp hr
  obtain ⟨t, rfl⟩ := ends_call_iff.mp hr'
  rw [h.call args s t]

theorem endAlike_awaitCall (h : fs.AnswerAlike fs' function) :
    EndAlike fs fs' (awaitCall function args) (awaitCall function args) := by
  intro r r' hr hr'
  rcases ends_awaitCall_iff.mp hr with ⟨s, u, _, hstart, rfl⟩ | ⟨s, text, hstart, rfl⟩
  · rcases ends_awaitCall_iff.mp hr' with ⟨t, v, _, hstart', rfl⟩ | ⟨t, text', hstart', -⟩
    · rw [h.finish args u v]
    · have hpanic := h.start args s t
      rw [hstart, hstart'] at hpanic
      exact absurd hpanic (by simp [Receipt.panic?])
  · have hpanic : ∀ t, (fs'.start function args t).1.panic? function =
        some ⟨function, Panic.textOf text⟩ := fun t => by
      rw [← h.start args s t, hstart]
      rfl
    rcases ends_awaitCall_iff.mp hr' with ⟨t, v, _, hstart', -⟩ | ⟨t, text', hstart', rfl⟩
    · exact absurd (hpanic t) (by simp [hstart', Receipt.panic?])
    · have htext : Panic.textOf text' = Panic.textOf text := by
        simpa [hstart', Receipt.panic?] using hpanic t
      simp only [Reply.toResult, htext]

end Evaluation

namespace Compilation

variable {c : Compilation} {mode : Mode} {s : Slots} {module : Option ModuleId} {d : Declaration}
  {args : List Value}

theorem endAlike_invoke (h : fs.AnswerAlike fs' function) :
    Evaluation.EndAlike fs fs' ((c.evaluator fs s module).invoke function args)
      ((c.evaluator fs' s module).invoke function args) := by
  have hleft : (c.evaluator fs s module).convention? function = fs'.convention? function :=
    h.convention
  have hright : (c.evaluator fs' s module).convention? function = fs'.convention? function := rfl
  rw [Evaluator.invoke, Evaluator.invoke, hleft, hright]
  split
  · exact Evaluation.endAlike_call h
  · exact Evaluation.endAlike_ofResult _
  · exact Evaluation.endAlike_ofResult _

theorem endAlike_invokeAwaited (h : fs.AnswerAlike fs' function) :
    Evaluation.EndAlike fs fs' ((c.evaluator fs s module).invokeAwaited function args)
      ((c.evaluator fs' s module).invokeAwaited function args) := by
  have hleft : (c.evaluator fs s module).convention? function = fs'.convention? function :=
    h.convention
  have hright : (c.evaluator fs' s module).convention? function = fs'.convention? function := rfl
  rw [Evaluator.invokeAwaited, Evaluator.invokeAwaited, hleft, hright]
  split
  · exact Evaluation.endAlike_call h
  · exact Evaluation.endAlike_awaitCall h
  · exact Evaluation.endAlike_ofResult _

/-- The evaluations of a declaration end alike if the hosts answer its calls alike. -/
theorem eq_of_ends_routine
    (h : ∀ expr exported function args, d.kind = .formula expr exported →
      expr.Contains (.call function args) → fs.AnswerAlike fs' function)
    {r r' : Except Fault Value} (hr : (c.routine fs mode s d).Ends fs r)
    (hr' : (c.routine fs' mode s d).Ends fs' r') : r = r' := by
  have hrun : Evaluation.EndAlike fs fs' ((c.evaluator fs s d.module).run mode d)
      ((c.evaluator fs' s d.module).run mode d) := by
    refine @Evaluator.run_related (fun x y => Evaluation.EndAlike fs fs' x y) _ _ mode mode
      Evaluation.isCongruence_endAlike d (fun expr exported hkind => ?_) (fun path kind hkind => ?_)
      fun hglobal => ?_
    · exact {
        read _ _ := Evaluation.endAlike_ofResult _
        probe _ _ := Evaluation.endAlike_ofResult _
        invoke function args _ hcall :=
          endAlike_invoke (h expr exported function args hkind hcall.contains)
        mode_eq _ _ := rfl
        await function args _ hawait := by
          have hcall : Expr.call function args ∈ (Expr.await (.call function args)).children :=
            List.mem_singleton_self _
          exact endAlike_invokeAwaited
            (h expr exported function args hkind (hawait.trans (.step hcall (.refl _))))
        internal _ _ := .inr fun _ => Evaluation.endAlike_ofResult _ }
    · exact Evaluation.endAlike_ofResult _
    · exact Evaluation.endAlike_ofResult _
  exact hrun r r' hr hr'

/-- Against a steady host an evaluation has one ending only. -/
theorem eq_of_ends_of_isSteady (hfs : fs.IsSteady) {r r' : Except Fault Value}
    (hr : (c.routine fs mode s d).Ends fs r) (hr' : (c.routine fs mode s d).Ends fs r') : r = r' :=
  eq_of_ends_routine (fun _ _ function _ _ _ => hfs function) hr hr'

theorem eq_of_forall₂_ends (hfs : fs.IsSteady) {steps : List (StepId × Declaration)}
    {results results' : List (Except Fault Value)}
    (h : List.Forall₂ (fun x r => (c.routine fs mode s x.2).Ends fs r) steps results)
    (h' : List.Forall₂ (fun x r => (c.routine fs mode s x.2).Ends fs r) steps results') :
    results = results' := by
  have hunique : Relator.RightUnique fun (x : StepId × Declaration) r =>
      (c.routine fs mode s x.2).Ends fs r :=
    fun _ _ _ hr hr' => eq_of_ends_of_isSteady hfs hr hr'
  exact List.right_unique_forall₂' hunique h h'

theorem result_eq_of_ends_routine (hfs : fs.IsSteady) {r : Except Fault Value}
    (hr : (c.routine fs mode s d).Ends fs r) (host : σ) :
    ((c.routine fs mode s d).run fs host).result = r :=
  eq_of_ends_of_isSteady hfs (Routine.ends_run _ host) hr

end Compilation

end FormulaEngine
