import FormulaEngine.Proofs.Eval.Awaiting
import FormulaEngine.Proofs.Eval.Faults

/-!
# Defaults

A default covers what is absent, and hides nothing that has failed. It has a way of its own to read
a path, which tells that nothing is there from a failure on the way; at any depth this agrees with
the evaluation of the path. Any other target is evaluated, and covered only if it comes to null.
-/

namespace FormulaEngine

/-- Nothing is there: no such name, or no such member. -/
inductive Fault.IsAbsence : Fault → Prop where
  | unresolved (name : String) : IsAbsence (.error (.unresolvedIdentifier name))
  | missing (name found : String) : IsAbsence (.error (.missingMember name found))

/-- A slot was read that has no value. -/
inductive Fault.IsFailure : Fault → Prop where
  | skip (cause : StepFailure) : IsFailure (.skip cause)
  | internal (what : String) : IsFailure (.error (.internal what))

theorem Fault.IsFailure.not_isAbsence {fault : Fault} (h : fault.IsFailure) :
    ¬fault.IsAbsence := by
  intro habsent
  cases habsent <;> cases h

namespace Evaluator

variable {σ : Type} {ev : Evaluator} {mode : Mode} {id : DeclId} {t f : Expr} {path : Path}
  {v : Value} {fault : Fault} {r : Except Fault Value} {found : Except Fault (Option Value)}

/-! ### Reading a path -/

theorem isFailure_of_readSlot (h : ev.readSlot id = .error fault) : fault.IsFailure := by
  unfold readSlot at h
  split at h
  case h_1 o ho =>
    cases o with
    | value v => exact absurd h (by simp [Outcome.read])
    | failed cause | skipped cause =>
      obtain rfl := Except.error.inj h
      exact .skip cause
  case h_2 =>
    obtain rfl := Except.error.inj h
    exact .internal _

/-- What a default takes the result of a path for. -/
inductive IsTakenFor : Except Fault Value → Except Fault (Option Value) → Prop where
  | value (v : Value) : IsTakenFor (.ok v) (.ok (some v))
  | absence {fault : Fault} (h : fault.IsAbsence) : IsTakenFor (.error fault) (.ok none)
  | failure {fault : Fault} (h : fault.IsFailure) : IsTakenFor (.error fault) (.error fault)

theorem IsTakenFor.eq_some_iff (h : IsTakenFor r found) : found = .ok (some v) ↔ r = .ok v := by
  cases h <;> simp

theorem IsTakenFor.eq_none_iff (h : IsTakenFor r found) :
    found = .ok none ↔ ∃ fault : Fault, fault.IsAbsence ∧ r = .error fault := by
  cases h with
  | value v => simp
  | absence habsent => exact iff_of_true rfl ⟨_, habsent, rfl⟩
  | failure hfailure =>
    refine iff_of_false (by simp) ?_
    rintro ⟨_, habsent, heq⟩
    exact hfailure.not_isAbsence (Except.error.inj heq ▸ habsent)

theorem IsTakenFor.eq_error_iff (h : IsTakenFor r found) :
    found = .error fault ↔ ¬fault.IsAbsence ∧ r = .error fault := by
  cases h with
  | value v => simp
  | absence habsent =>
    refine iff_of_false (by simp) ?_
    rintro ⟨hnot, heq⟩
    exact hnot (Except.error.inj heq ▸ habsent)
  | failure hfailure =>
    constructor
    · intro heq
      obtain rfl := Except.error.inj heq
      exact ⟨hfailure.not_isAbsence, rfl⟩
    · exact fun h => congrArg _ (Except.error.inj h.2)

theorem IsTakenFor.isAbsence_or_isFailure (h : IsTakenFor (.error fault) found) :
    fault.IsAbsence ∨ fault.IsFailure := by
  cases h with
  | absence h => exact .inl h
  | failure h => exact .inr h

theorem isTakenFor_read (name : String) : IsTakenFor (ev.read name) (ev.probe ⟨name, []⟩) := by
  unfold read probe
  cases ev.scopes.resolve ev.module name with
  | none => exact .absence (.unresolved name)
  | some id =>
    change IsTakenFor (ev.readSlot id) ((ev.readSlot id).map some)
    cases hread : ev.readSlot id with
    | ok v => exact .value v
    | error fault => exact .failure (isFailure_of_readSlot hread)

/-- A path is probed member by member. -/
theorem probe_member (path : Path) (name : String) :
    ev.probe ⟨path.root, path.members ++ [name]⟩ =
      (ev.probe path).map fun found => found.bind (·.member? name) := by
  unfold probe
  cases ev.scopes.resolve ev.module path.root with
  | none => rfl
  | some id =>
    change (ev.readSlot id).map _ = ((ev.readSlot id).map _).map _
    cases ev.readSlot id with
    | error fault => rfl
    | ok v => simp [Except.map, follow, List.foldl_append]

theorem IsTakenFor.member (h : IsTakenFor r found) (name : String) :
    IsTakenFor (r.bind fun v => (v.member name).mapError .error)
      (found.map fun found => found.bind (·.member? name)) := by
  cases h with
  | absence h => exact .absence h
  | failure h => exact .failure h
  | value v =>
    change IsTakenFor ((v.member name).mapError .error) (.ok (v.member? name))
    unfold Value.member
    cases v.member? name with
    | some w => exact .value w
    | none => exact .absence (.missing name _)

/-- A path is evaluated without any call, and is taken for what it is found to be. -/
theorem exists_isTakenFor_of_path (h : t.path? = some path) :
    ∃ r, ev.eval mode t = Evaluation.ofResult r ∧ IsTakenFor r (ev.probe path) := by
  induction t using Expr.path?.induct generalizing path with
  | case1 name =>
    obtain rfl := Option.some.inj h
    exact ⟨_, by rw [eval], isTakenFor_read name⟩
  | case2 target name ih =>
    rw [Expr.path?, Option.map_eq_some_iff] at h
    obtain ⟨inner, hinner, rfl⟩ := h
    obtain ⟨r, hr, hfound⟩ := ih hinner
    refine ⟨r.bind fun v => (v.member name).mapError .error, ?_, ?_⟩
    · rw [eval, hr]
      cases r <;> rfl
    · rw [probe_member]
      exact hfound.member name
  | case3 => exact absurd h (by simp [Expr.path?])

theorem ofResult_inj {r r' : Except Fault Value} :
    Evaluation.ofResult r = Evaluation.ofResult r' ↔ r = r' :=
  ⟨Routine.done.inj, congrArg _⟩

theorem probe_eq_some_iff (h : t.path? = some path) :
    ev.probe path = .ok (some v) ↔ ev.eval mode t = pure v := by
  obtain ⟨r, hr, hfound⟩ := @exists_isTakenFor_of_path ev mode t path h
  rw [hfound.eq_some_iff, hr]
  exact ofResult_inj.symm

theorem probe_eq_none_iff (h : t.path? = some path) : ev.probe path = .ok none ↔
    ∃ fault : Fault, fault.IsAbsence ∧ ev.eval mode t = Evaluation.ofResult (.error fault) := by
  obtain ⟨r, hr, hfound⟩ := @exists_isTakenFor_of_path ev mode t path h
  simp only [hfound.eq_none_iff, hr, ofResult_inj]

theorem probe_eq_error_iff (h : t.path? = some path) : ev.probe path = .error fault ↔
    ¬fault.IsAbsence ∧ ev.eval mode t = Evaluation.ofResult (.error fault) := by
  obtain ⟨r, hr, hfound⟩ := @exists_isTakenFor_of_path ev mode t path h
  rw [hfound.eq_error_iff, hr, ofResult_inj]

/-! ### Falling back -/

/-- What a default makes of what it has found. -/
def orElse (found : Option Value) (fallback : Evaluation Value) : Evaluation Value :=
  match found with
  | some v => if v.isNull then fallback else pure v
  | none => fallback

theorem orElse_of_ne_null {fallback : Evaluation Value} (h : v ≠ .null) :
    orElse (some v) fallback = pure v := by
  cases v with
  | null => exact absurd rfl h
  | _ => rfl

theorem eval_default_of_path (h : t.path? = some path) :
    ev.eval mode (.default t f) =
      Evaluation.ofResult (ev.probe path) >>= fun found => orElse found (ev.eval mode f) := by
  rw [eval, h]
  rfl

theorem eval_default_of_not_path (h : t.path? = none) :
    ev.eval mode (.default t f) =
      ev.eval mode t >>= fun v => orElse (some v) (ev.eval mode f) := by
  rw [eval, h]
  simp only [map_eq_pure_bind, bind_assoc, pure_bind]
  rfl

/-- A default covers a path exactly where nothing is there or it leads to null, and finds this out
without hiding a failure. -/
structure CoversPath (ev : Evaluator) (evaluate : Expr → Evaluation Value) (t : Expr)
    (path : Path) : Prop where
  result : ∃ r, evaluate t = Evaluation.ofResult r ∧
    ∀ fault : Fault, r = .error fault → fault.IsAbsence ∨ fault.IsFailure
  probe_some_iff : ∀ v, ev.probe path = .ok (some v) ↔ evaluate t = pure v
  probe_none_iff : ev.probe path = .ok none ↔
    ∃ fault : Fault, fault.IsAbsence ∧ evaluate t = Evaluation.ofResult (.error fault)
  probe_error_iff : ∀ fault, ev.probe path = .error fault ↔
    ¬fault.IsAbsence ∧ evaluate t = Evaluation.ofResult (.error fault)
  value : ∀ v f, evaluate t = pure v → v ≠ .null → evaluate (.default t f) = pure v
  null : ∀ f, evaluate t = pure .null → evaluate (.default t f) = evaluate f
  absence : ∀ fault f, evaluate t = Evaluation.ofResult (.error fault) → fault.IsAbsence →
    evaluate (.default t f) = evaluate f
  failure : ∀ fault f, evaluate t = Evaluation.ofResult (.error fault) → ¬fault.IsAbsence →
    evaluate (.default t f) = Evaluation.ofResult (.error fault)

theorem coversPath_eval (ev : Evaluator) (mode : Mode) (h : t.path? = some path) :
    ev.CoversPath (ev.eval mode) t path where
  result := by
    obtain ⟨r, hr, hfound⟩ := exists_isTakenFor_of_path h
    refine ⟨r, hr, ?_⟩
    rintro fault rfl
    exact hfound.isAbsence_or_isFailure
  probe_some_iff _ := probe_eq_some_iff h
  probe_none_iff := probe_eq_none_iff h
  probe_error_iff _ := probe_eq_error_iff h
  value v f heval hv := by
    rw [eval_default_of_path h, (probe_eq_some_iff h).mpr heval]
    exact orElse_of_ne_null hv
  null f heval := by
    rw [eval_default_of_path h, (probe_eq_some_iff h).mpr heval]
    rfl
  absence fault f heval habsent := by
    rw [eval_default_of_path h, (probe_eq_none_iff h).mpr ⟨fault, habsent, heval⟩]
    rfl
  failure fault f heval hpresent := by
    rw [eval_default_of_path h, (probe_eq_error_iff h).mpr ⟨hpresent, heval⟩]
    rfl

/-- A default covers a target that is not a path only if that comes to null: with any other value,
and with every fault, the target is all that is evaluated. -/
structure CoversNull (fs : Functions σ) (evaluate : Expr → Evaluation Value) (t : Expr) :
    Prop where
  kept : ∀ f host, ((evaluate t).run.run fs host).result ≠ .ok .null →
    (evaluate (.default t f)).run.run fs host = (evaluate t).run.run fs host ∧
    (evaluate (.default t f)).run.calls fs host = (evaluate t).run.calls fs host
  null : ∀ f host, ((evaluate t).run.run fs host).result = .ok .null →
    let first := (evaluate t).run.run fs host
    let second := (evaluate f).run.run fs first.host
    (evaluate (.default t f)).run.run fs host =
      ⟨second.result, second.host, first.panics ++ second.panics⟩ ∧
    (evaluate (.default t f)).run.calls fs host =
      (evaluate t).run.calls fs host ++ (evaluate f).run.calls fs first.host

theorem run_bind_of_done {fs : Functions σ} {r : Routine (Except Fault Value)}
    {next : Except Fault Value → Routine (Except Fault Value)} {host : σ}
    (h : next (r.run fs host).result = .done (r.run fs host).result) :
    (r.bind next).run fs host = r.run fs host ∧ (r.bind next).calls fs host = r.calls fs host := by
  simp only [Routine.run_bind, Routine.calls_bind, h]
  simp [Routine.run, Routine.calls]

theorem coversNull_eval (ev : Evaluator) (mode : Mode) (fs : Functions σ) (h : t.path? = none) :
    CoversNull fs (ev.eval mode) t := by
  let next (f : Expr) : Except Fault Value → Routine (Except Fault Value)
    | .ok v => (orElse (some v) (ev.eval mode f)).run
    | .error fault => .done (.error fault)
  have hbind : ∀ f, (ev.eval mode (.default t f)).run = (ev.eval mode t).run.bind (next f) := by
    intro f
    rw [eval_default_of_not_path h]
    change (ev.eval mode t).run.bind _ = _
    refine congrArg _ (funext fun r => ?_)
    cases r <;> rfl
  refine ⟨fun f host hresult => ?_, fun f host hresult => ?_⟩
  · rw [hbind]
    refine run_bind_of_done ?_
    cases hr : ((ev.eval mode t).run.run fs host).result with
    | error fault => rfl
    | ok v =>
      have hv : v ≠ .null := fun heq => hresult (heq ▸ hr)
      exact congrArg ExceptT.run (orElse_of_ne_null hv)
  · have hnext : next f ((ev.eval mode t).run.run fs host).result = (ev.eval mode f).run := by
      rw [hresult]
      rfl
    simp only [hbind, Routine.run_bind, Routine.calls_bind, hnext, and_self]

/-- In both evaluators, defaults cover what is absent and nothing else. -/
theorem defaults_cover_absence (ev : Evaluator) (fs : Functions σ) :
    ∀ evaluate ∈ [ev.eval .synchronous, ev.eval .asynchronous, ev.evalAsync],
      (∀ t path, t.path? = some path → ev.CoversPath evaluate t path) ∧
        ∀ t, t.path? = none → CoversNull fs evaluate t := by
  have hmode : ∀ mode, (∀ t path, t.path? = some path → ev.CoversPath (ev.eval mode) t path) ∧
      ∀ t, t.path? = none → CoversNull fs (ev.eval mode) t := fun mode =>
    ⟨fun _ _ => coversPath_eval ev mode, fun _ => coversNull_eval ev mode fs⟩
  have hasync : ev.evalAsync = ev.eval .asynchronous := funext ev.evalAsync_eq
  simp only [List.mem_cons, List.not_mem_nil, or_false, hasync]
  rintro evaluate (rfl | rfl | rfl)
  · exact hmode .synchronous
  · exact hmode .asynchronous
  · exact hmode .asynchronous

end Evaluator

/-- Null has no members, so a default covers what lies behind it. -/
theorem Compilation.exists_default_of_checkout :
    ∃ c t f ev, compile {} .checkout = .ok c ∧
      ev = c.evaluator .echo ⟨[some (.value (.object [("sum", .null)]))]⟩ none ∧
      t = Expr.member (.member (.ident "order") "sum") "tax" ∧ f = Expr.awaitCall "fetch" [t] ∧
      ev.probe ⟨"order", ["sum", "tax"]⟩ = .ok none ∧
      ev.evalAsync t = Evaluation.raise (.missingMember "tax" "null") ∧
      ev.evalAsync (.default t f) = ev.evalAsync f := by
  obtain ⟨c, hc, -⟩ := exists_checkout
  let ev := c.evaluator .echo ⟨[some (.value (.object [("sum", .null)]))]⟩ none
  let t := Expr.member (.member (.ident "order") "sum") "tax"
  have hpath : t.path? = some ⟨"order", ["sum", "tax"]⟩ := rfl
  have hev : ev = ⟨.ofSource .checkout, .ofProgram (.ofSource .checkout),
      ⟨[some (.value (.object [("sum", .null)]))]⟩, none, Functions.echo.convention?⟩ := by
    change Evaluator.mk c.program c.scopes _ _ _ = _
    rw [(valid_of_compile hc).scopes_eq, program_of_compile hc]
  have heval : ev.evalAsync t = Evaluation.raise (.missingMember "tax" "null") := by
    rw [hev]
    rfl
  have hcovers := (ev.defaults_cover_absence .echo ev.evalAsync (by simp)).1 t _ hpath
  exact ⟨c, t, _, ev, hc, rfl, rfl, rfl,
    hcovers.probe_none_iff.mpr ⟨_, .missing _ _, heval⟩, heval,
    hcovers.absence _ _ heval (.missing _ _)⟩

end FormulaEngine
