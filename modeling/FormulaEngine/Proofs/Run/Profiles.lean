import FormulaEngine.Proofs.Run.Causes
import FormulaEngine.Proofs.Run.Solution

/-!
# Profiles

A profile says how much of a run is in its result. Against a steady host the profiles see one run:
tracing leaves out the causes of errors, and stopping at the first failure leaves all out but this
failure. A run that stops so never skips anything, as whatever it has settled before has a value.
-/

namespace FormulaEngine

/-- A declaration has an outcome, but not a value. -/
def Slots.lacksValue (s : Slots) (id : DeclId) : Bool := (s.get? id).any fun o => !o.isValue

/-- An error of which only the message is kept. -/
def FormulaError.withoutCause (e : FormulaError) : FormulaError := { e with cause := none }

/-- The results of a program under the verbose, the trace and the minimal profile are views of one
run. -/
structure ProgramResult.AreViews (verbose trace minimal : ProgramResult) : Prop where
  errors : trace.errors = verbose.errors.map FormulaError.withoutCause
  success : verbose.errors = [] → trace = verbose ∧ minimal = verbose
  modules : verbose.errors ≠ [] → trace.modules = [] ∧ minimal.modules = []
  first : verbose.errors ≠ [] →
    ∃ e, trace.errors.head? = some e ∧ minimal.errors = [e] ∧ e.kind = .runtime

namespace Compilation

variable {σ : Type} {c : Compilation} {fs : Functions σ} {arguments : List (String × Value)}
  {settled : List (StepId × Declaration)} {pr : Progress σ} {s : Slots}
  {x : StepId × Declaration} {r : Except Fault Value}

theorem failFast_eq_false (hprofile : c.profile = .trace ∨ c.profile = .verbose) :
    c.failFast = false := by
  rcases hprofile with hprofile | hprofile <;> simp [failFast, hprofile, Profile.containsFailures]

/-! ### What is skipped -/

/-- No step of a run so far was skipped. -/
structure SkipsNothing (pr : Progress σ) : Prop where
  slots : ∀ id cause, pr.slots.get? id ≠ some (.skipped cause)
  journal : ∀ step id cause, .stepSettled step id (.skipped cause) ∉ pr.journal

/-- As long as a run goes on that ends with its first failure, all that is read has values. -/
theorem ComesTo.ne_skipped (h : c.Valid) (hfast : c.failFast)
    (hx : c.ComesTo fs settled s x r) (cause : StepFailure) :
    Outcome.settle x.2.id r ≠ .skipped cause := by
  intro hskipped
  obtain ⟨u, hdep, hholds⟩ := hx.exists_holds h (Outcome.settle_eq_skipped_iff.mp hskipped)
  obtain ⟨o, ho, hvalue⟩ := hx.reads u hdep
  have hvalue := hvalue hfast
  rcases hholds with hholds | hholds
  all_goals
    obtain rfl := Option.some.inj (ho.symm.trans hholds)
    exact absurd hvalue (by simp [Outcome.isValue, Outcome.value?])

theorem Valid.keeps_skipsNothing (h : c.Valid) (hfast : c.failFast) (fs : Functions σ) :
    c.KeepsEach fs (fun _ pr => SkipsNothing pr) where
  note {settled pr e} hquiet hpr := by
    refine ⟨hpr.slots, fun step id cause hmem => ?_⟩
    rcases List.mem_append.mp hmem with hmem | hmem
    · exact hpr.journal step id cause hmem
    · exact hquiet.ne_stepSettled step id _ (List.mem_singleton.mp hmem).symm
  host _ hpr := ⟨hpr.slots, hpr.journal⟩
  settle {settled pr x r} hx hpr := by
    refine ⟨fun id cause hid => ?_, fun step id cause hmem => ?_⟩
    · rcases Slots.get?_insert_eq_some hid with ⟨-, heq⟩ | ⟨-, hid⟩
      · exact hx.ne_skipped h hfast cause heq.symm
      · exact hpr.slots id cause hid
    · rcases List.mem_append.mp hmem with hmem | hmem
      · exact hpr.journal step id cause hmem
      · obtain ⟨-, -, heq⟩ := Entry.stepSettled.inj (List.mem_singleton.mp hmem)
        exact hx.ne_skipped h hfast cause heq.symm

theorem Valid.skipsNothing_runPlan (h : c.Valid) (hfast : c.failFast) (fs : Functions σ)
    (arguments : List (String × Value)) (host : σ) :
    SkipsNothing (c.runPlan fs arguments host) := by
  have hstart : SkipsNothing (c.start arguments host) := by
    refine ⟨fun id cause hid => ?_, fun step id cause hmem => ?_⟩
    · obtain ⟨v, hv⟩ := exists_value_of_get?_seed hid
      cases hv
    · obtain ⟨name, heq⟩ := exists_ignoredArgument_of_mem_start hmem
      cases heq
  obtain ⟨_, -, hend, -⟩ := (h.keeps_skipsNothing hfast fs).runPlan h hstart
  exact hend

/-! ### What is recorded -/

/-- The steps that ended without a value, in the order in which they were settled. -/
def failuresOf (settled : List (StepId × Declaration)) (s : Slots) : List DeclId :=
  (idsOf settled).filter s.lacksValue

theorem failuresOf_insert (hnew : x.2.id ∉ idsOf settled) {o : Outcome} :
    failuresOf (settled ++ [x]) (s.insert x.2.id o) =
      failuresOf settled s ++ if o.isValue then [] else [x.2.id] := by
  have hsettled : (idsOf settled).filter (s.insert x.2.id o).lacksValue =
      (idsOf settled).filter s.lacksValue := by
    apply List.filter_congr
    intro id hid
    have hne : id ≠ x.2.id := fun heq => hnew (heq ▸ hid)
    rw [Slots.lacksValue, Slots.lacksValue, Slots.get?_insert_of_ne s hne]
  have hx : (s.insert x.2.id o).lacksValue x.2.id = !o.isValue := by
    rw [Slots.lacksValue, Slots.get?_insert_self, Option.any_some]
  rw [failuresOf, idsOf_append, List.filter_append, hsettled, failuresOf]
  cases hvalue : o.isValue <;> simp [idsOf, hx, hvalue]

/-- All failures are recorded, or only the first one, with which the run ends. -/
structure RecordsFailures (c : Compilation) (settled : List (StepId × Declaration))
    (pr : Progress σ) : Prop where
  recorded : pr.recorded = if c.failFast then (failuresOf settled pr.slots).take 1
    else failuresOf settled pr.slots
  stopped : pr.stopped = (c.failFast && !(failuresOf settled pr.slots).isEmpty)

/-- What `record` adds to the failures that are recorded so far. -/
theorem record_eq {failures recorded : List DeclId} {id : DeclId} {o : Outcome}
    (hrecorded : recorded = if c.failFast then failures.take 1 else failures)
    (hskipped : c.failFast → ∀ cause, o ≠ .skipped cause) :
    Progress.record c.failFast recorded id o =
      if c.failFast then (failures ++ if o.isValue then [] else [id]).take 1
      else failures ++ if o.isValue then [] else [id] := by
  subst hrecorded
  cases o with
  | value v => simp [Progress.record, Outcome.isValue, Outcome.value?]
  | failed failure =>
    cases hfast : c.failFast <;> cases failures <;>
      simp [Progress.record, Outcome.isValue, Outcome.value?]
  | skipped cause =>
    cases hfast : c.failFast with
    | true => exact absurd rfl (hskipped hfast cause)
    | false => simp [Progress.record, Outcome.isValue, Outcome.value?]

theorem Valid.keeps_recordsFailures (h : c.Valid) (fs : Functions σ) :
    c.KeepsEach fs (fun settled pr => c.RecordsFailures settled pr) where
  note _ hpr := ⟨hpr.recorded, hpr.stopped⟩
  host _ hpr := ⟨hpr.recorded, hpr.stopped⟩
  settle {settled pr x r} hx hpr := by
    have hfailures : failuresOf (settled ++ [x]) (pr.settle c.failFast x.1 x.2.id r).slots =
        failuresOf settled pr.slots ++
          if (Outcome.settle x.2.id r).isValue then [] else [x.2.id] :=
      failuresOf_insert (hx.not_mem h)
    constructor
    · rw [hfailures]
      exact record_eq hpr.recorded fun hfast => hx.ne_skipped h hfast
    · rw [hfailures, Progress.settle, hpr.stopped]
      cases c.failFast <;> cases (Outcome.settle x.2.id r).isValue <;> simp

/-! ### What is reported -/

/-- The failures of a solution that a run records, and what it has of them in its slots. -/
structure Reports (c : Compilation) (s : Slots) (pr : Progress σ) : Prop where
  recorded : pr.recorded = if c.failFast then (failuresOf c.schedule s).take 1
    else failuresOf c.schedule s
  slots : ∀ id ∈ pr.recorded, pr.slots.get? id = s.get? id
  whole : c.failFast = false ∨ failuresOf c.schedule s = [] → pr.slots = s

/-- What a run has settled without a value so far, a solution has without a value too. -/
theorem SolvesOn.failuresOf_eq (h : c.Valid) {s' : Slots}
    (hs : c.SolvesOn fs arguments (idsOf settled) s') (hs' : c.Solves fs arguments s) (host : σ)
    (hsettled : settled <+: c.schedule) : failuresOf settled s' = failuresOf settled s ∧
      ∀ id ∈ failuresOf settled s, s'.get? id = s.get? id := by
  have hslots : ∀ id ∈ idsOf settled, s'.get? id = s.get? id := by
    intro id hid
    have hmem : id ∈ idsOf c.schedule := (List.IsPrefix.map _ hsettled).subset hid
    exact (hs.get?_eq h hs' host hid (h.mem_idsOf_schedule_iff.mp hmem)).symm
  refine ⟨List.filter_congr fun id hid => ?_, fun id hid => hslots id (List.mem_of_mem_filter hid)⟩
  rw [Slots.lacksValue, Slots.lacksValue, hslots id hid]

theorem Valid.reports_runPlan (h : c.Valid) (hfs : fs.IsSteady) (hs : c.Solves fs arguments s)
    (host : σ) : c.Reports s (c.runPlan fs arguments host) := by
  have hrecords : c.RecordsFailures [] (c.start arguments host) := by
    constructor <;> simp [start, failuresOf, idsOf]
  have hsolves : c.SolvesOn fs arguments (idsOf []) (c.start arguments host).slots := solvesOn_seed
  obtain ⟨settled, hsettled, ⟨⟨hrecorded, hstopped⟩, hsolves⟩, -, hall⟩ :=
    ((h.keeps_recordsFailures fs).and (h.keeps_solvesOn hfs arguments)).runPlan h
      ⟨hrecords, hsolves⟩
  obtain ⟨hfailures, hslots⟩ := hsolves.failuresOf_eq h hs host hsettled
  rw [hfailures] at hrecorded hstopped
  have hsplit : ∃ later, failuresOf c.schedule s = failuresOf settled s ++ later := by
    obtain ⟨rest, hrest⟩ := hsettled
    refine ⟨failuresOf rest s, ?_⟩
    rw [← hrest, failuresOf, idsOf_append, List.filter_append]
    rfl
  obtain ⟨later, hsplit⟩ := hsplit
  -- Unless it has stopped at a failure, the run has settled everything.
  have hend : c.failFast = false ∨ failuresOf settled s = [] → settled = c.schedule := by
    intro hrunning
    apply hall
    rcases hrunning with hfast | hnone
    · simp [hstopped, hfast]
    · simp [hstopped, hnone]
  refine ⟨?_, fun id hid => hslots id ?_, fun hrunning => ?_⟩
  · rw [hrecorded]
    cases hfast : c.failFast with
    | false => rw [hend (.inl hfast)]
    | true =>
      cases hnone : failuresOf settled s with
      | nil => rw [← hend (.inr hnone), hnone]
      | cons id others => simp [hsplit, hnone]
  · rw [hrecorded] at hid
    split at hid
    · exact List.mem_of_mem_take hid
    · exact hid
  · have hnone : c.failFast = false ∨ failuresOf settled s = [] := by
      refine hrunning.imp_right fun hnone => ?_
      rw [hsplit] at hnone
      exact (List.append_eq_nil_iff.mp hnone).1
    obtain rfl := hend hnone
    exact hs.eq h (hsolves.solves fun id d hd hvertex =>
      h.mem_idsOf_schedule_iff.mpr ⟨d, hd, hvertex⟩) host

/-! ### Results -/

/-- The errors of declarations, as they are by a profile. -/
def errorsOf (c : Compilation) (profile : Profile) (s : Slots) (ids : List DeclId) :
    List FormulaError :=
  ids.filterMap fun id => (s.get? id).bind (FormulaError.ofOutcome? c.program profile id)

theorem Reports.errors_eq (hpr : c.Reports s pr) :
    (c.resultOf pr).errors = c.errorsOf c.profile s (if c.failFast then
      (failuresOf c.schedule s).take 1 else failuresOf c.schedule s) := by
  rw [← hpr.recorded]
  apply List.filterMap_congr
  intro id hid
  rw [hpr.slots id hid]

/-- Without failures the result is the same by any profile. -/
theorem Reports.result_eq (hpr : c.Reports s pr) (hnone : failuresOf c.schedule s = [])
    (profile : Profile) : c.resultOf pr = .collect c.program profile s [] := by
  have hrecorded := hpr.recorded
  rw [hnone, List.take_nil, ite_self] at hrecorded
  rw [resultOf, hrecorded, hpr.whole (.inr hnone)]
  rfl

theorem modules_eq_nil (hprofile : c.profile.returnsPartialResults = false)
    (herrors : (c.resultOf pr).errors ≠ []) : (c.resultOf pr).modules = [] := by
  have hsome : (c.resultOf pr).errors.isEmpty = false := by simpa using herrors
  apply if_neg
  rw [hprofile, Bool.or_false]
  exact fun hempty => absurd (hsome.symm.trans hempty) (by simp)

theorem errorsOf_trace (ids : List DeclId) :
    c.errorsOf .trace s ids = (c.errorsOf .verbose s ids).map FormulaError.withoutCause := by
  rw [errorsOf, errorsOf, List.map_filterMap]
  apply List.filterMap_congr
  intro id _
  cases s.get? id with
  | none => rfl
  | some o =>
    rw [Option.bind_some, Option.bind_some]
    unfold FormulaError.ofOutcome?
    cases c.program.declaration? id with
    | none => rfl
    | some d => cases o <;> rfl

/-- Each failure of a vertex is an error, and one of its own unless it was skipped. -/
theorem exists_error_of_lacksValue (profile : Profile) {id : DeclId} {d : Declaration}
    (hd : c.program.declaration? id = some d) (hid : s.lacksValue id) :
    ∃ e, (s.get? id).bind (FormulaError.ofOutcome? c.program profile id) = some e ∧
      ((∀ cause, s.get? id ≠ some (.skipped cause)) → e.kind = .runtime) := by
  obtain ⟨o, ho, hvalue⟩ := (Option.any_eq_true ..).mp hid
  rw [ho, Option.bind_some]
  unfold FormulaError.ofOutcome?
  rw [hd]
  cases o with
  | value v => simp [Outcome.isValue, Outcome.value?] at hvalue
  | failed failure => exact ⟨_, rfl, fun _ => rfl⟩
  | skipped cause => exact ⟨_, rfl, fun hne => absurd rfl (hne cause)⟩

/-- A run that ends with its first failure has this failure as its only error. -/
theorem Reports.exists_only_error (h : c.Valid) (hfast : c.failFast) (hpr : c.Reports s pr)
    (hskips : SkipsNothing pr) (hsome : failuresOf c.schedule s ≠ []) :
    ∃ e, (c.resultOf pr).errors = [e] ∧ e.kind = .runtime ∧
      (c.errorsOf c.profile s (failuresOf c.schedule s)).head? = some e := by
  obtain ⟨first, others, hfailures⟩ := List.exists_cons_of_ne_nil hsome
  have hfirst : first ∈ failuresOf c.schedule s := by simp [hfailures]
  obtain ⟨hmem, hlacks⟩ := List.mem_filter.mp hfirst
  obtain ⟨d, hd, -⟩ := h.mem_idsOf_schedule_iff.mp hmem
  obtain ⟨e, he, hkind⟩ := exists_error_of_lacksValue c.profile hd hlacks
  refine ⟨e, ?_, hkind fun cause hskipped => ?_, ?_⟩
  · rw [hpr.errors_eq, if_pos hfast, hfailures]
    simp [errorsOf, he]
  · have hrecorded : first ∈ pr.recorded := by simp [hpr.recorded, hfast, hfailures]
    exact hskips.slots first cause ((hpr.slots first hrecorded).trans hskipped)
  · simp [errorsOf, hfailures, he]

theorem Solves.withSettings (hs : c.Solves fs arguments s) (settings : Settings) :
    (c.withSettings settings).Solves fs arguments s :=
  ⟨hs.size, hs.argument, hs.constant, hs.vertex⟩

/-- Runs by the three profiles that report one solution have results that are views of it. -/
theorem areViews_of_reports {settings : Settings} {verbose trace minimal : Progress σ}
    (h : (c.withSettings (settings.withProfile .minimal)).Valid)
    (hverbose : (c.withSettings (settings.withProfile .verbose)).Reports s verbose)
    (htrace : (c.withSettings (settings.withProfile .trace)).Reports s trace)
    (hminimal : (c.withSettings (settings.withProfile .minimal)).Reports s minimal)
    (hskips : SkipsNothing minimal) :
    ProgramResult.AreViews ((c.withSettings (settings.withProfile .verbose)).resultOf verbose)
      ((c.withSettings (settings.withProfile .trace)).resultOf trace)
      ((c.withSettings (settings.withProfile .minimal)).resultOf minimal) := by
  have hmap : ((c.withSettings (settings.withProfile .trace)).resultOf trace).errors =
      ((c.withSettings (settings.withProfile .verbose)).resultOf verbose).errors.map
        FormulaError.withoutCause := by
    rw [hverbose.errors_eq, htrace.errors_eq]
    exact errorsOf_trace _
  by_cases hfailures : failuresOf (c.withSettings (settings.withProfile .minimal)).schedule s = []
  · have hsuccess := hverbose.result_eq hfailures .verbose
    have htrace' := htrace.result_eq hfailures .verbose
    have hminimal' := hminimal.result_eq hfailures .verbose
    have hnone : ((c.withSettings (settings.withProfile .verbose)).resultOf verbose).errors = [] :=
      congrArg ProgramResult.errors hsuccess
    refine ⟨hmap, fun _ => ?_, fun hsome => absurd hnone hsome, fun hsome => absurd hnone hsome⟩
    exact ⟨htrace'.trans hsuccess.symm, hminimal'.trans hsuccess.symm⟩
  · obtain ⟨e, hone, hkind, hhead⟩ := hminimal.exists_only_error h rfl hskips hfailures
    have hfirst := (congrArg List.head? htrace.errors_eq).trans hhead
    have htraced : ((c.withSettings (settings.withProfile .trace)).resultOf trace).errors ≠ [] := by
      intro hnone
      rw [hnone] at hfirst
      cases hfirst
    have hmodules := modules_eq_nil rfl htraced
    have hmodules' := @modules_eq_nil _ (c.withSettings (settings.withProfile .minimal)) minimal rfl
      (by simp [hone])
    refine ⟨hmap, fun hnone => absurd ?_ htraced, fun _ => ⟨hmodules, hmodules'⟩,
      fun _ => ⟨e, hfirst, hone, hkind⟩⟩
    rw [hmap, hnone]
    rfl

/-- Against a steady host the results by the three profiles are views of one run, and a run that
stops at its first failure skips nothing. -/
theorem results_are_views {settings : Settings} {source : ProgramSource}
    (h : compile settings source = .ok c) (hfs : fs.IsSteady) (arguments : List (String × Value))
    (host host' host'' : σ) :
    ∃ verbose trace minimal,
      compile (settings.withProfile .verbose) source = .ok verbose ∧
      compile (settings.withProfile .trace) source = .ok trace ∧
      compile (settings.withProfile .minimal) source = .ok minimal ∧
      ProgramResult.AreViews (verbose.evaluate fs arguments host)
        (trace.evaluate fs arguments host') (minimal.evaluate fs arguments host'') ∧
      ∀ step id cause, .stepSettled step id (.skipped cause) ∉
        (minimal.runPlan fs arguments host'').journal := by
  have hcompile := fun profile => compile_withSettings h (settings.withProfile profile)
  have hvalid := fun profile => valid_of_compile (hcompile profile)
  have hs := (hvalid .verbose).solves_runPlan rfl hfs arguments host
  have hreports := fun profile => (hvalid profile).reports_runPlan hfs
    (hs.withSettings (settings.withProfile profile))
  have hskips := (hvalid .minimal).skipsNothing_runPlan rfl fs arguments host''
  refine ⟨_, _, _, hcompile .verbose, hcompile .trace, hcompile .minimal, ?_, hskips.journal⟩
  exact areViews_of_reports (hvalid .minimal) (hreports .verbose host) (hreports .trace host')
    (hreports .minimal host'') hskips

/-- Without host functions the checkout fails by every profile. -/
theorem exists_views_of_checkout :
    ∃ verbose trace minimal : Compilation,
      compile (({} : Settings).withProfile .minimal) .checkout = .ok minimal ∧
      (minimal.evaluate (.empty : Functions Unit) [] ()).errors ≠ [] ∧
      ProgramResult.AreViews (verbose.evaluate (.empty : Functions Unit) [] ())
        (trace.evaluate (.empty : Functions Unit) [] ())
        (minimal.evaluate (.empty : Functions Unit) [] ()) := by
  have herrors : (compile (({} : Settings).withProfile .minimal) .checkout).toOption.any (fun c =>
      !(c.evaluate (.empty : Functions Unit) [] ()).errors.isEmpty) := by decide +kernel
  obtain ⟨c, hc, -⟩ := exists_checkout
  obtain ⟨verbose, trace, minimal, -, -, hminimal, hviews, -⟩ :=
    results_are_views hc (@Functions.isSteady_empty Unit) [] () () ()
  rw [hminimal] at herrors
  exact ⟨verbose, trace, minimal, hminimal, by simpa [Except.toOption] using herrors, hviews⟩

end Compilation

end FormulaEngine
