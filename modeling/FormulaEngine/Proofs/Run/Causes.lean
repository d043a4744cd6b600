import FormulaEngine.Proofs.Eval.Faults
import FormulaEngine.Proofs.Run.Settling
import Mathlib.Data.List.Chain

/-!
# Root causes

A declaration fails by itself or is skipped for the failure of another. A skip is raised only by
reading a slot that holds the failure, and what is read is settled before. So at every moment of a
run the failure can be followed back along the graph, through declarations that were skipped for it,
to the one in which it happened.
-/

namespace FormulaEngine.Compilation

variable {σ : Type} {c : Compilation} {fs : Functions σ} {arguments : List (String × Value)}
  {settled : List (StepId × Declaration)} {s : Slots} {d : DeclId} {x : StepId × Declaration}
  {r : Except Fault Value}

/-- Every failure in the slots stands where it happened, and every skip leads back to its failure:
a dependency holds it, the root has failed by it, and a path from there to the skipped declaration
has only such in between that are skipped for it too. -/
structure HasRootCauses (c : Compilation) (s : Slots) : Prop where
  own : ∀ d failure, s.get? d = some (.failed failure) → failure.declaration = d
  passed : ∀ d cause, s.get? d = some (.skipped cause) →
    ∃ u ∈ c.graph.dependencies d, s.get? u = some (.failed cause) ∨ s.get? u = some (.skipped cause)
  root : ∀ d cause, s.get? d = some (.skipped cause) →
    cause.declaration ∈ c.graph.vertices ∧ s.get? cause.declaration = some (.failed cause)
  path : ∀ d cause, s.get? d = some (.skipped cause) → ∃ between : List DeclId,
    (cause.declaration :: between ++ [d]).IsChain (fun u v => (u, v) ∈ c.graph.edges) ∧
      ∀ u ∈ between, s.get? u = some (.skipped cause)

/-- What depends only on values is never skipped. -/
theorem HasRootCauses.ne_skipped (hs : c.HasRootCauses s)
    (hvalues : ∀ u ∈ c.graph.dependencies d, ∃ v, s.get? u = some (.value v))
    (cause : StepFailure) : s.get? d ≠ some (.skipped cause) := by
  intro hskipped
  obtain ⟨u, hu, hholds⟩ := hs.passed d cause hskipped
  obtain ⟨v, hv⟩ := hvalues u hu
  rw [hv] at hholds
  simp at hholds

/-! ### Settling -/

/-- A skip that is raised by a dependency leads back to the root of it. -/
theorem HasRootCauses.insert_skipped (h : c.Valid) (hs : c.HasRootCauses s)
    {cause : StepFailure} {u : DeclId}
    (hdep : c.program.DependsOn d u) (hholds : s.Holds u cause) :
    (cause.declaration ∈ c.graph.vertices ∧ s.get? cause.declaration = some (.failed cause)) ∧
      ∃ between : List DeclId,
        (cause.declaration :: between ++ [d]).IsChain (fun u v => (u, v) ∈ c.graph.edges) ∧
          ∀ w ∈ between, s.get? w = some (.skipped cause) := by
  rcases hholds with hfailed | hskipped
  · obtain rfl := hs.own u cause hfailed
    refine ⟨⟨?_, hfailed⟩, [], ?_, fun w hw => absurd hw List.not_mem_nil⟩
    · exact h.mem_vertices_iff.mpr (hdep.right_isVertex h.wellFormed)
    · exact List.isChain_pair.mpr (h.mem_edges_iff.mpr hdep)
  · obtain ⟨between, hchain, hbetween⟩ := hs.path u cause hskipped
    refine ⟨hs.root u cause hskipped, between ++ [u], ?_, ?_⟩
    · have hlast : [u, d].IsChain (fun u v => (u, v) ∈ c.graph.edges) :=
        List.isChain_pair.mpr (h.mem_edges_iff.mpr hdep)
      have hjoined := hchain.append_overlap hlast (by simp)
      simpa using hjoined
    · intro w hw
      rcases List.mem_append.mp hw with hw | hw
      · exact hbetween w hw
      · obtain rfl := List.mem_singleton.mp hw
        exact hskipped

theorem HasRootCauses.insert (h : c.Valid) (hs : c.HasRootCauses s) (hempty : s.get? d = none)
    {o : Outcome} (hown : ∀ failure, o = .failed failure → failure.declaration = d)
    (hpassed : ∀ cause, o = .skipped cause → ∃ u, c.program.DependsOn d u ∧ s.Holds u cause) :
    c.HasRootCauses (s.insert d o) := by
  have hkept : ∀ {u o'}, s.get? u = some o' → (s.insert d o).get? u = some o' := fun hu =>
    Slots.get?_insert_of_some hempty hu
  refine ⟨fun e failure he => ?_, fun e cause he => ?_, fun e cause he => ?_,
    fun e cause he => ?_⟩
  all_goals rcases Slots.get?_insert_eq_some he with ⟨rfl, heq⟩ | ⟨-, he⟩
  · exact hown failure heq.symm
  · exact hs.own e failure he
  · obtain ⟨u, hdep, hholds⟩ := hpassed cause heq.symm
    exact ⟨u, h.mem_dependencies_iff.mpr hdep, hholds.imp hkept hkept⟩
  · obtain ⟨u, hu, hholds⟩ := hs.passed e cause he
    exact ⟨u, hu, hholds.imp hkept hkept⟩
  · obtain ⟨u, hdep, hholds⟩ := hpassed cause heq.symm
    obtain ⟨⟨hvertex, hfailed⟩, -⟩ := hs.insert_skipped h hdep hholds
    exact ⟨hvertex, hkept hfailed⟩
  · obtain ⟨hvertex, hfailed⟩ := hs.root e cause he
    exact ⟨hvertex, hkept hfailed⟩
  · obtain ⟨u, hdep, hholds⟩ := hpassed cause heq.symm
    obtain ⟨-, between, hchain, hbetween⟩ := hs.insert_skipped h hdep hholds
    exact ⟨between, hchain, fun w hw => hkept (hbetween w hw)⟩
  · obtain ⟨between, hchain, hbetween⟩ := hs.path e cause he
    exact ⟨between, hchain, fun w hw => hkept (hbetween w hw)⟩

/-- A step is skipped only for a failure that one of its dependencies holds. -/
theorem ComesTo.exists_holds (h : c.Valid) (hx : c.ComesTo fs settled s x r) {cause : StepFailure}
    (hskip : r = .error (.skip cause)) : ∃ u, c.program.DependsOn x.2.id u ∧ s.Holds u cause := by
  obtain ⟨hd, hvertex⟩ := hx.declaration? h
  obtain ⟨u, hreads, hholds⟩ := Evaluator.exists_reads_of_ends_skip
    (fun expr exported hkind operand hoperand => ⟨rfl, h.isCall_of_await hd hkind hoperand⟩)
    (fun path kind hkind => h.path_length hd hkind) (hskip ▸ hx.ends)
  rcases hreads.dependsOn_or_global h.wellFormed h.scopes_eq rfl hd hvertex with
    hdep | ⟨e, he, hglobal⟩
  · exact ⟨u, hdep, hholds⟩
  · obtain ⟨v, hv⟩ := hx.global u e he hglobal
    have hslot : s.Holds u cause := hholds
    simp [Slots.Holds, hv] at hslot

/-! ### Runs -/

/-- The slots are what the journal tells, and have had root causes all along. -/
structure TracesCauses (c : Compilation) (arguments : List (String × Value)) (pr : Progress σ) :
    Prop where
  replay : pr.slots = (c.seed arguments).replay pr.journal
  always : Slots.Always c.HasRootCauses (c.seed arguments) pr.journal

theorem TracesCauses.hasRootCauses {pr : Progress σ} (hpr : c.TracesCauses arguments pr) :
    c.HasRootCauses pr.slots := by
  rw [hpr.replay]
  exact hpr.always.replay

theorem TracesCauses.concat {pr pr' : Progress σ} {e : Entry} (hpr : c.TracesCauses arguments pr)
    (hslots : pr'.slots = pr.slots.after e) (hjournal : pr'.journal = pr.journal ++ [e])
    (hroots : c.HasRootCauses pr'.slots) : c.TracesCauses arguments pr' := by
  have hafter : ((c.seed arguments).replay pr.journal).after e = pr'.slots := by
    rw [← hpr.replay, hslots]
  constructor
  · rw [hjournal, Slots.replay_append]
    exact hafter.symm
  · rw [hjournal]
    apply hpr.always.concat
    rw [hafter]
    exact hroots

theorem Valid.keeps_tracesCauses (h : c.Valid) (fs : Functions σ)
    (arguments : List (String × Value)) :
    c.KeepsEach fs (fun _ pr => c.TracesCauses arguments pr) where
  note {settled pr e} hquiet hpr := by
    have hslots : pr.slots = pr.slots.after e := by
      cases hquiet with
      | mark hmark => cases hmark <;> rfl
      | _ => rfl
    exact hpr.concat hslots rfl hpr.hasRootCauses
  host _ hpr := ⟨hpr.replay, hpr.always⟩
  settle {settled pr x r} hx hpr := by
    refine hpr.concat rfl rfl (hpr.hasRootCauses.insert h hx.empty (fun failure heq => ?_)
      fun cause heq => ?_)
    · obtain ⟨e, -, rfl⟩ := Outcome.settle_eq_failed_iff.mp heq
      rfl
    · exact hx.exists_holds h (Outcome.settle_eq_skipped_iff.mp heq)

theorem tracesCauses_start (host : σ) : c.TracesCauses arguments (c.start arguments host) := by
  have hquiet : ∀ e ∈ (c.start arguments host).journal, ∀ step id o,
      e ≠ .stepSettled step id o := by
    rintro e he step id o rfl
    obtain ⟨name, heq⟩ := exists_ignoredArgument_of_mem_start he
    cases heq
  have hseed : c.HasRootCauses (c.seed arguments) := by
    refine ⟨fun d failure hd => ?_, fun d cause hd => ?_, fun d cause hd => ?_,
      fun d cause hd => ?_⟩
    all_goals
      obtain ⟨v, hv⟩ := exists_value_of_get?_seed hd
      cases hv
  refine ⟨(Slots.replay_of_forall hquiet).symm, fun before hbefore => ?_⟩
  rw [Slots.replay_of_forall fun e he => hquiet e (hbefore.subset he)]
  exact hseed

theorem Valid.hasRootCauses_runPlan (h : c.Valid) (fs : Functions σ)
    (arguments : List (String × Value)) (host : σ) :
    c.HasRootCauses (c.runPlan fs arguments host).slots := by
  obtain ⟨_, -, hend, -⟩ := (h.keeps_tracesCauses fs arguments).runPlan h (tracesCauses_start host)
  exact hend.hasRootCauses

/-- At every moment of a run a failure stands in the slot in which it happened, and a skip leads
back along the graph to such a failure, through nothing but skips for it. So a declaration is never
skipped while all that it depends on have values. -/
theorem hasRootCauses_at_every_moment {settings : Settings} {source : ProgramSource}
    (h : compile settings source = .ok c) (fs : Functions σ) (arguments : List (String × Value))
    (host : σ) :
    (c.runPlan fs arguments host).slots =
      (c.seed arguments).replay (c.runPlan fs arguments host).journal ∧
    ∀ before, before <+: (c.runPlan fs arguments host).journal →
      c.HasRootCauses ((c.seed arguments).replay before) ∧
      ∀ d, (∀ u ∈ c.graph.dependencies d,
          ∃ v, ((c.seed arguments).replay before).get? u = some (.value v)) →
        ∀ cause, ((c.seed arguments).replay before).get? d ≠ some (.skipped cause) := by
  have hvalid := valid_of_compile h
  obtain ⟨settled, -, hend, -⟩ := (hvalid.keeps_tracesCauses fs arguments).runPlan hvalid
    (tracesCauses_start host)
  refine ⟨hend.replay, fun before hbefore => ?_⟩
  have hroots := hend.always before hbefore
  exact ⟨hroots, fun d hvalues => hroots.ne_skipped hvalues⟩

/-- Without host functions the awaited call in the checkout fails, and what reads it is skipped. -/
theorem exists_root_of_skip_in_checkout :
    ∃ c d cause, compile {} .checkout = .ok c ∧
      (c.runPlan (.empty : Functions Unit) [] ()).slots.get? d = some (.skipped cause) ∧
      (c.runPlan (.empty : Functions Unit) [] ()).slots.get? cause.declaration =
        some (.failed cause) := by
  have hkind : ((compile {} .checkout).toOption.bind fun c =>
      ((c.runPlan (.empty : Functions Unit) [] ()).slots.get? 5).bind fun o =>
        (FormulaError.ofOutcome? c.program .trace 5 o).map (·.kind)) = some .skipped := by
    decide +kernel
  obtain ⟨c, hc, -⟩ := exists_checkout
  obtain ⟨hreplay, hroots⟩ :=
    hasRootCauses_at_every_moment hc (.empty : Functions Unit) [] ()
  obtain ⟨hend, -⟩ := hroots _ List.prefix_rfl
  rw [← hreplay] at hend
  rw [hc, Except.toOption, Option.bind_some] at hkind
  obtain ⟨o, ho, hkind⟩ := Option.bind_eq_some_iff.mp hkind
  obtain ⟨e, he, hkind⟩ := Option.map_eq_some_iff.mp hkind
  obtain ⟨d, -, he⟩ := Option.bind_eq_some_iff.mp he
  cases o with
  | value v => cases he
  | failed failure =>
    obtain rfl := Option.some.inj he
    cases hkind
  | skipped cause => exact ⟨c, 5, cause, hc, ho, (hend.root 5 cause ho).2⟩

end FormulaEngine.Compilation
