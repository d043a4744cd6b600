import FormulaEngine.Proofs.Eval.Likeness
import FormulaEngine.Proofs.Program.Rearrangements
import FormulaEngine.Proofs.Run.Parts

/-!
# The order of declaration

The order in which a source lists its parts numbers the declarations anew, and with them come other
scopes, layers, steps and groups. What a declaration evaluates to stays the same: its value, or that
it fails, or that it is skipped, though perhaps for another failure.
-/

namespace FormulaEngine

/-- How an outcome is reported, unless it is a value. -/
def Outcome.errorKind? : Outcome → Option ErrorKind
  | .value _ => none
  | .failed _ => some .runtime
  | .skipped _ => some .skipped

theorem Outcome.IsLike.errorKind?_eq {o o' : Outcome} (h : o.IsLike o') :
    o.errorKind? = o'.errorKind? := by
  cases h <;> rfl

namespace Compilation

variable {σ : Type} {c c' : Compilation} {fs : Functions σ} {arguments : List (String × Value)}
  {s s' : Slots} {u u' v v' : DeclId} {d d' : Declaration} {pr pr' : Progress σ}

/-- Two declarations have outcomes that are alike. -/
def AreLike (s s' : Slots) (u u' : DeclId) : Prop :=
  ∃ o o', s.get? u = some o ∧ s'.get? u' = some o' ∧ o.IsLike o'

namespace AreLike

theorem symm (h : AreLike s s' u u') : AreLike s' s u' u := by
  obtain ⟨o, o', ho, ho', hlike⟩ := h
  exact ⟨o', o, ho', ho, hlike.symm⟩

theorem get?_eq_value {v : Value} (h : AreLike s s' u u') (hv : s.get? u = some (.value v)) :
    s'.get? u' = some (.value v) := by
  obtain ⟨o, o', ho, ho', hlike⟩ := h
  obtain rfl := Option.some.inj (ho.symm.trans hv)
  cases hlike
  exact ho'

theorem readSlot (h : AreLike s s' u u') (module module' : Option ModuleId) :
    SameButCause ((c.evaluator fs s module).readSlot u)
      ((c'.evaluator fs s' module').readSlot u') := by
  obtain ⟨o, o', ho, ho', hlike⟩ := h
  have hget : (c.evaluator fs s module).slots.get? u = some o := ho
  have hget' : (c'.evaluator fs s' module').slots.get? u' = some o' := ho'
  rw [Evaluator.readSlot, Evaluator.readSlot, hget, hget']
  exact hlike.read

theorem shown_eq (h : AreLike s s' u u') : Program.shown s u = Program.shown s' u' := by
  obtain ⟨o, o', ho, ho', hlike⟩ := h
  rw [Program.shown, Program.shown, ho, ho', Option.bind_some, Option.bind_some, hlike.value?_eq]

theorem lacksValue_eq (h : AreLike s s' u u') : s.lacksValue u = s'.lacksValue u' := by
  obtain ⟨o, o', ho, ho', hlike⟩ := h
  rw [Slots.lacksValue, Slots.lacksValue, ho, ho', Option.any_some, Option.any_some,
    Outcome.isValue, Outcome.isValue, hlike.value?_eq]

end AreLike

/-! ### Slots -/

/-- An import of a module has the same value in both orders, or is skipped in both. -/
theorem IsPartOf.sameButCause_readExports (h : c.IsPartOf c') {m m' : ProgramModule}
    (hm : c.program.module? m.id = some m) (hm' : c'.program.module? m'.id = some m')
    (hname : m.name = m'.name)
    (hlike : ∀ u ∈ c.program.exportedFormulas m.id, ∀ u', c.program.Twins c'.program u u' →
      AreLike s s' u u') (module module' : Option ModuleId) :
    SameButCause ((c.evaluator fs s module).readExports m)
      ((c'.evaluator fs s' module').readExports m') := by
  have hp := h.part.wellFormed
  have hp' := h.whole.wellFormed
  have hright : ∀ u ∈ c.program.exportedFormulas m.id, ∃ u' ∈ c'.program.exportedFormulas m'.id,
      AreLike s s' u u' := by
    intro u hu
    obtain ⟨u', hu', htwins⟩ := h.program.exists_export_right hp hp' hm hm' hname hu
    exact ⟨u', hu', hlike u hu u' htwins⟩
  have hleft : ∀ u' ∈ c'.program.exportedFormulas m'.id, ∃ u ∈ c.program.exportedFormulas m.id,
      AreLike s s' u u' := by
    intro u' hu'
    obtain ⟨u, hu, htwins⟩ := h.program.exists_export_left hp hp' hm hm' hname hu'
    exact ⟨u, hu, hlike u hu u' htwins⟩
  by_cases hvalues : ∀ u ∈ c.program.exportedFormulas m.id, ∃ v, s.get? u = some (.value v)
  · have hvalues' : ∀ u' ∈ c'.program.exportedFormulas m'.id,
        ∃ v, s'.get? u' = some (.value v) := by
      intro u' hu'
      obtain ⟨u, hu, halike⟩ := hleft u' hu'
      obtain ⟨v, hv⟩ := hvalues u hu
      exact ⟨v, halike.get?_eq_value hv⟩
    have hread := (c.evaluator fs s module).readExports_of_values hp hm hvalues
    have hread' := (c'.evaluator fs s' module').readExports_of_values hp' hm' hvalues'
    have hexports := h.program.exportsOf_eq hp hp' hm hm' hname (h.part.nodup_exports _)
      (h.whole.nodup_exports _) fun u u' hu htwins => (hlike u hu u' htwins).shown_eq
    have hsame : (c.evaluator fs s module).readExports m =
        (c'.evaluator fs s' module').readExports m' :=
      hread.trans ((congrArg (fun fields => Except.ok (Value.object fields)) hexports).trans
        hread'.symm)
    rw [hsame]
    exact .same _
  · -- Whichever export is the first without a value, there is one in both programs.
    obtain ⟨u, hlacking⟩ := not_forall.mp hvalues
    obtain ⟨hu, hnone⟩ := Classical.not_imp.mp hlacking
    obtain ⟨u', hu', halike⟩ := hright u hu
    have hfilled : ∀ w ∈ c.program.exportedFormulas m.id, ∃ o, s.get? w = some o := by
      intro w hw
      obtain ⟨_, -, o, -, ho, -⟩ := hright w hw
      exact ⟨o, ho⟩
    have hfilled' : ∀ w' ∈ c'.program.exportedFormulas m'.id, ∃ o', s'.get? w' = some o' := by
      intro w' hw'
      obtain ⟨_, -, _, o', -, ho', -⟩ := hleft w' hw'
      exact ⟨o', ho'⟩
    obtain ⟨cause, hread⟩ := (c.evaluator fs s module).readExports_of_lacking hfilled hu
      fun v hv => hnone ⟨v, hv⟩
    obtain ⟨cause', hread'⟩ := (c'.evaluator fs s' module').readExports_of_lacking hfilled' hu'
      fun v hv => hnone ⟨v, halike.symm.get?_eq_value hv⟩
    rw [hread, hread']
    exact .skip cause cause'

/-- Where what a declaration reads is alike in two orders, so is what it finds. -/
theorem IsPartOf.findsAlike_of_areLike (h : c.IsPartOf c') (hfs : fs.IsSteady)
    (hlike : ∀ u, (c.evaluator fs s d.module).Reads d u → ∀ u', c.program.Twins c'.program u u' →
      AreLike s s' u u') :
    Evaluator.FindsAlike (fun x y => Evaluation.EndLike fs x y) (c.evaluator fs s d.module)
      (c'.evaluator fs s' d'.module) d where
  slot u u' hreads htwins :=
    Evaluation.endLike_ofResult ((hlike u hreads u' htwins).readSlot _ _)
  exports module m m' hkind hm hm' := by
    obtain ⟨hmodule, hname⟩ := h.part.wellFormed.moduleNamed?_eq_some_iff.mp hm
    obtain ⟨hmodule', hname'⟩ := h.whole.wellFormed.moduleNamed?_eq_some_iff.mp hm'
    exact Evaluation.endLike_ofResult (h.sameButCause_readExports hmodule hmodule'
      (hname.trans hname'.symm) (fun u hu => hlike u (.exports hkind hm hu)) _ _)
  invoke function vs :=
    Evaluation.EndAlike.endLike (endAlike_invoke (c := c) (s := s) (hfs function))
  await function vs :=
    Evaluation.EndAlike.endLike (endAlike_invokeAwaited (c := c) (s := s) (hfs function))
  raise _ := Evaluation.endLike_ofResult (.same _)

/-- Declarations of one description have outcomes that are alike, whatever their numbers. -/
theorem IsPartOf.areLike (h : c.IsPartOf c') (hfs : fs.IsSteady) (hs : c.Solves fs arguments s)
    (hs' : c'.Solves fs arguments s') (host : σ) (htwins : c.program.Twins c'.program u u') :
    AreLike s s' u u' := by
  have hvalid := h.part.valid
  have hglobal : ∀ {u u' e}, c.program.declaration? u = some e → e.isVertex = false →
      c.program.Twins c'.program u u' → AreLike s s' u u' := by
    intro u u' e he hnot htwins
    obtain ⟨d, d', hd, hd', hname, hkind⟩ := htwins.exists_declaration
    obtain rfl := Option.some.inj (he.symm.trans hd)
    have hnot' : d'.isVertex = false := Declaration.isVertex_congr hkind ▸ hnot
    obtain ⟨o, ho⟩ := Option.isSome_iff_exists.mp (isSome_given_iff.mpr hnot)
    obtain ⟨v, rfl⟩ := isValue_of_given ho
    refine ⟨.value v, .value v, (hs.global he hnot).trans ho, ?_, .value v⟩
    rw [hs'.global hd' hnot', ← given_eq_of_twins hname hkind]
    exact ho
  obtain ⟨d, -, hd, -⟩ := htwins.exists_declaration
  cases hvertex : d.isVertex with
  | false => exact hglobal hd hvertex htwins
  | true =>
    refine @Valid.induction_dependsOn c hvalid
      (fun u => ∀ u', c.program.Twins c'.program u u' → AreLike s s' u u')
      (fun d hd hvertex ih u' htwins => ?_) u ⟨d, hd, hvertex⟩ u' htwins
    obtain ⟨e, d', he, hd', hname, hkind⟩ := htwins.exists_declaration
    obtain rfl := Option.some.inj (hd.symm.trans he)
    obtain rfl : d'.id = u' := h.whole.wellFormed.id_eq hd'
    have hvertex' : d'.isVertex := Declaration.isVertex_congr hkind ▸ hvertex
    have hlike : ∀ u, (c.evaluator fs s d.module).Reads d u →
        ∀ u', c.program.Twins c'.program u u' → AreLike s s' u u' := by
      intro u hreads u' htwins
      rcases hreads.dependsOn_or_global hvalid.wellFormed hvalid.scopes_eq rfl hd hvertex with
        hdep | ⟨e, he, hnot⟩
      · exact ih u hdep u' htwins
      · exact hglobal he hnot htwins
    have hwithin : (c.evaluator fs s d.module).IsWithin (c'.evaluator fs s' d'.module) :=
      h.isWithin hd hd' hvertex htwins
    have hrun := (h.findsAlike_of_areLike hfs hlike).run Evaluation.isCongruence_endLike hwithin hd
      hvertex hkind .asynchronous
    have hresult := hrun _ _ (Routine.ends_run _ host) (Routine.ends_run _ host)
    exact ⟨_, _, hs.vertex d.id d hd hvertex host, hs'.vertex d'.id d' hd' hvertex' host,
      .settle hresult d.id d'.id⟩

/-! ### Errors -/

theorem exists_ofOutcome?_iff {p : Program} {x : Description} {module module' name : String}
    {kind : ErrorKind} (profile : Profile) (hx : p.description? u = some x)
    (hin : x.module = some module) (o : Outcome) :
    (∃ e, FormulaError.ofOutcome? p profile u o = some e ∧
        (module', name, kind) = (e.module, e.formula, e.kind)) ↔
      module = module' ∧ x.name = name ∧ o.errorKind? = some kind := by
  obtain ⟨d, hd, rfl⟩ := Option.map_eq_some_iff.mp hx
  have hmodule : (p.moduleOf? u).map (·.name) = some module := hin
  unfold FormulaError.ofOutcome?
  rw [hd, hmodule]
  cases o with
  | value v => simp [Outcome.errorKind?]
  | failed failure | skipped cause =>
    simp only [Outcome.errorKind?, Option.bind_eq_bind, Option.bind_some, Option.some.injEq,
      exists_eq_left', Prod.mk.injEq, Option.getD_some]
    exact and_congr eq_comm (and_congr eq_comm eq_comm)

/-- Errors tell of all declarations of modules that have an outcome without a value. -/
theorem exists_error_iff (h : c.Valid) {module name : String} {kind : ErrorKind}
    (profile : Profile) :
    (∃ e ∈ c.errorsOf profile s (failuresOf c.schedule s),
        (module, name, kind) = (e.module, e.formula, e.kind)) ↔
      ∃ u x o, c.program.description? u = some x ∧ x.module = some module ∧ x.name = name ∧
        s.get? u = some o ∧ o.errorKind? = some kind := by
  constructor
  · rintro ⟨e, he, htriple⟩
    obtain ⟨u, hu, he⟩ := List.mem_filterMap.mp he
    obtain ⟨o, ho, he⟩ := Option.bind_eq_some_iff.mp he
    obtain ⟨d, hd, hvertex⟩ := h.mem_idsOf_schedule_iff.mp (List.mem_of_mem_filter hu)
    obtain ⟨j, m, hj, hm, -⟩ := h.wellFormed.exists_module hd hvertex
    have hx := Program.description?_of_member hd hj hm
    obtain ⟨hmodule, hname, hkind⟩ :=
      (exists_ofOutcome?_iff profile hx rfl o).mp ⟨e, he, htriple⟩
    exact ⟨u, _, o, hx, congrArg some hmodule, hname, ho, hkind⟩
  · rintro ⟨u, x, o, hx, hin, hname, ho, hkind⟩
    obtain ⟨e, he, htriple⟩ := (exists_ofOutcome?_iff profile hx hin o).mpr ⟨rfl, hname, hkind⟩
    refine ⟨e, List.mem_filterMap.mpr ⟨u, List.mem_filter.mpr ⟨?_, ?_⟩, ?_⟩, htriple⟩
    · obtain ⟨d, hd, -⟩ := Program.declaration?_of_description? hx
      refine h.mem_idsOf_schedule_iff.mpr ⟨d, hd, (h.wellFormed.isVertex_iff hd).mpr ?_⟩
      intro hglobal
      obtain rfl := Option.some.inj (hx.symm.trans (Program.description?_of_global hd hglobal))
      cases hin
    · rw [Slots.lacksValue, ho]
      cases o with
      | value v => cases hkind
      | failed failure => rfl
      | skipped cause => rfl
    · rw [ho, Option.bind_some, he]

end Compilation

/-! ### Results -/

/-- Which formulas have failed or were skipped, by the errors of a result. -/
def ProgramResult.reported (r : ProgramResult) : Set (String × String × ErrorKind) :=
  {triple | ∃ e ∈ r.errors, triple = (e.module, e.formula, e.kind)}

namespace Compilation

variable {σ : Type} {c c' : Compilation} {fs : Functions σ} {arguments : List (String × Value)}
  {s s' : Slots} {pr pr' : Progress σ} {source source' : ProgramSource} {settings : Settings}

/-- Two compilations declare the same, and twins have outcomes that are alike. -/
structure Corresponds (c c' : Compilation) (s s' : Slots) : Prop where
  right : c.IsPartOf c'
  left : c'.IsPartOf c
  areLike : ∀ u u', c.program.Twins c'.program u u' → AreLike s s' u u'

theorem corresponds_of_compile (hsources : source.IsRearranged source')
    (h : compile settings source = .ok c) (h' : compile settings source' = .ok c')
    (hfs : fs.IsSteady) (hs : c.Solves fs arguments s) (hs' : c'.Solves fs arguments s')
    (host : σ) : c.Corresponds c' s s' := by
  have hpart := isPartOf_of_compile h h' hsources.isPartOf
  have hpart' := isPartOf_of_compile h' h hsources.symm.isPartOf
  exact ⟨hpart, hpart', fun u u' => hpart.areLike hfs hs hs' host⟩

namespace Corresponds

theorem symm (h : c.Corresponds c' s s') : c'.Corresponds c s' s :=
  ⟨h.left, h.right, fun u' u htwins => (h.areLike u u' htwins.symm).symm⟩

theorem failuresOf_eq_nil (h : c.Corresponds c' s s') (hnone : failuresOf c'.schedule s' = []) :
    failuresOf c.schedule s = [] := by
  refine List.eq_nil_iff_forall_not_mem.mpr fun u hu => ?_
  obtain ⟨hscheduled, hlacks⟩ := List.mem_filter.mp hu
  obtain ⟨d, hd, -⟩ := h.right.part.valid.mem_idsOf_schedule_iff.mp hscheduled
  obtain ⟨u', htwins⟩ := h.right.program.exists_twin hd
  have hvertex := h.right.part.valid.idsOf_schedule_perm.mem_iff.mp hscheduled
  have hvertex' := (h.right.mem_vertices_iff htwins).mp hvertex
  have hu' : u' ∈ failuresOf c'.schedule s' := by
    refine List.mem_filter.mpr ⟨h.right.whole.valid.idsOf_schedule_perm.mem_iff.mpr hvertex', ?_⟩
    rw [← (h.areLike u u' htwins).lacksValue_eq]
    exact hlacks
  exact List.not_mem_nil (hnone ▸ hu')

theorem failuresOf_eq_nil_iff (h : c.Corresponds c' s s') :
    failuresOf c.schedule s = [] ↔ failuresOf c'.schedule s' = [] :=
  ⟨h.symm.failuresOf_eq_nil, h.failuresOf_eq_nil⟩

/-- Each module exports the same under its name. -/
theorem moduleEntries_eq (h : c.Corresponds c' s s') :
    Fields.ofList (c.program.modules.map fun m =>
        (m.name, ProgramResult.exportsOf c.program s m)) =
      Fields.ofList (c'.program.modules.map fun m =>
        (m.name, ProgramResult.exportsOf c'.program s' m)) := by
  rw [← h.right.filter_moduleEntries_eq fun u _ u' htwins => (h.areLike u u' htwins).shown_eq]
  refine List.filter_eq_self.mpr ?_
  rintro ⟨name, values⟩ hentry
  obtain ⟨m', hm', rfl, -⟩ := (mem_moduleEntries_iff h.right.whole.wellFormed).mp hentry
  exact decide_eq_true (h.left.program.hasModule m'.name (List.mem_map.mpr ⟨m', hm', rfl⟩))

theorem reported_subset (h : c.Corresponds c' s s') (hcontains : c.failFast = false)
    (hcontains' : c'.failFast = false) (hpr : c.Reports s pr) (hpr' : c'.Reports s' pr') :
    (c.resultOf pr).reported ⊆ (c'.resultOf pr').reported := by
  rintro ⟨module, name, kind⟩ htriple
  have herrors := hpr.errors_eq
  have herrors' := hpr'.errors_eq
  rw [hcontains, if_neg (by simp)] at herrors
  rw [hcontains', if_neg (by simp)] at herrors'
  simp only [ProgramResult.reported, Set.mem_ofPred_eq, herrors, herrors'] at htriple ⊢
  obtain ⟨u, x, o, hx, hin, hname, ho, hkind⟩ :=
    (exists_error_iff h.right.part.valid c.profile).mp htriple
  obtain ⟨u', hu'⟩ := h.right.program.declares x ⟨u, hx⟩
  obtain ⟨o₁, o', ho₁, ho', heq⟩ := h.areLike u u' ⟨x, hx, hu'⟩
  obtain rfl := Option.some.inj (ho.symm.trans ho₁)
  exact (exists_error_iff h.right.whole.valid c'.profile).mpr
    ⟨u', x, o', hu', hin, hname, ho', heq.errorKind?_eq ▸ hkind⟩

theorem reported_eq (h : c.Corresponds c' s s') (hcontains : c.failFast = false)
    (hcontains' : c'.failFast = false) (hpr : c.Reports s pr) (hpr' : c'.Reports s' pr') :
    (c.resultOf pr).reported = (c'.resultOf pr').reported :=
  Set.Subset.antisymm (h.reported_subset hcontains hcontains' hpr hpr')
    (h.symm.reported_subset hcontains' hcontains hpr' hpr)

end Corresponds

theorem exists_compile_of_isRearranged (hsources : source.IsRearranged source')
    (h : compile settings source = .ok c) : ∃ c', compile settings source' = .ok c' := by
  obtain ⟨hlowerable, hfits, -⟩ := conditions_of_compile h
  refine compile_of_isPartOf h (hsources.lowerable hlowerable) (fun i hi => ?_)
    hsources.symm.isPartOf
  exact hfits i (hsources.symm.mem_imports hi)

/-- The order in which a source lists its parts makes no difference to whether it compiles, and
against a steady host none to the values of a result, by any profile. By the profiles that contain
failures it makes none to which formulas fail and which are skipped. -/
theorem rearranging_keeps_results (hsources : source.IsRearranged source') (settings : Settings) :
    ((∃ c, compile settings source = .ok c) ↔ ∃ c', compile settings source' = .ok c') ∧
    ∀ c c', compile settings source = .ok c → compile settings source' = .ok c' →
      ∀ {σ : Type} (fs : Functions σ), fs.IsSteady →
        ∀ (arguments : List (String × Value)) (host host' : σ),
          (c.evaluate fs arguments host).modules = (c'.evaluate fs arguments host').modules ∧
          (settings.profile = .trace ∨ settings.profile = .verbose →
            (c.evaluate fs arguments host).reported =
              (c'.evaluate fs arguments host').reported) := by
  constructor
  · constructor
    · rintro ⟨c, hc⟩
      exact exists_compile_of_isRearranged hsources hc
    · rintro ⟨c', hc'⟩
      exact exists_compile_of_isRearranged hsources.symm hc'
  intro c c' hc hc' σ fs hfs arguments host host'
  obtain ⟨s, hs⟩ := exists_solves hc hfs arguments host
  obtain ⟨s', hs'⟩ := exists_solves hc' hfs arguments host'
  have h := corresponds_of_compile hsources hc hc' hfs hs hs' host
  have hreports := h.right.part.valid.reports_runPlan hfs hs host
  have hreports' := h.right.whole.valid.reports_runPlan hfs hs' host'
  have hprofile := profile_of_compile hc
  have hprofile' := profile_of_compile hc'
  constructor
  · rw [evaluate, evaluate, hreports.modules_eq h.right.part.valid,
      hreports'.modules_eq h.right.whole.valid, h.moduleEntries_eq, hprofile, hprofile']
    simp only [h.failuresOf_eq_nil_iff]
  · intro hcontains
    exact h.reported_eq (failFast_eq_false (hprofile ▸ hcontains))
      (failFast_eq_false (hprofile' ▸ hcontains)) hreports hreports'

/-- The checkout with its modules the other way round. -/
theorem exists_rearranged_checkout :
    ∃ source c c', ProgramSource.checkout.IsRearranged source ∧
      compile {} .checkout = .ok c ∧ compile {} source = .ok c' ∧
      (c.evaluate (.empty : Functions Unit) [] ()).modules =
        (c'.evaluate (.empty : Functions Unit) [] ()).modules ∧
      (c.evaluate (.empty : Functions Unit) [] ()).reported =
        (c'.evaluate (.empty : Functions Unit) [] ()).reported := by
  have hsources : ProgramSource.checkout.IsRearranged
      { ProgramSource.checkout with modules := ProgramSource.checkout.modules.reverse } := by
    refine ⟨.refl _, .refl _, _, (List.reverse_perm _).symm, List.forall₂_same.mpr fun m _ => ?_⟩
    exact ⟨rfl, .refl _, .refl _⟩
  obtain ⟨c, hc, -⟩ := exists_checkout
  obtain ⟨hcompiles, hresults⟩ := rearranging_keeps_results hsources {}
  obtain ⟨c', hc'⟩ := hcompiles.mp ⟨c, hc⟩
  obtain ⟨hmodules, hreported⟩ :=
    hresults c c' hc hc' (.empty : Functions Unit) Functions.isSteady_empty [] () ()
  exact ⟨_, c, c', hsources, hc, hc', hmodules, hreported (.inr rfl)⟩

end Compilation

end FormulaEngine
