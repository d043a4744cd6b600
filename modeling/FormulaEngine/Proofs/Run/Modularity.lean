import FormulaEngine.Proofs.Program.Additions
import FormulaEngine.Proofs.Run.Parts

/-!
# Modularity

What is added to a program in a module of its own, and is not imported, makes no difference to it.
The new module may put steps in between, and merge or part the groups of others. But a declaration
of the program keeps its number, its layer, what it reads and so its outcome, and errors of the
program keep their order.
-/

namespace FormulaEngine

namespace Compilation

variable {σ : Type} {c c' : Compilation} {fs : Functions σ} {arguments : List (String × Value)}
  {s s' : Slots} {u v : DeclId} {d : Declaration}

/-- A compilation is part of one whose program goes on after the declarations of its program. -/
structure IsExtendedBy (c c' : Compilation) : Prop extends IsPartOf c c' where
  isPrefixOf : c.program.IsPrefixOf c'.program

namespace IsExtendedBy

variable (h : c.IsExtendedBy c')

include h

theorem declaration? (hu : c.program.declaration? u = some d) :
    c'.program.declaration? u = some d :=
  h.isPrefixOf.declaration? hu

theorem twins (hu : c.program.declaration? u = some d) : c.program.Twins c'.program u u :=
  h.isPrefixOf.twins h.part.wellFormed hu

theorem eq_of_twins (htwins : c.program.Twins c'.program u v) : u = v :=
  h.isPrefixOf.eq_of_twins h.part.wellFormed h.whole.wellFormed htwins

end IsExtendedBy

/-! ### Slots -/

theorem readSlot_evaluator {o : Outcome} (hu : s.get? u = some o) (module : Option ModuleId) :
    (c.evaluator fs s module).readSlot u = o.read := by
  have hget : (c.evaluator fs s module).slots.get? u = some o := hu
  rw [Evaluator.readSlot, hget]

/-- Where the slots that a declaration reads are the same, it finds the same after an addition. -/
theorem IsExtendedBy.findsAlike (h : c.IsExtendedBy c')
    (hslots : ∀ u, (c.evaluator fs s d.module).Reads d u →
      ∃ o, s.get? u = some o ∧ s'.get? u = some o) :
    Evaluator.FindsAlike (fun x y => x = y) (c.evaluator fs s d.module)
      (c'.evaluator fs s' d.module) d where
  slot u u' hreads htwins := by
    obtain rfl := h.eq_of_twins htwins
    obtain ⟨o, ho, ho'⟩ := hslots u hreads
    rw [readSlot_evaluator ho, readSlot_evaluator ho']
  exports module m m' hkind hm hm' := by
    have hp := h.part.wellFormed
    obtain ⟨hmodule, hname⟩ := hp.moduleNamed?_eq_some_iff.mp hm
    have hfound := h.whole.wellFormed.moduleNamed?_eq_some_iff.mpr
      ⟨h.isPrefixOf.module? hmodule, hname⟩
    obtain rfl : m = m' := Option.some.inj (hfound.symm.trans hm')
    refine congrArg Evaluation.ofResult ?_
    have hexports : (c'.evaluator fs s' d.module).program.exportedFormulas m.id =
        (c.evaluator fs s d.module).program.exportedFormulas m.id :=
      h.isPrefixOf.exportedFormulas_eq hp hmodule
    rw [Evaluator.readExports, Evaluator.readExports, hexports]
    refine congrArg (· >>= fun fields => Except.ok (Value.ofFields fields))
      (mapM_congr fun u hu => ?_)
    obtain ⟨o, ho, ho'⟩ := hslots u (.exports hkind hm hu)
    obtain ⟨e, he, -⟩ := (Program.mem_exportedFormulas_iff hp hmodule).mp hu
    have he' : (c'.evaluator fs s' d.module).program.declaration? u = some e := h.declaration? he
    have he : (c.evaluator fs s d.module).program.declaration? u = some e := he
    rw [readSlot_evaluator ho, readSlot_evaluator ho', he, he']
  invoke _ _ := rfl
  await _ _ := rfl
  raise _ := rfl

/-- Declarations that were there before have the same outcomes in a solution with the addition. -/
theorem IsExtendedBy.get?_eq (h : c.IsExtendedBy c') (hs : c.Solves fs arguments s)
    (hs' : c'.Solves fs arguments s') (host : σ) (hu : c.program.declaration? u = some d) :
    s'.get? u = s.get? u := by
  have hvalid := h.part.valid
  have hglobal : ∀ {u e}, c.program.declaration? u = some e → e.isVertex = false →
      s'.get? u = s.get? u := by
    intro u e he hnot
    rw [hs.global he hnot, hs'.global (h.declaration? he) hnot]
  cases hvertex : d.isVertex with
  | false => exact hglobal hu hvertex
  | true =>
    refine @Valid.induction_dependsOn c hvalid (fun u => s'.get? u = s.get? u)
      (fun d hd hvertex ih => ?_) u ⟨d, hu, hvertex⟩
    have hd' := h.declaration? hd
    have hslots : ∀ u, (c.evaluator fs s d.module).Reads d u →
        ∃ o, s.get? u = some o ∧ s'.get? u = some o := by
      intro u hreads
      rcases hreads.dependsOn_or_global hvalid.wellFormed hvalid.scopes_eq rfl hd hvertex with
        hdep | ⟨e, he, hnot⟩
      · obtain ⟨e, he, -⟩ := hdep.right_isVertex hvalid.wellFormed
        obtain ⟨o, ho⟩ := hs.exists_outcome host he
        exact ⟨o, ho, (ih u hdep).trans ho⟩
      · obtain ⟨o, ho⟩ := hs.exists_outcome host he
        exact ⟨o, ho, (hglobal he hnot).trans ho⟩
    have hwithin : (c.evaluator fs s d.module).IsWithin (c'.evaluator fs s' d.module) :=
      h.isWithin hd hd' hvertex (h.twins hd)
    have hroutine : c'.routine fs .asynchronous s' d = c.routine fs .asynchronous s d := by
      have hrun := (h.findsAlike hslots).run Evaluator.isCongruence_eq hwithin hd hvertex rfl
        .asynchronous
      exact (congrArg ExceptT.run hrun).symm
    rw [hs.vertex d.id d hd hvertex host, hs'.vertex d.id d hd' hvertex host, hroutine]

/-! ### The order of errors -/

/-- Declarations of the part are settled in the same order. -/
theorem IsExtendedBy.precedes_iff (h : c.IsExtendedBy c') (hu : u ∈ c.graph.vertices)
    (hv : v ∈ c.graph.vertices) : c'.Precedes u v ↔ c.Precedes u v := by
  have htwins : ∀ {u}, u ∈ c.graph.vertices → c.program.Twins c'.program u u := by
    intro u hu
    obtain ⟨e, he, -⟩ := h.part.valid.mem_vertices_iff.mp hu
    exact h.twins he
  unfold Precedes
  rw [h.layerOf_eq hu (htwins hu), h.layerOf_eq hv (htwins hv), kindOf_eq_of_twins (htwins hu),
    kindOf_eq_of_twins (htwins hv)]

/-- The failures of the part are those of the whole that are in it, in the same order. -/
theorem IsExtendedBy.filter_failuresOf_eq (h : c.IsExtendedBy c')
    (hslots : ∀ u d, c.program.declaration? u = some d → s'.get? u = s.get? u) :
    (failuresOf c'.schedule s').filter (fun u => (c.program.declaration? u).isSome) =
      failuresOf c.schedule s := by
  have hvalid := h.part.valid
  have hvalid' := h.whole.valid
  have hmem : ∀ u, u ∈ (failuresOf c'.schedule s').filter
      (fun u => (c.program.declaration? u).isSome) ↔ u ∈ failuresOf c.schedule s := by
    intro u
    simp only [failuresOf, List.mem_filter, hvalid.mem_idsOf_schedule_iff,
      hvalid'.mem_idsOf_schedule_iff]
    constructor
    · rintro ⟨⟨⟨d', hd', hvertex⟩, hlacks⟩, hsome⟩
      obtain ⟨d, hd⟩ := Option.isSome_iff_exists.mp hsome
      obtain rfl := Option.some.inj ((h.declaration? hd).symm.trans hd')
      refine ⟨⟨d, hd, hvertex⟩, ?_⟩
      rw [Slots.lacksValue, ← hslots u d hd]
      exact hlacks
    · rintro ⟨⟨d, hd, hvertex⟩, hlacks⟩
      refine ⟨⟨⟨d, h.declaration? hd, hvertex⟩, ?_⟩, by simp [hd]⟩
      rw [Slots.lacksValue, hslots u d hd]
      exact hlacks
  have hordered : ((failuresOf c'.schedule s').filter
      fun u => (c.program.declaration? u).isSome).Pairwise c.Precedes := by
    have hprecedes := hvalid'.pairwise_precedes h.whole.isStratified
    refine ((hprecedes.filter _).filter _).imp_of_mem fun {u v} hu hv hlt => ?_
    have hvertex : ∀ {u}, u ∈ (failuresOf c'.schedule s').filter
        (fun u => (c.program.declaration? u).isSome) → u ∈ c.graph.vertices := fun hu =>
      hvalid.idsOf_schedule_perm.subset (List.mem_of_mem_filter ((hmem _).mp hu))
    exact (h.precedes_iff (hvertex hu) (hvertex hv)).mp hlt
  refine List.Perm.eq_of_pairwise (fun u v _ _ huv hvu => absurd hvu huv.asymm) hordered
    ((hvalid.pairwise_precedes h.part.isStratified).filter _) ?_
  refine (List.perm_ext_iff_of_nodup ?_ ?_).mpr hmem
  · exact (hvalid'.nodup_schedule.filter _).filter _
  · exact hvalid.nodup_schedule.filter _

/-- An outcome makes the same error, as its root is in the part too. -/
theorem IsExtendedBy.ofOutcome?_eq (h : c.IsExtendedBy c') (profile : Profile)
    (hu : c.program.declaration? u = some d) {o : Outcome}
    (hcause : ∀ cause, o = .skipped cause →
      ∃ e, c.program.declaration? cause.declaration = some e) :
    FormulaError.ofOutcome? c'.program profile u o =
      FormulaError.ofOutcome? c.program profile u o := by
  unfold FormulaError.ofOutcome?
  rw [hu, h.declaration? hu, h.isPrefixOf.moduleOf?_eq h.part.wellFormed hu]
  cases o with
  | value v => rfl
  | failed failure => rfl
  | skipped cause =>
    obtain ⟨e, he⟩ := hcause cause rfl
    have hname := h.isPrefixOf.qualifiedName_eq h.part.wellFormed he
    simp only [Option.bind_eq_bind, Option.bind_some, hname]

/-- An error is in a module of the part if it is of a declaration of the part. -/
theorem IsExtendedBy.mem_modules_iff (h : c.IsExtendedBy c') {e : FormulaError}
    (he : c'.TellsOf s' u e) :
    e.module ∈ c.program.modules.map (·.name) ↔ ∃ d, c.program.declaration? u = some d := by
  obtain ⟨d', m', hd', hm', hmodule, -⟩ := he.named
  constructor
  · intro hmem
    obtain ⟨x, hx, -⟩ := Program.exists_description? hd'
    have hin : x.module = some e.module := by
      obtain ⟨_, -, rfl⟩ := Option.map_eq_some_iff.mp hx
      rw [hm', hmodule, Option.map_some]
    obtain ⟨w, hw⟩ := h.program.members x e.module hin hmem ⟨u, hx⟩
    obtain ⟨d, hd, -⟩ := Program.declaration?_of_description? hw
    obtain rfl := h.eq_of_twins ⟨x, hw, hx⟩
    exact ⟨d, hd⟩
  · rintro ⟨d, hd⟩
    rw [h.isPrefixOf.moduleOf?_eq h.part.wellFormed hd] at hm'
    obtain ⟨_, -, hm⟩ := Option.bind_eq_some_iff.mp hm'
    obtain ⟨_, -, hm⟩ := Option.bind_eq_some_iff.mp hm
    rw [hmodule]
    exact List.mem_map.mpr ⟨m', List.mem_of_getElem? hm, rfl⟩

/-- The errors of the part are those of the whole that are in its modules. -/
theorem IsExtendedBy.filter_errorsOf_eq (h : c.IsExtendedBy c') (hprofile : c'.profile = c.profile)
    (hslots : ∀ u d, c.program.declaration? u = some d → s'.get? u = s.get? u)
    (hroots : c.HasRootCauses s) :
    (c'.errorsOf c'.profile s' (failuresOf c'.schedule s')).filter
        (fun e => e.module ∈ c.program.modules.map (·.name)) =
      c.errorsOf c.profile s (failuresOf c.schedule s) := by
  have hvalid' := h.whole.valid
  rw [← h.filter_failuresOf_eq hslots]
  simp only [errorsOf, List.filter_filterMap, List.filterMap_filter]
  apply List.filterMap_congr
  intro u hu
  obtain ⟨hscheduled, hlacks⟩ := List.mem_filter.mp hu
  have hvertex : u ∈ c'.graph.vertices := hvalid'.idsOf_schedule_perm.subset hscheduled
  obtain ⟨d', hd', -⟩ := hvalid'.mem_vertices_iff.mp hvertex
  obtain ⟨e, he, -⟩ := exists_error_of_lacksValue c'.profile hd' hlacks
  have hmem := h.mem_modules_iff (hvalid'.tellsOf hvertex he)
  cases hd : c.program.declaration? u with
  | none =>
    rw [hd] at hmem
    have hnot : e.module ∉ c.program.modules.map (·.name) := fun hin => by simpa using hmem.mp hin
    simp [he, hnot, -List.mem_map]
  | some d =>
    have hin : e.module ∈ c.program.modules.map (·.name) := hmem.mpr ⟨d, hd⟩
    have hsame : (s.get? u).bind (FormulaError.ofOutcome? c.program c.profile u) = some e := by
      obtain ⟨o, ho, hmade⟩ := Option.bind_eq_some_iff.mp he
      rw [hslots u d hd] at ho
      rw [ho, Option.bind_some, ← hprofile, ← hmade]
      refine (h.ofOutcome?_eq c'.profile hd fun cause hcause => ?_).symm
      obtain ⟨f, hf, -⟩ := h.part.valid.mem_vertices_iff.mp (hroots.root u cause (hcause ▸ ho)).1
      exact ⟨f, hf⟩
    simp [he, hin, hsame, -List.mem_map]

end Compilation

/-! ### Results -/

/-- What a result has of some modules. -/
def ProgramResult.restrict (r : ProgramResult) (modules : List String) : ProgramResult :=
  ⟨r.modules.filter fun entry => entry.1 ∈ modules, r.errors.filter fun e => e.module ∈ modules⟩

namespace Compilation

variable {σ : Type} {settings : Settings} {source : ProgramSource} {m : ModuleSource}
  {linked : Compilation}

theorem Valid.evaluate_eq (h : linked.Valid) (hverbose : linked.profile = .verbose)
    {fs : Functions σ} (hfs : fs.IsSteady) (arguments : List (String × Value)) (host : σ) :
    linked.evaluate fs arguments host =
      ⟨Fields.ofList (linked.program.modules.map fun m => (m.name,
          ProgramResult.exportsOf linked.program (linked.runPlan fs arguments host).slots m)),
        linked.errorsOf linked.profile (linked.runPlan fs arguments host).slots
          (failuresOf linked.schedule (linked.runPlan fs arguments host).slots)⟩ := by
  have hfast := failFast_eq_false (.inr hverbose)
  have hreports := h.reports_runPlan hfs (h.solves_runPlan hfast hfs arguments host) host
  have herrors := hreports.errors_eq
  have hmodules := hreports.modules_eq h
  rw [hfast, if_neg (by simp)] at herrors
  rw [if_pos (.inr (by rw [hverbose]; rfl))] at hmodules
  rw [evaluate, ← hmodules, ← herrors]

theorem exists_compile_of_withModule (himports : source.ImportsNothingFrom m.name)
    (h : compile settings (source.withModule m) = .ok linked) :
    ∃ c, compile settings source = .ok c ∧ c.IsExtendedBy linked := by
  obtain ⟨hlowerable, hfits, -⟩ := conditions_of_compile h
  have hpart := Program.isPartOf_withModule hlowerable himports
  have hkept : ∀ i ∈ source.imports, i.2.Fits := by
    intro i hi
    apply hfits i
    rw [ProgramSource.imports_withModule]
    exact List.mem_append_left _ hi
  obtain ⟨c, hc⟩ := compile_of_isPartOf h hlowerable.of_withModule hkept hpart
  have hbegins := Program.isPrefixOf_withModule source m
  rw [← program_of_compile hc, ← program_of_compile h] at hbegins
  exact ⟨c, hc, isPartOf_of_compile hc h hpart, hbegins⟩

/-- If a program compiles with one more module, from whose name none of its imports is, then it
compiles without. By the verbose profile and against a steady host, its own modules and errors are
the same in both results, the errors in the same order. -/
theorem restrict_evaluate_withModule (himports : source.ImportsNothingFrom m.name)
    (hverbose : settings.profile = .verbose)
    (h : compile settings (source.withModule m) = .ok linked) :
    ∃ c, compile settings source = .ok c ∧
      ∀ {σ : Type} (fs : Functions σ), fs.IsSteady →
        ∀ (arguments : List (String × Value)) (host host' : σ),
          (linked.evaluate fs arguments host').restrict (source.modules.map (·.name)) =
            c.evaluate fs arguments host := by
  obtain ⟨c, hc, hextended⟩ := exists_compile_of_withModule himports h
  refine ⟨c, hc, fun fs hfs arguments host host' => ?_⟩
  have hvalid := hextended.part.valid
  have hvalid' := hextended.whole.valid
  have hprofile := (profile_of_compile hc).trans hverbose
  have hprofile' := (profile_of_compile h).trans hverbose
  have hnames : source.modules.map (·.name) = c.program.modules.map (·.name) := by
    rw [program_of_compile hc]
    exact Program.map_name_modulesFrom.symm
  have hs := hvalid.solves_runPlan (failFast_eq_false (.inr hprofile)) hfs arguments host
  have hs' := hvalid'.solves_runPlan (failFast_eq_false (.inr hprofile')) hfs arguments host'
  have hslots : ∀ u d, c.program.declaration? u = some d →
      (linked.runPlan fs arguments host').slots.get? u =
        (c.runPlan fs arguments host).slots.get? u := fun u d hu =>
    hextended.get?_eq hs hs' host hu
  rw [hvalid.evaluate_eq hprofile hfs, hvalid'.evaluate_eq hprofile' hfs, ProgramResult.restrict,
    hnames]
  congr 1
  · refine hextended.filter_moduleEntries_eq fun u hu u' htwins => ?_
    obtain rfl := hextended.eq_of_twins htwins
    obtain ⟨d, hd, -⟩ := hvalid.mem_vertices_iff.mp hu
    rw [Program.shown, Program.shown, hslots u d hd]
  · exact hextended.filter_errorsOf_eq (hprofile'.trans hprofile.symm) hslots
      (hvalid.hasRootCauses_runPlan fs arguments host)

/-- A module that reads from the checkout. -/
def audit : ModuleSource :=
  ⟨"audit", [⟨"due", ["orders", "total"], .formula⟩], [⟨"copy", .ident "due", true⟩]⟩

/-- The copy in the added module is skipped, as what it reads is. -/
theorem exists_addition_to_checkout :
    ∃ c linked, compile {} .checkout = .ok c ∧
      compile {} (ProgramSource.checkout.withModule audit) = .ok linked ∧
      (linked.evaluate (.empty : Functions Unit) [] ()).errors.length = 5 ∧
      (linked.evaluate (.empty : Functions Unit) [] ()).restrict ["rates", "orders"] =
        c.evaluate (.empty : Functions Unit) [] () := by
  have himports : ProgramSource.checkout.ImportsNothingFrom audit.name := by
    unfold ProgramSource.ImportsNothingFrom
    decide
  have herrors : (compile {} (ProgramSource.checkout.withModule audit)).toOption.map
      (fun c => (c.evaluate (.empty : Functions Unit) [] ()).errors.length) = some 5 := by
    decide +kernel
  cases hlinked : compile {} (ProgramSource.checkout.withModule audit) with
  | error e => simp [hlinked, Except.toOption] at herrors
  | ok linked =>
    obtain ⟨c, hc, hsame⟩ := restrict_evaluate_withModule himports rfl hlinked
    rw [hlinked] at herrors
    exact ⟨c, linked, hc, rfl, Option.some.inj herrors,
      hsame .empty Functions.isSteady_empty [] () ()⟩

end Compilation

end FormulaEngine
