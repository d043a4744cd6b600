import FormulaEngine.Proofs.Eval.Twins
import FormulaEngine.Proofs.Run.Reporting

/-!
# Parts of compilations

A part of a source that compiles does so itself, if it is well named. Its declarations stand in the
same layers in both compilations, and where their slots hold the same values, their modules export
the same.
-/

namespace FormulaEngine

open Relation

namespace Program

variable {p p' : Program} {m m' : ProgramModule} {s s' : Slots} {name : String} {v : Value}

theorem mem_exportsOf_iff_export (hp : p.WellFormed) (hm : p.module? m.id = some m)
    (hexported : (p.exportedFormulas m.id).Nodup) :
    (name, v) ∈ ProgramResult.exportsOf p s m ↔ ∃ u ∈ p.exportedFormulas m.id,
      ∃ d, p.declaration? u = some d ∧ d.name = name ∧ shown s u = v := by
  rw [mem_exportsOf_iff hp hm hexported]
  constructor
  · rintro ⟨u, d, hd, hin, hexport, hname, hv⟩
    exact ⟨u, (mem_exportedFormulas_iff hp hm).mpr ⟨d, hd, hin, hexport⟩, d, hd, hname, hv⟩
  · rintro ⟨u, hu, d, hd, hname, hv⟩
    obtain ⟨e, he, hin, hexport⟩ := (mem_exportedFormulas_iff hp hm).mp hu
    obtain rfl := Option.some.inj (hd.symm.trans he)
    exact ⟨u, d, hd, hin, hexport, hname, hv⟩

/-- Modules of the same name export the same if their exports show the same. -/
theorem IsPartOf.exportsOf_eq (hp : p.WellFormed) (hp' : p'.WellFormed) (h : p.IsPartOf p')
    (hm : p.module? m.id = some m) (hm' : p'.module? m'.id = some m') (hmodule : m.name = m'.name)
    (hexported : (p.exportedFormulas m.id).Nodup) (hexported' : (p'.exportedFormulas m'.id).Nodup)
    (hshown : ∀ u u', u ∈ p.exportedFormulas m.id → p.Twins p' u u' → shown s u = shown s' u') :
    ProgramResult.exportsOf p s m = ProgramResult.exportsOf p' s' m' := by
  refine Fields.eq_of_mem_iff (Fields.ascending_ofList _) (Fields.ascending_ofList _) ?_
  rintro ⟨name, v⟩
  refine (mem_exportsOf_iff_export hp hm hexported).trans
    (Iff.trans ?_ (mem_exportsOf_iff_export hp' hm' hexported').symm)
  constructor
  · rintro ⟨u, hu, d, hd, rfl, rfl⟩
    obtain ⟨u', hu', htwins⟩ := h.exists_export_right hp hp' hm hm' hmodule hu
    obtain ⟨e, d', he, hd', hname, -⟩ := htwins.exists_declaration
    obtain rfl := Option.some.inj (hd.symm.trans he)
    exact ⟨u', hu', d', hd', hname.symm, (hshown u u' hu htwins).symm⟩
  · rintro ⟨u', hu', d', hd', rfl, rfl⟩
    obtain ⟨u, hu, htwins⟩ := h.exists_export_left hp hp' hm hm' hmodule hu'
    obtain ⟨d, e, hd, he, hname, -⟩ := htwins.exists_declaration
    obtain rfl := Option.some.inj (hd'.symm.trans he)
    exact ⟨u, hu, d, hd, hname, hshown u u' hu htwins⟩

end Program

namespace Compilation

variable {σ : Type} {c c' : Compilation} {fs : Functions σ} {arguments : List (String × Value)}
  {s s' : Slots} {u u' v v' : DeclId} {settings : Settings} {source source' : ProgramSource}
  {pr : Progress σ}

/-! ### Compiling a part -/

theorem compile_of_isPartOf (h : compile settings source' = .ok c')
    (hlowerable : source.Lowerable) (hfits : ∀ i ∈ source.imports, i.2.Fits)
    (hpart : (Program.ofSource source).IsPartOf (Program.ofSource source')) :
    ∃ c, compile settings source = .ok c := by
  obtain ⟨hlowerable', -, hacyclic⟩ := conditions_of_compile h
  have hp := Program.wellFormed_ofSource hlowerable
  have hp' := Program.wellFormed_ofSource hlowerable'
  obtain ⟨_, -, hcompile⟩ :=
    @compile_of_acyclic settings source hlowerable hfits (hpart.acyclic hp hp' hacyclic)
  exact ⟨_, hcompile⟩

/-- What is known of a compilation that a source compiles to. -/
structure IsCompiled (c : Compilation) : Prop where
  valid : c.Valid
  isStratified : c.IsStratified
  nodup_exports : ∀ j, (c.program.exportedFormulas j).Nodup

theorem isCompiled_of_compile (h : compile settings source = .ok c) : c.IsCompiled :=
  ⟨valid_of_compile h, isStratified_of_compile h, exportedFormulas_nodup_of_compile h⟩

theorem IsCompiled.wellFormed (h : c.IsCompiled) : c.program.WellFormed := h.valid.wellFormed

/-- Of two compilations, the program of one is part of that of the other. -/
structure IsPartOf (c c' : Compilation) : Prop where
  part : c.IsCompiled
  whole : c'.IsCompiled
  program : c.program.IsPartOf c'.program

theorem isPartOf_of_compile (h : compile settings source = .ok c)
    (h' : compile settings source' = .ok c')
    (hpart : (Program.ofSource source).IsPartOf (Program.ofSource source')) : c.IsPartOf c' := by
  rw [← program_of_compile h, ← program_of_compile h'] at hpart
  exact ⟨isCompiled_of_compile h, isCompiled_of_compile h', hpart⟩

/-! ### Vertices and layers -/

theorem IsPartOf.mem_vertices_iff (h : c.IsPartOf c') (htwins : c.program.Twins c'.program v v') :
    v ∈ c.graph.vertices ↔ v' ∈ c'.graph.vertices := by
  obtain ⟨d, d', hd, hd', -, hkind⟩ := htwins.exists_declaration
  rw [h.part.valid.mem_vertices_iff, h.whole.valid.mem_vertices_iff, hd, hd']
  simp [Declaration.isVertex_congr hkind]

/-- What a declaration depends on is in the part, so it is no higher in the whole. -/
theorem IsPartOf.layerOf_eq (h : c.IsPartOf c') (hv : v ∈ c.graph.vertices)
    (htwins : c.program.Twins c'.program v v') : c'.layerOf v' = c.layerOf v := by
  have hs := h.part.isStratified
  have hs' := h.whole.isStratified
  refine @Valid.induction_dependsOn c h.part.valid
    (fun v => ∀ v', c.program.Twins c'.program v v' → c'.layerOf v' = c.layerOf v)
    (fun d hd hvertex ih v' htwins => ?_) v (h.part.valid.mem_vertices_iff.mp hv) v' htwins
  have hv : d.id ∈ c.graph.vertices := h.part.valid.mem_vertices_iff.mpr ⟨d, hd, hvertex⟩
  have hle : c.layerOf d.id ≤ c'.layerOf v' := by
    by_cases hfirst : c.layerOf d.id = 0
    · omega
    · obtain ⟨u, hdep, habove⟩ := hs.least d.id hv hfirst
      obtain ⟨u', hu', hdep'⟩ :=
        h.program.dependsOn h.part.wellFormed h.whole.wellFormed htwins hdep
      have hlt := hs'.above u' v' hdep'
      have heq := ih u hdep u' hu'
      omega
  have hge : c'.layerOf v' ≤ c.layerOf d.id := by
    by_cases hfirst : c'.layerOf v' = 0
    · omega
    · obtain ⟨u', hdep', habove⟩ := hs'.least v' ((h.mem_vertices_iff htwins).mp hv) hfirst
      obtain ⟨u, hu', hdep⟩ :=
        h.program.exists_of_dependsOn h.part.wellFormed h.whole.wellFormed htwins hdep'
      have hlt := hs.above u d.id hdep
      have heq := ih u hdep u' hu'
      omega
  omega

theorem kindOf_eq_of_twins (htwins : c.program.Twins c'.program v v') :
    Plan.kindOf c.program v = Plan.kindOf c'.program v' := by
  obtain ⟨d, d', hd, hd', -, hkind⟩ := htwins.exists_declaration
  have hsame : d.isAsync = d'.isAsync := by
    unfold Declaration.isAsync Declaration.expr?
    rw [hkind]
  simp [Plan.kindOf, hd, hd', hsame]

/-! ### Slots -/

theorem Solves.exists_outcome (hs : c.Solves fs arguments s) (host : σ) {d : Declaration}
    (hd : c.program.declaration? u = some d) : ∃ o, s.get? u = some o := by
  cases hvertex : d.isVertex with
  | true => exact ⟨_, hs.vertex u d hd hvertex host⟩
  | false =>
    rw [hs.global hd hvertex]
    exact Option.isSome_iff_exists.mp (isSome_given_iff.mpr hvertex)

/-- Globals of one description are given the same. -/
theorem given_eq_of_twins {d d' : Declaration} (hname : d.name = d'.name)
    (hkind : d.kind = d'.kind) : given arguments d = given arguments d' := by
  unfold given
  rw [hname, hkind]

theorem IsPartOf.isWithin (h : c.IsPartOf c') {d d' : Declaration}
    (hd : c.program.declaration? d.id = some d) (hd' : c'.program.declaration? d'.id = some d')
    (hvertex : d.isVertex) (htwins : c.program.Twins c'.program d.id d'.id) :
    (c.evaluator fs s d.module).IsWithin (c'.evaluator fs s' d'.module) := by
  have hp := h.part.wellFormed
  have hp' := h.whole.wellFormed
  refine ⟨hp, hp', h.part.valid.scopes_eq, h.whole.valid.scopes_eq, h.program, ?_⟩
  obtain ⟨x, hx, hx'⟩ := htwins
  obtain ⟨j, m, hj, hm, -⟩ := hp.exists_module hd hvertex
  obtain rfl := Option.some.inj (hx.symm.trans (Program.description?_of_member hd hj hm))
  rcases hp'.module_cases hd' with ⟨-, hdescription⟩ | ⟨j', m', hj', hm', hdescription⟩
  · cases Option.some.inj (hx'.symm.trans hdescription)
  · have heq := Option.some.inj (hx'.symm.trans hdescription)
    refine ⟨j, j', m, m', hj, hj', hm, hm', ?_⟩
    exact Option.some.inj (congrArg Description.module heq)

/-! ### What a result has of a solution -/

theorem mem_moduleEntries_iff (hp : c.program.WellFormed) {name : String}
    {values : List (String × Value)} :
    (name, values) ∈ Fields.ofList (c.program.modules.map fun m =>
        (m.name, ProgramResult.exportsOf c.program s m)) ↔
      ∃ m ∈ c.program.modules, m.name = name ∧ ProgramResult.exportsOf c.program s m = values := by
  rw [(Fields.ofList_perm (nodup_moduleEntries hp)).mem_iff]
  simp only [List.mem_map, Prod.mk.injEq]

/-- The modules of a part export the same in the whole. -/
theorem IsPartOf.filter_moduleEntries_eq (h : c.IsPartOf c')
    (hshown : ∀ u ∈ c.graph.vertices, ∀ u', c.program.Twins c'.program u u' →
      Program.shown s u = Program.shown s' u') :
    (Fields.ofList (c'.program.modules.map fun m =>
        (m.name, ProgramResult.exportsOf c'.program s' m))).filter
          (fun entry => entry.1 ∈ c.program.modules.map (·.name)) =
      Fields.ofList (c.program.modules.map fun m =>
        (m.name, ProgramResult.exportsOf c.program s m)) := by
  have hp := h.part.wellFormed
  have hp' := h.whole.wellFormed
  have hsame : ∀ m ∈ c.program.modules, ∀ m' ∈ c'.program.modules, m.name = m'.name →
      ProgramResult.exportsOf c.program s m = ProgramResult.exportsOf c'.program s' m' := by
    intro m hm m' hm' hname
    have hm := hp.module?_of_mem hm
    refine h.program.exportsOf_eq hp hp' hm (hp'.module?_of_mem hm') hname (h.part.nodup_exports _)
      (h.whole.nodup_exports _) fun u u' hu => hshown u (h.part.valid.mem_vertices_iff.mpr ?_) u'
    obtain ⟨d, hd, -, hexport⟩ := (Program.mem_exportedFormulas_iff hp hm).mp hu
    exact ⟨d, hd, Program.isVertex_of_isExported hexport⟩
  apply Fields.eq_of_mem_iff
  · exact (Fields.ascending_ofList _).filter _
  · exact Fields.ascending_ofList _
  · rintro ⟨name, values⟩
    rw [List.mem_filter, mem_moduleEntries_iff hp', mem_moduleEntries_iff hp, decide_eq_true_iff]
    constructor
    · rintro ⟨⟨m', hm', rfl, rfl⟩, hmem⟩
      obtain ⟨m, hm, hname⟩ := List.mem_map.mp hmem
      exact ⟨m, hm, hname, hsame m hm m' hm' hname⟩
    · rintro ⟨m, hm, rfl, rfl⟩
      have hmem : m.name ∈ c.program.modules.map (·.name) := List.mem_map.mpr ⟨m, hm, rfl⟩
      obtain ⟨m', hm', hname⟩ := List.mem_map.mp (h.program.hasModule m.name hmem)
      exact ⟨⟨m', hm', hname, (hsame m hm m' hm' hname.symm).symm⟩, hmem⟩

/-- A program has a solution whatever its settings are. -/
theorem exists_solves (h : compile settings source = .ok c) (hfs : fs.IsSteady)
    (arguments : List (String × Value)) (host : σ) : ∃ s, c.Solves fs arguments s := by
  have hverbose := compile_withSettings h (settings.withProfile .verbose)
  have hs := (valid_of_compile hverbose).solves_runPlan rfl hfs arguments host
  exact ⟨_, hs.size, hs.argument, hs.constant, hs.vertex⟩

theorem Reports.errors_eq_nil_iff (h : c.Valid) (hpr : c.Reports s pr) :
    (c.resultOf pr).errors = [] ↔ failuresOf c.schedule s = [] := by
  rw [hpr.errors_eq]
  cases hfailures : failuresOf c.schedule s with
  | nil => simp [errorsOf]
  | cons id others =>
    have hmem : id ∈ failuresOf c.schedule s := by simp [hfailures]
    obtain ⟨hscheduled, hlacks⟩ := List.mem_filter.mp hmem
    obtain ⟨d, hd, -⟩ := h.mem_idsOf_schedule_iff.mp hscheduled
    obtain ⟨e, he, -⟩ := exists_error_of_lacksValue c.profile hd hlacks
    cases c.failFast <;> simp [errorsOf, he]

/-- A result shows all exports of a solution if nothing in it lacks a value, or if the profile
returns partial results, and else nothing. -/
theorem Reports.modules_eq (h : c.Valid) (hpr : c.Reports s pr) :
    (c.resultOf pr).modules =
      if failuresOf c.schedule s = [] ∨ c.profile.returnsPartialResults then
        Fields.ofList (c.program.modules.map fun m =>
          (m.name, ProgramResult.exportsOf c.program s m))
      else [] := by
  have herrors := hpr.errors_eq_nil_iff h
  by_cases hshows : failuresOf c.schedule s = [] ∨ c.profile.returnsPartialResults
  · have hslots : pr.slots = s := by
      refine hpr.whole (hshows.symm.imp_left fun hpartial => ?_)
      unfold failFast
      cases hprofile : c.profile <;> simp_all [Profile.returnsPartialResults,
        Profile.containsFailures]
    rw [if_pos hshows, ← hslots]
    apply if_pos
    rcases hshows with hnone | hpartial
    · have hnil : (c.resultOf pr).errors.isEmpty := by
        rw [herrors.mpr hnone]
        rfl
      exact (Bool.or_eq_true ..).mpr (.inl hnil)
    · exact (Bool.or_eq_true ..).mpr (.inr hpartial)
  · rw [if_neg hshows]
    rw [not_or] at hshows
    exact modules_eq_nil (Bool.eq_false_iff.mpr hshows.2) fun hnil => hshows.1 (herrors.mp hnil)

end Compilation

end FormulaEngine
