import FormulaEngine.Proofs.Fields
import FormulaEngine.Proofs.Lists
import FormulaEngine.Proofs.Run.Order
import FormulaEngine.Proofs.Run.Profiles

/-!
# Reporting

A run that contains failures reports all of them, and nothing else, in the order of its schedule.
The values of exported formulas are there too, and null without an error is a value.
-/

namespace FormulaEngine

open Relation

namespace Program

variable {p : Program} {m : ProgramModule} {j : ModuleId} {id : DeclId} {name : String}
  {s : Slots} {v : Value}

/-! ### Names -/

theorem WellFormed.exists_module (hp : p.WellFormed) {d : Declaration}
    (hd : p.declaration? id = some d) (hvertex : d.isVertex) :
    ∃ j m, d.module = some j ∧ p.module? j = some m ∧ p.moduleOf? id = some m := by
  obtain ⟨j, hj⟩ := Option.ne_none_iff_exists'.mp ((hp.isVertex_iff hd).mp hvertex)
  obtain ⟨m, hm, -⟩ := hp.module_of_declaration hd hj
  refine ⟨j, m, hj, hm, ?_⟩
  simp [moduleOf?, hd, hj, hm]

/-- A vertex is known by the names of its module and its own. -/
theorem WellFormed.eq_of_qualified (hp : p.WellFormed) {id' : DeclId} {d d' : Declaration}
    {m m' : ProgramModule} (hd : p.declaration? id = some d) (hd' : p.declaration? id' = some d')
    (hm : p.moduleOf? id = some m) (hm' : p.moduleOf? id' = some m') (hmodule : m.name = m'.name)
    (hname : d.name = d'.name) : id = id' := by
  simp only [moduleOf?, Option.bind_eq_bind, hd, hd', Option.bind_some,
    Option.bind_eq_some_iff] at hm hm'
  obtain ⟨j, hj, hm⟩ := hm
  obtain ⟨j', hj', hm'⟩ := hm'
  have heq : m = m' := List.inj_on_of_nodup_map hp.module_names (List.mem_of_getElem? hm)
    (List.mem_of_getElem? hm') hmodule
  have hjj : j = j' := by
    rw [← hp.module_id_eq hm, ← hp.module_id_eq hm', heq]
  exact hp.name_injective hd hd' (by rw [hj, hj', hjj]) hname

/-! ### Exports -/

/-- What a declaration reads in a result: its value, or null. -/
def shown (s : Slots) (id : DeclId) : Value := ((s.get? id).bind Outcome.value?).getD .null

/-- The entries of which the exports of a module are made. -/
def exportEntries (p : Program) (s : Slots) (j : ModuleId) : List (String × Value) :=
  (p.exportedFormulas j).filterMap fun id => (p.declaration? id).map fun d => (d.name, shown s id)

theorem mem_exportEntries_iff (hp : p.WellFormed) (hm : p.module? j = some m) :
    (name, v) ∈ p.exportEntries s j ↔ ∃ id d, p.declaration? id = some d ∧ d.module = some j ∧
      d.isExported ∧ d.name = name ∧ shown s id = v := by
  simp only [exportEntries, List.mem_filterMap, Option.map_eq_some_iff, Prod.mk.injEq,
    mem_exportedFormulas_iff hp hm]
  constructor
  · rintro ⟨id, ⟨d, hd, hmodule, hexported⟩, e, he, hname, hv⟩
    obtain rfl : d = e := Option.some.inj (hd.symm.trans he)
    exact ⟨id, d, hd, hmodule, hexported, hname, hv⟩
  · rintro ⟨id, d, hd, hmodule, hexported, hname, hv⟩
    exact ⟨id, ⟨d, hd, hmodule, hexported⟩, d, hd, hname, hv⟩

theorem nodup_exportEntries (hp : p.WellFormed) (hm : p.module? j = some m)
    (hexported : (p.exportedFormulas j).Nodup) : ((p.exportEntries s j).map Prod.fst).Nodup := by
  rw [exportEntries, List.map_filterMap, List.Nodup, List.pairwise_filterMap]
  refine hexported.imp_of_mem fun {u v} hu hv hne name hname name' hname' heq => hne ?_
  obtain ⟨d, hd, hmodule, -⟩ := (mem_exportedFormulas_iff hp hm).mp hu
  obtain ⟨e, he, hmodule', -⟩ := (mem_exportedFormulas_iff hp hm).mp hv
  have hdname : d.name = name := by simpa [hd] using hname
  have hename : e.name = name' := by simpa [he] using hname'
  exact hp.name_injective hd he (hmodule.trans hmodule'.symm) (hdname.trans (heq.trans hename.symm))

theorem mem_exportsOf_iff (hp : p.WellFormed) (hm : p.module? m.id = some m)
    (hexported : (p.exportedFormulas m.id).Nodup) :
    (name, v) ∈ ProgramResult.exportsOf p s m ↔ ∃ id d, p.declaration? id = some d ∧
      d.module = some m.id ∧ d.isExported ∧ d.name = name ∧ shown s id = v := by
  rw [← mem_exportEntries_iff hp hm]
  exact (Fields.ofList_perm (nodup_exportEntries hp hm hexported)).mem_iff

theorem isVertex_of_isExported {d : Declaration} (h : d.isExported) : d.isVertex := by
  unfold Declaration.isExported at h
  unfold Declaration.isVertex
  split at h
  · simp [*]
  · cases h

theorem WellFormed.module?_of_mem (hp : p.WellFormed) (hm : m ∈ p.modules) :
    p.module? m.id = some m := by
  obtain ⟨j, hj⟩ := List.getElem?_of_mem hm
  have hid : m.id = j := hp.module_id_eq hj
  rw [hid]
  exact hj

end Program

namespace Compilation

variable {σ : Type} {c : Compilation} {s : Slots} {id : DeclId} {ids : List DeclId}
  {errors : List FormulaError}

/-! ### Errors -/

/-- An error tells of a declaration, by its name and that of its module, and whether it has failed
itself or was skipped. -/
structure TellsOf (c : Compilation) (s : Slots) (id : DeclId) (e : FormulaError) : Prop where
  named : ∃ d m, c.program.declaration? id = some d ∧ c.program.moduleOf? id = some m ∧
    e.module = m.name ∧ e.formula = d.name
  runtime : e.kind = .runtime ↔ ∃ failure, s.get? id = some (.failed failure)
  skipped : e.kind = .skipped ↔ ∃ cause, s.get? id = some (.skipped cause)

/-- Errors list the vertices that have failed or were skipped, and nothing else: each once, in the
order of the schedule, and each skip after its root. -/
structure ListsFailures (c : Compilation) (s : Slots) (ids : List DeclId)
    (errors : List FormulaError) : Prop where
  entries : List.Forall₂ (c.TellsOf s) ids errors
  nodup : ids.Nodup
  mem_iff : ∀ id, id ∈ ids ↔
    (∃ failure, s.get? id = some (.failed failure)) ∨ ∃ cause, s.get? id = some (.skipped cause)
  vertices : ids ⊆ c.graph.vertices
  names : (errors.map fun e => (e.module, e.formula)).Nodup
  ordered : ids.Pairwise c.Precedes
  roots : ∀ front id later cause, ids = front ++ id :: later →
    s.get? id = some (.skipped cause) →
      cause.declaration ∈ front ∧ s.get? cause.declaration = some (.failed cause)

theorem Valid.tellsOf (h : c.Valid) (hid : id ∈ c.graph.vertices) {e : FormulaError}
    (he : (s.get? id).bind (FormulaError.ofOutcome? c.program c.profile id) = some e) :
    c.TellsOf s id e := by
  obtain ⟨d, hd, hvertex⟩ := h.mem_vertices_iff.mp hid
  obtain ⟨j, m, hj, hm, hmodule⟩ := h.wellFormed.exists_module hd hvertex
  obtain ⟨o, ho, he⟩ := Option.bind_eq_some_iff.mp he
  unfold FormulaError.ofOutcome? at he
  simp only [hd, hmodule, Option.bind_eq_bind, Option.bind_some, Option.map_some,
    Option.getD_some] at he
  cases o with
  | value v => cases he
  | failed failure =>
    obtain rfl := Option.some.inj he
    exact ⟨⟨d, m, hd, hmodule, rfl, rfl⟩, by simp [ho], by simp [ho]⟩
  | skipped cause =>
    obtain rfl := Option.some.inj he
    exact ⟨⟨d, m, hd, hmodule, rfl, rfl⟩, by simp [ho], by simp [ho]⟩

theorem Valid.eq_of_tellsOf (h : c.Valid) {id' : DeclId} {e e' : FormulaError}
    (he : c.TellsOf s id e) (he' : c.TellsOf s id' e') (hmodule : e.module = e'.module)
    (hformula : e.formula = e'.formula) : id = id' := by
  obtain ⟨d, m, hd, hm, heq, hname⟩ := he.named
  obtain ⟨d', m', hd', hm', heq', hname'⟩ := he'.named
  apply h.wellFormed.eq_of_qualified hd hd' hm hm'
  · rw [← heq, ← heq', hmodule]
  · rw [← hname, ← hname', hformula]

/-- Failures of different vertices have different names. -/
theorem Valid.nodup_names (h : c.Valid) (hids : ids.Nodup)
    (hentries : List.Forall₂ (c.TellsOf s) ids errors) :
    (errors.map fun e => (e.module, e.formula)).Nodup := by
  induction hentries with
  | nil => exact List.nodup_nil
  | cons hfirst hrest ih =>
    obtain ⟨hnew, hids⟩ := List.nodup_cons.mp hids
    refine List.nodup_cons.mpr ⟨fun hmem => hnew ?_, ih hids⟩
    obtain ⟨e', he', heq⟩ := List.mem_map.mp hmem
    obtain ⟨id', hid', htells⟩ := exists_of_mem_right hrest he'
    obtain ⟨hmodule, hformula⟩ := Prod.mk.inj heq
    rw [h.eq_of_tellsOf hfirst htells hmodule.symm hformula.symm]
    exact hid'

/-- The way from the root of a skip to what is skipped leads up through the layers. -/
theorem HasRootCauses.layerOf_lt (h : c.Valid) (hstratified : c.IsStratified)
    (hroots : c.HasRootCauses s) {cause : StepFailure} (hid : s.get? id = some (.skipped cause)) :
    c.layerOf cause.declaration < c.layerOf id := by
  obtain ⟨between, hchain, -⟩ := hroots.path id cause hid
  have hup : (cause.declaration :: between ++ [id]).IsChain
      fun u v => c.layerOf u < c.layerOf v := by
    refine hchain.imp fun u v hedge => ?_
    exact hstratified.above u v (h.mem_edges_iff.mp hedge)
  have htrans : Trans (fun u v => c.layerOf u < c.layerOf v)
      (fun u v => c.layerOf u < c.layerOf v) fun u v => c.layerOf u < c.layerOf v :=
    ⟨fun hab hbc => Nat.lt_trans hab hbc⟩
  have hpairwise := List.isChain_iff_pairwise.mp hup
  exact (List.pairwise_cons.mp hpairwise).1 id (by simp)

theorem lacksValue_iff : s.lacksValue id ↔
    (∃ failure, s.get? id = some (.failed failure)) ∨
      ∃ cause, s.get? id = some (.skipped cause) := by
  unfold Slots.lacksValue
  cases s.get? id with
  | none => simp
  | some o => cases o <;> simp [Outcome.isValue, Outcome.value?]

/-- When the whole schedule is settled, whatever lacks a value is on it. -/
theorem IsFilled.mem_failuresOf_iff {pr : Progress σ} (hfilled : c.IsFilled c.schedule pr) :
    id ∈ failuresOf c.schedule pr.slots ↔ pr.slots.lacksValue id := by
  rw [failuresOf, List.mem_filter, and_iff_right_of_imp]
  intro hlacks
  obtain ⟨o, ho, hvalue⟩ := (Option.any_eq_true ..).mp hlacks
  rcases hfilled.only id o ho with hmem | ⟨e, he, hnot⟩
  · exact hmem
  · obtain ⟨v, hv⟩ := hfilled.global id e he hnot
    obtain rfl := Option.some.inj (ho.symm.trans hv)
    cases hvalue

theorem Valid.listsFailures (h : c.Valid) (hstratified : c.IsStratified)
    (hmem : ∀ id, id ∈ failuresOf c.schedule s ↔ s.lacksValue id) (hroots : c.HasRootCauses s) :
    c.ListsFailures s (failuresOf c.schedule s)
      (c.errorsOf c.profile s (failuresOf c.schedule s)) := by
  have hnodup := h.nodup_schedule
  have hvertices : failuresOf c.schedule s ⊆ c.graph.vertices := fun id hid =>
    h.idsOf_schedule_perm.subset (List.mem_of_mem_filter hid)
  have hentries : List.Forall₂ (c.TellsOf s) (failuresOf c.schedule s)
      (c.errorsOf c.profile s (failuresOf c.schedule s)) := by
    apply forall₂_filterMap
    intro id hid
    obtain ⟨d, hd, -⟩ := h.mem_vertices_iff.mp (hvertices hid)
    obtain ⟨e, he, -⟩ := exists_error_of_lacksValue c.profile hd ((hmem id).mp hid)
    exact ⟨e, he, h.tellsOf (hvertices hid) he⟩
  have hordered : (failuresOf c.schedule s).Pairwise c.Precedes :=
    (h.pairwise_precedes hstratified).filter _
  refine ⟨hentries, hnodup.filter _, fun id => (hmem id).trans lacksValue_iff, hvertices,
    h.nodup_names (hnodup.filter _) hentries, hordered, ?_⟩
  intro front id later cause hsplit hid
  obtain ⟨-, hroot⟩ := hroots.root id cause hid
  refine ⟨?_, hroot⟩
  have hcause : cause.declaration ∈ failuresOf c.schedule s :=
    (hmem _).mpr (lacksValue_iff.mpr (.inl ⟨cause, hroot⟩))
  have hlt := hroots.layerOf_lt h hstratified hid
  rw [hsplit] at hcause hordered
  rcases List.mem_append.mp hcause with hfront | hlater
  · exact hfront
  · -- Whatever comes later is not in an earlier layer.
    have hle : c.layerOf id ≤ c.layerOf cause.declaration := by
      rcases List.mem_cons.mp hlater with heq | hlater
      · rw [heq]
      · have hprecedes := (List.pairwise_cons.mp (List.pairwise_append.mp hordered).2.1).1 _ hlater
        rcases hprecedes with hlt | ⟨heq, -⟩
        · exact Nat.le_of_lt hlt
        · exact Nat.le_of_eq heq
    omega

/-! ### Values -/

/-- A result has each module, and in it the exported formulas, with their values or null. What reads
null without an error is null. -/
structure ShowsExports (c : Compilation) (s : Slots) (result : ProgramResult) : Prop where
  modules : (result.modules.map Prod.fst).Perm (c.program.modules.map (·.name))
  modules_nodup : (result.modules.map Prod.fst).Nodup
  formulas : ∀ m ∈ c.program.modules, ∃ values, Fields.get? result.modules m.name = some values ∧
    (values.map Prod.fst).Nodup ∧
    ∀ name v, (name, v) ∈ values ↔ ∃ id d o, c.program.declaration? id = some d ∧
      d.module = some m.id ∧ d.isExported ∧ d.name = name ∧ s.get? id = some o ∧
      v = o.value?.getD .null
  null_iff : ∀ m ∈ c.program.modules, ∀ id d, c.program.declaration? id = some d →
    d.module = some m.id → d.isExported →
      ((result.value? m.name d.name = some .null ∧
          ∀ e ∈ result.errors, (e.module, e.formula) ≠ (m.name, d.name)) ↔
        s.get? id = some (.value .null))

theorem exportedFormulas_nodup_of_compile {settings : Settings} {source : ProgramSource}
    (h : compile settings source = .ok c) (j : ModuleId) :
    (c.program.exportedFormulas j).Nodup := by
  rw [program_of_compile h]
  exact (Program.pairwise_exportedFormulas j).nodup

theorem nodup_moduleEntries (hp : c.program.WellFormed) :
    ((c.program.modules.map fun m =>
      (m.name, ProgramResult.exportsOf c.program s m)).map Prod.fst).Nodup := by
  rw [List.map_map]
  exact hp.module_names

theorem get?_modules (hp : c.program.WellFormed) {m : ProgramModule}
    (hm : m ∈ c.program.modules) :
    Fields.get? (Fields.ofList (c.program.modules.map fun m =>
      (m.name, ProgramResult.exportsOf c.program s m))) m.name =
        some (ProgramResult.exportsOf c.program s m) :=
  (Fields.get?_ofList_eq_some_iff (nodup_moduleEntries hp)).mpr (List.mem_map.mpr ⟨m, hm, rfl⟩)

theorem nodup_exportsOf (p : Program) (s : Slots) (m : ProgramModule) :
    ((ProgramResult.exportsOf p s m).map Prod.fst).Nodup :=
  Fields.nodup_of_ascending (Fields.ascending_ofList _)

theorem TellsOf.name_eq_iff (hp : c.program.WellFormed) {id' : DeclId} {e : FormulaError}
    {d : Declaration} {m : ProgramModule} (he : c.TellsOf s id' e)
    (hd : c.program.declaration? id = some d) (hm : c.program.moduleOf? id = some m) :
    (e.module, e.formula) = (m.name, d.name) ↔ id' = id := by
  obtain ⟨d', m', hd', hm', hmodule, hformula⟩ := he.named
  rw [Prod.mk.injEq, hmodule, hformula]
  constructor
  · rintro ⟨heq, heq'⟩
    exact hp.eq_of_qualified hd' hd hm' hm heq heq'
  · rintro rfl
    obtain rfl := Option.some.inj (hd.symm.trans hd')
    obtain rfl := Option.some.inj (hm.symm.trans hm')
    exact ⟨rfl, rfl⟩

/-- No error has the name of a declaration exactly if the declaration is not listed. -/
theorem ListsFailures.forall_name_ne_iff (hp : c.program.WellFormed)
    (hlists : c.ListsFailures s ids errors) {d : Declaration} {m : ProgramModule}
    (hd : c.program.declaration? id = some d) (hm : c.program.moduleOf? id = some m) :
    (∀ e ∈ errors, (e.module, e.formula) ≠ (m.name, d.name)) ↔ id ∉ ids := by
  constructor
  · intro hnone hid
    obtain ⟨e, he, htells⟩ := exists_of_mem_left hlists.entries hid
    exact hnone e he ((htells.name_eq_iff hp hd hm).mpr rfl)
  · intro hid e he heq
    obtain ⟨id', hid', htells⟩ := exists_of_mem_right hlists.entries he
    obtain rfl := (htells.name_eq_iff hp hd hm).mp heq
    exact hid hid'

theorem ListsFailures.shown_eq_null_iff (hlists : c.ListsFailures s ids errors) {o : Outcome}
    (ho : s.get? id = some o) :
    Program.shown s id = .null ∧ id ∉ ids ↔ s.get? id = some (.value .null) := by
  rw [hlists.mem_iff, Program.shown, ho]
  cases o with
  | value v => simp [Outcome.value?]
  | failed failure | skipped cause => simp [Outcome.value?]

/-- An exported formula is shown in the result under its name. -/
theorem value?_eq_shown (h : c.Valid) (hexported : ∀ j, (c.program.exportedFormulas j).Nodup)
    {result : ProgramResult} (hmodules : result.modules = Fields.ofList
      (c.program.modules.map fun m => (m.name, ProgramResult.exportsOf c.program s m)))
    {m : ProgramModule} (hm : m ∈ c.program.modules) {d : Declaration}
    (hd : c.program.declaration? id = some d) (hin : d.module = some m.id)
    (hexport : d.isExported) : result.value? m.name d.name = some (Program.shown s id) := by
  have hp := h.wellFormed
  rw [ProgramResult.value?, hmodules, get?_modules hp hm, Option.bind_some,
    Fields.get?_eq_some_iff (nodup_exportsOf _ _ m),
    Program.mem_exportsOf_iff hp (hp.module?_of_mem hm) (hexported _)]
  exact ⟨id, d, hd, hin, hexport, rfl, rfl⟩

theorem Valid.showsExports (h : c.Valid) (hexported : ∀ j, (c.program.exportedFormulas j).Nodup)
    (hdone : ∀ id d, c.program.declaration? id = some d → d.isVertex →
      ∃ o, s.get? id = some o)
    {result : ProgramResult} (hlists : c.ListsFailures s ids result.errors)
    (hmodules : result.modules = Fields.ofList (c.program.modules.map fun m =>
      (m.name, ProgramResult.exportsOf c.program s m))) :
    c.ShowsExports s result := by
  have hp := h.wellFormed
  refine ⟨?_, ?_, fun m hm => ⟨ProgramResult.exportsOf c.program s m, ?_, nodup_exportsOf _ s m,
    fun name v => ?_⟩, fun m hm id d hd hin hexport => ?_⟩
  · have hperm := (Fields.ofList_perm (nodup_moduleEntries (s := s) hp)).map Prod.fst
    rw [List.map_map] at hperm
    rw [hmodules]
    exact hperm
  · rw [hmodules]
    exact Fields.nodup_of_ascending (Fields.ascending_ofList _)
  · rw [hmodules]
    exact get?_modules hp hm
  · rw [Program.mem_exportsOf_iff hp (hp.module?_of_mem hm) (hexported m.id)]
    refine exists_congr fun id => exists_congr fun d => ?_
    constructor
    · rintro ⟨hd, hin, hexport, hname, rfl⟩
      obtain ⟨o, ho⟩ := hdone id d hd (Program.isVertex_of_isExported hexport)
      exact ⟨o, hd, hin, hexport, hname, ho, by rw [Program.shown, ho, Option.bind_some]⟩
    · rintro ⟨o, hd, hin, hexport, hname, ho, rfl⟩
      exact ⟨hd, hin, hexport, hname, by rw [Program.shown, ho, Option.bind_some]⟩
  · have hmodule : c.program.moduleOf? id = some m := by
      simp [Program.moduleOf?, hd, hin, hp.module?_of_mem hm]
    obtain ⟨o, ho⟩ := hdone id d hd (Program.isVertex_of_isExported hexport)
    rw [value?_eq_shown h hexported hmodules hm hd hin hexport, Option.some.injEq,
      hlists.forall_name_ne_iff hp hd hmodule]
    exact hlists.shown_eq_null_iff ho

/-- A run that goes on after failures settles the whole schedule, and records what has no value. -/
theorem Valid.recorded_runPlan (h : c.Valid) (hcontains : c.failFast = false) (fs : Functions σ)
    (arguments : List (String × Value)) (host : σ) :
    (c.runPlan fs arguments host).recorded =
        failuresOf c.schedule (c.runPlan fs arguments host).slots ∧
      c.IsFilled c.schedule (c.runPlan fs arguments host) := by
  have hrecords : c.RecordsFailures [] (c.start arguments host) := by
    constructor <;> simp [start, failuresOf, idsOf]
  obtain ⟨settled, -, hrecorded, hfilled, hall⟩ := (h.keeps_recordsFailures fs).runPlan h hrecords
  obtain rfl := hall (h.stopped_runPlan hcontains fs arguments host)
  have hrecorded := hrecorded.recorded
  rw [hcontains] at hrecorded
  exact ⟨hrecorded, hfilled⟩

/-- A run under a profile that contains failures reports each of them once and loses none: in the
order of the schedule, and with the values of all that is exported if the profile returns them. -/
theorem reports_every_failure {settings : Settings} {source : ProgramSource}
    (h : compile settings source = .ok c) (hprofile : c.profile = .trace ∨ c.profile = .verbose)
    (fs : Functions σ) (arguments : List (String × Value)) (host : σ) :
    (∃ ids, c.ListsFailures (c.runPlan fs arguments host).slots ids
      (c.evaluate fs arguments host).errors) ∧
    (c.profile = .verbose →
      c.ShowsExports (c.runPlan fs arguments host).slots (c.evaluate fs arguments host)) := by
  have hvalid := valid_of_compile h
  obtain ⟨hrecorded, hfilled⟩ :=
    hvalid.recorded_runPlan (failFast_eq_false hprofile) fs arguments host
  have herrors : (c.evaluate fs arguments host).errors =
      c.errorsOf c.profile (c.runPlan fs arguments host).slots
        (failuresOf c.schedule (c.runPlan fs arguments host).slots) := by
    rw [evaluate, resultOf, ProgramResult.collect, hrecorded]
    rfl
  have hlists := hvalid.listsFailures (isStratified_of_compile h)
    (fun _ => hfilled.mem_failuresOf_iff) (hvalid.hasRootCauses_runPlan fs arguments host)
  rw [← herrors] at hlists
  refine ⟨⟨_, hlists⟩, fun hverbose => ?_⟩
  refine hvalid.showsExports (exportedFormulas_nodup_of_compile h) (fun id d hd hvertex => ?_)
    hlists ?_
  · obtain ⟨o, ho, -⟩ := hfilled.done id (hvalid.mem_idsOf_schedule_iff.mpr ⟨d, hd, hvertex⟩)
    exact ⟨o, ho⟩
  · rw [evaluate, resultOf, ProgramResult.collect, hverbose]
    simp [Profile.returnsPartialResults]

/-- Without host functions one declaration of the checkout fails, and two are skipped. -/
theorem exists_report_of_checkout :
    ∃ c ids, compile {} .checkout = .ok c ∧ c.profile = .verbose ∧ ids.length = 3 ∧
      c.ListsFailures (c.runPlan (.empty : Functions Unit) [] ()).slots ids
        (c.evaluate (.empty : Functions Unit) [] ()).errors ∧
      c.ShowsExports (c.runPlan (.empty : Functions Unit) [] ()).slots
        (c.evaluate (.empty : Functions Unit) [] ()) := by
  have herrors : (compile {} .checkout).toOption.any fun c =>
      (c.evaluate (.empty : Functions Unit) [] ()).errors.length == 3 := by decide +kernel
  obtain ⟨c, hc, hprofile⟩ := exists_checkout
  obtain ⟨⟨ids, hlists⟩, hshows⟩ :=
    reports_every_failure hc (.inr hprofile) (.empty : Functions Unit) [] ()
  rw [hc] at herrors
  simp only [Except.toOption, Option.any_some, beq_iff_eq] at herrors
  exact ⟨c, ids, hc, hprofile, hlists.entries.length_eq.trans herrors, hlists, hshows hprofile⟩

end Compilation

end FormulaEngine
