import FormulaEngine.Proofs.Program.Imports
import FormulaEngine.Proofs.Program.Parts

/-!
# Adding a module

A module that is added at the end leaves all that is there in its place. The program is part of the
extended one if it does not import from the new module's name.
-/

namespace FormulaEngine

namespace ProgramSource

variable {source : ProgramSource} {m : ModuleSource}

theorem Lowerable.of_withModule (h : (source.withModule m).Lowerable) : source.Lowerable := by
  have hsubset : ∀ m' ∈ source.modules, m' ∈ (source.withModule m).modules := fun m' hm' =>
    List.mem_append_left _ hm'
  refine ⟨h.global_names, ?_, fun m' hm' => h.member_names m' (hsubset m' hm'),
    fun m' hm' => h.formulas m' (hsubset m' hm')⟩
  have hnames := h.module_names
  rw [withModule, List.map_append] at hnames
  exact hnames.of_append_left

theorem Lowerable.not_mem_of_withModule (h : (source.withModule m).Lowerable) :
    m.name ∉ source.modules.map (·.name) := by
  have hnames := h.module_names
  rw [withModule, List.map_append, List.nodup_append] at hnames
  intro hmem
  exact hnames.2.2 m.name hmem m.name (by simp) rfl

theorem imports_withModule : (source.withModule m).imports =
    source.imports ++ m.imports.map fun i => (m.name, i) := by
  simp [imports, withModule]

/-- No import of a formula or a module names a module first. -/
def ImportsNothingFrom (source : ProgramSource) (module : String) : Prop :=
  ∀ i ∈ source.imports, i.2.kind = .formula ∨ i.2.kind = .module → i.2.path.head? ≠ some module

end ProgramSource

namespace Program

variable {p p' : Program} {source : ProgramSource} {m : ModuleSource} {first : DeclId}
  {k j : ModuleId} {modules rest : List ModuleSource} {u u' : DeclId} {d : Declaration}
  {x : Description}

/-! ### Numbers -/

theorem isPrefix_placeModules :
    placeModules first k modules <+: placeModules first k (modules ++ rest) := by
  induction modules generalizing first k with
  | nil => exact List.nil_prefix
  | cons m modules ih =>
    rw [List.cons_append, placeModules, placeModules]
    exact (List.prefix_append_right_inj _).mpr ih

theorem isPrefix_modulesFrom :
    modulesFrom first k modules <+: modulesFrom first k (modules ++ rest) := by
  induction modules generalizing first k with
  | nil => exact List.nil_prefix
  | cons m modules ih =>
    rw [List.cons_append, modulesFrom, modulesFrom]
    exact (List.cons_prefix_cons ..).mpr ⟨rfl, ih⟩

/-- The declarations and modules of a program come first in another one, under the same numbers. -/
structure IsPrefixOf (p p' : Program) : Prop where
  declarations : p.declarations <+: p'.declarations
  modules : p.modules <+: p'.modules

theorem isPrefixOf_withModule (source : ProgramSource) (m : ModuleSource) :
    (ofSource source).IsPrefixOf (ofSource (source.withModule m)) :=
  ⟨(List.prefix_append_right_inj _).mpr isPrefix_placeModules, isPrefix_modulesFrom⟩

namespace IsPrefixOf

variable (h : p.IsPrefixOf p')

include h

theorem declaration? (hd : p.declaration? u = some d) : p'.declaration? u = some d := by
  obtain ⟨hlt, rfl⟩ := List.getElem?_eq_some_iff.mp hd
  exact List.prefix_iff_getElem?.mp h.declarations u hlt

theorem module? {m : ProgramModule} (hm : p.module? j = some m) : p'.module? j = some m := by
  obtain ⟨hlt, rfl⟩ := List.getElem?_eq_some_iff.mp hm
  exact List.prefix_iff_getElem?.mp h.modules j hlt

theorem moduleOf?_eq (hp : p.WellFormed) (hd : p.declaration? u = some d) :
    p'.moduleOf? u = p.moduleOf? u := by
  have hd' := h.declaration? hd
  rcases hp.module_cases hd with ⟨hnone, -⟩ | ⟨j, m, hj, hm, -⟩
  · simp [moduleOf?, hd, hd', hnone]
  · simp [moduleOf?, hd, hd', hj, hm, h.module? hm]

theorem description?_eq (hp : p.WellFormed) (hd : p.declaration? u = some d) :
    p'.description? u = p.description? u := by
  rw [description?, description?, h.moduleOf?_eq hp hd, h.declaration? hd, hd]

theorem twins (hp : p.WellFormed) (hd : p.declaration? u = some d) : p.Twins p' u u := by
  obtain ⟨x, hx, -⟩ := exists_description? hd
  exact ⟨x, hx, (h.description?_eq hp hd).trans hx⟩

theorem eq_of_twins (hp : p.WellFormed) (hp' : p'.WellFormed) (htwins : p.Twins p' u u') :
    u = u' := by
  obtain ⟨d, -, hd, -⟩ := htwins.exists_declaration
  exact (h.twins hp hd).right_unique hp' htwins

theorem qualifiedName_eq (hp : p.WellFormed) (hd : p.declaration? u = some d) :
    p'.qualifiedName u = p.qualifiedName u := by
  rw [qualifiedName, qualifiedName, h.moduleOf?_eq hp hd, h.declaration? hd, hd]

theorem exportedFormulas_eq (hp : p.WellFormed) {m : ProgramModule} (hm : p.module? j = some m) :
    p'.exportedFormulas j = p.exportedFormulas j := by
  rw [exportedFormulas, exportedFormulas, hm, h.module? hm]
  apply List.filter_congr
  intro id hid
  obtain ⟨d, hd, -⟩ := (hp.mem_declarations_iff hm).mp hid
  rw [hd, h.declaration? hd]

end IsPrefixOf

/-! ### A part -/

theorem exists_import_of_declares (hx : (ofSource source).Declares x) {path : List String}
    {kind : ImportKind} (hkind : x.kind = .imported path kind) :
    ∃ i ∈ source.imports, i.2.path = path ∧ i.2.kind = kind := by
  rcases declares_ofSource_iff.mp hx with ⟨-, hmem⟩ | ⟨m, hm, -, hmem⟩
  · rcases List.mem_append.mp hmem with hmem | hmem
    all_goals
      obtain ⟨_, -, heq⟩ := List.mem_map.mp hmem
      have hother := (Prod.mk.inj heq).2
      rw [hkind] at hother
      cases hother
  · rcases mem_members_iff.mp hmem with ⟨i, hi, -, heq⟩ | ⟨f, -, -, heq⟩
    · rw [hkind] at heq
      obtain ⟨hpath, hkind⟩ := DeclKind.imported.inj heq
      refine ⟨(m.name, i), ?_, hpath, hkind⟩
      exact List.mem_flatMap.mpr ⟨m, hm, List.mem_map.mpr ⟨i, hi, rfl⟩⟩
    · rw [hkind] at heq
      cases heq

theorem isPartOf_withModule (h : (source.withModule m).Lowerable)
    (himports : source.ImportsNothingFrom m.name) :
    (ofSource source).IsPartOf (ofSource (source.withModule m)) where
  declares x hx := by
    rw [declares_ofSource_iff] at hx ⊢
    refine hx.imp_right fun hmember => ?_
    obtain ⟨m', hm', hmember⟩ := hmember
    exact ⟨m', List.mem_append_left _ hm', hmember⟩
  hasModule name hname := by
    rw [hasModule_ofSource_iff] at hname ⊢
    rw [ProgramSource.withModule, List.map_append]
    exact List.mem_append_left _ hname
  globals x hmodule hx := by
    rw [declares_ofSource_iff] at hx ⊢
    rcases hx with hglobal | ⟨m', -, hin, -⟩
    · exact .inl hglobal
    · exact absurd (hmodule.symm.trans hin) (by simp)
  members x name hmodule hname hx := by
    rw [declares_ofSource_iff] at hx ⊢
    rw [hasModule_ofSource_iff] at hname
    rcases hx with ⟨hnone, -⟩ | ⟨m', hm', hin, hmember⟩
    · exact absurd (hnone.symm.trans hmodule) (by simp)
    · rcases List.mem_append.mp hm' with hm' | hnew
      · exact .inr ⟨m', hm', hin, hmember⟩
      · obtain rfl := List.mem_singleton.mp hnew
        obtain rfl := Option.some.inj (hmodule.symm.trans hin)
        exact absurd hname h.not_mem_of_withModule
  imports x path kind name hx hkind hof hhead hname := by
    rw [hasModule_ofSource_iff] at hname ⊢
    rw [ProgramSource.withModule, List.map_append, List.mem_append] at hname
    refine hname.resolve_right fun hnew => ?_
    obtain rfl := List.mem_singleton.mp hnew
    obtain ⟨i, hi, rfl, rfl⟩ := exists_import_of_declares hx hkind
    exact himports i hi hof hhead

end Program

end FormulaEngine
