import FormulaEngine.Proofs.Lists
import FormulaEngine.Proofs.Program.Imports
import FormulaEngine.Proofs.Program.Parts
import Mathlib.Data.List.Perm.Basic

/-!
# Rearranged sources

A source may list its arguments, constants and modules in another order, and each module its imports
and formulas. It declares the same under other numbers, so each of the two programs is part of the
other one.
-/

namespace FormulaEngine

/-- A module with its imports and formulas in another order. -/
structure ModuleSource.IsRearranged (m m' : ModuleSource) : Prop where
  name : m.name = m'.name
  imports : m.imports.Perm m'.imports
  formulas : m.formulas.Perm m'.formulas

/-- A source in another order: its parts are permuted, and the parts of each module. -/
structure ProgramSource.IsRearranged (source source' : ProgramSource) : Prop where
  arguments : source.arguments.Perm source'.arguments
  constants : source.constants.Perm source'.constants
  modules : ∃ modules, source.modules.Perm modules ∧
    List.Forall₂ ModuleSource.IsRearranged modules source'.modules

variable {m m' : ModuleSource} {source source' : ProgramSource}

namespace ModuleSource.IsRearranged

theorem symm (h : m.IsRearranged m') : m'.IsRearranged m :=
  ⟨h.name.symm, h.imports.symm, h.formulas.symm⟩

theorem members (h : m.IsRearranged m') : m.members.Perm m'.members :=
  (h.imports.map _).append (h.formulas.map _)

end ModuleSource.IsRearranged

namespace ProgramSource.IsRearranged

theorem symm (h : source.IsRearranged source') : source'.IsRearranged source := by
  obtain ⟨modules, hperm, hmodules⟩ := h.modules
  -- Permuting the modules first, or after each of them is rearranged, makes no difference.
  obtain ⟨modules', hmodules', hperm'⟩ := List.perm_comp_forall₂ hperm hmodules
  refine ⟨h.arguments.symm, h.constants.symm, modules', hperm'.symm, ?_⟩
  exact hmodules'.flip.imp fun _ _ hm => hm.symm

theorem exists_module (h : source.IsRearranged source') (hm : m ∈ source.modules) :
    ∃ m' ∈ source'.modules, m.IsRearranged m' := by
  obtain ⟨modules, hperm, hmodules⟩ := h.modules
  exact exists_of_mem_left hmodules (hperm.mem_iff.mp hm)

theorem module_names (h : source.IsRearranged source') :
    (source.modules.map (·.name)).Perm (source'.modules.map (·.name)) := by
  obtain ⟨modules, hperm, hmodules⟩ := h.modules
  rw [← map_eq_of_forall₂ (fun _ _ hm => hm.name) hmodules]
  exact hperm.map _

theorem globals (h : source.IsRearranged source') : source.globals.Perm source'.globals :=
  (h.arguments.map _).append (h.constants.map _)

theorem lowerable (h : source.IsRearranged source') (hsource : source.Lowerable) :
    source'.Lowerable := by
  refine ⟨?_, h.module_names.nodup_iff.mp hsource.module_names, fun m' hm' => ?_, fun m' hm' => ?_⟩
  · exact ((h.arguments.map _).append (h.constants.map _)).nodup_iff.mp hsource.global_names
  · obtain ⟨m, hm, hrearranged⟩ := h.symm.exists_module hm'
    exact ((hrearranged.imports.map _).append (hrearranged.formulas.map _)).nodup_iff.mpr
      (hsource.member_names m hm)
  · obtain ⟨m, hm, hrearranged⟩ := h.symm.exists_module hm'
    intro f hf
    exact hsource.formulas m hm f (hrearranged.formulas.mem_iff.mp hf)

theorem mem_imports (h : source.IsRearranged source') {i : String × ImportSource}
    (hi : i ∈ source.imports) : i ∈ source'.imports := by
  obtain ⟨m, hm, himport⟩ := List.mem_flatMap.mp hi
  obtain ⟨j, hj, rfl⟩ := List.mem_map.mp himport
  obtain ⟨m', hm', hrearranged⟩ := h.exists_module hm
  refine List.mem_flatMap.mpr ⟨m', hm', List.mem_map.mpr ⟨j, ?_, by rw [hrearranged.name]⟩⟩
  exact hrearranged.imports.mem_iff.mp hj

theorem declares (h : source.IsRearranged source') {x : Description}
    (hx : (Program.ofSource source).Declares x) : (Program.ofSource source').Declares x := by
  rw [Program.declares_ofSource_iff] at hx ⊢
  rcases hx with ⟨hnone, hmem⟩ | ⟨m, hm, hin, hmem⟩
  · exact .inl ⟨hnone, h.globals.mem_iff.mp hmem⟩
  · obtain ⟨m', hm', hrearranged⟩ := h.exists_module hm
    exact .inr ⟨m', hm', hrearranged.name ▸ hin, hrearranged.members.mem_iff.mp hmem⟩

/-- Of a program and a rearranged one, each is part of the other. -/
theorem isPartOf (h : source.IsRearranged source') :
    (Program.ofSource source).IsPartOf (Program.ofSource source') where
  declares _ hx := h.declares hx
  hasModule name := by
    rw [Program.hasModule_ofSource_iff, Program.hasModule_ofSource_iff, h.module_names.mem_iff]
    exact id
  globals _ _ hx := h.symm.declares hx
  members _ _ _ _ hx := h.symm.declares hx
  imports _ _ _ name _ _ _ _ := by
    rw [Program.hasModule_ofSource_iff, Program.hasModule_ofSource_iff, h.module_names.mem_iff]
    exact id

end ProgramSource.IsRearranged

end FormulaEngine
