import FormulaEngine.Proofs.Program.Descriptions

/-!
# Parts of programs

A program is part of another one that declares all that it does, if it cannot see what else is
there. Then names, imports and dependencies lead from it to declarations of the same descriptions in
both, whatever the numbers are.
-/

namespace FormulaEngine.Program

open Relation

/-- Declarations of two programs have one description. -/
def Twins (p p' : Program) (u u' : DeclId) : Prop :=
  ∃ x, p.description? u = some x ∧ p'.description? u' = some x

/-- All that a program declares is declared in another one too. What else is there is neither a
global, nor in a module of the first program, nor in one that an import of it names. -/
structure IsPartOf (p p' : Program) : Prop where
  declares : ∀ x, p.Declares x → p'.Declares x
  hasModule : ∀ name, p.HasModule name → p'.HasModule name
  globals : ∀ x, x.module = none → p'.Declares x → p.Declares x
  members : ∀ x name, x.module = some name → p.HasModule name → p'.Declares x → p.Declares x
  imports : ∀ x path kind name, p.Declares x → x.kind = .imported path kind →
    kind = .formula ∨ kind = .module → path.head? = some name → p'.HasModule name →
      p.HasModule name

variable {p p' : Program} {u u' v v' : DeclId} {j j' : ModuleId} {m m' : ProgramModule}
  {name : String} {x y : Description}

/-! ### Twins -/

theorem Twins.exists_declaration (h : p.Twins p' u u') :
    ∃ d d', p.declaration? u = some d ∧ p'.declaration? u' = some d' ∧ d.name = d'.name ∧
      d.kind = d'.kind := by
  obtain ⟨x, hx, hx'⟩ := h
  obtain ⟨d, hd, hname, hkind⟩ := declaration?_of_description? hx
  obtain ⟨d', hd', hname', hkind'⟩ := declaration?_of_description? hx'
  exact ⟨d, d', hd, hd', hname.trans hname'.symm, hkind.trans hkind'.symm⟩

theorem Twins.symm (h : p.Twins p' u u') : p'.Twins p u' u := by
  obtain ⟨x, hx, hx'⟩ := h
  exact ⟨x, hx', hx⟩

theorem Twins.right_unique (hp' : p'.WellFormed) (hu : p.Twins p' u u') (hv : p.Twins p' u v') :
    u' = v' := by
  obtain ⟨x, hx, hx'⟩ := hu
  obtain ⟨y, hy, hy'⟩ := hv
  obtain rfl := Option.some.inj (hx.symm.trans hy)
  exact hp'.eq_of_description? hx' hy' rfl rfl

theorem IsPartOf.exists_twin (h : p.IsPartOf p') {d : Declaration}
    (hd : p.declaration? u = some d) : ∃ u', p.Twins p' u u' := by
  obtain ⟨x, hx, -⟩ := exists_description? hd
  obtain ⟨u', hu'⟩ := h.declares x ⟨u, hx⟩
  exact ⟨u', x, hx, hu'⟩

/-! ### Dependencies -/

theorem IsPartOf.declares_of_needs (hp : p.WellFormed) (hp' : p'.WellFormed) (h : p.IsPartOf p')
    (hx : p.Declares x) (hy : p'.Declares y) (hneeds : x.Needs y) : p.Declares y := by
  obtain ⟨v, hv⟩ := hx
  obtain ⟨u', hu'⟩ := hy
  have himported : ∀ {path kind module}, x.kind = .imported path kind →
      kind = .formula ∨ kind = .module → path.head? = some module → y.module = some module →
        p.Declares y := by
    intro path kind module hkind hof hhead hin
    have hmodule := h.imports x path kind module ⟨v, hv⟩ hkind hof hhead
      (hp'.hasModule_of_member hu' hin)
    exact h.members y module hin hmodule ⟨u', hu'⟩
  cases hneeds with
  | name hkind hmodule hin hname =>
    exact h.members y _ hin (hp.hasModule_of_member hv hmodule) ⟨u', hu'⟩
  | formula hkind hin hformula => exact himported hkind (.inl rfl) rfl hin
  | exports hkind hin hexported => exact himported hkind (.inr rfl) rfl hin

theorem IsPartOf.dependsOn (hp : p.WellFormed) (hp' : p'.WellFormed) (h : p.IsPartOf p')
    (hv : p.Twins p' v v') (hdep : p.DependsOn v u) :
    ∃ u', p.Twins p' u u' ∧ p'.DependsOn v' u' := by
  obtain ⟨x, y, hx, hy, hneeds⟩ := hp.dependsOn_iff.mp hdep
  obtain ⟨x', hx', hx''⟩ := hv
  obtain rfl := Option.some.inj (hx.symm.trans hx')
  obtain ⟨u', hu'⟩ := h.declares y ⟨u, hy⟩
  exact ⟨u', ⟨y, hy, hu'⟩, hp'.dependsOn_iff.mpr ⟨x, y, hx'', hu', hneeds⟩⟩

/-- Nothing in a part depends on what is not in it. -/
theorem IsPartOf.exists_of_dependsOn (hp : p.WellFormed) (hp' : p'.WellFormed)
    (h : p.IsPartOf p') (hv : p.Twins p' v v') (hdep : p'.DependsOn v' u') :
    ∃ u, p.Twins p' u u' ∧ p.DependsOn v u := by
  obtain ⟨x, y, hx', hy', hneeds⟩ := hp'.dependsOn_iff.mp hdep
  obtain ⟨x', hx, hx''⟩ := hv
  obtain rfl := Option.some.inj (hx'.symm.trans hx'')
  obtain ⟨u, hu⟩ := h.declares_of_needs hp hp' ⟨v, hx⟩ ⟨u', hy'⟩ hneeds
  exact ⟨u, ⟨y, hu, hy'⟩, hp.dependsOn_iff.mpr ⟨x, y, hx, hu, hneeds⟩⟩

theorem IsPartOf.transGen (hp : p.WellFormed) (hp' : p'.WellFormed) (h : p.IsPartOf p')
    (hv : p.Twins p' v v') (hdep : TransGen p.DependsOn v u) :
    ∃ u', p.Twins p' u u' ∧ TransGen p'.DependsOn v' u' := by
  induction hdep with
  | single hdep =>
    obtain ⟨u', hu', hdep'⟩ := h.dependsOn hp hp' hv hdep
    exact ⟨u', hu', .single hdep'⟩
  | tail _ hdep ih =>
    obtain ⟨w', hw', hpath⟩ := ih
    obtain ⟨u', hu', hdep'⟩ := h.dependsOn hp hp' hw' hdep
    exact ⟨u', hu', hpath.tail hdep'⟩

/-- A part has no cycles that the whole has not. -/
theorem IsPartOf.acyclic (hp : p.WellFormed) (hp' : p'.WellFormed) (h : p.IsPartOf p')
    (hacyclic : ∀ v, ¬TransGen p'.DependsOn v v) (v : DeclId) : ¬TransGen p.DependsOn v v := by
  intro hcycle
  obtain ⟨w, hdep, -⟩ := TransGen.head'_iff.mp hcycle
  obtain ⟨d, hd, -⟩ := hdep.left_isVertex
  obtain ⟨v', hv'⟩ := h.exists_twin hd
  obtain ⟨u', hu', hcycle'⟩ := h.transGen hp hp' hv' hcycle
  obtain rfl := hv'.right_unique hp' hu'
  exact hacyclic v' hcycle'

/-! ### Names -/

/-- Two look-ups by the same description find twins, or both nothing. -/
theorem rel_twins {found found' : Option DeclId} {P : Description → Prop}
    (hfound : ∀ u, found = some u ↔ ∃ x, p.description? u = some x ∧ P x)
    (hfound' : ∀ u', found' = some u' ↔ ∃ x, p'.description? u' = some x ∧ P x)
    (hP : ∀ x, P x → (p.Declares x ↔ p'.Declares x)) :
    Option.Rel (p.Twins p') found found' := by
  cases hcase : found with
  | some u =>
    obtain ⟨x, hx, hPx⟩ := (hfound u).mp hcase
    obtain ⟨u', hu'⟩ := (hP x hPx).mp ⟨u, hx⟩
    rw [(hfound' u').mpr ⟨x, hu', hPx⟩]
    exact .some ⟨x, hx, hu'⟩
  | none =>
    cases hcase' : found' with
    | none => exact .none
    | some u' =>
      obtain ⟨x, hx, hPx⟩ := (hfound' u').mp hcase'
      obtain ⟨u, hu⟩ := (hP x hPx).mpr ⟨u', hx⟩
      have hsome := (hfound u).mpr ⟨x, hu, hPx⟩
      exact absurd (hcase.symm.trans hsome) (by simp)

theorem WellFormed.resolve_iff (hp : p.WellFormed) (hm : p.module? j = some m) :
    (Scopes.ofProgram p).resolve (some j) name = some u ↔
      ∃ x, p.description? u = some x ∧ x.name = name ∧ (x.module = some m.name ∨
        x.module = none ∧ ∀ y, p.Declares y → y.name = name → y.module ≠ some m.name) := by
  rw [resolve_eq_some_iff hp (scope_eq_some_iff.mpr ⟨m, hm, rfl⟩), hp.names_none_iff]
  simp only [hp.names_some_iff hm]
  constructor
  · rintro (⟨x, hx, hmodule, hname⟩ | ⟨hnone, x, hx, hmodule, hname⟩)
    · exact ⟨x, hx, hname, .inl hmodule⟩
    · refine ⟨x, hx, hname, .inr ⟨hmodule, fun y hy hyname hymodule => ?_⟩⟩
      obtain ⟨w, hw⟩ := hy
      exact hnone w ⟨y, hw, hymodule, hyname⟩
  · rintro ⟨x, hx, hname, hmodule | ⟨hmodule, hnone⟩⟩
    · exact .inl ⟨x, hx, hmodule, hname⟩
    · refine .inr ⟨fun w hw => ?_, x, hx, hmodule, hname⟩
      obtain ⟨y, hy, hymodule, hyname⟩ := hw
      exact hnone y ⟨w, hy⟩ hyname hymodule

/-- Seen from modules of the same name, a name stands for twins. -/
theorem IsPartOf.resolve (hp : p.WellFormed) (hp' : p'.WellFormed) (h : p.IsPartOf p')
    (hm : p.module? j = some m) (hm' : p'.module? j' = some m') (hmodule : m.name = m'.name)
    (name : String) :
    Option.Rel (p.Twins p') ((Scopes.ofProgram p).resolve (some j) name)
      ((Scopes.ofProgram p').resolve (some j') name) := by
  have hhas : p.HasModule m.name := hasModule_iff.mpr ⟨j, m, hm, rfl⟩
  have hmember : ∀ y, y.module = some m.name → (p.Declares y ↔ p'.Declares y) := fun y hy =>
    ⟨h.declares y, h.members y m.name hy hhas⟩
  have hhidden : (∀ y, p'.Declares y → y.name = name → y.module ≠ some m'.name) ↔
      ∀ y, p.Declares y → y.name = name → y.module ≠ some m.name := by
    rw [← hmodule]
    refine forall_congr' fun y => ⟨fun hy hdeclared => hy (h.declares y hdeclared), ?_⟩
    intro hy hdeclared hname hin
    exact hy ((hmember y hin).mpr hdeclared) hname hin
  refine rel_twins (fun u => hp.resolve_iff hm) (fun u' => ?_) fun x hx => ?_
  · rw [hp'.resolve_iff hm', hhidden, ← hmodule]
  · rcases hx.2 with hin | ⟨hglobal, -⟩
    · exact hmember x hin
    · exact ⟨h.declares x, h.globals x hglobal⟩

theorem WellFormed.exists_moduleNamed?_iff (hp : p.WellFormed) :
    (∃ m, p.moduleNamed? name = some m) ↔ p.HasModule name := by
  rw [hasModule_iff]
  constructor
  · rintro ⟨m, hm⟩
    obtain ⟨hmodule, hname⟩ := hp.moduleNamed?_eq_some_iff.mp hm
    exact ⟨m.id, m, hmodule, hname⟩
  · rintro ⟨j, m, hm, hname⟩
    obtain rfl : m.id = j := hp.module_id_eq hm
    exact ⟨m, hp.moduleNamed?_eq_some_iff.mpr ⟨hm, hname⟩⟩

/-! ### Exports -/

/-- Of twins in modules of the same name both are exported or none. -/
theorem Twins.mem_exportedFormulas_iff (hp : p.WellFormed) (hp' : p'.WellFormed)
    (hu : p.Twins p' u u') (hm : p.module? j = some m) (hm' : p'.module? j' = some m')
    (hmodule : m.name = m'.name) : u ∈ p.exportedFormulas j ↔ u' ∈ p'.exportedFormulas j' := by
  obtain ⟨x, hx, hx'⟩ := hu
  rw [hp.mem_exportedFormulas_iff hm, hp'.mem_exportedFormulas_iff hm', hx, hx', hmodule]

theorem IsPartOf.exists_export_right (hp : p.WellFormed) (hp' : p'.WellFormed) (h : p.IsPartOf p')
    (hm : p.module? j = some m) (hm' : p'.module? j' = some m') (hmodule : m.name = m'.name)
    (hu : u ∈ p.exportedFormulas j) : ∃ u' ∈ p'.exportedFormulas j', p.Twins p' u u' := by
  obtain ⟨d, hd, -⟩ := (mem_exportedFormulas_iff hp hm).mp hu
  obtain ⟨u', htwins⟩ := h.exists_twin hd
  exact ⟨u', (htwins.mem_exportedFormulas_iff hp hp' hm hm' hmodule).mp hu, htwins⟩

theorem IsPartOf.exists_export_left (hp : p.WellFormed) (hp' : p'.WellFormed) (h : p.IsPartOf p')
    (hm : p.module? j = some m) (hm' : p'.module? j' = some m') (hmodule : m.name = m'.name)
    (hu' : u' ∈ p'.exportedFormulas j') : ∃ u ∈ p.exportedFormulas j, p.Twins p' u u' := by
  obtain ⟨x, hx, hin, -⟩ := (hp'.mem_exportedFormulas_iff hm').mp hu'
  have hhas : p.HasModule m.name := hasModule_iff.mpr ⟨j, m, hm, rfl⟩
  obtain ⟨u, hu⟩ := h.members x m.name (hmodule ▸ hin) hhas ⟨u', hx⟩
  have htwins : p.Twins p' u u' := ⟨x, hu, hx⟩
  exact ⟨u, (htwins.mem_exportedFormulas_iff hp hp' hm hm' hmodule).mpr hu', htwins⟩

end FormulaEngine.Program
