import FormulaEngine.Program.Dependencies
import FormulaEngine.Proofs.Program.Naming
import Mathlib.Logic.Relation

/-!
# What the dependency graph says

A declaration depends on what its names and its import stand for, as far as that is evaluated. The
graph of a well-formed program has the formulas and imports as its vertices and these dependencies
as its edges, so it has a cycle exactly if a declaration depends on itself through others.
-/

namespace FormulaEngine

open Relation

namespace Program

/-- The first declaration reads the second, which is a formula or an import. -/
inductive DependsOn (p : Program) : DeclId → DeclId → Prop where
  /-- A formula names a member of its own module. -/
  | name {v u : DeclId} {d : Declaration} {expr : Expr} {exported : Bool} {j : ModuleId}
      {name : String} (hd : p.declaration? v = some d) (hkind : d.kind = .formula expr exported)
      (hmodule : d.module = some j) (hname : expr.Contains (.ident name))
      (hu : p.Names (some j) name u) : DependsOn p v u
  /-- An import is of a formula of the module that it names. -/
  | formula {v u : DeclId} {d e : Declaration} {module name : String} {j : ModuleId}
      {m : ProgramModule} (hd : p.declaration? v = some d)
      (hkind : d.kind = .imported [module, name] .formula) (hm : p.module? j = some m)
      (hmodule : m.name = module) (he : p.declaration? u = some e) (hin : e.module = some j)
      (hname : e.name = name) (hformula : e.isFormula) : DependsOn p v u
  /-- An import is of a module that exports a formula. -/
  | exports {v u : DeclId} {d e : Declaration} {module : String} {j : ModuleId}
      {m : ProgramModule} (hd : p.declaration? v = some d)
      (hkind : d.kind = .imported [module] .module) (hm : p.module? j = some m)
      (hmodule : m.name = module) (he : p.declaration? u = some e) (hin : e.module = some j)
      (hexported : e.isExported) : DependsOn p v u

variable {p : Program} {u v : DeclId} {d : Declaration} {j : ModuleId} {m : ProgramModule}
  {module name : String}

theorem DependsOn.left_isVertex (h : p.DependsOn v u) :
    ∃ d, p.declaration? v = some d ∧ d.isVertex := by
  cases h with
  | name hd hkind => exact ⟨_, hd, by simp [Declaration.isVertex, hkind]⟩
  | formula hd hkind => exact ⟨_, hd, by simp [Declaration.isVertex, hkind]⟩
  | exports hd hkind => exact ⟨_, hd, by simp [Declaration.isVertex, hkind]⟩

theorem DependsOn.right_isVertex (hp : p.WellFormed) (h : p.DependsOn v u) :
    ∃ d, p.declaration? u = some d ∧ d.isVertex := by
  have hmember : ∀ {e : Declaration} {j : ModuleId}, p.declaration? u = some e →
      e.module = some j → e.isVertex := fun he hin =>
    (hp.isVertex_iff he).mpr (by simp [hin])
  cases h with
  | name hd hkind hmodule hname hu =>
    obtain ⟨e, he, hin, -⟩ := hu
    exact ⟨e, he, hmember he hin⟩
  | formula hd hkind hm hmodule he hin => exact ⟨_, he, hmember he hin⟩
  | exports hd hkind hm hmodule he hin => exact ⟨_, he, hmember he hin⟩

/-! ### Reading and depending -/

theorem mem_exportedFormulas_iff (hp : p.WellFormed) (hm : p.module? j = some m) :
    u ∈ p.exportedFormulas j ↔
      ∃ e, p.declaration? u = some e ∧ e.module = some j ∧ e.isExported := by
  simp only [exportedFormulas, hm, List.mem_filter, Option.any_eq_true,
    hp.mem_declarations_iff hm]
  constructor
  · rintro ⟨⟨d, hd, hin⟩, e, he, hexported⟩
    obtain rfl : d = e := Option.some.inj (hd.symm.trans he)
    exact ⟨d, hd, hin, hexported⟩
  · rintro ⟨e, he, hin, hexported⟩
    exact ⟨⟨e, he, hin⟩, e, he, hexported⟩

theorem pairwise_declarations_modulesFrom {first : DeclId} {k : ModuleId}
    {modules : List ModuleSource} (hm : m ∈ modulesFrom first k modules) :
    m.declarations.Pairwise (· < ·) := by
  induction modules generalizing first k with
  | nil => exact absurd hm List.not_mem_nil
  | cons source rest ih =>
    rcases List.mem_cons.mp hm with rfl | hm
    · exact List.pairwise_lt_range'
    · exact ih hm

theorem pairwise_exportedFormulas {source : ProgramSource} (j : ModuleId) :
    ((ofSource source).exportedFormulas j).Pairwise (· < ·) := by
  unfold exportedFormulas
  cases hm : (ofSource source).module? j with
  | none => exact .nil
  | some m =>
    exact (pairwise_declarations_modulesFrom (List.mem_of_getElem? hm)).filter _

theorem localVertex?_eq_some_iff (hp : p.WellFormed) {scope : Scope}
    (hscope : (Scopes.ofProgram p).module? j = some scope) :
    p.localVertex? scope name = some u ↔ p.Names (some j) name u := by
  simp only [localVertex?, Option.bind_eq_bind, Option.bind_eq_some_iff,
    Option.ite_none_right_eq_some, local?_module_iff hp hscope]
  constructor
  · rintro ⟨id, hid, e, -, -, heq⟩
    exact Option.some.inj heq ▸ hid
  · rintro ⟨e, he, hin, hname⟩
    exact ⟨u, ⟨e, he, hin, hname⟩, e, he, (hp.isVertex_iff he).mpr (by simp [hin]), rfl⟩

theorem formulaNamed?_eq_some_iff (hp : p.WellFormed) :
    p.formulaNamed? (Scopes.ofProgram p) module name = some u ↔
      ∃ j m e, p.module? j = some m ∧ m.name = module ∧ p.declaration? u = some e ∧
        e.module = some j ∧ e.name = name ∧ e.isFormula := by
  simp only [formulaNamed?, Option.bind_eq_bind, Option.bind_eq_some_iff,
    Option.ite_none_right_eq_some, hp.moduleNamed?_eq_some_iff]
  constructor
  · rintro ⟨m, ⟨hm, hmodule⟩, scope, hscope, id, hid, e, he, hformula, heq⟩
    obtain rfl := Option.some.inj heq
    obtain ⟨e', he', hin, hname⟩ := (local?_module_iff hp hscope).mp hid
    obtain rfl : e = e' := Option.some.inj (he.symm.trans he')
    exact ⟨m.id, m, e, hm, hmodule, he, hin, hname, hformula⟩
  · rintro ⟨j, m, e, hm, hmodule, he, hin, hname, hformula⟩
    have hid : m.id = j := hp.module_id_eq hm
    obtain ⟨scope, hscope⟩ := exists_scope hp he hin
    exact ⟨m, ⟨hid ▸ hm, hmodule⟩, scope, hid ▸ hscope, u,
      (local?_module_iff hp hscope).mpr ⟨e, he, hin, hname⟩, e, he, hformula, rfl⟩

theorem dependsOn_of_mem_reads (hp : p.WellFormed) (hd : p.declaration? v = some d)
    (h : u ∈ d.reads p (Scopes.ofProgram p)) : p.DependsOn v u := by
  unfold Declaration.reads at h
  split at h
  case h_1 expr exported hkind =>
    split at h
    case h_1 => exact absurd h List.not_mem_nil
    case h_2 scope hscope =>
      obtain ⟨j, hmodule, hscope⟩ := Option.bind_eq_some_iff.mp hscope
      obtain ⟨name, hname, hu⟩ := List.mem_filterMap.mp h
      exact .name hd hkind hmodule (Expr.mem_references_iff.mp hname)
        ((localVertex?_eq_some_iff hp hscope).mp hu)
  case h_2 module name hkind =>
    obtain ⟨j, m, e, hm, hmodule, he, hin, hname, hformula⟩ :=
      (formulaNamed?_eq_some_iff hp).mp (Option.mem_toList.mp h)
    exact .formula hd hkind hm hmodule he hin hname hformula
  case h_3 module hkind =>
    split at h
    case h_1 => exact absurd h List.not_mem_nil
    case h_2 m hm =>
      obtain ⟨hm, hmodule⟩ := hp.moduleNamed?_eq_some_iff.mp hm
      obtain ⟨e, he, hin, hexported⟩ := (mem_exportedFormulas_iff hp hm).mp h
      exact .exports hd hkind hm hmodule he hin hexported
  case h_4 => exact absurd h List.not_mem_nil

theorem mem_reads_of_dependsOn (hp : p.WellFormed) (hd : p.declaration? v = some d)
    (h : p.DependsOn v u) : u ∈ d.reads p (Scopes.ofProgram p) := by
  cases h with
  | name hd' hkind hmodule hname hu =>
    obtain rfl : d = _ := Option.some.inj (hd.symm.trans hd')
    obtain ⟨scope, hscope⟩ := exists_scope hp hd hmodule
    simp only [Declaration.reads, hkind, hmodule, Option.bind_some, hscope]
    exact List.mem_filterMap.mpr ⟨_, Expr.mem_references_iff.mpr hname,
      (localVertex?_eq_some_iff hp hscope).mpr hu⟩
  | formula hd' hkind hm hmodule he hin hname hformula =>
    obtain rfl : d = _ := Option.some.inj (hd.symm.trans hd')
    simp only [Declaration.reads, hkind]
    exact Option.mem_toList.mpr ((formulaNamed?_eq_some_iff hp).mpr
      ⟨_, _, _, hm, hmodule, he, hin, hname, hformula⟩)
  | exports hd' hkind hm hmodule he hin hexported =>
    obtain rfl : d = _ := Option.some.inj (hd.symm.trans hd')
    have hid := hp.module_id_eq hm
    have hfound : p.moduleNamed? _ = some _ :=
      hp.moduleNamed?_eq_some_iff.mpr ⟨hid ▸ hm, hmodule⟩
    simp only [Declaration.reads, hkind, hfound]
    exact (mem_exportedFormulas_iff hp (hid ▸ hm)).mpr ⟨_, he, hid ▸ hin, hexported⟩

/-- The vertices that a declaration reads are those that it depends on. -/
theorem mem_reads_iff (hp : p.WellFormed) (hd : p.declaration? v = some d) :
    u ∈ d.reads p (Scopes.ofProgram p) ↔ p.DependsOn v u :=
  ⟨dependsOn_of_mem_reads hp hd, mem_reads_of_dependsOn hp hd⟩

end Program

/-! ### The graph -/

namespace DependencyGraph

variable {p : Program} {u v : DeclId}

abbrev of (p : Program) : DependencyGraph := ofProgram p (Scopes.ofProgram p)

theorem map_id_declarations (hp : p.WellFormed) :
    p.declarations.map (·.id) = List.range p.size := by
  refine List.ext_getElem (by simp [Program.size]) fun i hi _ => ?_
  rw [List.getElem_map, List.getElem_range]
  exact hp.id_eq (List.getElem?_eq_getElem (by simpa using hi))

theorem pairwise_vertices (hp : p.WellFormed) : (of p).vertices.Pairwise (· < ·) := by
  have hall : (p.declarations.map (·.id)).Pairwise (· < ·) := by
    rw [map_id_declarations hp]
    exact List.pairwise_lt_range
  exact hall.sublist (List.filter_sublist.map _)

theorem vertices_nodup (hp : p.WellFormed) : (of p).vertices.Nodup := (pairwise_vertices hp).nodup

theorem mem_vertices_iff (hp : p.WellFormed) :
    v ∈ (of p).vertices ↔ ∃ d, p.declaration? v = some d ∧ d.isVertex := by
  simp only [vertices, ofProgram, List.mem_map, List.mem_filter]
  constructor
  · rintro ⟨d, ⟨hmem, hvertex⟩, rfl⟩
    obtain ⟨i, hi⟩ := List.getElem?_of_mem hmem
    have hid : d.id = i := hp.id_eq hi
    exact ⟨d, hid ▸ hi, hvertex⟩
  · rintro ⟨d, hd, hvertex⟩
    exact ⟨d, ⟨List.mem_of_getElem? hd, hvertex⟩, hp.id_eq hd⟩

variable {g : DependencyGraph} {a b : Fin g.declarations.length}

theorem map_idOf_finRange : (List.finRange g.declarations.length).map g.idOf = g.vertices := by
  refine List.ext_getElem (by simp [vertices]) fun i _ _ => ?_
  simp [idOf, vertices]

theorem mem_vertices_iff_exists_idOf : v ∈ g.vertices ↔ ∃ a, g.idOf a = v := by
  rw [← map_idOf_finRange]
  simp

theorem mem_edgesOf_iff {s : Scopes} {vertices : List Declaration} {a b : Fin vertices.length} :
    (a, b) ∈ edgesOf p s vertices ↔ (vertices.get a).id ∈ (vertices.get b).reads p s := by
  simp only [edgesOf, edgesTo, List.mem_flatMap, List.mem_map, List.mem_filter, List.mem_finRange,
    true_and, Prod.mk.injEq, List.contains_iff_mem]
  constructor
  · rintro ⟨_, _, hreads, rfl, rfl⟩
    exact hreads
  · exact fun h => ⟨b, a, h, rfl, rfl⟩

theorem edge_iff (hp : p.WellFormed) {a b : Fin (of p).declarations.length} :
    (of p).digraph.Edge a b ↔ p.DependsOn ((of p).idOf b) ((of p).idOf a) := by
  obtain ⟨d, hd, -⟩ := (mem_vertices_iff hp).mp (mem_vertices_iff_exists_idOf.mpr ⟨b, rfl⟩)
  have hb : (of p).declarations[b] = d := by
    have hmem : (of p).declarations[b] ∈ p.declarations :=
      (List.mem_filter.mp (List.getElem_mem b.isLt)).1
    obtain ⟨i, hi⟩ := List.getElem?_of_mem hmem
    have hid : (of p).idOf b = i := hp.id_eq hi
    exact Option.some.inj (hi.symm.trans (hid ▸ hd))
  rw [← Program.mem_reads_iff hp hd, ← hb]
  exact mem_edgesOf_iff

theorem mem_links_iff (hp : p.WellFormed) : (u, v) ∈ (of p).links ↔ p.DependsOn v u := by
  simp only [links, List.mem_map, Prod.exists, Prod.mk.injEq]
  constructor
  · rintro ⟨a, b, hedge, rfl, rfl⟩
    exact (edge_iff hp).mp hedge
  · intro h
    obtain ⟨a, rfl⟩ := mem_vertices_iff_exists_idOf.mp
      ((mem_vertices_iff hp).mpr (h.right_isVertex hp))
    obtain ⟨b, rfl⟩ := mem_vertices_iff_exists_idOf.mp
      ((mem_vertices_iff hp).mpr h.left_isVertex)
    exact ⟨a, b, (edge_iff hp).mpr h, rfl, rfl⟩

theorem mem_edges_iff (hp : p.WellFormed) : (u, v) ∈ (of p).edges ↔ p.DependsOn v u := by
  rw [edges, List.mem_mergeSort, mem_links_iff hp]

theorem mem_dependents_iff (hp : p.WellFormed) : v ∈ (of p).dependents u ↔ p.DependsOn v u := by
  simp [dependents, List.mem_mergeSort, ← mem_links_iff hp]

theorem mem_dependencies_iff (hp : p.WellFormed) :
    u ∈ (of p).dependencies v ↔ p.DependsOn v u := by
  simp [dependencies, List.mem_mergeSort, ← mem_links_iff hp]

/-! ### Cycles -/

theorem transGen_of_reaches (hp : p.WellFormed) {a b : Fin (of p).declarations.length}
    (h : (of p).digraph.Reaches a b) :
    TransGen p.DependsOn ((of p).idOf b) ((of p).idOf a) := by
  induction h with
  | edge hedge => exact .single ((edge_iff hp).mp hedge)
  | step hedge _ ih => exact .tail ih ((edge_iff hp).mp hedge)

theorem reaches_of_transGen (hp : p.WellFormed) {a b : Fin (of p).declarations.length}
    (h : TransGen p.DependsOn ((of p).idOf b) ((of p).idOf a)) : (of p).digraph.Reaches a b := by
  generalize hu : (of p).idOf a = u at h
  induction h generalizing a with
  | single hdep =>
    subst hu
    exact .edge ((edge_iff hp).mpr hdep)
  | @tail w _ _ hdep ih =>
    subst hu
    obtain ⟨c, rfl⟩ := mem_vertices_iff_exists_idOf.mp
      ((mem_vertices_iff hp).mpr hdep.left_isVertex)
    exact .step ((edge_iff hp).mpr hdep) (ih rfl)

/-- The graph has a cycle exactly if a declaration depends on itself. -/
theorem acyclic_iff (hp : p.WellFormed) :
    (of p).digraph.Acyclic ↔ ∀ v, ¬TransGen p.DependsOn v v := by
  constructor
  · intro h v hv
    obtain ⟨w, hdep, -⟩ := TransGen.head'_iff.mp hv
    obtain ⟨a, rfl⟩ := mem_vertices_iff_exists_idOf.mp
      ((mem_vertices_iff hp).mpr hdep.left_isVertex)
    exact h a (reaches_of_transGen hp hv)
  · exact fun h a ha => h _ (transGen_of_reaches hp ha)

end DependencyGraph

end FormulaEngine
