import FormulaEngine.Proofs.Lists
import FormulaEngine.Proofs.Program.Dependencies
import Mathlib.Data.Prod.Lex

/-!
# The views of the dependency graph

The graph of a lowered program has the formulas and imports as its vertices and an edge for each
dependency. Every vertex is compared once with what another one reads, so no edge is added twice,
and the lists of edges, of dependencies and of dependents are three views of one relation.
-/

namespace FormulaEngine

namespace DependencyGraph

variable {p : Program} {u v : DeclId}

/-! ### Each edge once -/

theorem nodup_edgesTo {s : Scopes} {vertices : List Declaration} (b : Fin vertices.length) :
    (edgesTo p s vertices b).Nodup := by
  refine ((List.nodup_finRange _).filter _).map fun a a' heq => ?_
  exact (Prod.mk.inj heq).1

theorem nodup_edgesOf {s : Scopes} {vertices : List Declaration} :
    (edgesOf p s vertices).Nodup := by
  refine List.nodup_flatMap.mpr ⟨fun b _ => nodup_edgesTo b, ?_⟩
  refine (List.nodup_finRange _).imp fun hne e hleft hright => ?_
  obtain ⟨_, -, rfl⟩ := List.mem_map.mp hleft
  obtain ⟨_, -, heq⟩ := List.mem_map.mp hright
  exact hne (Prod.mk.inj heq).2.symm

theorem idOf_injective (hp : p.WellFormed) : Function.Injective (of p).idOf := by
  intro a b hab
  have hnodup := vertices_nodup hp
  rw [← map_idOf_finRange] at hnodup
  exact List.inj_on_of_nodup_map hnodup (List.mem_finRange a) (List.mem_finRange b) hab

theorem nodup_links (hp : p.WellFormed) : (of p).links.Nodup := by
  refine nodup_edgesOf.map fun e f heq => ?_
  obtain ⟨hleft, hright⟩ := Prod.mk.inj heq
  exact Prod.ext (idOf_injective hp hleft) (idOf_injective hp hright)

/-! ### Ascending order -/

theorem linkLE_iff {e f : DeclId × DeclId} : linkLE e f ↔ toLex e ≤ toLex f := by
  rw [Prod.Lex.toLex_le_toLex]
  simp [linkLE]

theorem pairwise_edges (hp : p.WellFormed) :
    (of p).edges.Pairwise fun e f => e.1 < f.1 ∨ e.1 = f.1 ∧ e.2 < f.2 := by
  have hle : (of p).edges.Pairwise fun e f => linkLE e f := by
    refine List.pairwise_mergeSort (fun e f g hef hfg => ?_) (fun e f => ?_) _
    · exact linkLE_iff.mpr ((linkLE_iff.mp hef).trans (linkLE_iff.mp hfg))
    · rw [Bool.or_eq_true, linkLE_iff, linkLE_iff]
      exact le_total _ _
  have hne : (of p).edges.Nodup := (List.mergeSort_perm _ _).nodup_iff.mpr (nodup_links hp)
  refine hle.imp₂ (fun e f hef hneq => ?_) hne
  have hlt : toLex e < toLex f := lt_of_le_of_ne (linkLE_iff.mp hef) fun heq => hneq heq
  exact Prod.Lex.toLex_lt_toLex.mp hlt

theorem pairwise_dependencies (hp : p.WellFormed) (v : DeclId) :
    ((of p).dependencies v).Pairwise (· < ·) := by
  refine pairwise_lt_mergeSort (((nodup_links hp).filter _).map_on fun e he f hf heq => ?_)
  have hsnd : e.2 = f.2 := by
    rw [beq_iff_eq.mp (List.mem_filter.mp he).2, beq_iff_eq.mp (List.mem_filter.mp hf).2]
  exact Prod.ext heq hsnd

theorem pairwise_dependents (hp : p.WellFormed) (u : DeclId) :
    ((of p).dependents u).Pairwise (· < ·) := by
  refine pairwise_lt_mergeSort (((nodup_links hp).filter _).map_on fun e he f hf heq => ?_)
  have hfst : e.1 = f.1 := by
    rw [beq_iff_eq.mp (List.mem_filter.mp he).2, beq_iff_eq.mp (List.mem_filter.mp hf).2]
  exact Prod.ext hfst heq

/-! ### The graph of a lowered program -/

/-- A graph is that of a program in all its views: the vertices are the formulas and imports, the
edges lead from what is read to what reads it, and all lists are in strictly ascending order. -/
structure IsGraphOf (g : DependencyGraph) (p : Program) : Prop where
  vertices_ascending : g.vertices.Pairwise (· < ·)
  edges_ascending : g.edges.Pairwise fun e f => e.1 < f.1 ∨ e.1 = f.1 ∧ e.2 < f.2
  dependencies_ascending : ∀ v, (g.dependencies v).Pairwise (· < ·)
  dependents_ascending : ∀ u, (g.dependents u).Pairwise (· < ·)
  mem_vertices_iff : ∀ v, v ∈ g.vertices ↔ ∃ d, p.declaration? v = some d ∧ d.isVertex
  mem_edges_iff : ∀ u v, (u, v) ∈ g.edges ↔ p.DependsOn v u
  mem_dependencies_iff : ∀ u v, u ∈ g.dependencies v ↔ (u, v) ∈ g.edges
  mem_dependents_iff : ∀ u v, v ∈ g.dependents u ↔ (u, v) ∈ g.edges
  /-- A formula never reads an argument, a constant or a member of another module in the graph. -/
  within_module : ∀ u v d, (u, v) ∈ g.edges → p.declaration? v = some d → d.isFormula →
    ∃ e, p.declaration? u = some e ∧ e.isVertex ∧ e.module = d.module

theorem exists_of_dependsOn_of_isFormula (hp : p.WellFormed) {d : Declaration}
    (h : p.DependsOn v u) (hd : p.declaration? v = some d) (hformula : d.isFormula) :
    ∃ e, p.declaration? u = some e ∧ e.isVertex ∧ e.module = d.module := by
  cases h with
  | name hd' hkind hmodule hname hu =>
    obtain rfl := Option.some.inj (hd.symm.trans hd')
    obtain ⟨e, he, hin, -⟩ := hu
    exact ⟨e, he, (hp.isVertex_iff he).mpr (by simp [hin]), hin.trans hmodule.symm⟩
  | formula hd' hkind | exports hd' hkind =>
    obtain rfl := Option.some.inj (hd.symm.trans hd')
    exact absurd hformula (by simp [Declaration.isFormula, hkind])

theorem isGraphOf_of (hp : p.WellFormed) : (of p).IsGraphOf p where
  vertices_ascending := pairwise_vertices hp
  edges_ascending := pairwise_edges hp
  dependencies_ascending := pairwise_dependencies hp
  dependents_ascending := pairwise_dependents hp
  mem_vertices_iff _ := mem_vertices_iff hp
  mem_edges_iff _ _ := mem_edges_iff hp
  mem_dependencies_iff _ _ := (mem_dependencies_iff hp).trans (mem_edges_iff hp).symm
  mem_dependents_iff _ _ := (mem_dependents_iff hp).trans (mem_edges_iff hp).symm
  within_module _ _ _ hedge := exists_of_dependsOn_of_isFormula hp ((mem_edges_iff hp).mp hedge)

theorem pathError?_eq_none_iff {d : Declaration} : d.pathError? p = none ↔
    ∀ path kind, d.kind = .imported path kind → path.length = kind.pathLength := by
  unfold Declaration.pathError?
  cases d.kind with
  | imported path kind => simp
  | _ => simp

theorem build_eq_ofProgram {s : Scopes} (h : ∀ d ∈ p.declarations, ∀ path kind,
    d.kind = .imported path kind → path.length = kind.pathLength) :
    build p s = .ok (ofProgram p s) := by
  have hnone : p.declarations.findSome? (Declaration.pathError? p) = none :=
    List.findSome?_eq_none_iff.mpr fun d hd => pathError?_eq_none_iff.mpr (h d hd)
  unfold build
  rw [hnone]

/-- A lowered program with import paths of the right lengths has a graph. Its edges are the
dependencies, and each view of it tells of all of them, once. -/
theorem exists_isGraphOf_of_lower {source : ProgramSource} (hlower : Program.lower source = .ok p)
    (hlengths : ∀ d ∈ p.declarations, ∀ path kind,
      d.kind = .imported path kind → path.length = kind.pathLength) :
    ∃ g, build p (Scopes.ofProgram p) = .ok g ∧ g.IsGraphOf p :=
  ⟨of p, build_eq_ofProgram hlengths, isGraphOf_of (Program.wellFormed_of_lower hlower)⟩

end DependencyGraph

/-- A source with names that are shadowed, that only another module has, or that are nowhere, and
with imports of a formula, of an import, of nothing and of a module. -/
def ProgramSource.market : ProgramSource :=
  ⟨[⟨"rate"⟩], [⟨"unit", .string "EUR"⟩],
    [⟨"stall", [⟨"rate", ["rate"], .argument⟩],
        [⟨"price", .list [.ident "rate", .ident "unit", .ident "price"], true⟩,
          ⟨"secret", .awaitCall "ask" [.ident "price", .ident "price", .ident "gone"], false⟩]⟩,
      ⟨"street", [⟨"stall", ["stall"], .module⟩, ⟨"hidden", ["stall", "secret"], .formula⟩,
          ⟨"cheap", ["stall", "rate"], .formula⟩, ⟨"closed", ["stand"], .module⟩],
        [⟨"unit", .literal .null, false⟩,
          ⟨"total", .list [.ident "stall", .ident "hidden", .ident "unit", .ident "price"],
            true⟩]⟩]⟩

theorem DependencyGraph.exists_isGraphOf_of_market :
    ∃ p g, Program.lower .market = .ok p ∧
      (∀ d ∈ p.declarations, ∀ path kind,
        d.kind = .imported path kind → path.length = kind.pathLength) ∧
      build p (Scopes.ofProgram p) = .ok g ∧
      g.edges = [(2, 3), (3, 3), (3, 4), (3, 5), (4, 6), (5, 10), (6, 10), (9, 10)] ∧
      g.IsGraphOf p := by
  have hlower : Program.lower .market = .ok (Program.ofSource .market) := rfl
  have hlengths : ∀ d ∈ (Program.ofSource .market).declarations, ∀ path kind,
      d.kind = .imported path kind → path.length = kind.pathLength := by
    have hnone : (Program.ofSource .market).declarations.findSome?
        (Declaration.pathError? (Program.ofSource .market)) = none := rfl
    exact fun d hd => pathError?_eq_none_iff.mp (List.findSome?_eq_none_iff.mp hnone d hd)
  obtain ⟨g, hbuild, hgraph⟩ := exists_isGraphOf_of_lower hlower hlengths
  have hg : build (Program.ofSource .market) (Scopes.ofProgram (Program.ofSource .market)) =
      .ok (.of (Program.ofSource .market)) := rfl
  obtain rfl := Except.ok.inj (hbuild.symm.trans hg)
  have hlinks : (of (Program.ofSource .market)).links =
      [(2, 3), (3, 3), (3, 4), (3, 5), (4, 6), (5, 10), (6, 10), (9, 10)] := by decide +kernel
  refine ⟨_, _, hlower, hlengths, hbuild, ?_, hgraph⟩
  rw [edges, hlinks]
  exact List.mergeSort_of_pairwise (by decide)

end FormulaEngine
