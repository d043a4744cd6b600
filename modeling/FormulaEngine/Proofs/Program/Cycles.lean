import FormulaEngine.Compilation
import FormulaEngine.Proofs.Graph.Cycles
import FormulaEngine.Proofs.Lists
import FormulaEngine.Proofs.Program.Dependencies
import Mathlib.Data.List.Sort

/-!
# Cycles of declarations

The check for cycles fails exactly if a declaration leads back to itself. Its error starts and ends
with such a declaration and lists all that lead to it and back, once each. These are the members of
its component, in ascending order but for the turn that brings it to the front, so it does not
matter in which order they were found.
-/

namespace FormulaEngine

open Relation

namespace DependencyGraph

variable {p : Program} {u v d : DeclId} {a b : Fin (of p).declarations.length}
  {members : List DeclId}

/-- A path of at least one edge leads from the first declaration to the second. -/
def Leads (g : DependencyGraph) : DeclId → DeclId → Prop :=
  TransGen fun u v => (u, v) ∈ g.edges

/-- What is on cycles through a declaration besides it: the declarations with greater numbers and
those with lesser, each in ascending order. -/
structure IsTour (g : DependencyGraph) (d : DeclId) (above below : List DeclId) : Prop where
  cyclic : g.Leads d d
  above_ascending : above.Pairwise (· < ·)
  below_ascending : below.Pairwise (· < ·)
  mem_above_iff : ∀ v, v ∈ above ↔ d < v ∧ g.Leads d v ∧ g.Leads v d
  mem_below_iff : ∀ v, v ∈ below ↔ v < d ∧ g.Leads d v ∧ g.Leads v d

theorem leads_iff (hp : p.WellFormed) : (of p).Leads u v ↔ TransGen p.DependsOn v u := by
  have hedges : (fun u v => (u, v) ∈ (of p).edges) = Function.swap p.DependsOn := by
    funext u v
    exact propext (mem_edges_iff hp)
  rw [Leads, hedges, transGen_swap]

theorem leads_idOf_iff (hp : p.WellFormed) :
    (of p).Leads ((of p).idOf a) ((of p).idOf b) ↔ (of p).digraph.Reaches a b :=
  (leads_iff hp).trans ⟨reaches_of_transGen hp, transGen_of_reaches hp⟩

theorem exists_idOf_of_leads (hp : p.WellFormed) (h : (of p).Leads u v) :
    ∃ a, (of p).idOf a = u := by
  obtain ⟨w, hedge, -⟩ := TransGen.head'_iff.mp h
  have hdep : p.DependsOn w u := (mem_edges_iff hp).mp hedge
  exact mem_vertices_iff_exists_idOf.mp ((mem_vertices_iff hp).mpr (hdep.right_isVertex hp))

theorem mem_component_iff (hp : p.WellFormed) : v ∈ (of p).component a ↔
    v = (of p).idOf a ∨ ((of p).Leads ((of p).idOf a) v ∧ (of p).Leads v ((of p).idOf a)) := by
  simp only [component, List.mem_map, Digraph.mem_component_iff]
  constructor
  · rintro ⟨b, rfl | ⟨hab, hba⟩, rfl⟩
    · exact .inl rfl
    · exact .inr ⟨(leads_idOf_iff hp).mpr hab, (leads_idOf_iff hp).mpr hba⟩
  · rintro (rfl | ⟨hav, hva⟩)
    · exact ⟨a, .inl rfl, rfl⟩
    · obtain ⟨b, rfl⟩ := exists_idOf_of_leads hp hva
      exact ⟨b, .inr ⟨(leads_idOf_iff hp).mp hav, (leads_idOf_iff hp).mp hva⟩, rfl⟩

theorem nodup_component (hp : p.WellFormed) : ((of p).component a).Nodup := by
  refine (vertices_nodup hp).sublist ?_
  rw [← map_idOf_finRange]
  exact List.filter_sublist.map _

/-! ### From a member on -/

theorem startingAt_eq (hnodup : members.Nodup) (hd : d ∈ members) : startingAt d members =
    d :: members.mergeSort.filter (d < ·) ++ members.mergeSort.filter (· < d) := by
  have hascending := pairwise_lt_mergeSort hnodup
  obtain ⟨below, above, hsplit⟩ := List.append_of_mem (List.mem_mergeSort.mpr hd)
  rw [hsplit] at hascending
  simp only [startingAt, hsplit, idxOf?_of_pairwise hascending, Option.getD_some,
    rotateLeft_append_cons, filter_gt_of_pairwise hascending, filter_lt_of_pairwise hascending]

/-- In which order the members come makes no difference. -/
theorem startingAt_eq_of_perm {others : List DeclId} (hnodup : members.Nodup)
    (h : members.Perm others) : startingAt d members = startingAt d others := by
  have hsorted : members.mergeSort = others.mergeSort := by
    refine (pairwise_lt_mergeSort hnodup).eq_of_mem_iff
      (pairwise_lt_mergeSort (h.nodup_iff.mp hnodup)) fun v => ?_
    rw [List.mem_mergeSort, List.mem_mergeSort, h.mem_iff]
  rw [startingAt, startingAt, hsorted]

/-- Whatever order a component is found in, the same members are listed. -/
theorem startingAt_eq_cycleMembers (hp : p.WellFormed) (hnodup : members.Nodup)
    (hmem : ∀ v, v ∈ members ↔ v = (of p).idOf a ∨
      ((of p).Leads ((of p).idOf a) v ∧ (of p).Leads v ((of p).idOf a))) :
    startingAt ((of p).idOf a) members = (of p).cycleMembers a := by
  refine startingAt_eq_of_perm hnodup ((List.perm_ext_iff_of_nodup hnodup
    (nodup_component hp)).mpr fun v => ?_)
  rw [hmem, mem_component_iff hp]

theorem isTour_component (hp : p.WellFormed) (ha : (of p).digraph.Reaches a a) :
    (of p).IsTour ((of p).idOf a) (((of p).component a).mergeSort.filter ((of p).idOf a < ·))
      (((of p).component a).mergeSort.filter (· < (of p).idOf a)) where
  cyclic := (leads_idOf_iff hp).mpr ha
  above_ascending := (pairwise_lt_mergeSort (nodup_component hp)).filter _
  below_ascending := (pairwise_lt_mergeSort (nodup_component hp)).filter _
  mem_above_iff v := by
    rw [List.mem_filter, List.mem_mergeSort, mem_component_iff hp, decide_eq_true_eq]
    exact ⟨fun ⟨hmem, hlt⟩ => ⟨hlt, hmem.resolve_left hlt.ne'⟩, fun ⟨hlt, h⟩ => ⟨.inr h, hlt⟩⟩
  mem_below_iff v := by
    rw [List.mem_filter, List.mem_mergeSort, mem_component_iff hp, decide_eq_true_eq]
    exact ⟨fun ⟨hmem, hlt⟩ => ⟨hlt, hmem.resolve_left hlt.ne⟩, fun ⟨hlt, h⟩ => ⟨.inr h, hlt⟩⟩

/-- The error of a back edge lists where it leads to and what is on cycles through there. -/
theorem cycleError?_eq_some (hp : p.WellFormed) {edge : Fin (of p).declarations.length × _}
    (h : (of p).digraph.backEdge? = some edge) :
    let d := (of p).idOf edge.2
    let sorted := ((of p).component edge.2).mergeSort
    (of p).cycleError? p = some (.cyclicDependency (p.qualifiedName d)
      ((d :: sorted.filter (d < ·) ++ sorted.filter (· < d) ++ [d]).map p.qualifiedName)) := by
  intro d sorted
  have hmembers : (of p).cycleMembers edge.2 =
      d :: sorted.filter (d < ·) ++ sorted.filter (· < d) :=
    startingAt_eq (nodup_component hp) ((mem_component_iff hp).mpr (.inl rfl))
  rw [cycleError?, h, Option.map_some, hmembers]
  simp [d]

theorem acyclic_iff_leads (hp : p.WellFormed) :
    (of p).digraph.Acyclic ↔ ∀ d, ¬(of p).Leads d d := by
  rw [acyclic_iff hp]
  exact forall_congr' fun d => not_congr (leads_iff hp).symm

/-- Layers of a graph with a cycle are an internal error, whose text names the index of a node that
is on a cycle. -/
theorem layers_eq_internal (g : DependencyGraph) (h : ¬g.digraph.Acyclic) :
    ∃ v, g.layers = .error (.internal (.cyclicGraph v.val)) ∧ g.digraph.Reaches v v := by
  obtain ⟨v, hresult, hcycle⟩ := Digraph.exists_topologicalOrder_eq_error h
  have hlayers : g.digraph.layers g.idOf = .error v := Digraph.layers_eq_error_iff.mpr hresult
  refine ⟨v, ?_, hcycle⟩
  rw [layers, hlayers]

theorem eq_of_build {s : Scopes} {g : DependencyGraph} (h : build p s = .ok g) :
    g = ofProgram p s := by
  unfold build at h
  split at h
  · exact absurd h (by simp)
  · exact (Except.ok.inj h).symm

end DependencyGraph

namespace Compilation

variable {source : ProgramSource} {p : Program} {g : DependencyGraph}

/-- The check passes if nothing leads back to itself. Otherwise the error names a declaration that
does and lists it, all that it leads to and that lead back to it, and it again. -/
theorem check_finds_cycles (hlower : Program.lower source = .ok p)
    (hbuild : DependencyGraph.build p (Scopes.ofProgram p) = .ok g) :
    (checkAcyclic p g = .ok () ↔ ∀ d, ¬g.Leads d d) ∧
    ∀ e, checkAcyclic p g = .error e → ∃ d above below, g.IsTour d above below ∧
      e = .cyclicDependency (p.qualifiedName d)
        ((d :: above ++ below ++ [d]).map p.qualifiedName) := by
  have hp := Program.wellFormed_of_lower hlower
  obtain rfl := DependencyGraph.eq_of_build hbuild
  rw [← DependencyGraph.acyclic_iff_leads hp, ← Digraph.backEdge?_eq_none_iff]
  unfold checkAcyclic
  cases hback : (DependencyGraph.of p).digraph.backEdge? with
  | none => simp [DependencyGraph.cycleError?, hback]
  | some edge =>
    rw [DependencyGraph.cycleError?_eq_some hp hback]
    refine ⟨by simp, fun e h => ?_⟩
    obtain rfl := Except.error.inj h
    exact ⟨_, _, _, DependencyGraph.isTour_component hp
      (Digraph.isBack_of_backEdge? hback).reaches_self, rfl⟩

end Compilation

/-- A source in which a search from the first formula comes upon a cycle in its middle. -/
def ProgramSource.knot : ProgramSource :=
  ⟨[], [], [⟨"knot", [],
    [⟨"start", .literal .null, false⟩, ⟨"first", .ident "third", false⟩,
      ⟨"second", .list [.ident "start", .ident "first"], false⟩,
      ⟨"third", .ident "second", true⟩]⟩]⟩

theorem Compilation.exists_tour_of_knot :
    ∃ p g, Program.lower .knot = .ok p ∧ DependencyGraph.build p (Scopes.ofProgram p) = .ok g ∧
      checkAcyclic p g = .error (.cyclicDependency "knot.second"
        ["knot.second", "knot.third", "knot.first", "knot.second"]) ∧
      ∃ d above below, g.IsTour d above below ∧
        CompileError.cyclicDependency "knot.second"
          ["knot.second", "knot.third", "knot.first", "knot.second"] =
            .cyclicDependency (p.qualifiedName d)
              ((d :: above ++ below ++ [d]).map p.qualifiedName) := by
  have hlower : Program.lower .knot = .ok (Program.ofSource .knot) := rfl
  have hbuild : DependencyGraph.build (Program.ofSource .knot)
      (Scopes.ofProgram (Program.ofSource .knot)) = .ok (.of (Program.ofSource .knot)) := rfl
  have hback : (DependencyGraph.of (Program.ofSource .knot)).digraph.backEdge? =
      some (⟨1, by decide⟩, ⟨2, by decide⟩) := by decide +kernel
  have hcomponent : (DependencyGraph.of (Program.ofSource .knot)).component ⟨2, by decide⟩ =
      [1, 2, 3] := by decide +kernel
  have hsorted : [1, 2, 3].mergeSort = [1, 2, 3] := List.mergeSort_of_pairwise (by decide)
  have hmembers : (DependencyGraph.of (Program.ofSource .knot)).cycleMembers ⟨2, by decide⟩ =
      [2, 3, 1] := by
    rw [DependencyGraph.cycleMembers, DependencyGraph.startingAt, hcomponent, hsorted]
    rfl
  have hcheck : checkAcyclic (Program.ofSource .knot) (.of (Program.ofSource .knot)) =
      .error (.cyclicDependency "knot.second"
        ["knot.second", "knot.third", "knot.first", "knot.second"]) := by
    unfold checkAcyclic DependencyGraph.cycleError?
    rw [hback, Option.map_some, hmembers]
    decide +kernel
  exact ⟨_, _, hlower, hbuild, hcheck, (check_finds_cycles hlower hbuild).2 _ hcheck⟩

end FormulaEngine
