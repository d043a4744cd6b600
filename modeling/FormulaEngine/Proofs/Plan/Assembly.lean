import FormulaEngine.Plan.Basic
import FormulaEngine.Proofs.Program.Layers

/-!
# Assembling a plan

Layers make a plan exactly if they list every vertex once. The layers of a program without cycles
do, so no fault of a plan is ever reported for them.
-/

namespace FormulaEngine.Plan

variable {p : Program} {g : DependencyGraph} {scheduled order : List DeclId}

/-- Declarations can be scheduled after others if they are new vertices, each listed once. -/
theorem scheduleFault?_eq_none_iff :
    scheduleFault? p g scheduled order = none ↔
      order.Nodup ∧ ∀ d ∈ order, (p.declaration? d).isSome ∧ d ∈ g.vertices ∧ d ∉ scheduled := by
  induction order generalizing scheduled with
  | nil => simp [scheduleFault?]
  | cons d rest ih =>
    rw [scheduleFault?]
    by_cases hdeclared : (p.declaration? d).isNone
    · simp [Option.isNone_iff_eq_none.mp hdeclared]
    rw [if_neg hdeclared]
    by_cases hvertex : g.contains d
    · have hmem : d ∈ g.vertices := List.contains_iff_mem.mp hvertex
      have hsome : (p.declaration? d).isSome := by
        rwa [Option.isNone_iff_eq_none, ← ne_eq, ← Option.isSome_iff_ne_none] at hdeclared
      by_cases hscheduled : d ∈ scheduled
      · simp [hvertex, hscheduled]
      · simp only [hvertex, hscheduled, ih, Bool.not_true, Bool.false_eq_true, if_false,
          List.nodup_cons, List.mem_cons, not_or, forall_eq_or_imp, not_false_eq_true, and_true]
        constructor
        · rintro ⟨hnodup, hrest⟩
          exact ⟨⟨fun h => (hrest d h).2.2.1 rfl, hnodup⟩, ⟨hsome, hmem⟩, fun e he =>
            ⟨(hrest e he).1, (hrest e he).2.1, (hrest e he).2.2.2⟩⟩
        · rintro ⟨⟨hd, hnodup⟩, -, hrest⟩
          exact ⟨hnodup, fun e he => ⟨(hrest e he).1, (hrest e he).2.1,
            fun heq => hd (heq ▸ he), (hrest e he).2.2⟩⟩
    · have hmem : d ∉ g.vertices := fun h => hvertex (List.contains_iff_mem.mpr h)
      simp [hvertex, hmem]

/-- The vertices of a graph, each once, have no fault. -/
theorem fault?_eq_none_of_perm (hp : p.WellFormed)
    (h : order.Perm (DependencyGraph.of p).vertices) :
    fault? p (DependencyGraph.of p) order = none := by
  have hschedule : scheduleFault? p (DependencyGraph.of p) [] order = none := by
    refine scheduleFault?_eq_none_iff.mpr
      ⟨h.nodup_iff.mpr (DependencyGraph.vertices_nodup hp), fun d hd => ?_⟩
    obtain ⟨e, he, -⟩ := (DependencyGraph.mem_vertices_iff hp).mp (h.mem_iff.mp hd)
    exact ⟨by simp [he], h.mem_iff.mp hd, List.not_mem_nil⟩
  have hlength : order.length = (DependencyGraph.of p).size := by
    rw [h.length_eq, DependencyGraph.vertices, List.length_map]
    rfl
  rw [fault?, hschedule, if_pos hlength, Option.none_or]

theorem assemble_of_isLayering (hp : p.WellFormed) {layers : List (List DeclId)}
    (h : p.IsLayering layers) (merge : Bool) :
    assemble p (DependencyGraph.of p) layers merge =
      .ok ⟨stepsOf p (DependencyGraph.of p) layers.flatten, groupsOf p layers merge⟩ := by
  unfold assemble
  rw [fault?_eq_none_of_perm hp h.perm]

end FormulaEngine.Plan
