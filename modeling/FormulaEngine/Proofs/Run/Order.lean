import FormulaEngine.Proofs.Graph.LongestPaths
import FormulaEngine.Proofs.Run.Waves

/-!
# The order of a schedule

Declarations are settled layer by layer, in each layer the synchronous ones before the others, and
those of a kind in the order of declaration. A declaration stands in the first layer above all that
it depends on, so layers are fixed by what depends on what.
-/

namespace FormulaEngine

namespace Plan

variable {p : Program} {order layer : List DeclId} {kind : StepKind}

/-- The declarations of a layer in the order of its group. -/
def arranged (p : Program) (layer : List DeclId) : List DeclId :=
  layer.filter (kindOf p · == .synchronous) ++ layer.filter (kindOf p · == .asynchronous)

theorem filterMap_stepsOfLayer (hlayer : ∀ d ∈ layer, d ∈ order) :
    (((stepsOfLayer p order layer).filter (·.2 == kind)).map Prod.fst).filterMap (order[·]?) =
      layer.filter (kindOf p · == kind) := by
  induction layer with
  | nil => rfl
  | cons d rest ih =>
    obtain ⟨i, hi⟩ := Option.isSome_iff_exists.mp
      (List.isSome_idxOf?.mpr (hlayer d List.mem_cons_self))
    have hget : order[i]? = some d := by
      obtain ⟨hlt, hd, -⟩ := List.idxOf?_eq_some_iff.mp hi
      exact List.getElem?_eq_some_iff.mpr ⟨hlt, hd⟩
    have hsteps : stepsOfLayer p order (d :: rest) =
        (i, kindOf p d) :: stepsOfLayer p order rest := by
      simp [stepsOfLayer, hi]
    have hrest := ih fun e he => hlayer e (List.mem_cons_of_mem _ he)
    rw [hsteps, List.filter_cons, List.filter_cons]
    split
    · rw [List.map_cons, List.filterMap_cons, hget, hrest]
    · exact hrest

theorem filterMap_steps_groupOf (hlayer : ∀ d ∈ layer, d ∈ order) :
    (groupOf p order layer).steps.filterMap (order[·]?) = arranged p layer := by
  rw [groupOf, StepGroup.steps, StepGroup.synchronous_ofSteps, StepGroup.asynchronous_ofSteps,
    List.filterMap_append]
  exact congrArg₂ (· ++ ·) (filterMap_stepsOfLayer hlayer) (filterMap_stepsOfLayer hlayer)

end Plan

namespace Compilation

variable {c : Compilation} {u v : DeclId} {layer : List DeclId} {k : Nat}

/-- Merging or not, declarations are settled layer by layer. -/
theorem Valid.idsOf_schedule (h : c.Valid) :
    idsOf c.schedule = c.layers.flatMap (Plan.arranged c.program) := by
  obtain ⟨merge, hplan⟩ := h.exists_plan_eq
  have hgroups : c.plan.groups = Plan.groupsOf c.program c.layers merge := by rw [hplan]; rfl
  rw [schedule, h.idsOf_scheduled, hgroups,
    Plan.flatMap_groupsOf rfl fun _ _ => StepGroup.steps_absorb, List.filterMap_flatMap,
    List.flatMap_map]
  refine List.flatMap_congr fun layer hlayer => ?_
  exact Plan.filterMap_steps_groupOf fun d hd => List.mem_flatten_of_mem hlayer hd

/-! ### Layers -/

def layerOf (c : Compilation) (u : DeclId) : Nat := c.layers.findIdx (·.contains u)

theorem Valid.layerOf_eq (h : c.Valid) (hk : c.layers[k]? = some layer) (hu : u ∈ layer) :
    c.layerOf u = k := by
  obtain ⟨hlt, rfl⟩ := List.getElem?_eq_some_iff.mp hk
  refine (List.findIdx_eq hlt).mpr ⟨List.contains_iff_mem.mpr hu, fun j hj => ?_⟩
  have hdisjoint := (List.nodup_flatten.mp (h.isLayering.nodup h.wellFormed)).2
  have hnot := List.pairwise_iff_getElem.mp hdisjoint j k (hj.trans hlt) hlt hj
  rw [Bool.eq_false_iff, Ne, List.contains_iff_mem]
  exact fun hmem => hnot hmem hu

theorem Valid.exists_layer (h : c.Valid) (hu : u ∈ c.graph.vertices) :
    ∃ layer, c.layers[c.layerOf u]? = some layer ∧ u ∈ layer := by
  rw [h.graph_eq] at hu
  obtain ⟨layer, hlayer, hmem⟩ := List.mem_flatten.mp (h.isLayering.perm.mem_iff.mpr hu)
  obtain ⟨k, hk⟩ := List.getElem?_of_mem hlayer
  exact ⟨layer, h.layerOf_eq hk hmem ▸ hk, hmem⟩

/-- Each declaration stands right above the highest one that it depends on, or in the first layer,
and layers are in the order of declaration. -/
structure IsStratified (c : Compilation) : Prop where
  above : ∀ u v, c.program.DependsOn v u → c.layerOf u < c.layerOf v
  least : ∀ v ∈ c.graph.vertices, c.layerOf v ≠ 0 →
    ∃ u, c.program.DependsOn v u ∧ c.layerOf v = c.layerOf u + 1
  sorted : ∀ layer ∈ c.layers, layer.Pairwise (· < ·)

theorem Valid.dependsOn_of_edge (h : c.Valid) {a b : Fin c.graph.declarations.length}
    (hedge : c.graph.digraph.Edge a b) :
    c.program.DependsOn (c.graph.idOf b) (c.graph.idOf a) := by
  have hgraph := h.graph_eq
  generalize c.graph = g at a b hedge hgraph
  subst hgraph
  exact (DependencyGraph.edge_iff h.wellFormed).mp hedge

theorem exists_layersIn_of_compile {settings : Settings} {source : ProgramSource}
    (h : compile settings source = .ok c) :
    ∃ order, c.graph.digraph.IsTopological order ∧
      c.graph.digraph.layersIn c.graph.idOf order = c.layers := by
  obtain ⟨-, -, -, -, hlayers, -⟩ := compile_eq_ok_iff.mp h
  unfold DependencyGraph.layers at hlayers
  cases hfound : c.graph.digraph.layers c.graph.idOf with
  | error node => simp [hfound] at hlayers
  | ok found =>
    rw [hfound] at hlayers
    obtain ⟨order, horder, hlayersIn⟩ := Digraph.layers_eq_ok_iff.mp hfound
    exact ⟨order, Digraph.isTopological_of_topologicalOrder horder,
      hlayersIn.trans (Except.ok.inj hlayers)⟩

theorem isStratified_of_compile {settings : Settings} {source : ProgramSource}
    (h : compile settings source = .ok c) : c.IsStratified := by
  have hvalid := valid_of_compile h
  obtain ⟨order, horder, hlayers⟩ := exists_layersIn_of_compile h
  refine ⟨fun u v hdep => ?_, fun v hv hne => ?_, fun layer hlayer => ?_⟩
  · obtain ⟨below, hbelow, hu⟩ := hvalid.exists_layer
      (hvalid.mem_vertices_iff.mpr (hdep.right_isVertex hvalid.wellFormed))
    obtain ⟨above, habove, hv⟩ := hvalid.exists_layer
      (hvalid.mem_vertices_iff.mpr hdep.left_isVertex)
    exact hvalid.isLayering.lt_of_dependsOn habove hbelow hv hu hdep
  · obtain ⟨layer, hlayer, hmem⟩ := hvalid.exists_layer hv
    obtain ⟨k, hk⟩ := Nat.exists_eq_succ_of_ne_zero hne
    have hlt := (List.getElem?_eq_some_iff.mp hlayer).1
    rw [← hlayers] at hlayer
    obtain ⟨b, -, hb, rfl⟩ := (Digraph.mem_layersIn_iff hlayer).mp hmem
    obtain ⟨a, hedge, ha⟩ := Digraph.exists_edge_of_layersOf_eq_succ horder (hb.trans hk)
    obtain ⟨below, hbelow⟩ : ∃ below, c.layers[k]? = some below :=
      ⟨_, List.getElem?_eq_getElem (Nat.lt_of_succ_lt (hk ▸ hlt))⟩
    have hmem' : c.graph.idOf a ∈ below := by
      rw [← hlayers] at hbelow
      exact (Digraph.mem_layersIn_iff hbelow).mpr ⟨a, horder.complete a, ha, rfl⟩
    refine ⟨c.graph.idOf a, hvalid.dependsOn_of_edge hedge, ?_⟩
    rw [hk, hvalid.layerOf_eq hbelow hmem']
  · have hflat := hvalid.isLayering.nodup hvalid.wellFormed
    have hnodup := (List.nodup_flatten.mp hflat).1 layer hlayer
    have hsorted : layer.Pairwise (· ≤ ·) := by
      rw [← hlayers] at hlayer
      exact Digraph.sorted_of_mem_layersIn hlayer
    exact hsorted.imp₂ (fun _ _ hle hne => Nat.lt_of_le_of_ne hle hne) hnodup

/-! ### The order -/

/-- A declaration is settled before another one: in an earlier layer, or in the same one as a
synchronous step before an asynchronous one, or before one of the same kind that is declared
later. -/
def Precedes (c : Compilation) (u v : DeclId) : Prop :=
  c.layerOf u < c.layerOf v ∨ c.layerOf u = c.layerOf v ∧
    (Plan.kindOf c.program u = .synchronous ∧ Plan.kindOf c.program v = .asynchronous ∨
      Plan.kindOf c.program u = Plan.kindOf c.program v ∧ u < v)

theorem Precedes.asymm (h : c.Precedes u v) : ¬c.Precedes v u := by
  unfold Precedes at h ⊢
  grind

theorem Valid.pairwise_precedes (h : c.Valid) (hstratified : c.IsStratified) :
    (idsOf c.schedule).Pairwise c.Precedes := by
  rw [h.idsOf_schedule, List.pairwise_flatMap]
  constructor
  · intro layer hlayer
    obtain ⟨k, hk⟩ := List.getElem?_of_mem hlayer
    have hsorted := hstratified.sorted layer hlayer
    have hsame : ∀ u ∈ layer, ∀ v ∈ layer, c.layerOf u = c.layerOf v := by
      intro u hu v hv
      rw [h.layerOf_eq hk hu, h.layerOf_eq hk hv]
    have hkind : ∀ kind, (layer.filter (Plan.kindOf c.program · == kind)).Pairwise c.Precedes := by
      intro kind
      refine (hsorted.filter _).imp_of_mem fun {u v} hu hv hlt => .inr ⟨?_, .inr ⟨?_, hlt⟩⟩
      · exact hsame u (List.mem_of_mem_filter hu) v (List.mem_of_mem_filter hv)
      · rw [eq_of_beq (List.mem_filter.mp hu).2, eq_of_beq (List.mem_filter.mp hv).2]
    rw [Plan.arranged, List.pairwise_append]
    refine ⟨hkind _, hkind _, fun u hu v hv => .inr ⟨?_, .inl ⟨?_, ?_⟩⟩⟩
    · exact hsame u (List.mem_of_mem_filter hu) v (List.mem_of_mem_filter hv)
    · exact eq_of_beq (List.mem_filter.mp hu).2
    · exact eq_of_beq (List.mem_filter.mp hv).2
  · rw [List.pairwise_iff_getElem]
    intro i k hi hk hlt u hu v hv
    have hmem : ∀ {layer : List DeclId} {u}, u ∈ Plan.arranged c.program layer → u ∈ layer := by
      intro layer u hu
      rcases List.mem_append.mp hu with hu | hu
      · exact List.mem_of_mem_filter hu
      · exact List.mem_of_mem_filter hu
    left
    rw [h.layerOf_eq (List.getElem?_eq_getElem hi) (hmem hu),
      h.layerOf_eq (List.getElem?_eq_getElem hk) (hmem hv)]
    exact hlt

end Compilation

end FormulaEngine
