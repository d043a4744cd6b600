import FormulaEngine.Proofs.Graph.Layering
import FormulaEngine.Proofs.Program.Dependencies

/-!
# Layers of declarations

The layers of a program without cycles list its vertices once each. Nothing depends on a declaration
of its own layer or of a later one.
-/

namespace FormulaEngine

open Relation

namespace Program

/-- Layers hold every vertex once, each above all that it depends on. -/
structure IsLayering (p : Program) (layers : List (List DeclId)) : Prop where
  perm : layers.flatten.Perm (DependencyGraph.of p).vertices
  within : ∀ layer ∈ layers, ∀ u ∈ layer, ∀ v ∈ layer, ¬p.DependsOn u v
  across : layers.Pairwise fun below above => ∀ u ∈ below, ∀ v ∈ above, ¬p.DependsOn u v

namespace IsLayering

variable {p : Program} {layers : List (List DeclId)} {i k : Nat} {layer other : List DeclId}
  {u v : DeclId}

theorem lt_of_dependsOn (h : p.IsLayering layers) (hi : layers[i]? = some layer)
    (hk : layers[k]? = some other) (hu : u ∈ layer) (hv : v ∈ other) (hdep : p.DependsOn u v) :
    k < i := by
  rcases Nat.lt_trichotomy k i with hlt | rfl | hlt
  · exact hlt
  · obtain rfl := Option.some.inj (hi.symm.trans hk)
    exact absurd hdep (h.within layer (List.mem_of_getElem? hi) u hu v hv)
  · obtain ⟨hi', rfl⟩ := List.getElem?_eq_some_iff.mp hi
    obtain ⟨hk', rfl⟩ := List.getElem?_eq_some_iff.mp hk
    exact absurd hdep (List.pairwise_iff_getElem.mp h.across i k hi' hk' hlt u hu v hv)

theorem lt_of_transGen (hp : p.WellFormed) (h : p.IsLayering layers)
    (hi : layers[i]? = some layer) (hk : layers[k]? = some other) (hu : u ∈ layer)
    (hv : v ∈ other) (hdep : TransGen p.DependsOn u v) : k < i := by
  induction hdep generalizing k other with
  | single hdep => exact h.lt_of_dependsOn hi hk hu hv hdep
  | @tail w v _ hdep ih =>
    have hw : w ∈ layers.flatten :=
      h.perm.mem_iff.mpr ((DependencyGraph.mem_vertices_iff hp).mpr hdep.left_isVertex)
    obtain ⟨between, hmem, hw⟩ := List.mem_flatten.mp hw
    obtain ⟨j, hj⟩ := List.getElem?_of_mem hmem
    calc k < j := h.lt_of_dependsOn hj hk hw hv hdep
      _ < i := ih hj hw

theorem lt_of_getElem? (h : p.IsLayering layers) {a b : Nat} (ha : layers.flatten[a]? = some u)
    (hb : layers.flatten[b]? = some v) (hdep : p.DependsOn v u) : a < b := by
  have hpairwise : layers.flatten.Pairwise fun u v => ¬p.DependsOn u v :=
    List.pairwise_flatten.mpr ⟨fun layer hlayer => List.pairwise_of_forall_mem_list
      fun u hu v hv => h.within layer hlayer u hu v hv, h.across⟩
  obtain ⟨ha', rfl⟩ := List.getElem?_eq_some_iff.mp ha
  obtain ⟨hb', rfl⟩ := List.getElem?_eq_some_iff.mp hb
  rcases Nat.lt_trichotomy a b with hlt | rfl | hlt
  · exact hlt
  · obtain ⟨layer, hlayer, hmem⟩ := List.mem_flatten.mp (List.getElem_mem ha')
    exact absurd hdep (h.within layer hlayer _ hmem _ hmem)
  · exact absurd hdep (List.pairwise_iff_getElem.mp hpairwise b a hb' ha' hlt)

theorem nodup (hp : p.WellFormed) (h : p.IsLayering layers) : layers.flatten.Nodup :=
  h.perm.nodup_iff.mpr (DependencyGraph.vertices_nodup hp)

end IsLayering

end Program

namespace DependencyGraph

variable {p : Program} {order : List (Fin (of p).declarations.length)}

theorem perm_finRange {n : Nat} {g : Digraph n} {order : List (Fin n)} (h : g.IsTopological order) :
    order.Perm (List.finRange n) :=
  (List.perm_ext_iff_of_nodup h.nodup (List.nodup_finRange n)).mpr fun v =>
    ⟨fun _ => List.mem_finRange v, fun _ => h.complete v⟩

theorem layer_lt_of_dependsOn (hp : p.WellFormed) (h : (of p).digraph.IsTopological order)
    {i k : Nat} {layer other : List DeclId} {u v : DeclId}
    (hi : ((of p).digraph.layersIn (of p).idOf order)[i]? = some layer)
    (hk : ((of p).digraph.layersIn (of p).idOf order)[k]? = some other)
    (hu : u ∈ layer) (hv : v ∈ other) (hdep : p.DependsOn u v) : k < i := by
  obtain ⟨a, -, rfl, rfl⟩ := (Digraph.mem_layersIn_iff hi).mp hu
  obtain ⟨b, -, rfl, rfl⟩ := (Digraph.mem_layersIn_iff hk).mp hv
  exact Digraph.layersOf_lt_of_edge h ((edge_iff hp).mpr hdep)

theorem isLayering_layersIn (hp : p.WellFormed) (h : (of p).digraph.IsTopological order) :
    p.IsLayering ((of p).digraph.layersIn (of p).idOf order) where
  perm := by
    refine Digraph.flatten_layersIn_perm.trans ?_
    rw [← map_idOf_finRange]
    exact (perm_finRange h).map _
  within layer hlayer u hu v hv hdep := by
    obtain ⟨i, hi⟩ := List.getElem?_of_mem hlayer
    exact Nat.lt_irrefl _ (layer_lt_of_dependsOn hp h hi hi hu hv hdep)
  across := by
    refine List.pairwise_iff_getElem.mpr fun i k hi hk hlt u hu v hv hdep => ?_
    have hbelow := layer_lt_of_dependsOn hp h (List.getElem?_eq_getElem hi)
      (List.getElem?_eq_getElem hk) hu hv hdep
    omega

/-- A graph without cycles has layers. -/
theorem layers_of_acyclic (hp : p.WellFormed) (h : (of p).digraph.Acyclic) :
    ∃ layers, (of p).layers = .ok layers ∧ p.IsLayering layers := by
  obtain ⟨order, horder, htop⟩ := Digraph.topologicalOrder_of_acyclic h
  refine ⟨_, ?_, isLayering_layersIn hp htop⟩
  have hlayers : (of p).digraph.layers (of p).idOf =
      .ok ((of p).digraph.layersIn (of p).idOf order) := by
    unfold Digraph.layers
    rw [horder]
    rfl
  unfold layers
  rw [hlayers]

end DependencyGraph

end FormulaEngine
