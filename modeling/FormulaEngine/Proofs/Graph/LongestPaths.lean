import FormulaEngine.Proofs.Graph.Iteration
import FormulaEngine.Proofs.Graph.Layering
import Mathlib.Data.List.Chain
import Mathlib.Order.Bounds.Basic

/-!
# Layers and longest paths

Layers go up along every path, and each node ends a path with one node in each layer up to its own.
So no node could stand lower, and there are as many layers as nodes on a longest path. Layers are
found for exactly the graphs without cycles, as only these have a topological order.
-/

namespace FormulaEngine.Digraph

variable {n : Nat} {g : Digraph n} {order : List (Fin n)} {u v : Fin n}

/-! ### Layers below a node -/

theorem exists_layerAbove_eq (layerOf : Vector Nat n) {nodes : List (Fin n)} (h : nodes ≠ []) :
    ∃ u ∈ nodes, layerAbove layerOf nodes = layerOf.get u + 1 := by
  by_contra hnone
  push Not at hnone
  have hbelow : ∀ u ∈ nodes, layerOf.get u < layerAbove layerOf nodes - 1 := by
    intro u hu
    have hlt : layerOf.get u < layerAbove layerOf nodes := lt_layerAbove hu
    have hne := hnone u hu
    omega
  have hle := layerAbove_le_iff.mpr hbelow
  obtain ⟨u, hu⟩ := List.exists_mem_of_ne_nil nodes h
  have hlt := hbelow u hu
  omega

theorem layersOf_eq_zero (h : g.IsTopological order) (hv : ∀ u, ¬g.Edge u v) :
    (g.layersOf order).get v = 0 := by
  rw [layersOf_eq_layerAbove h, ← Nat.le_zero]
  apply layerAbove_le_iff.mpr
  intro u hu
  exact absurd (mem_incoming_iff.mp hu) (hv u)

theorem exists_layersOf_eq_succ (h : g.IsTopological order) (hv : ∃ u, g.Edge u v) :
    ∃ u, g.Edge u v ∧ (g.layersOf order).get v = (g.layersOf order).get u + 1 := by
  obtain ⟨w, hw⟩ := hv
  have hne : g.incoming v ≠ [] := List.ne_nil_of_mem (mem_incoming_iff.mpr hw)
  obtain ⟨u, hu, heq⟩ := exists_layerAbove_eq (g.layersOf order) hne
  exact ⟨u, mem_incoming_iff.mp hu, (layersOf_eq_layerAbove h v).trans heq⟩

/-- A node above the first layer has one just below it behind an edge. -/
theorem exists_edge_of_layersOf_eq_succ (h : g.IsTopological order) {k : Nat}
    (hv : (g.layersOf order).get v = k + 1) :
    ∃ u, g.Edge u v ∧ (g.layersOf order).get u = k := by
  have hsome : ∃ u, g.Edge u v := by
    by_contra hnone
    push Not at hnone
    have hzero := layersOf_eq_zero h hnone
    omega
  obtain ⟨u, huv, heq⟩ := exists_layersOf_eq_succ h hsome
  exact ⟨u, huv, by omega⟩

theorem exists_layersOf_eq (h : g.IsTopological order) {k : Nat}
    (hk : k ≤ (g.layersOf order).get v) : ∃ u, (g.layersOf order).get u = k := by
  induction hd : (g.layersOf order).get v - k generalizing v with
  | zero => exact ⟨v, by omega⟩
  | succ d ih =>
    have hv : (g.layersOf order).get v = k + d + 1 := by omega
    obtain ⟨u, -, hu⟩ := exists_edge_of_layersOf_eq_succ h hv
    apply @ih u
    · omega
    · omega

/-! ### Paths -/

def IsPath (g : Digraph n) (path : List (Fin n)) : Prop := path.Nodup ∧ path.IsChain g.Edge

theorem pairwise_layersOf (h : g.IsTopological order) {path : List (Fin n)}
    (hpath : path.IsChain g.Edge) :
    path.Pairwise fun u v => (g.layersOf order).get u < (g.layersOf order).get v := by
  have hchain : path.IsChain fun u v => (g.layersOf order).get u < (g.layersOf order).get v :=
    hpath.imp fun u v huv => layersOf_lt_of_edge h huv
  have : IsTrans (Fin n) fun u v => (g.layersOf order).get u < (g.layersOf order).get v :=
    ⟨fun _ _ _ huv hvw => huv.trans hvw⟩
  exact List.isChain_iff_pairwise.mp hchain

/-- Without cycles a walk along the edges is a path. -/
theorem isPath_of_isChain (h : g.IsTopological order) {path : List (Fin n)}
    (hpath : path.IsChain g.Edge) : g.IsPath path := by
  refine ⟨(pairwise_layersOf h hpath).imp ?_, hpath⟩
  rintro u v hlt rfl
  exact Nat.lt_irrefl _ hlt

theorem length_le_layerAbove (h : g.IsTopological order) {path : List (Fin n)}
    (hpath : path.IsChain g.Edge) : path.length ≤ layerAbove (g.layersOf order) order := by
  have hnodup : (path.map (g.layersOf order).get).Nodup := by
    rw [List.Nodup, List.pairwise_map]
    exact (pairwise_layersOf h hpath).imp Nat.ne_of_lt
  have hsubset : path.map (g.layersOf order).get ⊆
      List.range (layerAbove (g.layersOf order) order) := by
    intro k hk
    obtain ⟨v, -, rfl⟩ := List.mem_map.mp hk
    exact List.mem_range.mpr (lt_layerAbove (h.complete v))
  calc path.length = (path.map (g.layersOf order).get).length := by rw [List.length_map]
    _ ≤ (List.range (layerAbove (g.layersOf order) order)).length :=
      (hnodup.subperm hsubset).length_le
    _ = layerAbove (g.layersOf order) order := List.length_range

/-- Each node ends a walk through all layers below its own. -/
theorem exists_isChain (h : g.IsTopological order) (v : Fin n) :
    ∃ path, (path ++ [v]).IsChain g.Edge ∧ path.length = (g.layersOf order).get v := by
  induction hk : (g.layersOf order).get v generalizing v with
  | zero => exact ⟨[], List.isChain_singleton v, rfl⟩
  | succ k ih =>
    obtain ⟨u, huv, hu⟩ := exists_edge_of_layersOf_eq_succ h hk
    obtain ⟨path, hpath, hlength⟩ := ih u hu
    refine ⟨path ++ [u], ?_, by simp [hlength]⟩
    have hlast : [u, v].IsChain g.Edge := List.isChain_pair.mpr huv
    simpa using hpath.append_overlap hlast (by simp)

theorem exists_isPath_length_eq (h : g.IsTopological order) :
    ∃ path, g.IsPath path ∧ path.length = layerAbove (g.layersOf order) order := by
  by_cases hempty : order = []
  · subst hempty
    exact ⟨[], isPath_of_isChain h List.isChain_nil, rfl⟩
  · obtain ⟨v, -, hv⟩ := exists_layerAbove_eq (g.layersOf order) hempty
    obtain ⟨path, hpath, hlength⟩ := exists_isChain h v
    exact ⟨path ++ [v], isPath_of_isChain h hpath, by simp [hlength, hv]⟩

/-! ### The layers of a graph -/

variable {α : Type}

/-- The layers list the weight of every node once, in order within each layer. A node is in the
first layer if no edge leads to it, and otherwise in the one above the highest layer that an edge to
it comes from. There are as many layers as nodes on a longest path. -/
structure IsLayered [LE α] (g : Digraph n) (weight : Fin n → α) (layer : Fin n → Nat)
    (layers : List (List α)) : Prop where
  placed : ∃ nodes : List (List (Fin n)), layers = nodes.map (List.map weight) ∧
    nodes.flatten.Perm (List.finRange n) ∧
    ∀ k nodesIn, nodes[k]? = some nodesIn → ∀ v, v ∈ nodesIn ↔ layer v = k
  first : ∀ v, (∀ u, ¬g.Edge u v) → layer v = 0
  above : ∀ v, (∃ u, g.Edge u v) →
    ∃ u, g.Edge u v ∧ layer v = layer u + 1 ∧ ∀ w, g.Edge w v → layer w ≤ layer u
  nonempty : ∀ weights ∈ layers, weights ≠ []
  sorted : ∀ weights ∈ layers, weights.Pairwise (· ≤ ·)
  longest : IsGreatest {k | ∃ path, g.IsPath path ∧ path.length = k} layers.length

variable [LinearOrder α] {weight : Fin n → α}

theorem length_layersIn :
    (g.layersIn weight order).length = layerAbove (g.layersOf order) order := by
  rw [layersIn, List.length_map, List.length_range]

theorem nonempty_of_mem_layersIn (h : g.IsTopological order) {weights : List α}
    (hweights : weights ∈ g.layersIn weight order) : weights ≠ [] := by
  obtain ⟨k, hk⟩ := List.getElem?_of_mem hweights
  have hlt := (List.getElem?_eq_some_iff.mp hk).1
  rw [length_layersIn] at hlt
  have hempty : order ≠ [] := by
    rintro rfl
    exact absurd hlt (by simp [layerAbove])
  obtain ⟨v, -, hv⟩ := exists_layerAbove_eq (g.layersOf order) hempty
  obtain ⟨u, hu⟩ := exists_layersOf_eq h (v := v) (show k ≤ _ by omega)
  exact List.ne_nil_of_mem ((mem_layersIn_iff hk).mpr ⟨u, h.complete u, hu, rfl⟩)

theorem sorted_of_mem_layersIn {weights : List α} (hweights : weights ∈ g.layersIn weight order) :
    weights.Pairwise (· ≤ ·) := by
  obtain ⟨k, -, rfl⟩ := List.mem_map.mp hweights
  have htrans : ∀ a b c : α, decide (a ≤ b) → decide (b ≤ c) → decide (a ≤ c) := by
    intro a b c hab hbc
    exact decide_eq_true ((of_decide_eq_true hab).trans (of_decide_eq_true hbc))
  have htotal : ∀ a b : α, decide (a ≤ b) || decide (b ≤ a) := by
    intro a b
    simpa using le_total a b
  exact (List.pairwise_mergeSort htrans htotal _).imp of_decide_eq_true

theorem isLayered_layersIn (h : g.IsTopological order) :
    g.IsLayered weight (g.layersOf order).get (g.layersIn weight order) where
  placed := by
    refine ⟨g.nodesIn weight order, layersIn_eq_map, ?_, fun k nodesIn hk v => ?_⟩
    · refine flatten_nodesIn_perm.trans ((List.perm_ext_iff_of_nodup h.nodup
        (List.nodup_finRange n)).mpr fun v => ?_)
      simp [h.complete v]
    · simp [mem_nodesIn_iff hk, h.complete v]
  first v hv := layersOf_eq_zero h hv
  above v hv := by
    obtain ⟨u, huv, heq⟩ := exists_layersOf_eq_succ h hv
    refine ⟨u, huv, heq, fun w hwv => ?_⟩
    have hlt := layersOf_lt_of_edge h hwv
    omega
  nonempty _ hweights := nonempty_of_mem_layersIn h hweights
  sorted _ hweights := sorted_of_mem_layersIn hweights
  longest := by
    rw [length_layersIn]
    refine ⟨exists_isPath_length_eq h, ?_⟩
    rintro _ ⟨path, hpath, rfl⟩
    exact length_le_layerAbove h hpath.2

theorem layers_eq_ok_iff {found : List (List α)} : g.layers weight = .ok found ↔
    ∃ order, g.topologicalOrder = .ok order ∧ g.layersIn weight order = found := by
  unfold layers
  cases g.topologicalOrder with
  | error v => simp [bind, Except.bind]
  | ok order => simp [bind, Except.bind]

/-- Exactly the graphs without cycles have layers, and each node stands in the earliest that the
edges to it allow. The order that the layers come from may as well be found by the loop. -/
theorem layers_of_longest_paths (g : Digraph n) (weight : Fin n → α) :
    g.finishOrder = g.loopOrder ∧
      ((∃ layers, g.layers weight = .ok layers) ↔ g.Acyclic) ∧
      ∀ layers, g.layers weight = .ok layers → ∃ layer, g.IsLayered weight layer layers := by
  refine ⟨finishOrder_eq_loopOrder, ?_, ?_⟩
  · rw [← exists_topologicalOrder_iff]
    constructor
    · rintro ⟨layers, hlayers⟩
      obtain ⟨order, horder, -⟩ := layers_eq_ok_iff.mp hlayers
      exact ⟨order, horder⟩
    · rintro ⟨order, horder⟩
      exact ⟨_, layers_eq_ok_iff.mpr ⟨order, horder, rfl⟩⟩
  · intro layers hlayers
    obtain ⟨order, horder, rfl⟩ := layers_eq_ok_iff.mp hlayers
    exact ⟨_, isLayered_layersIn (isTopological_of_topologicalOrder horder)⟩

end FormulaEngine.Digraph
