import FormulaEngine.Graph.Layers
import FormulaEngine.Proofs.Graph.DepthFirst

/-!
# Layers of a topological order

Taken in a topological order, each node gets the least layer above those of the nodes that have an
edge to it. So edges lead to higher layers, and the layers list every node once.
-/

namespace FormulaEngine.Digraph

variable {n : Nat} {g : Digraph n} {order : List (Fin n)} {u v : Fin n}

/-! ### The layer of a node -/

theorem foldl_max_le_iff {ks : List Nat} {start bound : Nat} :
    ks.foldl max start ≤ bound ↔ start ≤ bound ∧ ∀ k ∈ ks, k ≤ bound := by
  induction ks generalizing start with
  | nil => simp
  | cons k ks ih => simp [ih, and_assoc]

theorem layerAbove_le_iff {layerOf : Vector Nat n} {nodes : List (Fin n)} {bound : Nat} :
    layerAbove layerOf nodes ≤ bound ↔ ∀ u ∈ nodes, layerOf.get u < bound := by
  simp only [layerAbove, foldl_max_le_iff, Nat.zero_le, true_and, List.mem_map,
    forall_exists_index, and_imp, forall_apply_eq_imp_iff₂, Nat.succ_le_iff]
  rfl

theorem lt_layerAbove {layerOf : Vector Nat n} {nodes : List (Fin n)} (h : u ∈ nodes) :
    layerOf.get u < layerAbove layerOf nodes :=
  layerAbove_le_iff.mp le_rfl u h

theorem layerAbove_congr {layerOf other : Vector Nat n} {nodes : List (Fin n)}
    (h : ∀ u ∈ nodes, layerOf.get u = other.get u) :
    layerAbove layerOf nodes = layerAbove other nodes := by
  have hmap : nodes.map (layerOf.get · + 1) = nodes.map (other.get · + 1) :=
    List.map_congr_left fun u hu => congrArg (· + 1) (h u hu)
  exact congrArg (List.foldl max 0) hmap

theorem layerAbove_append_singleton {layerOf : Vector Nat n} {nodes : List (Fin n)} :
    layerAbove layerOf (nodes ++ [v]) = max (layerAbove layerOf nodes) (layerOf.get v + 1) := by
  rw [layerAbove, List.map_append, List.foldl_append]
  rfl

def assignLayer (g : Digraph n) (layerOf : Vector Nat n) (v : Fin n) : Vector Nat n :=
  layerOf.set v.val (layerAbove layerOf (g.incoming v)) v.isLt

theorem layersOf_eq_foldl : g.layersOf order = order.foldl g.assignLayer (Vector.replicate n 0) :=
  rfl

theorem assignLayer_self (layerOf : Vector Nat n) :
    (g.assignLayer layerOf v).get v = layerAbove layerOf (g.incoming v) :=
  Vector.getElem_set_self v.isLt

theorem assignLayer_of_ne (layerOf : Vector Nat n) (h : u ≠ v) :
    (g.assignLayer layerOf v).get u = layerOf.get u := by
  have hne : v.val ≠ u.val := fun heq => h (Fin.ext heq.symm)
  exact Vector.getElem_set_ne v.isLt u.isLt hne

theorem foldl_assignLayer_of_notMem (layerOf : Vector Nat n) (h : u ∉ order) :
    (order.foldl g.assignLayer layerOf).get u = layerOf.get u := by
  induction order generalizing layerOf with
  | nil => rfl
  | cons v rest ih =>
    obtain ⟨hne, hrest⟩ := not_or.mp (mt List.mem_cons.mpr h)
    rw [List.foldl_cons, ih _ hrest, assignLayer_of_ne _ hne]

/-- Every node is in the least layer above all nodes that have an edge to it. -/
theorem layersOf_eq_layerAbove (h : g.IsTopological order) (v : Fin n) :
    (g.layersOf order).get v = layerAbove (g.layersOf order) (g.incoming v) := by
  obtain ⟨front, rest, rfl⟩ := List.append_of_mem (h.complete v)
  obtain ⟨-, hnodup, hdisjoint⟩ := List.nodup_append.mp h.nodup
  set before := front.foldl g.assignLayer (Vector.replicate n 0) with hbefore
  have hsplit : g.layersOf (front ++ v :: rest) =
      rest.foldl g.assignLayer (g.assignLayer before v) := by
    rw [layersOf_eq_foldl, List.foldl_append, List.foldl_cons]
  have hv : v ∉ rest := (List.nodup_cons.mp hnodup).1
  -- Nodes in front of `v` keep the layers that `v` saw.
  have hfront : ∀ u ∈ front, (g.layersOf (front ++ v :: rest)).get u = before.get u := by
    intro u hu
    have hne : u ≠ v := hdisjoint u hu v List.mem_cons_self
    have hrest : u ∉ rest := fun hmem => hdisjoint u hu u (List.mem_cons_of_mem _ hmem) rfl
    rw [hsplit, foldl_assignLayer_of_notMem _ hrest, assignLayer_of_ne _ hne]
  calc (g.layersOf (front ++ v :: rest)).get v = (g.assignLayer before v).get v := by
        rw [hsplit, foldl_assignLayer_of_notMem _ hv]
    _ = layerAbove before (g.incoming v) := assignLayer_self _
    _ = layerAbove (g.layersOf (front ++ v :: rest)) (g.incoming v) :=
        layerAbove_congr fun u hu => (hfront u (h.mem_front_of_edge (mem_incoming_iff.mp hu))).symm

theorem layersOf_lt_of_edge (h : g.IsTopological order) (huv : g.Edge u v) :
    (g.layersOf order).get u < (g.layersOf order).get v := by
  rw [layersOf_eq_layerAbove h v]
  exact lt_layerAbove (mem_incoming_iff.mpr huv)

/-! ### The lists of layers -/

/-- Sorting a list into classes by a number below a bound keeps its elements. -/
theorem flatMap_filter_perm {α : Type} (key : α → Nat) (l : List α) (bound : Nat) :
    ((List.range bound).flatMap fun k => l.filter (key · == k)).Perm
      (l.filter (key · < bound)) := by
  induction bound with
  | zero => simp
  | succ bound ih =>
    rw [List.range_succ, List.flatMap_append, List.flatMap_singleton]
    have hbelow : l.filter (key · < bound) =
        (l.filter (key · < bound + 1)).filter (key · < bound) := by
      rw [List.filter_filter]
      exact List.filter_congr fun a _ => by
        rw [Bool.eq_iff_iff]
        simp
        omega
    have hlast : l.filter (key · == bound) =
        (l.filter (key · < bound + 1)).filter fun a => !decide (key a < bound) := by
      rw [List.filter_filter]
      exact List.filter_congr fun a _ => by
        rw [Bool.eq_iff_iff]
        simp
        omega
    rw [hlast]
    refine (ih.append_right _).trans ?_
    rw [hbelow]
    exact List.filter_append_perm _ _

section

variable {α : Type} [LE α] [DecidableLE α] {weight : Fin n → α}

/-- The nodes of an order by layer, each layer in ascending order of weights. -/
def nodesIn (g : Digraph n) (weight : Fin n → α) (order : List (Fin n)) : List (List (Fin n)) :=
  (List.range (layerAbove (g.layersOf order) order)).map fun k =>
    (order.filter fun v => (g.layersOf order).get v == k).mergeSort
      fun u v => decide (weight u ≤ weight v)

theorem layersIn_eq_map :
    g.layersIn weight order = (g.nodesIn weight order).map (List.map weight) := by
  rw [layersIn, nodesIn, List.map_map]
  apply List.map_congr_left
  intro k _
  rw [Function.comp_apply, List.map_mergeSort]
  · rfl
  · exact fun _ _ _ _ => rfl

theorem flatten_nodesIn_perm : (g.nodesIn weight order).flatten.Perm order := by
  have hall : order.filter (fun v => (g.layersOf order).get v <
      layerAbove (g.layersOf order) order) = order :=
    List.filter_eq_self.mpr fun v hv => decide_eq_true (lt_layerAbove hv)
  have hclasses := flatMap_filter_perm (g.layersOf order).get order
    (layerAbove (g.layersOf order) order)
  rw [hall] at hclasses
  refine List.Perm.trans ?_ hclasses
  rw [nodesIn, ← List.flatMap_def]
  exact List.Perm.flatMap_left _ fun k _ => List.mergeSort_perm _ _

theorem mem_nodesIn_iff {k : Nat} {nodes : List (Fin n)}
    (h : (g.nodesIn weight order)[k]? = some nodes) :
    v ∈ nodes ↔ v ∈ order ∧ (g.layersOf order).get v = k := by
  obtain ⟨k', hk', rfl⟩ : ∃ k', (List.range (layerAbove (g.layersOf order) order))[k]? = some k' ∧
      _ = nodes := by
    simpa only [nodesIn, List.getElem?_map, Option.map_eq_some_iff] using h
  obtain rfl : k = k' := by simpa using (List.getElem?_eq_some_iff.mp hk').2
  simp [List.mem_mergeSort]

theorem flatten_layersIn_perm : (g.layersIn weight order).flatten.Perm (order.map weight) := by
  rw [layersIn_eq_map, ← List.map_flatten]
  exact flatten_nodesIn_perm.map weight

theorem mem_layersIn_iff {k : Nat} {layer : List α} (h : (g.layersIn weight order)[k]? = some layer)
    {a : α} : a ∈ layer ↔ ∃ v ∈ order, (g.layersOf order).get v = k ∧ weight v = a := by
  rw [layersIn_eq_map, List.getElem?_map, Option.map_eq_some_iff] at h
  obtain ⟨nodes, hnodes, rfl⟩ := h
  simp [mem_nodesIn_iff hnodes, and_assoc]

end

end FormulaEngine.Digraph
