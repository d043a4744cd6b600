import FormulaEngine.Graph.Search

/-!
# Layers

Every node stands in the first layer that those before it allow: layer 0 if no edge leads to it, and
otherwise one above the highest layer an edge to it comes from. So there are as many layers as nodes
on a longest path.
-/

namespace FormulaEngine.Digraph

variable {n : Nat} {α : Type}

/-- The least layer above all those of the given nodes. -/
def layerAbove (layerOf : Vector Nat n) (nodes : List (Fin n)) : Nat :=
  (nodes.map fun u => layerOf[u] + 1).foldl max 0

/-- The layer of each node, taken in an order in which edges lead forward. -/
def layersOf (g : Digraph n) (order : List (Fin n)) : Vector Nat n :=
  order.foldl (fun layerOf v => layerOf.set v.val (layerAbove layerOf (g.incoming v)) v.isLt)
    (Vector.replicate n 0)

/-- The weights of the nodes of an order by layer, each layer in ascending order. -/
def layersIn [LE α] [DecidableLE α] (g : Digraph n) (weight : Fin n → α)
    (order : List (Fin n)) : List (List α) :=
  let layerOf := g.layersOf order
  (List.range (layerAbove layerOf order)).map fun k =>
    ((order.filter fun v => layerOf[v] == k).map weight).mergeSort fun a b => decide (a ≤ b)

/-- The weights of the nodes by layer, or else a node on a cycle. -/
def layers [LE α] [DecidableLE α] (g : Digraph n) (weight : Fin n → α) :
    Except (Fin n) (List (List α)) := do
  let order ← g.topologicalOrder
  .ok (g.layersIn weight order)

end FormulaEngine.Digraph
