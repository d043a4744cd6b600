import FormulaEngine.Graph.Digraph

/-!
# Depth-first search

A search enters a node, follows its edges, and leaves the node once everything behind them has been
left. It never enters a node twice. The depth of a search is bounded by the number of nodes.
-/

namespace FormulaEngine.Digraph

variable {n : Nat}

/-- How far a search has come. Nodes that were left are the latest first. -/
structure Visits (n : Nat) where
  entered : List (Fin n)
  left : List (Fin n)
  deriving DecidableEq, Repr

namespace Visits

def none : Visits n := ⟨[], []⟩

def enter (s : Visits n) (u : Fin n) : Visits n := { s with entered := u :: s.entered }

def leave (s : Visits n) (u : Fin n) : Visits n := { s with left := u :: s.left }

end Visits

/-! ### Back edges -/

/-- Searches on from a node, the newest edges first, up to an edge to a node that was entered and
not left. -/
def searchFrom (g : Digraph n) (depth : Nat) (u : Fin n) (s : Visits n) :
    Except (Fin n × Fin n) (Visits n) :=
  match depth with
  | 0 => .ok s
  | depth + 1 => do
    let s ← (g.outgoing u).foldlM (fun s v =>
      if v ∉ s.entered then g.searchFrom depth v s
      else if v ∉ s.left then .error (u, v)
      else .ok s) (s.enter u)
    .ok (s.leave u)

def search (g : Digraph n) : Except (Fin n × Fin n) (Visits n) :=
  (List.finRange n).foldlM (fun s u => if u ∈ s.entered then .ok s else g.searchFrom n u s)
    Visits.none

/-- The first edge that a search finds to close a cycle. -/
def backEdge? (g : Digraph n) : Option (Fin n × Fin n) :=
  match g.search with
  | .ok _ => none
  | .error edge => some edge

/-- The strongly connected component of a node. -/
def component (g : Digraph n) (u : Fin n) : List (Fin n) :=
  (List.finRange n).filter fun v => (g.reachable u).contains v && (g.flip.reachable u).contains v

/-! ### Topological order -/

/-- Searches on from a node, the oldest edges first, up to a node with a loop. -/
def finishFrom (g : Digraph n) (depth : Nat) (u : Fin n) (s : Visits n) :
    Except (Fin n) (Visits n) :=
  match depth with
  | 0 => .ok s
  | depth + 1 => do
    if u ∈ g.outgoing u then .error u
    else
      let s ← (g.outgoing u).reverse.foldlM (fun s v =>
        if v ∈ s.entered then .ok s else g.finishFrom depth v s) (s.enter u)
      .ok (s.leave u)

/-- The nodes in the opposite of the order in which a search leaves them, unless one has a loop. -/
def finishOrder (g : Digraph n) : Except (Fin n) (List (Fin n)) := do
  let s ← (List.finRange n).foldlM (fun s u =>
    if u ∈ s.entered then .ok s else g.finishFrom n u s) Visits.none
  .ok s.left

/-- One move of a search against the edges: takes the first unmarked node off the stack and puts
its unmarked neighbours on top, the oldest edge uppermost. -/
def nextAgainst (g : Digraph n) (marked : List (Fin n)) :
    List (Fin n) → Option (Fin n × List (Fin n))
  | [] => none
  | u :: stack =>
    if u ∈ marked then g.nextAgainst marked stack
    else some (u, ((g.incoming u).filter (fun v => v ∉ u :: marked)).reverse ++ stack)

/-- Checks that no node of an order has an edge from a later one. A search against the edges that
starts at each node in turn must find nothing new but the node; what it finds second is on a
cycle. -/
def checkOrder (g : Digraph n) (marked : List (Fin n)) : List (Fin n) → Except (Fin n) Unit
  | [] => .ok ()
  | u :: rest =>
    match g.nextAgainst marked [u] with
    | none => g.checkOrder marked rest
    | some (v, stack) =>
      match g.nextAgainst (v :: marked) stack with
      | none => g.checkOrder (v :: marked) rest
      | some (w, _) => .error w

/-- The nodes, each behind those that have an edge to it, or else a node on a cycle. -/
def topologicalOrder (g : Digraph n) : Except (Fin n) (List (Fin n)) := do
  let order ← g.finishOrder
  g.checkOrder [] order
  .ok order

end FormulaEngine.Digraph
