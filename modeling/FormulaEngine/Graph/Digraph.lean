/-!
# Directed graphs

A graph on the nodes `0, …, n - 1`. Parallel edges and loops are allowed, and the order in which
edges were added counts: the neighbours of a node are listed with the newest edge first.
-/

namespace FormulaEngine

/-- A directed graph; edges are in the order in which they were added. -/
structure Digraph (n : Nat) where
  edges : List (Fin n × Fin n)
  deriving DecidableEq, Repr

namespace Digraph

variable {n : Nat}

/-- The ends of the edges from a node, the newest edge first. -/
def outgoing (g : Digraph n) (u : Fin n) : List (Fin n) :=
  ((g.edges.filter (·.1 == u)).map (·.2)).reverse

/-- The beginnings of the edges to a node, the newest edge first. -/
def incoming (g : Digraph n) (v : Fin n) : List (Fin n) :=
  ((g.edges.filter (·.2 == v)).map (·.1)).reverse

def flip (g : Digraph n) : Digraph n := ⟨g.edges.map fun e => (e.2, e.1)⟩

def Edge (g : Digraph n) (u v : Fin n) : Prop := (u, v) ∈ g.edges

instance (g : Digraph n) (u v : Fin n) : Decidable (g.Edge u v) :=
  inferInstanceAs (Decidable ((u, v) ∈ g.edges))

/-- There is a path with at least one edge. -/
inductive Reaches (g : Digraph n) : Fin n → Fin n → Prop where
  | edge {u v} (h : g.Edge u v) : Reaches g u v
  | step {u v w} (h : g.Edge u v) (r : Reaches g v w) : Reaches g u w

def Acyclic (g : Digraph n) : Prop := ∀ u, ¬g.Reaches u u

theorem mem_outgoing_iff {g : Digraph n} {u v : Fin n} : v ∈ g.outgoing u ↔ g.Edge u v := by
  simp [outgoing, Edge]

theorem mem_incoming_iff {g : Digraph n} {u v : Fin n} : u ∈ g.incoming v ↔ g.Edge u v := by
  simp [incoming, Edge]

/-- The nodes of a list, and those one edge further. -/
def expand (g : Digraph n) (nodes : List (Fin n)) : List (Fin n) :=
  (List.finRange n).filter fun v =>
    nodes.contains v || (g.incoming v).any fun u => nodes.contains u

def reachable (g : Digraph n) (u : Fin n) : List (Fin n) := n.repeat g.expand [u]

end Digraph

end FormulaEngine
