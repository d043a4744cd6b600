import FormulaEngine.Proofs.Graph.Iteration
import FormulaEngine.Proofs.Graph.Layering
import Mathlib.Data.Fintype.Card

/-!
# Nodes on cycles

What a failed search names lies on a cycle. The order of a topological sort has each edge lead
further back or to a node that leads back to its beginning, so an edge that leads further ahead
closes a cycle, and its beginning is the node that the check names. The nodes on cycles through a
node are found by closing the node under the edges; that takes no more rounds than there are nodes.
-/

namespace FormulaEngine.Digraph

variable {n : Nat} {g : Digraph n} {u v w : Fin n}

/-! ### The node that a topological sort names -/

theorem topologicalOrder_eq_error_iff : g.topologicalOrder = .error v ↔
    g.finishOrder = .error v ∨
      ∃ order, g.finishOrder = .ok order ∧ g.checkOrder [] order = .error v := by
  unfold topologicalOrder
  cases g.finishOrder with
  | error w => simp [bind, Except.bind]
  | ok order => cases hcheck : g.checkOrder [] order <;> simp [bind, Except.bind, hcheck]

/-- An edge from a node further back in the order closes a cycle. -/
theorem reaches_self_of_leadsBack {before after : List (Fin n)}
    (hnodup : (before ++ u :: after).Nodup)
    (hback : g.LeadsBack (fun u v => v ≠ u ∧ g.Reaches v u) (before ++ u :: after))
    (hw : w ∈ after) (hwu : g.Edge w u) : g.Reaches w w := by
  obtain ⟨between, rest, rfl⟩ := List.append_of_mem hw
  have hsplit : before ++ u :: (between ++ w :: rest) = (before ++ u :: between) ++ w :: rest := by
    simp
  rw [hsplit] at hnodup hback
  have hahead : u ∈ before ++ u :: between := List.mem_append_right _ List.mem_cons_self
  have hnot : u ∉ rest := fun hu =>
    (List.nodup_append.mp hnodup).2.2 u hahead u (List.mem_cons_of_mem _ hu) rfl
  exact .step hwu (((hback.of_append.1 u hwu).resolve_left hnot).2)

theorem reaches_self_of_checkOrder {order : List (Fin n)} (hnodup : order.Nodup)
    (hall : ∀ v, v ∈ order) (hback : g.LeadsBack (fun u v => v ≠ u ∧ g.Reaches v u) order)
    (h : g.checkOrder [] order = .error v) : g.Reaches v v := by
  have hnodup' : ([] ++ order).Nodup := hnodup
  rcases checkOrder_cases (g := g) hnodup' (fun _ => Iff.rfl) with
    ⟨hok, -⟩ | ⟨before, u, after, w, rfl, hwu, hw, hne, herror⟩
  · exact absurd (hok.symm.trans h) (by simp)
  obtain rfl : w = v := Except.error.inj (herror.symm.trans h)
  refine reaches_self_of_leadsBack hnodup hback ?_ hwu
  rcases List.mem_append.mp (hall w) with hmem | hmem
  · exact absurd hmem hw
  · exact (List.mem_cons.mp hmem).resolve_left hne

theorem reaches_self_of_topologicalOrder (h : g.topologicalOrder = .error v) : g.Reaches v v := by
  rcases topologicalOrder_eq_error_iff.mp h with herror | ⟨order, horder, hcheck⟩
  · rcases g.finishOrder_cases with ⟨w, hw, hloop⟩ | ⟨order, horder, -⟩
    · obtain rfl : w = v := Except.error.inj (hw.symm.trans herror)
      exact .edge hloop
    · exact absurd (horder.symm.trans herror) (by simp)
  · rcases g.finishOrder_cases with ⟨w, hw, -⟩ | ⟨found, hfound, hnodup, hall, hback⟩
    · exact absurd (hw.symm.trans horder) (by simp)
    · obtain rfl : found = order := Except.ok.inj (hfound.symm.trans horder)
      exact reaches_self_of_checkOrder hnodup hall hback hcheck

theorem exists_topologicalOrder_eq_error (h : ¬g.Acyclic) :
    ∃ v, g.topologicalOrder = .error v ∧ g.Reaches v v := by
  cases hresult : g.topologicalOrder with
  | ok order => exact absurd (exists_topologicalOrder_iff.mp ⟨order, hresult⟩) h
  | error v => exact ⟨v, rfl, reaches_self_of_topologicalOrder hresult⟩

theorem layers_eq_error_iff {α : Type} [LE α] [DecidableLE α] {weight : Fin n → α} :
    g.layers weight = .error v ↔ g.topologicalOrder = .error v := by
  unfold layers
  cases g.topologicalOrder <;> simp [bind, Except.bind]

/-- A graph with a cycle has no layers, and the node that is named instead lies on a cycle. The
first phase names one with a loop, as the loop over a stack does, and the second phase the second
node that a search against the edges comes to. -/
theorem layers_name_node_on_cycle {α : Type} [LE α] [DecidableLE α] (g : Digraph n)
    (weight : Fin n → α) (h : ¬g.Acyclic) :
    ∃ v, g.layers weight = .error v ∧ g.Reaches v v ∧
      (g.loopOrder = .error v ∨
        ∃ order, g.loopOrder = .ok order ∧ g.checkOrder [] order = .error v) := by
  obtain ⟨v, hresult, hcycle⟩ := exists_topologicalOrder_eq_error h
  refine ⟨v, layers_eq_error_iff.mpr hresult, hcycle, ?_⟩
  rw [← finishOrder_eq_loopOrder]
  exact topologicalOrder_eq_error_iff.mp hresult

/-- Nothing leads back to the first node, and the last leads nowhere; the two between them are on a
cycle. -/
def detour : Digraph 4 := ⟨[(0, 1), (0, 1), (1, 2), (2, 1), (2, 3)]⟩

theorem exists_node_on_cycle_of_detour : ¬detour.Acyclic ∧
    ∃ v, detour.layers Fin.val = .error v ∧ detour.Reaches v v ∧
      (detour.loopOrder = .error v ∨
        ∃ order, detour.loopOrder = .ok order ∧ detour.checkOrder [] order = .error v) := by
  have hout : detour.Edge 1 2 := by decide
  have hback : detour.Edge 2 1 := by decide
  have hcycle : ¬detour.Acyclic := fun h => h 1 (.step hout (.edge hback))
  exact ⟨hcycle, layers_name_node_on_cycle detour Fin.val hcycle⟩

/-! ### The nodes on cycles through a node -/

theorem mem_expand_iff {nodes : List (Fin n)} :
    v ∈ g.expand nodes ↔ v ∈ nodes ∨ ∃ u ∈ nodes, g.Edge u v := by
  simp only [expand, List.mem_filter, List.mem_finRange, true_and, Bool.or_eq_true,
    List.contains_iff_mem, List.any_eq_true, mem_incoming_iff]
  simp only [and_comm]

/-- The nodes that are reached from a node within some rounds. -/
def within (g : Digraph n) (u : Fin n) (rounds : Nat) : List (Fin n) := rounds.repeat g.expand [u]

theorem eq_or_reaches_of_mem_within {k : Nat} (h : v ∈ g.within u k) : v = u ∨ g.Reaches u v := by
  induction k generalizing v with
  | zero => exact .inl (List.mem_singleton.mp h)
  | succ k ih =>
    rcases mem_expand_iff.mp h with hmem | ⟨w, hw, hwv⟩
    · exact ih hmem
    · exact .inr (hwv.reaches_of_eq_or_reaches ((ih hw).imp_left Eq.symm))

theorem within_subset {j k : Nat} (h : j ≤ k) : g.within u j ⊆ g.within u k := by
  induction h with
  | refl => exact List.Subset.refl _
  | step _ ih => exact fun v hv => mem_expand_iff.mpr (.inl (ih hv))

def Closed (g : Digraph n) (nodes : List (Fin n)) : Prop :=
  ∀ u ∈ nodes, ∀ v, g.Edge u v → v ∈ nodes

theorem Reaches.mem_of_closed {nodes : List (Fin n)} (hclosed : g.Closed nodes)
    (h : g.Reaches u v) (hu : u ∈ nodes) : v ∈ nodes := by
  induction h with
  | edge huv => exact hclosed _ hu _ huv
  | step huv _ ih => exact ih (hclosed _ hu _ huv)

/-- As long as the nodes are not closed under the edges, each round finds a new one. -/
theorem exists_closed_or_card_lt (k : Nat) :
    (∃ j ≤ k, g.Closed (g.within u j)) ∨ k < (g.within u k).toFinset.card := by
  induction k with
  | zero => exact .inr (by simp [within, Nat.repeat])
  | succ k ih =>
    rcases ih with ⟨j, hj, hclosed⟩ | hcard
    · exact .inl ⟨j, Nat.le_succ_of_le hj, hclosed⟩
    by_cases hclosed : g.Closed (g.within u k)
    · exact .inl ⟨k, Nat.le_succ k, hclosed⟩
    refine .inr (Nat.lt_of_le_of_lt hcard (Finset.card_lt_card ?_))
    unfold Closed at hclosed
    push Not at hclosed
    obtain ⟨v, hv, w, hvw, hw⟩ := hclosed
    rw [Finset.ssubset_iff_of_subset]
    · exact ⟨w, List.mem_toFinset.mpr (mem_expand_iff.mpr (.inr ⟨v, hv, hvw⟩)),
        fun h => hw (List.mem_toFinset.mp h)⟩
    · intro x hx
      exact List.mem_toFinset.mpr (within_subset (Nat.le_succ k) (List.mem_toFinset.mp hx))

theorem mem_reachable_iff : v ∈ g.reachable u ↔ v = u ∨ g.Reaches u v := by
  constructor
  · exact eq_or_reaches_of_mem_within
  intro h
  -- There are not enough nodes for a new one in every round.
  have hclosed : ∃ j ≤ n, g.Closed (g.within u j) := by
    refine (exists_closed_or_card_lt n).resolve_right (Nat.not_lt.mpr ?_)
    exact (Finset.card_le_univ _).trans (Fintype.card_fin n).le
  obtain ⟨j, hj, hclosed⟩ := hclosed
  have hu : u ∈ g.within u j := within_subset (Nat.zero_le j) (List.mem_singleton_self u)
  have hv : v ∈ g.within u j := by
    rcases h with rfl | h
    · exact hu
    · exact h.mem_of_closed hclosed hu
  exact within_subset hj hv

theorem edge_flip_iff : g.flip.Edge u v ↔ g.Edge v u := by
  simp [flip, Edge, and_comm]

theorem Reaches.flip (h : g.Reaches u v) : g.flip.Reaches v u := by
  induction h with
  | edge h => exact .edge (edge_flip_iff.mpr h)
  | step h _ ih => exact ih.trans (.edge (edge_flip_iff.mpr h))

theorem reaches_flip_iff : g.flip.Reaches u v ↔ g.Reaches v u := by
  refine ⟨fun h => ?_, Reaches.flip⟩
  induction h with
  | edge h => exact .edge (edge_flip_iff.mp h)
  | step h _ ih => exact ih.trans (.edge (edge_flip_iff.mp h))

/-- A component is made of the node and of the nodes that are on cycles with it. -/
theorem mem_component_iff :
    v ∈ g.component u ↔ v = u ∨ (g.Reaches u v ∧ g.Reaches v u) := by
  simp only [component, List.mem_filter, List.mem_finRange, true_and, Bool.and_eq_true,
    List.contains_iff_mem, mem_reachable_iff, reaches_flip_iff, or_and_left]

end FormulaEngine.Digraph
