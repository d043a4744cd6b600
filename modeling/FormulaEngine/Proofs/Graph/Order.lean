import FormulaEngine.Graph.Digraph
import Mathlib.Data.Fintype.Card

/-!
# Topological orders

A list of all nodes is a topological order if every edge leads from a node to one further back in
it. Only graphs without cycles have one: along a path the places in the order go up.
-/

namespace FormulaEngine.Digraph

variable {n : Nat} {g : Digraph n} {u v w : Fin n}

theorem Reaches.trans (huv : g.Reaches u v) (hvw : g.Reaches v w) : g.Reaches u w := by
  induction huv with
  | edge h => exact .step h hvw
  | step h _ ih => exact .step h (ih hvw)

/-- The edges from the nodes of a list lead to nodes further back in it, up to exceptions. -/
def LeadsBack (g : Digraph n) (except : Fin n → Fin n → Prop) : List (Fin n) → Prop
  | [] => True
  | u :: rest => (∀ v, g.Edge u v → v ∈ rest ∨ except u v) ∧ LeadsBack g except rest

namespace LeadsBack

variable {except : Fin n → Fin n → Prop} {l : List (Fin n)}

theorem mono {other : Fin n → Fin n → Prop} (h : g.LeadsBack except l)
    (himp : ∀ u v, g.Edge u v → except u v → other u v) : g.LeadsBack other l := by
  induction l with
  | nil => trivial
  | cons u rest ih => exact ⟨fun v huv => (h.1 v huv).imp_right (himp u v huv), ih h.2⟩

theorem of_append {front : List (Fin n)} (h : g.LeadsBack except (front ++ l)) :
    g.LeadsBack except l := by
  induction front with
  | nil => exact h
  | cons _ _ ih => exact ih h.2

end LeadsBack

/-- If all edges to a node come from further ahead, all edges from it lead further back. -/
theorem leadsBack_of_forall_split {except : Fin n → Fin n → Prop} {front rest : List (Fin n)}
    (hnodup : (front ++ rest).Nodup) (hall : ∀ v, v ∈ front ++ rest)
    (hpred : ∀ before v after, front ++ rest = before ++ v :: after →
      ∀ u, g.Edge u v → u ∈ before) : g.LeadsBack except rest := by
  induction rest generalizing front with
  | nil => trivial
  | cons u rest ih =>
    have hu : u ∉ front := fun hu =>
      (List.nodup_append.mp hnodup).2.2 u hu u List.mem_cons_self rfl
    refine ⟨fun v huv => .inl ?_, ?_⟩
    · rcases List.mem_append.mp (hall v) with hv | hv
      · obtain ⟨before, after, rfl⟩ := List.append_of_mem hv
        have hmem := hpred before v (after ++ u :: rest) (by simp) u huv
        exact absurd (List.mem_append_left _ hmem) hu
      · refine (List.mem_cons.mp hv).resolve_left ?_
        rintro rfl
        exact hu (hpred front v rest rfl v huv)
    · have hsplit : front ++ u :: rest = (front ++ [u]) ++ rest := by simp
      rw [hsplit] at hnodup hall hpred
      exact ih hnodup hall hpred

/-- Every node stands in the list once, and every edge leads further back. -/
structure IsTopological (g : Digraph n) (order : List (Fin n)) : Prop where
  nodup : order.Nodup
  complete : ∀ v, v ∈ order
  forward : g.LeadsBack (fun _ _ => False) order

/-- What an edge from a list leads to is not the first node of it. -/
theorem LeadsBack.mem_tail {first : Fin n} {rest : List (Fin n)}
    (h : g.LeadsBack (fun _ _ => False) (first :: rest)) (hu : u ∈ first :: rest)
    (huv : g.Edge u v) : v ∈ rest := by
  induction rest generalizing first with
  | nil =>
    obtain rfl := List.mem_singleton.mp hu
    exact (h.1 v huv).resolve_right id
  | cons second rest ih =>
    rcases List.mem_cons.mp hu with rfl | hu
    · exact (h.1 v huv).resolve_right id
    · exact List.mem_cons_of_mem _ (ih h.2 hu)

namespace IsTopological

variable {order front rest : List (Fin n)}

theorem mem_front_of_edge (h : g.IsTopological (front ++ v :: rest)) (huv : g.Edge u v) :
    u ∈ front := by
  by_contra hu
  have hmem : u ∈ v :: rest := (List.mem_append.mp (h.complete u)).resolve_left hu
  have hv : v ∈ rest := h.forward.of_append.mem_tail hmem huv
  exact (List.nodup_cons.mp (h.nodup.sublist (List.sublist_append_right _ _))).1 hv

theorem idxOf_lt_of_edge (h : g.IsTopological order) (huv : g.Edge u v) :
    order.idxOf u < order.idxOf v := by
  obtain ⟨front, rest, rfl⟩ := List.append_of_mem (h.complete v)
  have hu : u ∈ front := h.mem_front_of_edge huv
  have hv : v ∉ front := fun hv =>
    (List.nodup_append.mp h.nodup).2.2 v hv v List.mem_cons_self rfl
  calc (front ++ v :: rest).idxOf u = front.idxOf u := List.idxOf_append_of_mem hu
    _ < front.length := List.idxOf_lt_length_iff.mpr hu
    _ ≤ (front ++ v :: rest).idxOf v := by
      rw [List.idxOf_append_of_notMem hv]
      exact Nat.le_add_right _ _

theorem idxOf_lt_of_reaches (h : g.IsTopological order) (huv : g.Reaches u v) :
    order.idxOf u < order.idxOf v := by
  induction huv with
  | edge huv => exact h.idxOf_lt_of_edge huv
  | step huv _ ih => exact (h.idxOf_lt_of_edge huv).trans ih

theorem acyclic (h : g.IsTopological order) : g.Acyclic := fun _ hu =>
  Nat.lt_irrefl _ (h.idxOf_lt_of_reaches hu)

end IsTopological

end FormulaEngine.Digraph
