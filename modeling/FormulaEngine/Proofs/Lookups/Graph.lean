import FormulaEngine.Compilation
import FormulaEngine.Proofs.Graph.Layering
import FormulaEngine.Proofs.Lookups.Basic

/-!
# Look-ups in a graph

Layers are filled one node after another: the layers of the nodes before it are looked up in a
table, its own is written there, and the node is put into the list of that layer. The table has a
place for every node, and by the time of the look-up there is a list for the layer. A cycle is told
of with the declarations of its nodes, and each node has one.
-/

namespace FormulaEngine

namespace Lookups

variable {ε α : Type} {n : Nat}

/-- How far the layers of a graph have been filled. -/
structure Layering (α : Type) where
  layerOf : List Nat
  layers : List (List α)

/-- Puts an entry into a layer. Missing layers up to that one are added first. -/
def push (layers : List (List α)) (k : Nat) (a : α) : Except (Halt ε) (List (List α)) := do
  let layers := layers.rightpad (k + 1) []
  let layer ← look (.layer k) layers[k]?
  .ok (layers.set k (layer ++ [a]))

def place (g : Digraph n) (weight? : Fin n → Option α) (l : Layering α) (v : Fin n) :
    Except (Halt ε) (Layering α) := do
  let below ← (g.incoming v).mapM fun (u : Fin n) => do
    let k ← look (.layerOf u) l.layerOf[u.val]?
    .ok (k + 1)
  let k := below.foldl max 0
  -- The entry that is overwritten has to be there as well.
  let _ ← look (.layerOf v) l.layerOf[v.val]?
  let a ← look (.weight v) (weight? v)
  let layers ← push l.layers k a
  .ok ⟨l.layerOf.set v.val k, layers⟩

def layers [LE α] [DecidableLE α] (g : Digraph n) (weight? : Fin n → Option α) :
    Except (Halt (Fin n)) (List (List α)) := do
  let order ← certain g.topologicalOrder
  let l ← order.foldlM (place g weight?) ⟨List.replicate n 0, []⟩
  .ok (l.layers.map fun layer => layer.mergeSort fun a b => decide (a ≤ b))

def layersOf (g : DependencyGraph) : Except (Halt CompileError) (List (List DeclId)) :=
  (layers g.digraph fun v => g.vertices[v.val]?).mapError fun
    | .failed node => .failed (.internal (.cyclicGraph node))
    | .missed place => .missed place

def idAt (g : DependencyGraph) (v : Fin g.declarations.length) : Except (Halt ε) DeclId :=
  look (.weight v) g.vertices[v.val]?

def checkAcyclic (p : Program) (g : DependencyGraph) : Except (Halt CompileError) Unit :=
  match g.digraph.backEdge? with
  | none => .ok ()
  | some edge => do
    let id ← idAt g edge.2
    let members ← (g.digraph.component edge.2).mapM (idAt g)
    let names := (DependencyGraph.startingAt id members).map p.qualifiedName
    .error (.failed (.cyclicDependency (p.qualifiedName id) (names ++ [p.qualifiedName id])))

/-! ### Rows -/

section

variable {row : Nat → List α} {m k : Nat}

theorem rightpad_map_range (h : ∀ i, m ≤ i → row i = []) :
    ((List.range m).map row).rightpad k [] = (List.range (max m k)).map row := by
  have hempty : (List.range' m (k - m)).map row = List.replicate (k - m) [] := by
    refine List.eq_replicate_iff.mpr ⟨by simp, fun l hl => ?_⟩
    obtain ⟨i, hi, rfl⟩ := List.mem_map.mp hl
    exact h i (List.mem_range'_1.mp hi).1
  have hrange : List.range (max m k) = List.range m ++ List.range' m (k - m) := by
    have hmax : max m k = m + (k - m) := by omega
    have hsplit := @List.range'_append_1 0 m (k - m)
    rw [Nat.zero_add] at hsplit
    rw [hmax, List.range_eq_range', List.range_eq_range', hsplit]
  rw [hrange, List.map_append, hempty, List.rightpad, List.length_map, List.length_range]

theorem push_map_range (h : ∀ i, m ≤ i → row i = []) (a : α) :
    push ((List.range m).map row) k a =
      (.ok ((List.range (max m (k + 1))).map (Function.update row k (row k ++ [a]))) :
        Except (Halt ε) _) := by
  have hk : k < max m (k + 1) := lt_of_lt_of_le k.lt_succ_self (Nat.le_max_right _ _)
  have hlook : (look (.layer k) ((List.range (max m (k + 1))).map row)[k]? :
      Except (Halt ε) _) = .ok (row k) := look_of_eq_some (by simp [hk])
  simp only [push, rightpad_map_range h, hlook, ok_bind]
  refine congrArg Except.ok (List.ext_getElem (by simp) fun i hi _ => ?_)
  by_cases hik : i = k
  · subst hik
    simp
  · simp [hik, Ne.symm hik]

end

/-! ### Layers -/

section

variable {g : Digraph n} {weight : Fin n → α} {weight? : Fin n → Option α}
  {done rest : List (Fin n)} {v : Fin n}

def rowOf (g : Digraph n) (weight : Fin n → α) (done : List (Fin n)) (k : Nat) : List α :=
  (done.filter fun v => (g.layersOf done).get v == k).map weight

/-- The layers of the nodes that have been placed. -/
def Layering.of (g : Digraph n) (weight : Fin n → α) (done : List (Fin n)) : Layering α :=
  ⟨(g.layersOf done).toList,
    (List.range (Digraph.layerAbove (g.layersOf done) done)).map (rowOf g weight done)⟩

theorem rowOf_eq_nil {k : Nat} (h : Digraph.layerAbove (g.layersOf done) done ≤ k) :
    rowOf g weight done k = [] := by
  refine List.map_eq_nil_iff.mpr (List.filter_eq_nil_iff.mpr fun u hu hlayer => ?_)
  have hlt : (g.layersOf done).get u < k := lt_of_lt_of_le (Digraph.lt_layerAbove hu) h
  exact absurd (beq_iff_eq.mp hlayer) (Nat.ne_of_lt hlt)

/-- The layers after one more node, which goes to the end of its row. -/
theorem layering_append (hv : v ∉ done) {k : Nat}
    (hk : k = Digraph.layerAbove (g.layersOf done) (g.incoming v)) :
    Layering.of g weight (done ++ [v]) =
      ⟨(g.layersOf done).toList.set v.val k,
        (List.range (max (Digraph.layerAbove (g.layersOf done) done) (k + 1))).map
          (Function.update (rowOf g weight done) k (rowOf g weight done k ++ [weight v]))⟩ := by
  have hassign : g.layersOf (done ++ [v]) = g.assignLayer (g.layersOf done) v := by
    rw [Digraph.layersOf_eq_foldl, List.foldl_append]
    rfl
  have hself : (g.layersOf (done ++ [v])).get v = k := by
    rw [hassign, Digraph.assignLayer_self, hk]
  have hothers : ∀ u ∈ done, (g.layersOf (done ++ [v])).get u = (g.layersOf done).get u := by
    intro u hu
    rw [hassign, Digraph.assignLayer_of_ne _ (ne_of_mem_of_not_mem hu hv)]
  have habove : Digraph.layerAbove (g.layersOf (done ++ [v])) (done ++ [v]) =
      max (Digraph.layerAbove (g.layersOf done) done) (k + 1) := by
    rw [Digraph.layerAbove_append_singleton, hself, Digraph.layerAbove_congr hothers]
  have hrow : rowOf g weight (done ++ [v]) =
      Function.update (rowOf g weight done) k (rowOf g weight done k ++ [weight v]) := by
    funext i
    have hdone : done.filter (fun u => (g.layersOf (done ++ [v])).get u == i) =
        done.filter fun u => (g.layersOf done).get u == i :=
      List.filter_congr fun u hu => by rw [hothers u hu]
    unfold rowOf
    rw [List.filter_append, List.map_append, hdone]
    by_cases hik : i = k
    · subst hik
      simp [hself]
    · simp [hself, hik, Ne.symm hik]
  unfold Layering.of
  rw [habove, hrow, hassign, hk]
  rfl

theorem place_eq (hweight : ∀ v, weight? v = some (weight v)) (hv : v ∉ done) :
    place g weight? (.of g weight done) v =
      (.ok (.of g weight (done ++ [v])) : Except (Halt ε) _) := by
  have hlayer : ∀ u : Fin n, (look (.layerOf u) (Layering.of g weight done).layerOf[u.val]? :
      Except (Halt ε) _) = .ok ((g.layersOf done).get u) := fun u => look_of_eq_some (by
    simp [Layering.of, Vector.get])
  have hbelow : (g.incoming v).mapM (fun u => (.ok ((g.layersOf done).get u + 1) :
      Except (Halt ε) _)) = .ok ((g.incoming v).map fun u => (g.layersOf done).get u + 1) :=
    mapM_eq_ok fun _ _ => rfl
  have hpush : push (Layering.of g weight done).layers
      (Digraph.layerAbove (g.layersOf done) (g.incoming v)) (weight v) = (.ok _ :
        Except (Halt ε) _) :=
    push_map_range (fun _ => rowOf_eq_nil) (weight v)
  simp only [place, hlayer, look_of_eq_some (hweight v), ok_bind, hbelow]
  change push (Layering.of g weight done).layers
    (Digraph.layerAbove (g.layersOf done) (g.incoming v)) (weight v) >>= _ = _
  rw [hpush, ok_bind, layering_append hv rfl]
  rfl

/-- Every look-up succeeds as long as no node is placed twice. -/
theorem foldlM_place (hweight : ∀ v, weight? v = some (weight v)) (h : (done ++ rest).Nodup) :
    rest.foldlM (place g weight?) (.of g weight done) =
      (.ok (.of g weight (done ++ rest)) : Except (Halt ε) _) := by
  induction rest generalizing done with
  | nil =>
    rw [List.append_nil]
    rfl
  | cons v rest ih =>
    have hv : v ∉ done := fun hv =>
      (List.nodup_append.mp h).2.2 v hv v List.mem_cons_self rfl
    have hsplit : done ++ v :: rest = (done ++ [v]) ++ rest := by simp
    rw [List.foldlM_cons, place_eq hweight hv, ok_bind, hsplit]
    rw [hsplit] at h
    exact ih h

theorem layers_eq [LE α] [DecidableLE α] (hweight : ∀ v, weight? v = some (weight v)) :
    layers g weight? = certain (g.layers weight) := by
  unfold layers Digraph.layers
  cases horder : g.topologicalOrder with
  | error u => rfl
  | ok order =>
    have htopological := Digraph.isTopological_of_topologicalOrder horder
    have hrun : order.foldlM (place g weight?) (.of g weight []) =
        (.ok (.of g weight ([] ++ order)) : Except (Halt (Fin n)) _) :=
      foldlM_place hweight htopological.nodup
    change (order.foldlM (place g weight?) (.of g weight []) >>= fun l => _) = _
    rw [hrun, ok_bind, List.nil_append]
    exact congrArg Except.ok (List.map_map.trans rfl)

end

/-! ### Declarations of nodes -/

variable {g : DependencyGraph}

theorem getElem?_vertices (v : Fin g.declarations.length) :
    g.vertices[v.val]? = some (g.idOf v) := by
  simp [DependencyGraph.vertices, DependencyGraph.idOf]

theorem layersOf_eq (g : DependencyGraph) : layersOf g = certain g.layers := by
  unfold layersOf DependencyGraph.layers
  rw [layers_eq getElem?_vertices]
  cases g.digraph.layers g.idOf <;> rfl

theorem idAt_eq (v : Fin g.declarations.length) :
    idAt g v = (.ok (g.idOf v) : Except (Halt ε) _) :=
  look_of_eq_some (getElem?_vertices v)

theorem checkAcyclic_eq (p : Program) (g : DependencyGraph) :
    checkAcyclic p g = certain (Compilation.checkAcyclic p g) := by
  unfold checkAcyclic Compilation.checkAcyclic DependencyGraph.cycleError?
  cases g.digraph.backEdge? with
  | none => rfl
  | some edge =>
    simp only [idAt_eq, mapM_eq_ok fun v _ => idAt_eq v, ok_bind]
    rfl

end Lookups

end FormulaEngine
