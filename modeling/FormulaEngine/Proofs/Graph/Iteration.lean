import FormulaEngine.Proofs.Graph.DepthFirst
import Mathlib.Data.Finset.Card

/-!
# The search as a loop

A depth-first search needs no recursion if the nodes still to be looked at are kept on a stack. A
node stays there below its neighbours, so that it comes up again once all behind them has been left.
The loop enters and leaves nodes in the same order as the recursion, and fails where it does.
-/

namespace FormulaEngine.Digraph

variable {n : Nat} {g : Digraph n} {s t : Visits n} {u v : Fin n} {stack : List (Fin n)}

theorem card_unentered_lt {entered : List (Fin n)} (hu : u ∉ entered) :
    (Finset.univ.filter fun v => v ∉ u :: entered).card <
      (Finset.univ.filter fun v => v ∉ entered).card := by
  apply Finset.card_lt_card
  rw [Finset.ssubset_iff_of_subset]
  · exact ⟨u, by simpa using hu, by simp⟩
  · intro v hv
    simp only [Finset.mem_filter, Finset.mem_univ, true_and, List.mem_cons, not_or] at hv ⊢
    exact hv.2

/-- Takes the node on top of a stack. A new node is entered, with its new neighbours put above it,
the oldest edge uppermost; a node that was entered is left, unless it was left before. -/
def finishLoop (g : Digraph n) : List (Fin n) → Visits n → Except (Fin n) (Visits n)
  | [], s => .ok s
  | u :: stack, s =>
    if u ∈ s.entered then
      if u ∈ s.left then g.finishLoop stack s else g.finishLoop stack (s.leave u)
    else if u ∈ g.outgoing u then .error u
    else
      g.finishLoop (((g.outgoing u).filter fun v => v ∉ u :: s.entered).reverse ++ u :: stack)
        (s.enter u)
termination_by stack s => ((Finset.univ.filter fun v => v ∉ s.entered).card, stack.length)
decreasing_by
  · exact Prod.Lex.right _ (Nat.lt_succ_self _)
  · exact Prod.Lex.right _ (Nat.lt_succ_self _)
  · exact Prod.Lex.left _ _ (card_unentered_lt ‹_›)

/-- The first phase of a topological sort, by the loop. -/
def loopOrder (g : Digraph n) : Except (Fin n) (List (Fin n)) := do
  let s ← (List.finRange n).foldlM (fun s u =>
    if u ∈ s.entered then .ok s else g.finishLoop [u] s) Visits.none
  .ok s.left

theorem finishLoop_of_left (hentered : u ∈ s.entered) (hleft : u ∈ s.left) :
    g.finishLoop (u :: stack) s = g.finishLoop stack s := by
  rw [finishLoop, if_pos hentered, if_pos hleft]

theorem finishLoop_of_open (hu : s.Open u) :
    g.finishLoop (u :: stack) s = g.finishLoop stack (s.leave u) := by
  rw [finishLoop, if_pos hu.1, if_neg hu.2]

/-- The nodes that another was entered with are taken from the stack one after another, unless they
have been left in the meantime. -/
theorem finishLoop_append {depth : Nat} {nodes : List (Fin n)}
    (hvisit : ∀ v ∈ nodes, ∀ t : Visits n,
      (t.Sound g fun u v => v ≠ u ∧ g.Reaches v u) → s.Extends t → v ∉ t.entered →
      Explores g (fun u v => v ≠ u ∧ g.Reaches v u) (fun v => g.Edge v v) t (fun t => v ∈ t.left)
          (g.finishFrom depth v t) ∧
        ∀ stack, g.finishLoop (v :: stack) t = g.finishFrom depth v t >>= g.finishLoop stack)
    (ht : t.Sound g fun u v => v ≠ u ∧ g.Reaches v u) (hst : s.Extends t) (stack : List (Fin n)) :
    g.finishLoop (nodes.filter (fun v => v ∉ s.entered) ++ stack) t =
      nodes.foldlM (fun t v => if v ∈ t.entered then .ok t else g.finishFrom depth v t) t >>=
        g.finishLoop stack := by
  induction nodes generalizing t with
  | nil => rfl
  | cons v rest ih =>
    have hrest := fun w hw => hvisit w (List.mem_cons_of_mem _ hw)
    rw [List.foldlM_cons]
    by_cases hv : v ∈ t.entered
    · rw [if_pos hv]
      by_cases hv' : v ∈ s.entered
      · rw [List.filter_cons_of_neg (by simpa using hv')]
        exact ih hrest ht hst
      · -- It was entered after it had been put on the stack, and all that was opened is closed.
        have hleft : v ∈ t.left := by
          by_contra hleft
          exact hv' ((hst.open_iff v).mp ⟨hv, hleft⟩).1
        rw [List.filter_cons_of_pos (by simpa using hv'), List.cons_append,
          finishLoop_of_left hv hleft]
        exact ih hrest ht hst
    · obtain ⟨hexplores, hloop⟩ := hvisit v List.mem_cons_self t ht hst hv
      have hv' : v ∉ s.entered := fun h => hv (hst.entered.subset h)
      rw [if_neg hv, List.filter_cons_of_pos (by simpa using hv'), List.cons_append, hloop]
      cases hfirst : g.finishFrom depth v t with
      | error w => rfl
      | ok t' =>
        rw [hfirst] at hexplores
        exact ih hrest hexplores.1 (hst.trans hexplores.2.1)

/-- From a node that is new the loop comes to what the recursion comes to, and goes on below it. -/
theorem finishLoop_cons {depth : Nat} (hs : s.Sound g fun u v => v ≠ u ∧ g.Reaches v u)
    (hu : u ∉ s.entered) (hdepth : n ≤ s.entered.length + depth)
    (hopen : ∀ v, s.Open v → g.Reaches v u) (stack : List (Fin n)) :
    g.finishLoop (u :: stack) s = g.finishFrom depth u s >>= g.finishLoop stack := by
  induction depth generalizing u s stack with
  | zero => exact absurd (Visits.length_entered_lt hs hu) (by omega)
  | succ depth ih =>
    rw [finishLoop, if_neg hu, finishFrom]
    by_cases hloop : u ∈ g.outgoing u
    · rw [if_pos hloop, if_pos hloop]
      rfl
    rw [if_neg hloop, if_neg hloop, ← List.filter_reverse]
    have hlength : ∀ t : Visits n, (s.enter u).Extends t → n ≤ t.entered.length + depth := by
      intro t hst
      have hle : s.entered.length + 1 ≤ t.entered.length := hst.entered.length_le
      omega
    have hfold := explores_neighbours hs hu (mt mem_outgoing_iff.mpr hloop) hopen
      fun v t ht hst hentered hopen' => explores_finishFrom ht hentered (hlength t hst) hopen'
    have hvisit : ∀ v ∈ (g.outgoing u).reverse, ∀ t : Visits n,
        (t.Sound g fun u v => v ≠ u ∧ g.Reaches v u) → (s.enter u).Extends t → v ∉ t.entered →
        Explores g (fun u v => v ≠ u ∧ g.Reaches v u) (fun v => g.Edge v v) t
            (fun t => v ∈ t.left) (g.finishFrom depth v t) ∧
          ∀ stack, g.finishLoop (v :: stack) t = g.finishFrom depth v t >>= g.finishLoop stack := by
      intro v hv t ht hst hentered
      have huv : g.Edge u v := mem_outgoing_iff.mp (List.mem_reverse.mp hv)
      have hopen' : ∀ w, t.Open w → g.Reaches w v := fun w hw =>
        huv.reaches_of_eq_or_reaches (eq_or_reaches_of_open hs hu hopen hst hw)
      exact ⟨explores_finishFrom ht hentered (hlength t hst) hopen',
        ih ht hentered (hlength t hst) hopen'⟩
    have happend := finishLoop_append hvisit (hs.enter hu) (.refl _) (u :: stack)
    refine happend.trans ?_
    cases hresult : (g.outgoing u).reverse.foldlM
        (fun t v => if v ∈ t.entered then .ok t else g.finishFrom depth v t) (s.enter u) with
    | error w => rfl
    | ok t =>
      rw [hresult] at hfold
      exact finishLoop_of_open ((hfold.2.1.open_iff u).mpr (Visits.open_enter_self hs hu))

theorem finishOrder_eq_loopOrder : g.finishOrder = g.loopOrder := by
  have hfold : ∀ nodes : List (Fin n), ∀ s : Visits n,
      s.Sound g (fun u v => v ≠ u ∧ g.Reaches v u) → (∀ w, ¬s.Open w) →
      nodes.foldlM (fun s u => if u ∈ s.entered then .ok s else g.finishFrom n u s) s =
        nodes.foldlM (fun s u => if u ∈ s.entered then .ok s else g.finishLoop [u] s) s := by
    intro nodes
    induction nodes with
    | nil => exact fun _ _ _ => rfl
    | cons u rest ih =>
      intro s hs hnone
      rw [List.foldlM_cons, List.foldlM_cons]
      by_cases hu : u ∈ s.entered
      · rw [if_pos hu, if_pos hu]
        exact ih s hs hnone
      · have hopen : ∀ w, s.Open w → g.Reaches w u := fun w hw => absurd hw (hnone w)
        have hexplores := explores_finishFrom hs hu (Nat.le_add_left n _) hopen
        rw [if_neg hu, if_neg hu, finishLoop_cons hs hu (Nat.le_add_left n _) hopen]
        cases hfirst : g.finishFrom n u s with
        | error w => rfl
        | ok t =>
          rw [hfirst] at hexplores
          have hend : (Except.ok t >>= g.finishLoop []) = (.ok t : Except (Fin n) (Visits n)) := by
            change g.finishLoop [] t = .ok t
            rw [finishLoop]
          rw [hend]
          exact ih t hexplores.1 fun w hw => hnone w ((hexplores.2.1.open_iff w).mp hw)
  unfold finishOrder loopOrder
  rw [hfold _ _ Visits.sound_none fun w hw => List.not_mem_nil hw.1]

end FormulaEngine.Digraph
