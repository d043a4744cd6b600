import FormulaEngine.Graph.Search
import FormulaEngine.Proofs.Graph.Order

/-!
# What a depth-first search finds

Both searches keep one invariant: an edge from a node that was left leads to a node left before it,
up to exceptions. For the search of back edges there is none, so a search that ends has found a
topological order. For the search of an order the exceptions are nodes still open, and those lie on
a cycle with the edge.
-/

namespace FormulaEngine.Digraph

variable {n : Nat} {g : Digraph n} {except : Fin n → Fin n → Prop} {s t : Visits n} {u v : Fin n}

namespace Visits

def Open (s : Visits n) (v : Fin n) : Prop := v ∈ s.entered ∧ v ∉ s.left

/-- What a search keeps true. -/
structure Sound (g : Digraph n) (except : Fin n → Fin n → Prop) (s : Visits n) : Prop where
  entered_nodup : s.entered.Nodup
  left_nodup : s.left.Nodup
  entered_of_left : ∀ v ∈ s.left, v ∈ s.entered
  leadsBack : g.LeadsBack except s.left

/-- A search has come further, and has closed what it opened in between. -/
structure Extends (s t : Visits n) : Prop where
  entered : s.entered <:+ t.entered
  left : s.left <:+ t.left
  open_iff : ∀ v, t.Open v ↔ s.Open v

namespace Extends

theorem refl (s : Visits n) : s.Extends s :=
  ⟨List.suffix_refl _, List.suffix_refl _, fun _ => Iff.rfl⟩

theorem trans {r : Visits n} (hrs : r.Extends s) (hst : s.Extends t) : r.Extends t :=
  ⟨hrs.entered.trans hst.entered, hrs.left.trans hst.left,
    fun v => (hst.open_iff v).trans (hrs.open_iff v)⟩

end Extends

theorem sound_none : Sound g except Visits.none :=
  ⟨List.nodup_nil, List.nodup_nil, fun _ h => h, trivial⟩

theorem Sound.enter (hs : s.Sound g except) (hu : u ∉ s.entered) : (s.enter u).Sound g except :=
  ⟨List.nodup_cons.mpr ⟨hu, hs.entered_nodup⟩, hs.left_nodup,
    fun v hv => List.mem_cons_of_mem _ (hs.entered_of_left v hv), hs.leadsBack⟩

theorem open_enter_self (hs : s.Sound g except) (hu : u ∉ s.entered) : (s.enter u).Open u :=
  ⟨List.mem_cons_self, fun h => hu (hs.entered_of_left u h)⟩

theorem open_enter_iff (hs : s.Sound g except) (hu : u ∉ s.entered) :
    (s.enter u).Open v ↔ v = u ∨ s.Open v := by
  constructor
  · rintro ⟨hentered, hleft⟩
    exact (List.mem_cons.mp hentered).imp_right fun h => ⟨h, hleft⟩
  · rintro (rfl | h)
    · exact open_enter_self hs hu
    · exact ⟨List.mem_cons_of_mem _ h.1, h.2⟩

theorem length_entered_lt (hs : s.Sound g except) (hu : u ∉ s.entered) :
    s.entered.length < n := by
  have hnodup : (u :: s.entered).Nodup := List.nodup_cons.mpr ⟨hu, hs.entered_nodup⟩
  have hlength : (u :: s.entered).length ≤ Fintype.card (Fin n) := hnodup.length_le_card
  rwa [Fintype.card_fin] at hlength

/-- Leaving a node once all behind it was left closes what was opened with it. -/
theorem Sound.leave (hs : s.Sound g except) (hu : u ∉ s.entered) (ht : t.Sound g except)
    (hst : (s.enter u).Extends t) (hedges : ∀ v, g.Edge u v → v ∈ t.left ∨ except u v) :
    (t.leave u).Sound g except ∧ s.Extends (t.leave u) := by
  have hopen : t.Open u := (hst.open_iff u).mpr (open_enter_self hs hu)
  refine ⟨⟨ht.entered_nodup, List.nodup_cons.mpr ⟨hopen.2, ht.left_nodup⟩, ?_, hedges,
    ht.leadsBack⟩, (List.suffix_cons _ _).trans hst.entered,
    hst.left.trans (List.suffix_cons _ _), fun v => ?_⟩
  · intro v hv
    rcases List.mem_cons.mp hv with rfl | hv
    · exact hopen.1
    · exact ht.entered_of_left v hv
  · have hiff : t.Open v ↔ v = u ∨ s.Open v := (hst.open_iff v).trans (open_enter_iff hs hu)
    constructor
    · rintro ⟨hentered, hleft⟩
      obtain ⟨hne, hleft⟩ := not_or.mp (mt List.mem_cons.mpr hleft)
      exact (hiff.mp ⟨hentered, hleft⟩).resolve_left hne
    · intro hv
      obtain ⟨hentered, hleft⟩ := hiff.mpr (.inr hv)
      have hne : v ≠ u := fun h => hu (h ▸ hv.1)
      exact ⟨hentered, fun h => (List.mem_cons.mp h).elim hne hleft⟩

end Visits

/-- A search from given visits either goes on soundly to some that have a property, or fails in a
certain way. -/
def Explores {ε : Type} (g : Digraph n) (except : Fin n → Fin n → Prop) (fails : ε → Prop)
    (s : Visits n) (settled : Visits n → Prop) : Except ε (Visits n) → Prop
  | .ok t => t.Sound g except ∧ s.Extends t ∧ settled t
  | .error e => fails e

/-- Looking at nodes one after another settles them all if each look settles its node. -/
theorem explores_foldlM {ε : Type} {fails : ε → Prop} {settled : Fin n → Prop}
    {look : Visits n → Fin n → Except ε (Visits n)} {nodes : List (Fin n)}
    (hlook : ∀ v ∈ nodes, ∀ t : Visits n, t.Sound g except → s.Extends t →
      Explores g except fails t (fun t => v ∈ t.left ∨ settled v) (look t v))
    (hs : s.Sound g except) :
    Explores g except fails s (fun t => ∀ v ∈ nodes, v ∈ t.left ∨ settled v)
      (nodes.foldlM look s) := by
  induction nodes generalizing s with
  | nil => exact ⟨hs, .refl s, fun _ h => absurd h List.not_mem_nil⟩
  | cons v rest ih =>
    have hv := hlook v List.mem_cons_self s hs (.refl s)
    rw [List.foldlM_cons]
    cases hfirst : look s v with
    | error e => rwa [hfirst] at hv
    | ok t =>
      rw [hfirst] at hv
      obtain ⟨ht, hst, hmem⟩ := hv
      have hrest := ih (s := t)
        (fun w hw t' ht' htt' => hlook w (List.mem_cons_of_mem _ hw) t' ht' (hst.trans htt')) ht
      change Explores g except fails s _ (rest.foldlM look t)
      cases hlast : rest.foldlM look t with
      | error e => rwa [hlast] at hrest
      | ok t' =>
        rw [hlast] at hrest
        obtain ⟨ht', htt', hall⟩ := hrest
        refine ⟨ht', hst.trans htt', fun w hw => ?_⟩
        rcases List.mem_cons.mp hw with rfl | hw
        · exact hmem.imp_left fun h => htt'.left.subset h
        · exact hall w hw

/-- A search from a node ends by leaving it, once every edge from it was looked along. -/
theorem Explores.leave {ε : Type} {fails : ε → Prop} {nodes : List (Fin n)}
    {result : Except ε (Visits n)} (hs : s.Sound g except) (hu : u ∉ s.entered)
    (hnodes : ∀ v, g.Edge u v → v ∈ nodes)
    (h : Explores g except fails (s.enter u)
      (fun t => ∀ v ∈ nodes, v ∈ t.left ∨ except u v) result) :
    Explores g except fails s (fun t => u ∈ t.left)
      (result >>= fun t => .ok (t.leave u)) := by
  cases result with
  | error e => exact h
  | ok t =>
    obtain ⟨ht, hst, hall⟩ := h
    obtain ⟨hleave, hext⟩ := hs.leave hu ht hst fun v huv => hall v (hnodes v huv)
    exact ⟨hleave, hext, List.mem_cons_self⟩

theorem Explores.weaken {ε : Type} {fails : ε → Prop} {settled settled' : Visits n → Prop}
    {result : Except ε (Visits n)} (h : Explores g except fails s settled result)
    (himp : ∀ t, settled t → settled' t) : Explores g except fails s settled' result := by
  cases result with
  | error e => exact h
  | ok t => exact ⟨h.1, h.2.1, himp t h.2.2⟩

/-- What is open while an edge from a node is looked along is the node, or leads to it. -/
theorem eq_or_reaches_of_open (hs : s.Sound g except) (hu : u ∉ s.entered)
    (hopen : ∀ v, s.Open v → g.Reaches v u) (hst : (s.enter u).Extends t) {w : Fin n}
    (hw : t.Open w) : w = u ∨ g.Reaches w u :=
  ((Visits.open_enter_iff hs hu).mp ((hst.open_iff w).mp hw)).imp_right (hopen w)

theorem Edge.reaches_of_eq_or_reaches {w : Fin n} (huv : g.Edge u v)
    (hwu : w = u ∨ g.Reaches w u) : g.Reaches w v := by
  rcases hwu with rfl | hwu
  · exact .edge huv
  · exact hwu.trans (.edge huv)

/-- A search from each node that was not entered leaves all nodes. -/
theorem explores_all {ε : Type} {fails : ε → Prop}
    {visit : Fin n → Visits n → Except ε (Visits n)}
    (hvisit : ∀ v (t : Visits n), t.Sound g except → v ∉ t.entered → (∀ w, ¬t.Open w) →
      Explores g except fails t (fun t => v ∈ t.left) (visit v t)) :
    Explores g except fails Visits.none (fun t => ∀ v, v ∈ t.left)
      ((List.finRange n).foldlM (fun s u => if u ∈ s.entered then .ok s else visit u s)
        Visits.none) := by
  have hfold : Explores g except fails Visits.none
      (fun t => ∀ v ∈ List.finRange n, v ∈ t.left ∨ False)
      ((List.finRange n).foldlM (fun s u => if u ∈ s.entered then .ok s else visit u s)
        Visits.none) := by
    refine explores_foldlM (fun v _ t ht hst => ?_) Visits.sound_none
    have hnone : ∀ w, ¬t.Open w := fun w hw => List.not_mem_nil ((hst.open_iff w).mp hw).1
    by_cases hentered : v ∈ t.entered
    · rw [if_pos hentered]
      exact ⟨ht, .refl t, .inl (by_contra fun hleft => hnone v ⟨hentered, hleft⟩)⟩
    · rw [if_neg hentered]
      exact (hvisit v t ht hentered hnone).weaken fun _ h => .inl h
  exact hfold.weaken fun t h v => (h v (List.mem_finRange v)).resolve_right id

/-- A search without exceptions that ends has left the nodes in a topological order, from its end
on. -/
theorem Explores.isTopological {ε : Type} {fails : ε → Prop}
    (h : Explores g (fun _ _ => False) fails Visits.none (fun t => ∀ v, v ∈ t.left) (.ok t)) :
    g.IsTopological t.left :=
  ⟨h.1.left_nodup, h.2.2, h.1.leadsBack⟩

/-! ### Back edges -/

/-- An edge back to a node that leads to it, or to its own beginning. -/
def IsBack (g : Digraph n) (e : Fin n × Fin n) : Prop :=
  g.Edge e.1 e.2 ∧ (e.2 = e.1 ∨ g.Reaches e.2 e.1)

theorem IsBack.reaches_self {e : Fin n × Fin n} (h : g.IsBack e) : g.Reaches e.2 e.2 := by
  rcases h.2 with heq | hreaches
  · exact .edge (by simpa [heq] using h.1)
  · exact hreaches.trans (.edge h.1)

theorem explores_searchFrom {depth : Nat} (hs : s.Sound g fun _ _ => False)
    (hu : u ∉ s.entered) (hdepth : n ≤ s.entered.length + depth)
    (hopen : ∀ v, s.Open v → g.Reaches v u) :
    Explores g (fun _ _ => False) g.IsBack s (fun t => u ∈ t.left) (g.searchFrom depth u s) := by
  induction depth generalizing u s with
  | zero => exact absurd (Visits.length_entered_lt hs hu) (by omega)
  | succ depth ih =>
    rw [searchFrom]
    refine Explores.leave hs hu (fun v huv => mem_outgoing_iff.mpr huv)
      (explores_foldlM (fun v hv t ht hst => ?_) (hs.enter hu))
    have huv : g.Edge u v := mem_outgoing_iff.mp hv
    have hopen' : ∀ w, t.Open w → w = u ∨ g.Reaches w u := fun _ =>
      eq_or_reaches_of_open hs hu hopen hst
    by_cases hentered : v ∈ t.entered
    · rw [if_neg (not_not.mpr hentered)]
      by_cases hleft : v ∈ t.left
      · rw [if_neg (not_not.mpr hleft)]
        exact ⟨ht, .refl t, .inl hleft⟩
      · rw [if_pos hleft]
        exact ⟨huv, hopen' v ⟨hentered, hleft⟩⟩
    · rw [if_pos hentered]
      have hlength : s.entered.length + 1 ≤ t.entered.length := hst.entered.length_le
      exact (ih ht hentered (by omega) fun w hw =>
        huv.reaches_of_eq_or_reaches (hopen' w hw)).weaken fun _ h => .inl h

theorem explores_search :
    Explores g (fun _ _ => False) g.IsBack Visits.none (fun t => ∀ v, v ∈ t.left) g.search :=
  explores_all fun _ _ ht hentered hnone =>
    explores_searchFrom ht hentered (Nat.le_add_left _ _) fun w hw => absurd hw (hnone w)

theorem isBack_of_backEdge? {e : Fin n × Fin n} (h : g.backEdge? = some e) : g.IsBack e := by
  have hsearch := explores_search (g := g)
  unfold backEdge? at h
  cases hresult : g.search with
  | ok t => simp [hresult] at h
  | error back =>
    rw [hresult] at h hsearch
    obtain rfl : back = e := by simpa using h
    exact hsearch

/-- The search of back edges finds one exactly if there is a cycle. -/
theorem backEdge?_eq_none_iff : g.backEdge? = none ↔ g.Acyclic := by
  constructor
  · intro h
    have hsearch := explores_search (g := g)
    unfold backEdge? at h
    cases hresult : g.search with
    | error back => simp [hresult] at h
    | ok t => exact (Explores.isTopological (hresult ▸ hsearch)).acyclic
  · intro h
    cases hback : g.backEdge? with
    | none => rfl
    | some e => exact absurd (isBack_of_backEdge? hback).reaches_self (h e.2)

/-! ### Topological order -/

/-- The neighbours of a node without a loop are settled one after another if each search from one of
them settles it. -/
theorem explores_neighbours {depth : Nat} (hs : s.Sound g fun u v => v ≠ u ∧ g.Reaches v u)
    (hu : u ∉ s.entered) (hloop : ¬g.Edge u u) (hopen : ∀ v, s.Open v → g.Reaches v u)
    (hvisit : ∀ v, ∀ t : Visits n, t.Sound g (fun u v => v ≠ u ∧ g.Reaches v u) →
      (s.enter u).Extends t → v ∉ t.entered → (∀ w, t.Open w → g.Reaches w v) →
      Explores g (fun u v => v ≠ u ∧ g.Reaches v u) (fun v => g.Edge v v) t (fun t => v ∈ t.left)
        (g.finishFrom depth v t)) :
    Explores g (fun u v => v ≠ u ∧ g.Reaches v u) (fun v => g.Edge v v) (s.enter u)
      (fun t => ∀ v ∈ (g.outgoing u).reverse, v ∈ t.left ∨ v ≠ u ∧ g.Reaches v u)
      ((g.outgoing u).reverse.foldlM
        (fun t v => if v ∈ t.entered then .ok t else g.finishFrom depth v t) (s.enter u)) := by
  refine explores_foldlM (fun v hv t ht hst => ?_) (hs.enter hu)
  have huv : g.Edge u v := mem_outgoing_iff.mp (List.mem_reverse.mp hv)
  have hne : v ≠ u := fun h => hloop (h ▸ huv)
  have hopen' : ∀ w, t.Open w → w = u ∨ g.Reaches w u := fun _ =>
    eq_or_reaches_of_open hs hu hopen hst
  by_cases hentered : v ∈ t.entered
  · rw [if_pos hentered]
    refine ⟨ht, .refl t, ?_⟩
    by_cases hleft : v ∈ t.left
    · exact .inl hleft
    · exact .inr ⟨hne, (hopen' v ⟨hentered, hleft⟩).resolve_left hne⟩
  · rw [if_neg hentered]
    exact (hvisit v t ht hst hentered fun w hw =>
      huv.reaches_of_eq_or_reaches (hopen' w hw)).weaken fun _ h => .inl h

/-- The nodes still open when another is left lead to it, and no node that was left has a loop. -/
theorem explores_finishFrom {depth : Nat}
    (hs : s.Sound g fun u v => v ≠ u ∧ g.Reaches v u) (hu : u ∉ s.entered)
    (hdepth : n ≤ s.entered.length + depth) (hopen : ∀ v, s.Open v → g.Reaches v u) :
    Explores g (fun u v => v ≠ u ∧ g.Reaches v u) (fun v => g.Edge v v) s (fun t => u ∈ t.left)
      (g.finishFrom depth u s) := by
  induction depth generalizing u s with
  | zero => exact absurd (Visits.length_entered_lt hs hu) (by omega)
  | succ depth ih =>
    rw [finishFrom]
    by_cases hloop : u ∈ g.outgoing u
    · rw [if_pos hloop]
      exact mem_outgoing_iff.mp hloop
    rw [if_neg hloop]
    refine Explores.leave hs hu (fun v huv => List.mem_reverse.mpr (mem_outgoing_iff.mpr huv))
      (explores_neighbours hs hu (mt mem_outgoing_iff.mpr hloop) hopen
        fun v t ht hst hentered hopen' => ?_)
    have hlength : s.entered.length + 1 ≤ t.entered.length := hst.entered.length_le
    exact ih ht hentered (by omega) hopen'

/-- The first phase fails at a loop, or lists all nodes such that an edge leads further back or to
another node on a cycle with it. -/
theorem finishOrder_cases :
    (∃ v, g.finishOrder = .error v ∧ g.Edge v v) ∨
      ∃ order, g.finishOrder = .ok order ∧ order.Nodup ∧ (∀ v, v ∈ order) ∧
        g.LeadsBack (fun u v => v ≠ u ∧ g.Reaches v u) order := by
  have hfold : Explores g (fun u v => v ≠ u ∧ g.Reaches v u) (fun v => g.Edge v v) Visits.none
      (fun t => ∀ v, v ∈ t.left)
      ((List.finRange n).foldlM (fun s u =>
        if u ∈ s.entered then .ok s else g.finishFrom n u s) Visits.none) :=
    explores_all fun _ _ ht hentered hnone =>
      explores_finishFrom ht hentered (Nat.le_add_left _ _) fun w hw => absurd hw (hnone w)
  unfold finishOrder
  cases hresult : (List.finRange n).foldlM (fun s u =>
      if u ∈ s.entered then .ok s else g.finishFrom n u s) Visits.none with
  | error v =>
    rw [hresult] at hfold
    exact .inl ⟨v, rfl, hfold⟩
  | ok t =>
    rw [hresult] at hfold
    obtain ⟨ht, -, hall⟩ := hfold
    exact .inr ⟨t.left, rfl, ht.left_nodup, hall, ht.leadsBack⟩

/-! ### The check of an order -/

/-- What a search against the edges finds behind a new node are its neighbours that are not marked,
so the second node that it finds is one of them. -/
theorem checkOrder_cons {marked : List (Fin n)} (hu : u ∉ marked) (rest : List (Fin n)) :
    ((∀ v, g.Edge v u → v ∈ u :: marked) ∧
      g.checkOrder marked (u :: rest) = g.checkOrder (u :: marked) rest) ∨
    ∃ w, g.Edge w u ∧ w ∉ u :: marked ∧ g.checkOrder marked (u :: rest) = .error w := by
  have hfirst : g.nextAgainst marked [u] =
      some (u, ((g.incoming u).filter (fun v => v ∉ u :: marked)).reverse) := by
    rw [nextAgainst, if_neg hu, List.append_nil]
  rw [checkOrder, hfirst]
  cases hstack : ((g.incoming u).filter (fun v => v ∉ u :: marked)).reverse with
  | nil =>
    refine .inl ⟨fun v hvu => ?_, rfl⟩
    rw [List.reverse_eq_nil_iff, List.filter_eq_nil_iff] at hstack
    exact not_not.mp (mt decide_eq_true (hstack v (mem_incoming_iff.mpr hvu)))
  | cons w stack =>
    have hw : w ∈ ((g.incoming u).filter (fun v => v ∉ u :: marked)).reverse := by
      rw [hstack]
      exact List.mem_cons_self
    obtain ⟨hin, hnew⟩ := List.mem_filter.mp (List.mem_reverse.mp hw)
    have hnew : w ∉ u :: marked := of_decide_eq_true hnew
    refine .inr ⟨w, mem_incoming_iff.mp hin, hnew, ?_⟩
    simp only [nextAgainst, if_neg hnew]

/-- The check passes if every edge comes from further ahead or is a loop, and else it names the
beginning of an edge from further back. -/
theorem checkOrder_cases {front rest marked : List (Fin n)} (hnodup : (front ++ rest).Nodup)
    (hmarked : ∀ v, v ∈ marked ↔ v ∈ front) :
    (g.checkOrder marked rest = .ok () ∧ ∀ before u after, rest = before ++ u :: after →
      ∀ v, g.Edge v u → v ∈ front ++ before ∨ v = u) ∨
    ∃ before u after w, rest = before ++ u :: after ∧ g.Edge w u ∧ w ∉ front ++ before ∧ w ≠ u ∧
      g.checkOrder marked rest = .error w := by
  induction rest generalizing front marked with
  | nil => exact .inl ⟨rfl, fun before u after h => absurd h (by simp)⟩
  | cons u rest ih =>
    have hu : u ∉ marked := fun hu =>
      (List.nodup_append.mp hnodup).2.2 u ((hmarked u).mp hu) u List.mem_cons_self rfl
    have hmem : ∀ v, v ∈ u :: marked ↔ v ∈ front ∨ v = u := fun v => by simp [hmarked v, or_comm]
    rcases checkOrder_cons (g := g) hu rest with ⟨hpred, hcheck⟩ | ⟨w, hwu, hw, hcheck⟩
    · rw [hcheck]
      have hnodup' : ((front ++ [u]) ++ rest).Nodup := by simpa using hnodup
      rcases ih hnodup' (fun v => by rw [hmem, List.mem_append, List.mem_singleton]) with
        ⟨hok, hrest⟩ | ⟨before, x, after, w, hsplit, hedge, hnew, hne, herror⟩
      · refine .inl ⟨hok, fun before x after hsplit v hvx => ?_⟩
        cases before with
        | nil =>
          obtain ⟨rfl, -⟩ := List.cons.inj hsplit
          simpa using (hmem v).mp (hpred v hvx)
        | cons first before =>
          obtain ⟨rfl, rfl⟩ := List.cons.inj hsplit
          simpa using hrest before x after rfl v hvx
      · refine .inr ⟨u :: before, x, after, w, by rw [hsplit]; rfl, hedge, ?_, hne, herror⟩
        simpa using hnew
    · rw [hmem, not_or] at hw
      exact .inr ⟨[], u, rest, w, rfl, hwu, by simpa using hw.1, hw.2, hcheck⟩

/-! ### Both phases -/

theorem topologicalOrder_eq_ok_iff {order : List (Fin n)} : g.topologicalOrder = .ok order ↔
    g.finishOrder = .ok order ∧ g.checkOrder [] order = .ok () := by
  unfold topologicalOrder
  cases g.finishOrder with
  | error v => simp [bind, Except.bind]
  | ok found =>
    cases hcheck : g.checkOrder [] found with
    | error w =>
      simp only [bind, Except.bind, hcheck]
      constructor
      · intro h
        cases h
      · rintro ⟨hfound, hok⟩
        obtain rfl := Except.ok.inj hfound
        exact absurd (hcheck.symm.trans hok) (by simp)
    | ok _ =>
      simp only [bind, Except.bind, hcheck, Except.ok.injEq]
      constructor
      · rintro rfl
        exact ⟨rfl, hcheck⟩
      · exact And.left

/-- Without cycles there is a topological order, and it passes its check. -/
theorem topologicalOrder_of_acyclic (h : g.Acyclic) :
    ∃ order, g.topologicalOrder = .ok order ∧ g.IsTopological order := by
  rcases g.finishOrder_cases with ⟨v, -, hloop⟩ | ⟨order, horder, hnodup, hall, hback⟩
  · exact absurd (.edge hloop) (h v)
  -- An open node leads to the one left, so without cycles there are no exceptions.
  have htop : g.IsTopological order :=
    ⟨hnodup, hall, hback.mono fun u v huv hvu => h u (.step huv hvu.2)⟩
  refine ⟨order, topologicalOrder_eq_ok_iff.mpr ⟨horder, ?_⟩, htop⟩
  have hnodup' : ([] ++ order).Nodup := hnodup
  rcases checkOrder_cases (g := g) hnodup' (fun _ => Iff.rfl) with
    ⟨hok, -⟩ | ⟨before, u, after, w, rfl, hwu, hw, -, -⟩
  · exact hok
  · exact absurd (htop.mem_front_of_edge hwu) hw

/-- An order that passes its check is topological, whatever cycles there might have been. -/
theorem isTopological_of_topologicalOrder {order : List (Fin n)}
    (h : g.topologicalOrder = .ok order) : g.IsTopological order := by
  obtain ⟨horder, hcheck⟩ := topologicalOrder_eq_ok_iff.mp h
  rcases g.finishOrder_cases with ⟨v, herror, -⟩ | ⟨found, hfound, hnodup, hall, hback⟩
  · exact absurd (herror.symm.trans horder) (by simp)
  obtain rfl := Except.ok.inj (hfound.symm.trans horder)
  have hnodup' : ([] ++ found).Nodup := hnodup
  rcases checkOrder_cases (g := g) hnodup' (fun _ => Iff.rfl) with
    ⟨-, hpred⟩ | ⟨_, _, _, w, -, -, -, -, herror⟩
  · refine ⟨hnodup, hall,
      leadsBack_of_forall_split hnodup' hall fun before u after hsplit v hvu => ?_⟩
    refine (hpred before u after hsplit v hvu).resolve_right ?_
    -- A loop at `u` would lead further back or to another node.
    rintro rfl
    rw [List.nil_append] at hsplit
    subst hsplit
    rcases hback.of_append.1 v hvu with hmem | ⟨hne, -⟩
    · exact (List.nodup_cons.mp (hnodup.sublist (List.sublist_append_right _ _))).1 hmem
    · exact hne rfl
  · exact absurd (herror.symm.trans hcheck) (by simp)

/-- There is a topological order exactly if there is no cycle. -/
theorem exists_topologicalOrder_iff : (∃ order, g.topologicalOrder = .ok order) ↔ g.Acyclic := by
  constructor
  · rintro ⟨order, horder⟩
    exact (isTopological_of_topologicalOrder horder).acyclic
  · intro h
    obtain ⟨order, horder, -⟩ := topologicalOrder_of_acyclic h
    exact ⟨order, horder⟩

end FormulaEngine.Digraph
