import FormulaEngine.Proofs.Eval.Steadiness
import FormulaEngine.Proofs.Run.Settling

/-!
# Runs as solutions

Against a steady host a program is a system of equations: the slot of each formula and import is
what its evaluation on all the slots gives. The system has exactly one solution. A run that contains
failures finds it, and so does evaluating declarations one at a time, in any order in which each
comes after what it depends on.
-/

namespace FormulaEngine

namespace Slots

theorem length_setCell {o : Outcome} {id : DeclId} {cells : List (Option Outcome)}
    (h : id < cells.length) : (setCell o id cells).length = cells.length := by
  induction id generalizing cells with
  | zero =>
    cases cells with
    | nil => exact absurd h (by simp)
    | cons cell rest => rfl
  | succ id ih =>
    cases cells with
    | nil => exact absurd h (by simp)
    | cons cell rest => simpa [setCell] using ih (by simpa using h)

theorem ext_get? {s s' : Slots} (hlength : s.cells.length = s'.cells.length)
    (h : ∀ id < s.cells.length, s.get? id = s'.get? id) : s = s' := by
  obtain ⟨cells⟩ := s
  obtain ⟨cells'⟩ := s'
  have hcells : cells = cells' := by
    refine List.ext_getElem hlength fun id hid hid' => ?_
    have hget := h id hid
    simpa [get?, hid, hid'] using hget
  rw [hcells]

end Slots

namespace Compilation

variable {σ : Type} {c : Compilation} {fs : Functions σ} {arguments : List (String × Value)}
  {settled : List DeclId} {s s' : Slots} {d : Declaration} {mode : Mode}

/-- The slots in which each argument has the value that is supplied or else null, each constant its
own, and each other declaration what its evaluation on these slots comes to. -/
structure Solves (c : Compilation) (fs : Functions σ) (arguments : List (String × Value))
    (s : Slots) : Prop where
  size : s.cells.length = c.program.size
  argument : ∀ id d, c.program.declaration? id = some d → d.kind = .argument →
    s.get? id = some (.value ((Fields.get? arguments d.name).getD .null))
  constant : ∀ id d v, c.program.declaration? id = some d → d.kind = .constant v →
    s.get? id = some (.value v)
  vertex : ∀ id d, c.program.declaration? id = some d → d.isVertex → ∀ host,
    s.get? id = some (.settle id ((c.routine fs .asynchronous s d).run fs host).result)

/-- Evaluates declarations one at a time, each on the slots that are there by then. -/
def settleInOrder (c : Compilation) (fs : Functions σ) : List DeclId → Slots → σ → Slots
  | [], s, _ => s
  | id :: rest, s, host =>
    match c.program.declaration? id with
    | none => settleInOrder c fs rest s host
    | some d =>
      let ran := (c.routine fs .asynchronous s d).run fs host
      settleInOrder c fs rest (s.insert id (.settle id ran.result)) ran.host

/-! ### Partial solutions -/

/-- The slots of globals and of some declarations are as in a solution. -/
structure SolvesOn (c : Compilation) (fs : Functions σ) (arguments : List (String × Value))
    (settled : List DeclId) (s : Slots) : Prop where
  size : s.cells.length = c.program.size
  global : ∀ id d, c.program.declaration? id = some d → d.isVertex = false →
    s.get? id = given arguments d
  closed : ∀ v ∈ settled, ∀ u, c.program.DependsOn v u → u ∈ settled
  vertex : ∀ v ∈ settled, ∀ d, c.program.declaration? v = some d → d.isVertex ∧ ∀ host,
    s.get? v = some (.settle v ((c.routine fs .asynchronous s d).run fs host).result)

/-- A solution is reached one declaration at a time. -/
theorem SolvesOn.insert (h : c.Valid) (hs : c.SolvesOn fs arguments settled s)
    (hd : c.program.declaration? d.id = some d) (hvertex : d.isVertex) (hnew : d.id ∉ settled)
    (hdeps : ∀ u, c.program.DependsOn d.id u → u ∈ settled) {r : Except Fault Value}
    (hr : ∀ host, ((c.routine fs .asynchronous s d).run fs host).result = r) :
    c.SolvesOn fs arguments (settled ++ [d.id]) (s.insert d.id (.settle d.id r)) := by
  have hother : ∀ u, u ≠ d.id → (s.insert d.id (.settle d.id r)).get? u = s.get? u := fun u hu =>
    Slots.get?_insert_of_ne s hu _
  have hglobal : ∀ id e, c.program.declaration? id = some e → e.isVertex = false →
      (s.insert d.id (.settle d.id r)).get? id = s.get? id := by
    intro id e he hnot
    refine hother id ?_
    rintro rfl
    obtain rfl : d = e := Option.some.inj (hd.symm.trans he)
    exact absurd hvertex (by simp [hnot])
  -- What was settled before does not read `d`, so it sees no difference.
  have hold : ∀ u ∈ settled, (s.insert d.id (.settle d.id r)).get? u = s.get? u := fun u hu =>
    hother u fun heq => hnew (heq ▸ hu)
  refine ⟨?_, fun id e he hnot => ?_, fun v hv u hdep => ?_, fun v hv e he => ?_⟩
  · have hlt : d.id < s.cells.length := by
      rw [hs.size]
      exact (List.getElem?_eq_some_iff.mp hd).1
    exact (Slots.length_setCell hlt).trans hs.size
  · rw [hglobal id e he hnot]
    exact hs.global id e he hnot
  · rcases List.mem_append.mp hv with hv | hv
    · exact List.mem_append_left _ (hs.closed v hv u hdep)
    · obtain rfl := List.mem_singleton.mp hv
      exact List.mem_append_left _ (hdeps u hdep)
  · rcases List.mem_append.mp hv with hv | hv
    · obtain ⟨hvertex', hvalue⟩ := hs.vertex v hv e he
      obtain rfl : e.id = v := h.wellFormed.id_eq he
      refine ⟨hvertex', fun host => ?_⟩
      rw [hold _ hv, h.routine_congr he hvertex' hglobal fun u hdep =>
        hold u (hs.closed _ hv u hdep)]
      exact hvalue host
    · obtain rfl := List.mem_singleton.mp hv
      obtain rfl : d = e := Option.some.inj (hd.symm.trans he)
      refine ⟨hvertex, fun host => ?_⟩
      rw [Slots.get?_insert_self, h.routine_congr hd hvertex hglobal fun u hdep =>
        hold u (hdeps u hdep), hr host]

theorem solvesOn_seed : c.SolvesOn fs arguments [] (c.seed arguments) where
  size := by simp [seed, Program.size]
  global id d hd _ := by rw [get?_seed, hd]; rfl
  closed _ h := absurd h List.not_mem_nil
  vertex _ h := absurd h List.not_mem_nil

theorem SolvesOn.solves (hs : c.SolvesOn fs arguments settled s)
    (hall : ∀ id d, c.program.declaration? id = some d → d.isVertex → id ∈ settled) :
    c.Solves fs arguments s where
  size := hs.size
  argument id d hd hkind := by
    rw [hs.global id d hd (by simp [Declaration.isVertex, hkind]), given, hkind]
  constant id d v hd hkind := by
    rw [hs.global id d hd (by simp [Declaration.isVertex, hkind]), given, hkind]
  vertex id d hd hvertex := (hs.vertex id (hall id d hd hvertex) d hd).2

/-! ### Uniqueness -/

theorem Solves.global (hs : c.Solves fs arguments s) {id : DeclId}
    (hd : c.program.declaration? id = some d) (hglobal : d.isVertex = false) :
    s.get? id = given arguments d := by
  unfold given
  cases hkind : d.kind with
  | argument => exact hs.argument id d hd hkind
  | constant v => exact hs.constant id d v hd hkind
  | formula _ _ | imported _ _ => simp [Declaration.isVertex, hkind] at hglobal

/-- What holds of a vertex whenever it holds of all that it depends on holds of every vertex. -/
theorem Valid.induction_dependsOn (h : c.Valid) {motive : DeclId → Prop}
    (hstep : ∀ d, c.program.declaration? d.id = some d → d.isVertex →
      (∀ u, c.program.DependsOn d.id u → motive u) → motive d.id)
    {v : DeclId} (hv : ∃ d, c.program.declaration? v = some d ∧ d.isVertex) : motive v := by
  obtain ⟨i, hi⟩ := List.getElem?_of_mem ((Plan.mem_flatten_iff h.wellFormed h.isLayering).mpr hv)
  -- By induction on places in the order of layers, where what `v` depends on stands before it.
  induction i using Nat.strong_induction_on generalizing v with
  | h i ih =>
    obtain ⟨d, hd, hvertex⟩ := hv
    obtain rfl : d.id = v := h.wellFormed.id_eq hd
    refine hstep d hd hvertex fun u hdep => ?_
    have hu := hdep.right_isVertex h.wellFormed
    obtain ⟨k, hk⟩ :=
      List.getElem?_of_mem ((Plan.mem_flatten_iff h.wellFormed h.isLayering).mpr hu)
    exact ih k (h.isLayering.lt_of_getElem? hk hi hdep) hu hk

/-- What is settled as in a solution is as in every solution. -/
theorem SolvesOn.get?_eq (h : c.Valid) (hs : c.SolvesOn fs arguments settled s)
    (hs' : c.Solves fs arguments s') (host : σ) {v : DeclId} (hv : v ∈ settled)
    (hvertex : ∃ d, c.program.declaration? v = some d ∧ d.isVertex) : s'.get? v = s.get? v := by
  refine @Valid.induction_dependsOn c h (fun v => v ∈ settled → s'.get? v = s.get? v)
    (fun d hd hvertex ih hv => ?_) v hvertex hv
  have hroutine : c.routine fs .asynchronous s' d = c.routine fs .asynchronous s d := by
    refine h.routine_congr hd hvertex (fun id e he hglobal => ?_) fun u hdep => ?_
    · rw [hs.global id e he hglobal, hs'.global he hglobal]
    · exact ih u hdep (hs.closed d.id hv u hdep)
  rw [(hs.vertex d.id hv d hd).2 host, hs'.vertex d.id d hd hvertex host, hroutine]

theorem Solves.solvesOn (h : c.Valid) (hs : c.Solves fs arguments s) :
    c.SolvesOn fs arguments c.layers.flatten s where
  size := hs.size
  global id d hd hglobal := hs.global hd hglobal
  closed v hv u hdep := (Plan.mem_flatten_iff h.wellFormed h.isLayering).mpr
    (hdep.right_isVertex h.wellFormed)
  vertex v hv d hd := by
    obtain ⟨e, he, hvertex⟩ := (Plan.mem_flatten_iff h.wellFormed h.isLayering).mp hv
    obtain rfl : d = e := Option.some.inj (hd.symm.trans he)
    exact ⟨hvertex, hs.vertex v d hd hvertex⟩

theorem Solves.eq (h : c.Valid) (hs : c.Solves fs arguments s) (hs' : c.Solves fs arguments s')
    (host : σ) : s' = s := by
  refine Slots.ext_get? (hs'.size.trans hs.size.symm) fun id hid => ?_
  have hlt : id < c.program.declarations.length := Nat.lt_of_lt_of_eq hid hs'.size
  have hd : c.program.declaration? id = some c.program.declarations[id] :=
    List.getElem?_eq_getElem hlt
  cases hvertex : c.program.declarations[id].isVertex with
  | false => rw [hs.global hd hvertex, hs'.global hd hvertex]
  | true =>
    exact (hs.solvesOn h).get?_eq h hs' host
      ((Plan.mem_flatten_iff h.wellFormed h.isLayering).mpr ⟨_, hd, hvertex⟩) ⟨_, hd, hvertex⟩

/-! ### Runs and orders -/

theorem SolvesOn.settleInOrder (h : c.Valid) (hfs : fs.IsSteady) {order : List DeclId}
    (hs : c.SolvesOn fs arguments settled s) (hnodup : (settled ++ order).Nodup)
    (hvertices : ∀ v ∈ order, ∃ d, c.program.declaration? v = some d ∧ d.isVertex)
    (hclosed : ∀ before v after, order = before ++ v :: after →
      ∀ u, c.program.DependsOn v u → u ∈ settled ++ before) (host : σ) :
    c.SolvesOn fs arguments (settled ++ order) (c.settleInOrder fs order s host) := by
  induction order generalizing settled s host with
  | nil =>
    rw [List.append_nil]
    exact hs
  | cons v rest ih =>
    obtain ⟨d, hd, hvertex⟩ := hvertices v List.mem_cons_self
    obtain rfl : d.id = v := h.wellFormed.id_eq hd
    have hnew : d.id ∉ settled := fun hmem =>
      (List.nodup_append.mp hnodup).2.2 d.id hmem d.id List.mem_cons_self rfl
    have hdeps : ∀ u, c.program.DependsOn d.id u → u ∈ settled := fun u hdep => by
      simpa using hclosed [] d.id rest rfl u hdep
    have hinsert := hs.insert h hd hvertex hnew hdeps
      (result_eq_of_ends_routine hfs (Routine.ends_run _ host))
    rw [Compilation.settleInOrder, hd, List.append_cons]
    refine ih hinsert (by simpa using hnodup) (fun u hu => hvertices u (List.mem_cons_of_mem _ hu))
      (fun before w after hsplit u hdep => ?_) _
    have hmem := hclosed (d.id :: before) w after (by rw [hsplit]; rfl) u hdep
    simpa using hmem

/-- Against a steady host a run settles what it settles as in a solution. -/
theorem Valid.keeps_solvesOn (h : c.Valid) (hfs : fs.IsSteady)
    (arguments : List (String × Value)) :
    c.KeepsEach fs (fun settled pr => c.SolvesOn fs arguments (idsOf settled) pr.slots) where
  note _ hpr := hpr
  host _ hpr := hpr
  settle hx hpr := by
    rw [idsOf_append]
    have hd := hx.declaration? h
    exact hpr.insert h hd.1 hd.2 (hx.not_mem h) (hx.wave.closed _ List.mem_cons_self)
      (result_eq_of_ends_routine hfs hx.ends)

theorem Valid.stopped_runPlan (h : c.Valid) (hcontains : c.failFast = false) (fs : Functions σ)
    (arguments : List (String × Value)) (host : σ) :
    (c.runPlan fs arguments host).stopped = false := by
  have hkeeps : c.KeepsEach fs (fun _ pr => pr.stopped = false) :=
    ⟨fun _ hpr => hpr, fun _ hpr => hpr, fun _ hpr => by simp [Progress.settle, hcontains, hpr]⟩
  obtain ⟨_, -, hend, -⟩ := @KeepsEach.runPlan σ c fs arguments _ h hkeeps host rfl
  exact hend

theorem Valid.solves_runPlan (h : c.Valid) (hcontains : c.failFast = false) (hfs : fs.IsSteady)
    (arguments : List (String × Value)) (host : σ) :
    c.Solves fs arguments (c.runPlan fs arguments host).slots := by
  have hstart : c.SolvesOn fs arguments (idsOf []) (c.start arguments host).slots := solvesOn_seed
  obtain ⟨settled, -, hend, -, hall⟩ := (h.keeps_solvesOn hfs arguments).runPlan h hstart
  obtain rfl := hall (h.stopped_runPlan hcontains fs arguments host)
  exact hend.solves fun id d hd hvertex => h.mem_idsOf_schedule_iff.mpr ⟨d, hd, hvertex⟩

theorem mem_front_of_idxOf_lt {front rest : List DeclId} {u v : DeclId}
    (hnodup : (front ++ v :: rest).Nodup)
    (hlt : (front ++ v :: rest).idxOf u < (front ++ v :: rest).idxOf v) : u ∈ front := by
  by_contra hu
  have hv : v ∉ front := fun hv =>
    (List.nodup_append.mp hnodup).2.2 v hv v List.mem_cons_self rfl
  rw [List.idxOf_append_of_notMem hu, List.idxOf_append_of_notMem hv, List.idxOf_cons_self] at hlt
  omega

theorem Valid.solves_settleInOrder (h : c.Valid) (hfs : fs.IsSteady)
    (arguments : List (String × Value)) {order : List DeclId}
    (hperm : order.Perm c.graph.vertices)
    (hforward : ∀ u v, (u, v) ∈ c.graph.edges → order.idxOf u < order.idxOf v) (host : σ) :
    c.Solves fs arguments (c.settleInOrder fs order (c.seed arguments) host) := by
  have hmem : ∀ v, v ∈ order ↔ ∃ d, c.program.declaration? v = some d ∧ d.isVertex := fun v => by
    rw [hperm.mem_iff, h.graph_eq, DependencyGraph.mem_vertices_iff h.wellFormed]
  have hnodup : order.Nodup := by
    rw [hperm.nodup_iff, h.graph_eq]
    exact DependencyGraph.vertices_nodup h.wellFormed
  have hclosed : ∀ before v after, order = before ++ v :: after →
      ∀ u, c.program.DependsOn v u → u ∈ [] ++ before := by
    rintro before v after rfl u hdep
    have hedge : (u, v) ∈ c.graph.edges := by
      rw [h.graph_eq]
      exact (DependencyGraph.mem_edges_iff h.wellFormed).mpr hdep
    exact mem_front_of_idxOf_lt hnodup (hforward u v hedge)
  have hsolves := @SolvesOn.settleInOrder _ c fs arguments [] _ h hfs order solvesOn_seed hnodup
    (fun v hv => (hmem v).mp hv) hclosed host
  exact hsolves.solves fun id d hd hvertex => (hmem id).mpr ⟨d, hd, hvertex⟩

/-- Against a steady host, the slots of a run that contains failures are the one solution of the
program. Evaluating the vertices one at a time finds it too, in any order in which each comes after
what it depends on. -/
theorem slots_runPlan_unique {settings : Settings} {source : ProgramSource}
    (h : compile settings source = .ok c) (hcontains : c.profile.containsFailures)
    (fs : Functions σ) (hfs : fs.IsSteady) (arguments : List (String × Value)) (host : σ) :
    c.Solves fs arguments (c.runPlan fs arguments host).slots ∧
    (∀ s, c.Solves fs arguments s → s = (c.runPlan fs arguments host).slots) ∧
    ∀ order : List DeclId, order.Perm c.graph.vertices →
      (∀ u v, (u, v) ∈ c.graph.edges → order.idxOf u < order.idxOf v) → ∀ host' : σ,
        c.settleInOrder fs order (c.seed arguments) host' =
          (c.runPlan fs arguments host).slots := by
  have hvalid := valid_of_compile h
  have hrun := hvalid.solves_runPlan (by simp [failFast, hcontains]) hfs arguments host
  refine ⟨hrun, fun s hs => hrun.eq hvalid hs host, fun order hperm hforward host' => ?_⟩
  exact hrun.eq hvalid (hvalid.solves_settleInOrder hfs arguments hperm hforward host') host

theorem exists_solution_of_checkout :
    ∃ c, compile {} .checkout = .ok c ∧ Functions.echo.IsSteady ∧
      c.Solves .echo [] (c.runPlan .echo [] ()).slots := by
  obtain ⟨c, hc, hprofile⟩ := exists_checkout
  have hcontains : c.profile.containsFailures := by rw [hprofile]; rfl
  exact ⟨c, hc, Functions.isSteady_echo,
    (slots_runPlan_unique hc hcontains .echo Functions.isSteady_echo [] ()).1⟩

end Compilation

end FormulaEngine
