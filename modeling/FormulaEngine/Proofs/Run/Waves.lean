import FormulaEngine.Proofs.Plan.Safety
import FormulaEngine.Run.Orchestration

/-!
# Waves

A run settles the steps of a plan in waves: a synchronous step by itself, and the asynchronous steps
of a group together. Whatever a step of a wave depends on was settled in a wave before. So what each
wave keeps holds at the end of a run, whether it comes to the end of the plan or stops before.
-/

namespace FormulaEngine

namespace Compilation

variable {σ : Type} {c : Compilation} {fs : Functions σ}

/-- The steps of a plan with their declarations, in the order in which they are settled. -/
def schedule (c : Compilation) : List (StepId × Declaration) :=
  c.scheduled (c.plan.groups.flatMap StepGroup.steps)

def idsOf (steps : List (StepId × Declaration)) : List DeclId := steps.map fun x => x.2.id

theorem idsOf_append {front rest : List (StepId × Declaration)} :
    idsOf (front ++ rest) = idsOf front ++ idsOf rest := List.map_append

/-- Steps that are next on the schedule, and depend only on what was settled before. -/
structure IsWave (c : Compilation) (settled wave : List (StepId × Declaration)) : Prop where
  next : settled ++ wave <+: c.schedule
  closed : ∀ x ∈ wave, ∀ u, c.program.DependsOn x.2.id u → u ∈ idsOf settled

theorem IsWave.mem_schedule {settled wave : List (StepId × Declaration)} (h : c.IsWave settled wave)
    {x : StepId × Declaration} (hx : x ∈ wave) : x ∈ c.schedule :=
  h.next.subset (List.mem_append_right _ hx)

/-! ### The schedule -/

theorem scheduled_append (front rest : List StepId) :
    c.scheduled (front ++ rest) = c.scheduled front ++ c.scheduled rest :=
  List.filterMap_append

theorem Valid.mem_scheduled_iff (h : c.Valid) {ids : List StepId} {i : StepId} {d : Declaration} :
    (i, d) ∈ c.scheduled ids ↔
      i ∈ ids ∧ c.layers.flatten[i]? = some d.id ∧ c.program.declaration? d.id = some d := by
  obtain ⟨merge, hplan⟩ := h.exists_plan_eq
  simp only [scheduled, List.mem_filterMap, Option.bind_eq_bind, Option.bind_eq_some_iff, hplan,
    Plan.step?_ofLayers_eq_some_iff, Option.some.injEq, Prod.mk.injEq]
  constructor
  · rintro ⟨i, hi, s, ⟨v, hv, rfl⟩, d, hd, rfl, rfl⟩
    obtain rfl : d.id = v := h.wellFormed.id_eq hd
    exact ⟨hi, hv, hd⟩
  · rintro ⟨hi, hv, hd⟩
    exact ⟨i, hi, _, ⟨d.id, hv, rfl⟩, d, hd, rfl, rfl⟩

theorem Valid.idsOf_scheduled (h : c.Valid) (ids : List StepId) :
    idsOf (c.scheduled ids) = ids.filterMap (c.layers.flatten[·]?) := by
  obtain ⟨merge, hplan⟩ := h.exists_plan_eq
  rw [idsOf, scheduled, List.map_filterMap]
  refine List.filterMap_congr fun i _ => ?_
  have hstep : c.plan.step? i = c.layers.flatten[i]?.map
      (Plan.stepAt c.program (.of c.program) c.layers.flatten i) := by
    rw [hplan]
    exact List.getElem?_mapIdx
  rw [hstep]
  cases hv : c.layers.flatten[i]? with
  | none => rfl
  | some v =>
    obtain ⟨d, hd, -⟩ := (Plan.mem_flatten_iff h.wellFormed h.isLayering).mp
      (List.mem_of_getElem? hv)
    have hid : d.id = v := h.wellFormed.id_eq hd
    simp [Plan.stepAt, hd, hid]

theorem filterMap_getElem?_range (l : List DeclId) :
    (List.range l.length).filterMap (l[·]?) = l := by
  have hmap : (List.range l.length).filterMap (l[·]?) =
      (List.range l.length).map fun i => l.getD i 0 := by
    refine List.filterMap_eq_map_iff_forall_eq_some.mpr fun i hi => ?_
    have hlt : i < l.length := List.mem_range.mp hi
    simp [hlt]
  rw [hmap]
  refine List.ext_getElem (by simp) fun i _ hi => ?_
  simp [hi]

/-- The schedule has every vertex once. -/
theorem Valid.idsOf_schedule_perm (h : c.Valid) : (idsOf c.schedule).Perm c.graph.vertices := by
  have hperm := (h.isSafeSchedule.occurs_once).filterMap (c.layers.flatten[·]?)
  have hsize : c.plan.size = c.layers.flatten.length := by
    obtain ⟨merge, hplan⟩ := h.exists_plan_eq
    rw [hplan]
    exact List.length_mapIdx
  rw [hsize, filterMap_getElem?_range, ← h.idsOf_scheduled] at hperm
  rw [h.graph_eq]
  exact hperm.trans h.isLayering.perm

theorem Valid.mem_idsOf_schedule_iff (h : c.Valid) {u : DeclId} :
    u ∈ idsOf c.schedule ↔ ∃ d, c.program.declaration? u = some d ∧ d.isVertex := by
  rw [h.idsOf_schedule_perm.mem_iff, h.graph_eq, DependencyGraph.mem_vertices_iff h.wellFormed]

theorem Valid.areSafe (h : c.Valid) :
    StepGroup.AreSafe (Plan.Reads c.program c.layers.flatten) c.plan.groups := by
  obtain ⟨merge, hplan⟩ := h.exists_plan_eq
  rw [hplan]
  exact Plan.areSafe_groupsOf h.wellFormed h.isLayering

theorem Valid.reads_of_dependsOn (h : c.Valid) {ids others : List StepId}
    {x y : StepId × Declaration} (hx : x ∈ c.scheduled ids) (hy : y ∈ c.scheduled others)
    (hdep : c.program.DependsOn y.2.id x.2.id) :
    Plan.Reads c.program c.layers.flatten x.1 y.1 :=
  ⟨x.2.id, y.2.id, (h.mem_scheduled_iff.mp hx).2.1, (h.mem_scheduled_iff.mp hy).2.1, .single hdep⟩

theorem Valid.schedule_pairwise (h : c.Valid) :
    c.schedule.Pairwise fun x y => ¬c.program.DependsOn x.2.id y.2.id := by
  rw [schedule, scheduled, List.pairwise_filterMap]
  refine h.areSafe.pairwise.imp fun {i k} hsafe x hx y hy hdep => ?_
  have hx' : x ∈ c.scheduled [i] := List.mem_filterMap.mpr ⟨i, List.mem_singleton_self i, hx⟩
  have hy' : y ∈ c.scheduled [k] := List.mem_filterMap.mpr ⟨k, List.mem_singleton_self k, hy⟩
  have hi : x.1 = i := List.mem_singleton.mp (h.mem_scheduled_iff.mp hx').1
  have hk : y.1 = k := List.mem_singleton.mp (h.mem_scheduled_iff.mp hy').1
  exact hsafe (hi ▸ hk ▸ h.reads_of_dependsOn hy' hx' hdep)

/-- The next steps on the schedule are a wave if they do not depend on one another. -/
theorem Valid.isWave (h : c.Valid) {settled wave rest : List (StepId × Declaration)}
    (hschedule : c.schedule = settled ++ wave ++ rest)
    (hwave : ∀ x ∈ wave, ∀ y ∈ wave, ¬c.program.DependsOn x.2.id y.2.id) :
    c.IsWave settled wave where
  next := ⟨rest, hschedule.symm⟩
  closed x hx u hdep := by
    have hu : u ∈ idsOf c.schedule :=
      h.mem_idsOf_schedule_iff.mpr (hdep.right_isVertex h.wellFormed)
    obtain ⟨y, hy, rfl⟩ := List.mem_map.mp hu
    have hpairwise := h.schedule_pairwise
    rw [hschedule] at hy hpairwise
    rcases List.mem_append.mp hy with hy | hy
    · rcases List.mem_append.mp hy with hy | hy
      · exact List.mem_map_of_mem hy
      · exact absurd hdep (hwave x hx y hy)
    · have hbefore := (List.pairwise_append.mp hpairwise).2.2
      exact absurd hdep (hbefore x (List.mem_append_right _ hx) y hy)

theorem Valid.isAsync_eq_false (h : c.Valid) {group : StepGroup} (hgroup : group ∈ c.plan.groups)
    {x : StepId × Declaration} (hx : x ∈ c.scheduled group.synchronous) : x.2.isAsync = false := by
  obtain ⟨hi, hid, hd⟩ := h.mem_scheduled_iff.mp hx
  obtain ⟨merge, hplan⟩ := h.exists_plan_eq
  rw [hplan] at hgroup
  obtain ⟨v, hv, hkind⟩ := Plan.exists_of_mem_synchronous h.wellFormed h.isLayering hgroup hi
  obtain rfl : x.2.id = v := Option.some.inj (hid.symm.trans hv)
  rw [Plan.kindOf, hd, Option.any_some] at hkind
  cases hasync : x.2.isAsync with
  | false => rfl
  | true => simp [hasync] at hkind

theorem Valid.declaration?_of_isWave (h : c.Valid) (hwave : c.IsWave settled wave)
    {x : StepId × Declaration} (hx : x ∈ wave) :
    c.program.declaration? x.2.id = some x.2 ∧ x.2.isVertex := by
  have hd := (h.mem_scheduled_iff.mp (hwave.mem_schedule hx)).2.2
  obtain ⟨d, hd', hvertex⟩ := h.mem_idsOf_schedule_iff.mp
    (List.mem_map_of_mem (f := fun x => x.2.id) (hwave.mem_schedule hx))
  obtain rfl : x.2 = d := Option.some.inj (hd.symm.trans hd')
  exact ⟨hd, hvertex⟩

theorem Valid.nodup_schedule (h : c.Valid) : (idsOf c.schedule).Nodup := by
  rw [h.idsOf_schedule_perm.nodup_iff, h.graph_eq]
  exact DependencyGraph.vertices_nodup h.wellFormed

/-- A step of a wave was not settled before, nor with the steps ahead of it in the wave. -/
theorem Valid.not_mem_idsOf_of_isWave (h : c.Valid)
    {settled wave before after : List (StepId × Declaration)} {x : StepId × Declaration}
    (hwave : c.IsWave settled wave) (hsplit : wave = before ++ x :: after) :
    x.2.id ∉ idsOf (settled ++ before) := by
  have hids : (idsOf (settled ++ before) ++ idsOf (x :: after)).Nodup := by
    rw [← idsOf_append, List.append_assoc, ← hsplit]
    exact h.nodup_schedule.sublist (hwave.next.sublist.map _)
  exact fun hmem => (List.nodup_append.mp hids).2.2 _ hmem _ List.mem_cons_self rfl

/-- A group runs in waves: each of its synchronous steps, and its asynchronous steps together. -/
theorem Valid.waves_of_group (h : c.Valid) {front back : List StepGroup} {group : StepGroup}
    (hgroups : c.plan.groups = front ++ group :: back) :
    (∀ before x after, c.scheduled group.synchronous = before ++ x :: after →
      x.2.isAsync = false ∧
        c.IsWave (c.scheduled (front.flatMap StepGroup.steps) ++ before) [x]) ∧
      c.IsWave (c.scheduled (front.flatMap StepGroup.steps) ++ c.scheduled group.synchronous)
        (c.scheduled group.asynchronous) := by
  have hgroup : group ∈ c.plan.groups := by rw [hgroups]; simp
  have hschedule : c.schedule = c.scheduled (front.flatMap StepGroup.steps) ++
      c.scheduled group.synchronous ++ c.scheduled group.asynchronous ++
      c.scheduled (back.flatMap StepGroup.steps) := by
    simp [schedule, hgroups, StepGroup.steps, scheduled_append]
  constructor
  · intro before x after hsplit
    have hmem : x ∈ c.scheduled group.synchronous := by rw [hsplit]; simp
    have hnext : c.schedule = (c.scheduled (front.flatMap StepGroup.steps) ++ before) ++ [x] ++
        (after ++ c.scheduled group.asynchronous ++
          c.scheduled (back.flatMap StepGroup.steps)) := by
      rw [hschedule, hsplit]
      simp
    refine ⟨h.isAsync_eq_false hgroup hmem, h.isWave hnext fun y hy z hz hdep => ?_⟩
    obtain rfl := List.mem_singleton.mp hy
    obtain rfl := List.mem_singleton.mp hz
    exact h.acyclic _ (.single hdep)
  · refine h.isWave hschedule fun x hx y hy hdep => ?_
    have hx' := (h.mem_scheduled_iff.mp hx).1
    have hy' := (h.mem_scheduled_iff.mp hy).1
    exact (h.areSafe.each group hgroup).alone y.1 hy' x.1 (List.mem_append_right _ hx')
      (h.reads_of_dependsOn hy hx hdep)

end Compilation

/-! ### Runs -/

/-- An entry that only marks where a group or a run begins or ends. -/
inductive Entry.IsMark : Entry → Prop where
  | groupStarted (index : Nat) (group : StepGroup) : IsMark (.groupStarted index group)
  | groupCompleted (index : Nat) : IsMark (.groupCompleted index)
  | stopped (index : Nat) : IsMark (.stopped index)

namespace Compilation

variable {σ : Type} {c : Compilation} {fs : Functions σ}

theorem runSynchronous_cons_of_stopped {x : StepId × Declaration}
    {rest : List (StepId × Declaration)} {pr : Progress σ}
    (hstopped : (c.runStep fs x.1 x.2 pr).stopped) :
    c.runSynchronous fs (x :: rest) pr = c.runStep fs x.1 x.2 pr := by
  simp only [runSynchronous, if_pos hstopped]

theorem runSynchronous_cons_of_running {x : StepId × Declaration}
    {rest : List (StepId × Declaration)} {pr : Progress σ}
    (hrunning : (c.runStep fs x.1 x.2 pr).stopped = false) :
    c.runSynchronous fs (x :: rest) pr =
      c.runSynchronous fs rest (c.runStep fs x.1 x.2 pr) := by
  simp only [runSynchronous, hrunning, Bool.false_eq_true, if_false]

theorem runGroup_of_stopped {index : Nat} {group : StepGroup} {pr : Progress σ}
    (hstopped : (c.runSynchronous fs (c.scheduled group.synchronous)
      (pr.note [.groupStarted index group])).stopped) :
    c.runGroup fs index group pr = (c.runSynchronous fs (c.scheduled group.synchronous)
      (pr.note [.groupStarted index group])).note [.groupCompleted index] := by
  simp only [runGroup, if_pos hstopped]

theorem runGroup_of_running {index : Nat} {group : StepGroup} {pr : Progress σ}
    (hrunning : (c.runSynchronous fs (c.scheduled group.synchronous)
      (pr.note [.groupStarted index group])).stopped = false) :
    c.runGroup fs index group pr = (c.runAsynchronous fs (c.scheduled group.asynchronous)
      (c.runSynchronous fs (c.scheduled group.synchronous)
        (pr.note [.groupStarted index group]))).note [.groupCompleted index] := by
  simp only [runGroup, hrunning, Bool.false_eq_true, if_false]

theorem runGroups_cons_of_stopped {index : Nat} {group : StepGroup} {rest : List StepGroup}
    {pr : Progress σ} (hstopped : (c.runGroup fs index group pr).stopped) :
    c.runGroups fs index (group :: rest) pr =
      (c.runGroup fs index group pr).note [.stopped index] := by
  simp only [runGroups, if_pos hstopped]

theorem runGroups_cons_of_running {index : Nat} {group : StepGroup} {rest : List StepGroup}
    {pr : Progress σ} (hrunning : (c.runGroup fs index group pr).stopped = false) :
    c.runGroups fs index (group :: rest) pr =
      c.runGroups fs (index + 1) rest (c.runGroup fs index group pr) := by
  simp only [runGroups, hrunning, Bool.false_eq_true, if_false]

/-- What is true of the steps that were settled and of the progress stays true with every wave. No
wave starts once the run has stopped. -/
structure Keeps (c : Compilation) (fs : Functions σ)
    (Inv : List (StepId × Declaration) → Progress σ → Prop) : Prop where
  mark : ∀ {settled pr} {entry : Entry}, entry.IsMark → Inv settled pr →
    Inv settled (pr.note [entry])
  step : ∀ {settled pr step d}, c.IsWave settled [(step, d)] → d.isAsync = false →
    pr.stopped = false → Inv settled pr → Inv (settled ++ [(step, d)]) (c.runStep fs step d pr)
  together : ∀ {settled pr steps}, c.IsWave settled steps → pr.stopped = false →
    Inv settled pr → Inv (settled ++ steps) (c.runAsynchronous fs steps pr)

namespace Keeps

variable {Inv : List (StepId × Declaration) → Progress σ → Prop} {pr : Progress σ}

/-- Synchronous steps are settled one by one, unless the run stops. -/
theorem runSynchronous (hInv : c.Keeps fs Inv) {settled steps : List (StepId × Declaration)}
    (hwaves : ∀ before x after, steps = before ++ x :: after →
      x.2.isAsync = false ∧ c.IsWave (settled ++ before) [x]) (hrunning : pr.stopped = false)
    (hpr : Inv settled pr) :
    ∃ ran, ran <+: steps ∧ Inv (settled ++ ran) (c.runSynchronous fs steps pr) ∧
      ((c.runSynchronous fs steps pr).stopped = false → ran = steps) := by
  induction steps generalizing settled pr with
  | nil =>
    rw [← List.append_nil settled] at hpr
    exact ⟨[], List.nil_prefix, hpr, fun _ => rfl⟩
  | cons x rest ih =>
    obtain ⟨step, d⟩ := x
    obtain ⟨hasync, hwave⟩ := hwaves [] (step, d) rest rfl
    rw [List.append_nil] at hwave
    have hstep := hInv.step hwave hasync hrunning hpr
    rw [Compilation.runSynchronous]
    by_cases hstopped : (c.runStep fs step d pr).stopped
    · refine ⟨[(step, d)], ⟨rest, rfl⟩, ?_, fun hrun => ?_⟩
      · simpa only [hstopped, if_true] using hstep
      · simp [hstopped] at hrun
    · obtain ⟨ran, hran, hend, hall⟩ := ih (fun before x after hsplit => by
        have hwaves' := hwaves ((step, d) :: before) x after (by rw [hsplit]; rfl)
        simpa using hwaves') (by simpa using hstopped) hstep
      refine ⟨(step, d) :: ran, ?_, ?_, fun hrun => ?_⟩
      · exact List.cons_prefix_cons.mpr ⟨rfl, hran⟩
      · simpa [hstopped] using hend
      · rw [hall (by simpa [hstopped] using hrun)]

/-- A group is settled as a whole, unless the run stops at a synchronous step. -/
theorem runGroup (h : c.Valid) (hInv : c.Keeps fs Inv) {front back : List StepGroup}
    {group : StepGroup} (hgroups : c.plan.groups = front ++ group :: back) (index : Nat)
    (hrunning : pr.stopped = false) (hpr : Inv (c.scheduled (front.flatMap StepGroup.steps)) pr) :
    ∃ ran, ran <+: c.scheduled group.steps ∧
      Inv (c.scheduled (front.flatMap StepGroup.steps) ++ ran) (c.runGroup fs index group pr) ∧
      ((c.runGroup fs index group pr).stopped = false → ran = c.scheduled group.steps) := by
  obtain ⟨hsynchronous, hasynchronous⟩ := h.waves_of_group hgroups
  have hstart : (pr.note [.groupStarted index group]).stopped = false := hrunning
  obtain ⟨ran, hran, hend, hall⟩ :=
    hInv.runSynchronous hsynchronous hstart (hInv.mark (.groupStarted index group) hpr)
  rw [StepGroup.steps, scheduled_append]
  by_cases hstopped : (c.runSynchronous fs (c.scheduled group.synchronous)
      (pr.note [.groupStarted index group])).stopped
  · rw [runGroup_of_stopped hstopped]
    refine ⟨ran, hran.trans (List.prefix_append _ _), hInv.mark (.groupCompleted index) hend, ?_⟩
    exact fun hrun => absurd (hstopped.symm.trans hrun) (by simp)
  · have hrunning' := Bool.eq_false_iff.mpr hstopped
    rw [runGroup_of_running hrunning']
    obtain rfl := hall hrunning'
    have htogether :=
      hInv.mark (.groupCompleted index) (hInv.together hasynchronous hrunning' hend)
    rw [List.append_assoc] at htogether
    exact ⟨_, List.prefix_rfl, htogether, fun _ => rfl⟩

theorem runGroups (h : c.Valid) (hInv : c.Keeps fs Inv) {front groups : List StepGroup}
    (hgroups : c.plan.groups = front ++ groups) (index : Nat) (hrunning : pr.stopped = false)
    (hpr : Inv (c.scheduled (front.flatMap StepGroup.steps)) pr) :
    ∃ settled, settled <+: c.schedule ∧ Inv settled (c.runGroups fs index groups pr) ∧
      ((c.runGroups fs index groups pr).stopped = false → settled = c.schedule) := by
  induction groups generalizing front index pr with
  | nil =>
    have hfront : c.scheduled (front.flatMap StepGroup.steps) = c.schedule := by
      rw [schedule, hgroups, List.append_nil]
    rw [hfront] at hpr
    exact ⟨c.schedule, List.prefix_rfl, hpr, fun _ => rfl⟩
  | cons group rest ih =>
    have hnext : c.scheduled ((front ++ [group]).flatMap StepGroup.steps) =
        c.scheduled (front.flatMap StepGroup.steps) ++ c.scheduled group.steps := by
      rw [List.flatMap_append, scheduled_append, List.flatMap_singleton]
    have hschedule : c.schedule = c.scheduled (front.flatMap StepGroup.steps) ++
        (c.scheduled group.steps ++ c.scheduled (rest.flatMap StepGroup.steps)) := by
      rw [schedule, hgroups, List.flatMap_append, List.flatMap_cons, scheduled_append,
        scheduled_append]
    obtain ⟨ran, hran, hend, hall⟩ := hInv.runGroup h hgroups index hrunning hpr
    rw [Compilation.runGroups]
    by_cases hstopped : (c.runGroup fs index group pr).stopped
    · simp only [hstopped, if_true]
      refine ⟨_, ?_, hInv.mark (.stopped index) hend, fun hrun => ?_⟩
      · rw [hschedule]
        exact (List.prefix_append_right_inj _).mpr (hran.trans (List.prefix_append _ _))
      · exact absurd (hstopped.symm.trans hrun) (by simp)
    · simp only [hstopped]
      have hrunning' := Bool.eq_false_iff.mpr hstopped
      obtain rfl := hall hrunning'
      rw [← hnext] at hend
      exact ih (by simpa using hgroups) (index + 1) hrunning' hend

/-- At the end of a run everything on the schedule is settled, unless the run has stopped. -/
theorem runPlan (h : c.Valid) (hInv : c.Keeps fs Inv) {arguments : List (String × Value)} {host : σ}
    (hstart : Inv [] (c.start arguments host)) :
    ∃ settled, settled <+: c.schedule ∧ Inv settled (c.runPlan fs arguments host) ∧
      ((c.runPlan fs arguments host).stopped = false → settled = c.schedule) :=
  @runGroups σ c fs Inv _ h hInv [] c.plan.groups rfl 0 rfl hstart

end Keeps

end Compilation

end FormulaEngine
