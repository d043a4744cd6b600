import FormulaEngine.Proofs.Run.Profiles
import FormulaEngine.Proofs.Run.Recording
import FormulaEngine.Proofs.Run.Telling

/-!
# Stopping at the first failure

A run that ends with its first failure is the beginning of one that goes on. As long as nothing
fails the two are the same. A synchronous step that fails is the last one, and with an asynchronous
one its group is finished. After that no step is started and no host function is called.
-/

namespace FormulaEngine

namespace Compilation

variable {σ : Type} {c : Compilation} {fs : Functions σ} {pr : Progress σ} {ids : List StepId}
  {events : List Event} {step : StepId} {d : Declaration} {group : StepGroup} {index : Nat}
  {steps : List (StepId × Declaration)} {groups : List StepGroup}

/-! ### Beside a run that goes on -/

/-- A compilation whose runs end with their first failure. -/
def stopping (c : Compilation) : Compilation := { c with profile := .minimal }

theorem settle_of_isValue {id : DeclId} {r : Except Fault Value}
    (h : (Outcome.settle id r).isValue) (failFast failFast' : Bool) (step : StepId)
    (pr : Progress σ) : pr.settle failFast step id r = pr.settle failFast' step id r := by
  cases r with
  | ok v => simp [Progress.settle, Progress.record, Outcome.settle, Outcome.isValue, Outcome.value?]
  | error fault => cases fault <;> cases h

theorem stopped_settle {id : DeclId} {r : Except Fault Value}
    (h : (Outcome.settle id r).isValue = false) (step : StepId) (pr : Progress σ) :
    (pr.settle true step id r).stopped := by
  simp [Progress.settle, h]

/-- From one moment on, a run that may stop has gone as one that goes on, and nothing was lost. -/
structure GoesOn (c : Compilation) (ids : List StepId) (pr through stopping : Progress σ) :
    Prop where
  same : stopping = through
  running : through.stopped = false
  told : ∃ events, c.program.Adds ids events pr through ∧
    events.findSome? Event.lostStep? = none

/-- From one moment on, a run has gone up to the first step that was lost, or to the end of its
group, and another one has gone on. -/
structure StopsAt (c : Compilation) (ids : List StepId) (group : StepGroup) (step : StepId)
    (pr through stopping : Progress σ) : Prop where
  stopped : stopping.stopped
  told : ∃ events cut, c.program.Adds ids events pr through ∧ c.program.Adds ids cut pr stopping ∧
    group.IsCutAt Event.lostStep? step events cut

variable {mid through stopping through' : Progress σ} {ids' : List StepId}

theorem GoesOn.refl (hrunning : pr.stopped = false) : c.GoesOn [] pr pr pr :=
  ⟨rfl, hrunning, [], .refl pr, rfl⟩

theorem GoesOn.trans (h : c.GoesOn ids pr mid mid) (h' : c.GoesOn ids' mid through stopping) :
    c.GoesOn (ids ++ ids') pr through stopping := by
  obtain ⟨events, hadds, hnone⟩ := h.told
  obtain ⟨events', hadds', hnone'⟩ := h'.told
  refine ⟨h'.same, h'.running, _, hadds.trans hadds', ?_⟩
  rw [List.findSome?_append, hnone, hnone']
  rfl

theorem GoesOn.stopsAt (h : c.GoesOn ids pr mid mid)
    (h' : c.StopsAt ids' group step mid through stopping) :
    c.StopsAt (ids ++ ids') group step pr through stopping := by
  obtain ⟨events, hadds, hnone⟩ := h.told
  obtain ⟨events', cut, hevents, hcut, hat⟩ := h'.told
  exact ⟨h'.stopped, _, _, hadds.trans hevents, hadds.trans hcut, hat.after_nothing hnone⟩

theorem StopsAt.of_synchronous (h : c.StopsAt ids ⟨ids', []⟩ step pr through stopping)
    (hids : ids' ⊆ group.synchronous) : c.StopsAt ids group step pr through stopping := by
  obtain ⟨events, cut, hevents, hcut, hat⟩ := h.told
  exact ⟨h.stopped, events, cut, hevents, hcut, hat.of_synchronous hids⟩

theorem StopsAt.followed (h : c.StopsAt ids group step pr through stopping)
    (hadds : c.program.Adds ids' events through through')
    (hother : step ∈ group.asynchronous → ∀ i ∈ ids', i ∉ group.steps) :
    c.StopsAt (ids ++ ids') group step pr through' stopping := by
  obtain ⟨told, cut, hevents, hcut, hat⟩ := h.told
  refine ⟨h.stopped, _, cut, hevents.trans hadds, hcut.mono (List.subset_append_left _ _),
    hat.followed fun hstep e he i hi hei => ?_⟩
  obtain ⟨k, hk, hek⟩ := hadds.told e he
  obtain rfl : i = k := Option.some.inj (hei.symm.trans hek)
  exact hother hstep i hk hi

theorem runStep_stopping (fs : Functions σ) (step : StepId) (d : Declaration) (pr : Progress σ)
    (hcontains : c.failFast = false) (hrunning : pr.stopped = false) :
    c.GoesOn [step] pr (c.runStep fs step d pr) (c.stopping.runStep fs step d pr) ∨
      c.StopsAt [step] ⟨[step], []⟩ step pr (c.runStep fs step d pr)
        (c.stopping.runStep fs step d pr) := by
  have hadds := @adds_runStep σ c fs step d pr
  cases hvalue : (Outcome.settle d.id (c.resultOfStep fs d pr)).isValue with
  | true =>
    refine .inl ⟨settle_of_isValue hvalue _ _ _ _, (stopped_runStep hcontains).trans hrunning,
      _, hadds, ?_⟩
    have hkept := Outcome.lostStep?_event (Outcome.settle d.id (c.resultOfStep fs d pr)) step
      (c.program.qualifiedName d.id)
    rw [if_pos hvalue] at hkept
    rw [List.findSome?_cons, List.findSome?_cons, hkept]
    rfl
  | false =>
    have hlost := Outcome.lostStep?_event (Outcome.settle d.id (c.resultOfStep fs d pr)) step
      (c.program.qualifiedName d.id)
    rw [if_neg (by simp [hvalue])] at hlost
    refine .inr ⟨stopped_settle hvalue _ _, _, _, hadds, hadds.of_journal rfl, ?_⟩
    exact @StepGroup.IsCutAt.synchronous ⟨[step], []⟩ _ _ [_] [] _ (List.mem_singleton_self _) rfl
      hlost

theorem runSynchronous_stopping (fs : Functions σ) (hcontains : c.failFast = false)
    (steps : List (StepId × Declaration)) (pr : Progress σ) (hrunning : pr.stopped = false) :
    c.GoesOn (steps.map Prod.fst) pr (c.runSynchronous fs steps pr)
        (c.stopping.runSynchronous fs steps pr) ∨
      ∃ before x after, steps = before ++ x :: after ∧
        c.StopsAt (steps.map Prod.fst) ⟨steps.map Prod.fst, []⟩ x.1 pr
          (c.runSynchronous fs steps pr) (c.stopping.runSynchronous fs steps pr) ∧
        (c.stopping.runSynchronous fs steps pr).SameMoment c.program
          (c.runSynchronous fs (before ++ [x]) pr) := by
  induction steps generalizing pr with
  | nil => exact .inl (.refl hrunning)
  | cons x rest ih =>
    have hstep : (c.runStep fs x.1 x.2 pr).stopped = false :=
      (stopped_runStep hcontains).trans hrunning
    have hcons : ∀ steps, c.runSynchronous fs (x :: steps) pr =
        c.runSynchronous fs steps (c.runStep fs x.1 x.2 pr) :=
      fun _ => runSynchronous_cons_of_running hstep
    rcases runStep_stopping fs x.1 x.2 pr hcontains hrunning with hgoes | hstops
    · have hcons' : c.stopping.runSynchronous fs (x :: rest) pr =
          c.stopping.runSynchronous fs rest (c.runStep fs x.1 x.2 pr) := by
        rw [← hgoes.same]
        exact runSynchronous_cons_of_running (hgoes.same ▸ hstep)
      rw [hgoes.same] at hgoes
      rw [hcons, hcons', List.map_cons]
      rcases ih (c.runStep fs x.1 x.2 pr) hstep with
        hrest | ⟨before, y, after, hsplit, hrest, hsame⟩
      · exact .inl (hgoes.trans hrest)
      · refine .inr ⟨x :: before, y, after, by rw [hsplit]; rfl, ?_, ?_⟩
        · exact (hgoes.stopsAt hrest).of_synchronous (List.subset_cons_self _ _)
        · rw [List.cons_append, hcons]
          exact hsame
    · have hcons' : c.stopping.runSynchronous fs (x :: rest) pr =
          c.stopping.runStep fs x.1 x.2 pr := runSynchronous_cons_of_stopped hstops.stopped
      obtain ⟨events, hrest⟩ := exists_adds_runSynchronous c fs rest (c.runStep fs x.1 x.2 pr)
      rw [hcons, hcons', List.map_cons]
      refine .inr ⟨[], x, rest, rfl, ?_, ?_⟩
      · exact (hstops.followed hrest fun h => absurd h List.not_mem_nil).of_synchronous (by simp)
      · rw [List.nil_append, hcons]
        exact ⟨rfl, rfl, rfl⟩

theorem host_settleAll (steps : List (StepId × Declaration))
    (results : List (Except Fault Value)) (pr : Progress σ) :
    (c.settleAll steps results pr).host = pr.host := by
  unfold settleAll
  induction steps.zip results generalizing pr with
  | nil => rfl
  | cons x rest ih => exact ih _

theorem slots_settleAll (steps : List (StepId × Declaration))
    (results : List (Except Fault Value)) (pr : Progress σ) :
    (c.settleAll steps results pr).slots =
      (steps.zip results).foldl (fun s x => s.insert x.1.2.id (.settle x.1.2.id x.2)) pr.slots := by
  unfold settleAll
  induction steps.zip results generalizing pr with
  | nil => rfl
  | cons x rest ih => exact ih _

/-- Whether a run may stop makes no difference to what its steps come to. -/
theorem sameMoment_settleAll (steps : List (StepId × Declaration))
    (results : List (Except Fault Value)) (pr : Progress σ) :
    (c.stopping.settleAll steps results pr).SameMoment c.program
      (c.settleAll steps results pr) := by
  refine ⟨?_, ?_, ?_⟩
  · rw [slots_settleAll, slots_settleAll]
  · rw [host_settleAll, host_settleAll]
  · rw [journal_settleAll, journal_settleAll]

theorem stopped_settleAll_eq (steps : List (StepId × Declaration))
    (results : List (Except Fault Value)) (pr : Progress σ) :
    (c.settleAll steps results pr).stopped = (pr.stopped || c.failFast &&
      (steps.zip results).any fun x => !(Outcome.settle x.1.2.id x.2).isValue) := by
  unfold settleAll
  induction steps.zip results generalizing pr with
  | nil => simp
  | cons x rest ih =>
    rw [List.foldl_cons, ih, List.any_cons, Bool.and_or_distrib_left, ← Bool.or_assoc]
    rfl

theorem settleAll_of_isValue {results : List (Except Fault Value)}
    (hvalues : ∀ x ∈ steps.zip results, (Outcome.settle x.1.2.id x.2).isValue) (pr : Progress σ) :
    c.stopping.settleAll steps results pr = c.settleAll steps results pr := by
  unfold settleAll
  generalize steps.zip results = settled at hvalues
  induction settled generalizing pr with
  | nil => rfl
  | cons x rest ih =>
    have hfirst := settle_of_isValue (hvalues x List.mem_cons_self) c.stopping.failFast c.failFast
      x.1.1 pr
    rw [List.foldl_cons, List.foldl_cons, hfirst]
    exact ih _ fun y hy => hvalues y (List.mem_cons_of_mem _ hy)

/-- An asynchronous step that is lost is told of with the others of its group. -/
theorem findSome?_eventsOf (steps : List (StepId × Declaration))
    (results : List (Except Fault Value)) :
    (c.eventsOf steps results).findSome? Event.lostStep? = none ↔
      ∀ x ∈ steps.zip results, (Outcome.settle x.1.2.id x.2).isValue := by
  rw [eventsOf, List.findSome?_eq_none_iff]
  constructor
  · intro hnone x hx
    have hevent := hnone _ (List.mem_append_right _ (List.mem_map_of_mem hx))
    rw [Outcome.lostStep?_event] at hevent
    by_contra hlost
    rw [if_neg hlost] at hevent
    cases hevent
  · intro hvalues e he
    rcases List.mem_append.mp he with he | he
    · obtain ⟨x, -, rfl⟩ := List.mem_map.mp he
      rfl
    · obtain ⟨x, hx, rfl⟩ := List.mem_map.mp he
      rw [Outcome.lostStep?_event, if_pos (hvalues x hx)]

theorem runAsynchronous_stopping (fs : Functions σ) (hcontains : c.failFast = false)
    (steps : List (StepId × Declaration)) (pr : Progress σ) (hrunning : pr.stopped = false)
    (hgroup : steps.map Prod.fst ⊆ group.asynchronous) :
    c.GoesOn (steps.map Prod.fst) pr (c.runAsynchronous fs steps pr)
        (c.stopping.runAsynchronous fs steps pr) ∨
      ∃ step ∈ steps.map Prod.fst, c.StopsAt (steps.map Prod.fst) group step pr
          (c.runAsynchronous fs steps pr) (c.stopping.runAsynchronous fs steps pr) ∧
        (c.stopping.runAsynchronous fs steps pr).SameMoment c.program
          (c.runAsynchronous fs steps pr) := by
  have hadds := @adds_runAsynchronous σ c fs steps pr
  cases hlost : (c.eventsOf steps (c.resultsOf fs steps pr)).findSome? Event.lostStep? with
  | none =>
    have hvalues := (findSome?_eventsOf steps _).mp hlost
    exact .inl ⟨settleAll_of_isValue hvalues _, (stopped_settleAll hcontains).trans hrunning,
      _, hadds, hlost⟩
  | some step =>
    have hstopped : (c.stopping.runAsynchronous fs steps pr).stopped := by
      by_contra hstopped
      have hall := (stopped_settleAll_eq steps (c.resultsOf fs steps pr) _).symm.trans
        (Bool.eq_false_iff.mpr hstopped)
      rw [(findSome?_eventsOf steps _).mpr ?_] at hlost
      · cases hlost
      · intro x hx
        simpa using (List.any_eq_false.mp ((Bool.or_eq_false_iff.mp hall).2)) x hx
    obtain ⟨e, he, hstep⟩ := List.exists_of_findSome?_eq_some hlost
    obtain ⟨i, hi, hei⟩ := hadds.told e he
    obtain rfl : step = i := Option.some.inj ((Event.step?_of_lostStep? hstep).symm.trans hei)
    have hne := List.ne_nil_of_mem he
    have hsplit := List.dropLast_append_getLast hne
    have hcut : c.program.Adds (steps.map Prod.fst)
        (c.eventsOf steps (c.resultsOf fs steps pr)) pr
        (c.stopping.runAsynchronous fs steps pr) := by
      refine hadds.of_journal ?_
      exact (journal_settleAll _ _ _).trans (journal_settleAll _ _ _).symm
    refine .inr ⟨step, hi, ⟨hstopped, _, _, hadds, hcut, ?_⟩, ?_⟩
    · obtain ⟨k, hk, hek⟩ := hadds.told _ (List.getLast_mem hne)
      rw [← hsplit] at hlost ⊢
      exact .asynchronous (hgroup hi) hlost
        ⟨k, List.mem_append_right _ (hgroup hk), hek⟩ fun e' he' => absurd he' List.not_mem_nil
    · exact sameMoment_settleAll _ _ _

/-! ### Groups and plans -/

theorem GoesOn.marked {first last : List Entry} (hfirst : c.program.stepEvents first = [])
    (hlast : c.program.stepEvents last = []) (h : c.GoesOn ids (pr.note first) through stopping) :
    c.GoesOn ids pr (through.note last) (stopping.note last) := by
  obtain ⟨events, hadds, hnone⟩ := h.told
  exact ⟨by rw [h.same], h.running, events, (hadds.note_left hfirst).note_right hlast, hnone⟩

theorem StopsAt.marked {first last last' : List Entry} (hfirst : c.program.stepEvents first = [])
    (hlast : c.program.stepEvents last = []) (hlast' : c.program.stepEvents last' = [])
    (h : c.StopsAt ids group step (pr.note first) through stopping) :
    c.StopsAt ids group step pr (through.note last) (stopping.note last') := by
  obtain ⟨events, cut, hevents, hcut, hat⟩ := h.told
  exact ⟨h.stopped, events, cut, (hevents.note_left hfirst).note_right hlast,
    (hcut.note_left hfirst).note_right hlast', hat⟩

/-- Scheduled steps are found again under their numbers. -/
theorem scheduled_map_fst (hsteps : steps ⊆ c.scheduled ids) :
    c.scheduled (steps.map Prod.fst) = steps := by
  unfold scheduled at hsteps ⊢
  rw [List.filterMap_map]
  refine (List.filterMap_congr fun x hx => ?_).trans List.filterMap_some
  obtain ⟨i, -, hi⟩ := List.mem_filterMap.mp (hsteps hx)
  have hfst : x.1 = i := by
    simp only [Option.bind_eq_bind, Option.bind_eq_some_iff, Option.some.injEq] at hi
    obtain ⟨s, -, d, -, rfl⟩ := hi
    rfl
  rw [← hfst] at hi
  exact hi

theorem sameMoment_runSynchronous (fs : Functions σ) {pr pr' : Progress σ}
    (h : pr.SameMoment c.program pr') (hstopped : pr.stopped = pr'.stopped)
    (steps : List (StepId × Declaration)) :
    (c.runSynchronous fs steps pr).SameMoment c.program (c.runSynchronous fs steps pr') := by
  induction steps generalizing pr pr' with
  | nil => exact h
  | cons x rest ih =>
    have hresult : c.resultOfStep fs x.2 pr = c.resultOfStep fs x.2 pr' := by
      rw [resultOfStep, resultOfStep, h.slots, h.host]
    have hstopped' : (c.runStep fs x.1 x.2 pr).stopped = (c.runStep fs x.1 x.2 pr').stopped := by
      change (pr.stopped ||
          c.failFast && !(Outcome.settle x.2.id (c.resultOfStep fs x.2 pr)).isValue) =
        (pr'.stopped ||
          c.failFast && !(Outcome.settle x.2.id (c.resultOfStep fs x.2 pr')).isValue)
      rw [hstopped, hresult]
    have hstep : (c.runStep fs x.1 x.2 pr).SameMoment c.program (c.runStep fs x.1 x.2 pr') := by
      refine ⟨?_, ?_, ?_⟩
      · change pr.slots.insert x.2.id (.settle x.2.id (c.resultOfStep fs x.2 pr)) =
          pr'.slots.insert x.2.id (.settle x.2.id (c.resultOfStep fs x.2 pr'))
        rw [h.slots, hresult]
      · change ((c.routine fs .synchronous pr.slots x.2).run fs pr.host).host =
          ((c.routine fs .synchronous pr'.slots x.2).run fs pr'.host).host
        rw [h.slots, h.host]
      · rw [(adds_runStep x.1 x.2 pr).journal, (adds_runStep x.1 x.2 pr').journal, h.events,
          hresult]
    rw [runSynchronous, runSynchronous]
    simp only [hstopped']
    split
    · exact hstep
    · exact ih hstep hstopped'

/-- A group that is cut after one of its synchronous steps runs up to this step. -/
theorem sameMoment_runGroup_upTo (h : c.Valid) (fs : Functions σ)
    (hgroup : ∀ i ∈ group.synchronous, i < c.plan.size) (hnodup : group.synchronous.Nodup)
    {before after : List (StepId × Declaration)} {x : StepId × Declaration}
    (hsplit : c.scheduled group.synchronous = before ++ x :: after)
    (index : Nat) (pr : Progress σ) :
    (c.runSynchronous fs (before ++ [x]) (pr.note [.groupStarted index group])).SameMoment
      c.program (c.runGroup fs index (group.upTo x.1) pr) := by
  have hids : group.synchronous = before.map Prod.fst ++ x.1 :: after.map Prod.fst := by
    rw [← h.map_fst_scheduled hgroup, hsplit, List.map_append, List.map_cons]
  have hnew : x.1 ∉ before.map Prod.fst := by
    rw [hids] at hnodup
    exact fun hmem => (List.nodup_append.mp hnodup).2.2 _ hmem _ List.mem_cons_self rfl
  have hscheduled : c.scheduled (before.map Prod.fst ++ [x.1]) = before ++ [x] := by
    have hsub : before ++ [x] ⊆ c.scheduled group.synchronous := by
      rw [hsplit]
      exact List.append_subset.mpr ⟨List.subset_append_left _ _, by simp⟩
    rw [← scheduled_map_fst hsub, List.map_append]
    rfl
  have hstarted : (pr.note [.groupStarted index group]).SameMoment c.program
      (pr.note [.groupStarted index (group.upTo x.1)]) :=
    ((Progress.SameMoment.refl pr).note_left rfl).note_right rfl
  rw [StepGroup.upTo_of_synchronous hids hnew] at hstarted ⊢
  rw [runGroup, hscheduled]
  simp only [scheduled, List.filterMap_nil, runAsynchronous_nil, ite_self]
  have hran := sameMoment_runSynchronous fs hstarted rfl (before ++ [x])
  exact hran.note_right rfl

theorem stopped_runSynchronous (fs : Functions σ) (hcontains : c.failFast = false)
    (steps : List (StepId × Declaration)) (pr : Progress σ) (hrunning : pr.stopped = false) :
    (c.runSynchronous fs steps pr).stopped = false := by
  induction steps generalizing pr with
  | nil => exact hrunning
  | cons x rest ih =>
    have hstep : (c.runStep fs x.1 x.2 pr).stopped = false :=
      (stopped_runStep hcontains).trans hrunning
    rw [runSynchronous_cons_of_running hstep]
    exact ih _ hstep

theorem runGroup_stopping (h : c.Valid) (fs : Functions σ) (hcontains : c.failFast = false)
    (hgroup : ∀ i ∈ group.steps, i < c.plan.size) (hnodup : group.steps.Nodup) (index : Nat)
    (pr : Progress σ) (hrunning : pr.stopped = false) :
    c.GoesOn group.steps pr (c.runGroup fs index group pr)
        (c.stopping.runGroup fs index group pr) ∨
      ∃ step, c.StopsAt group.steps group step pr (c.runGroup fs index group pr)
          (c.stopping.runGroup fs index group pr) ∧
        (c.stopping.runGroup fs index group pr).SameMoment c.program
          (c.runGroup fs index (group.upTo step) pr) := by
  obtain ⟨hsynchronous, -, hdisjoint⟩ := List.nodup_append.mp hnodup
  have hids := h.map_fst_scheduled fun i hi => hgroup i (List.mem_append_left _ hi)
  have hids' := h.map_fst_scheduled fun i hi => hgroup i (List.mem_append_right _ hi)
  have hstarted : (pr.note [.groupStarted index group]).stopped = false := hrunning
  rcases runSynchronous_stopping fs hcontains (c.scheduled group.synchronous) _ hstarted with
    hgoes | ⟨before, x, after, hsplit, hstops, hsame⟩
  · have hthrough := runGroup_of_running hgoes.running
    have hstopping : c.stopping.runGroup fs index group pr =
        (c.stopping.runAsynchronous fs (c.scheduled group.asynchronous)
          (c.runSynchronous fs (c.scheduled group.synchronous)
            (pr.note [.groupStarted index group]))).note [.groupCompleted index] := by
      rw [← hgoes.same]
      exact runGroup_of_running (hgoes.same ▸ hgoes.running)
    rw [hgoes.same, hids] at hgoes
    rw [hthrough, hstopping]
    rcases runAsynchronous_stopping fs hcontains (c.scheduled group.asynchronous) _ hgoes.running
      (by rw [hids']; exact List.Subset.refl _) with hgoes' | ⟨step, hstep, hstops, hsame⟩
    · rw [hids'] at hgoes'
      exact .inl ((hgoes.trans hgoes').marked rfl rfl)
    · rw [hids'] at hstops hstep
      have hnew : step ∉ group.synchronous := fun hmem => hdisjoint _ hmem _ hstep rfl
      refine .inr ⟨step, (hgoes.stopsAt hstops).marked rfl rfl rfl, ?_⟩
      rw [StepGroup.upTo_of_not_synchronous hnew, hthrough]
      exact (hsame.note_left rfl).note_right rfl
  · have hthrough := runGroup_of_running
      (stopped_runSynchronous fs hcontains (c.scheduled group.synchronous) _ hstarted)
    have hstopping : c.stopping.runGroup fs index group pr =
        (c.stopping.runSynchronous fs (c.scheduled group.synchronous)
          (pr.note [.groupStarted index group])).note [.groupCompleted index] :=
      runGroup_of_stopped hstops.stopped
    have hadds := @adds_runAsynchronous σ c fs (c.scheduled group.asynchronous)
      (c.runSynchronous fs (c.scheduled group.synchronous) (pr.note [.groupStarted index group]))
    rw [hids] at hstops
    rw [hids'] at hadds
    rw [hthrough, hstopping]
    refine .inr ⟨x.1, ?_, ?_⟩
    · have hfollowed := hstops.followed hadds fun hmem => absurd hmem List.not_mem_nil
      exact (hfollowed.of_synchronous (List.Subset.refl _)).marked rfl rfl rfl
    · have hgroup' : ∀ i ∈ group.synchronous, i < c.plan.size :=
        fun i hi => hgroup i (List.mem_append_left _ hi)
      have hupTo := sameMoment_runGroup_upTo h fs hgroup' hsynchronous hsplit index pr
      exact (hsame.trans hupTo).note_left rfl

theorem stopped_runGroup (fs : Functions σ) (hcontains : c.failFast = false) (index : Nat)
    (group : StepGroup) (pr : Progress σ) (hrunning : pr.stopped = false) :
    (c.runGroup fs index group pr).stopped = false := by
  have hsynchronous := stopped_runSynchronous fs hcontains (c.scheduled group.synchronous)
    (pr.note [.groupStarted index group]) hrunning
  rw [runGroup_of_running hsynchronous]
  exact (stopped_settleAll hcontains).trans hsynchronous

theorem runGroups_stopping (h : c.Valid) (fs : Functions σ) (hcontains : c.failFast = false)
    (hgroups : ∀ i ∈ groups.flatMap StepGroup.steps, i < c.plan.size)
    (hnodup : (groups.flatMap StepGroup.steps).Nodup) (index : Nat) (pr : Progress σ)
    (hrunning : pr.stopped = false) :
    c.GoesOn (groups.flatMap StepGroup.steps) pr (c.runGroups fs index groups pr)
        (c.stopping.runGroups fs index groups pr) ∨
      ∃ group ∈ groups, ∃ step, c.StopsAt (groups.flatMap StepGroup.steps) group step pr
          (c.runGroups fs index groups pr) (c.stopping.runGroups fs index groups pr) ∧
        (c.stopping.runGroups fs index groups pr).SameMoment c.program
          (c.runGroups fs index (StepGroup.allUpTo step groups) pr) := by
  induction groups generalizing index pr with
  | nil => exact .inl (.refl hrunning)
  | cons group rest ih =>
    rw [List.flatMap_cons] at hgroups hnodup ⊢
    obtain ⟨hfirst, hrest, hdisjoint⟩ := List.nodup_append.mp hnodup
    have hsize : ∀ i ∈ rest.flatMap StepGroup.steps, i < c.plan.size :=
      fun i hi => hgroups i (List.mem_append_right _ hi)
    have hcons : ∀ (group : StepGroup) groups, c.runGroups fs index (group :: groups) pr =
        c.runGroups fs (index + 1) groups (c.runGroup fs index group pr) := fun group _ =>
      runGroups_cons_of_running (stopped_runGroup fs hcontains index group pr hrunning)
    rcases runGroup_stopping h fs hcontains
      (fun i hi => hgroups i (List.mem_append_left _ hi)) hfirst index pr hrunning with
      hgoes | ⟨step, hstops, hsame⟩
    · have hcons' : c.stopping.runGroups fs index (group :: rest) pr =
          c.stopping.runGroups fs (index + 1) rest (c.runGroup fs index group pr) := by
        rw [← hgoes.same]
        exact runGroups_cons_of_running (hgoes.same ▸ hgoes.running)
      have hrunning' := hgoes.running
      rw [hgoes.same] at hgoes
      rw [hcons, hcons']
      rcases ih hsize hrest (index + 1) _ hrunning' with
        hgoes' | ⟨group', hgroup', step, hstops, hsame⟩
      · exact .inl (hgoes.trans hgoes')
      · obtain ⟨_, _, -, -, hat⟩ := hstops.told
        have hlater : step ∈ rest.flatMap StepGroup.steps :=
          List.mem_flatMap.mpr ⟨group', hgroup', hat.mem_steps⟩
        have hnew : step ∉ group.steps := fun hmem => hdisjoint _ hmem _ hlater rfl
        refine .inr ⟨group', List.mem_cons_of_mem _ hgroup', step, hgoes.stopsAt hstops, ?_⟩
        rw [StepGroup.allUpTo, if_neg hnew, hcons]
        exact hsame
    · have hcons' : c.stopping.runGroups fs index (group :: rest) pr =
          (c.stopping.runGroup fs index group pr).note [.stopped index] :=
        runGroups_cons_of_stopped hstops.stopped
      obtain ⟨events, hadds⟩ := exists_adds_runGroups h fs (index + 1) hsize
        (c.runGroup fs index group pr)
      have hat : step ∈ group.steps := by
        obtain ⟨_, _, -, -, hat⟩ := hstops.told
        exact hat.mem_steps
      rw [hcons, hcons']
      refine .inr ⟨group, List.mem_cons_self, step, ?_, ?_⟩
      · have hfollowed := hstops.followed hadds fun _ i hi hmem => hdisjoint _ hmem _ hi rfl
        obtain ⟨hstopped, told, cut, hevents, hcut, hat⟩ := hfollowed
        exact ⟨hstopped, told, cut, hevents, hcut.note_right rfl, hat⟩
      · rw [StepGroup.allUpTo, if_pos hat, hcons]
        exact hsame.note_left rfl

/-- What observers are told of the steps in a run. -/
def told (c : Compilation) (fs : Functions σ) (arguments : List (String × Value)) (host : σ) :
    List Event :=
  c.program.stepEvents (c.journalOf (c.runPlan fs arguments host))

theorem told_eq (arguments : List (String × Value)) (host : σ) :
    c.told fs arguments host = c.program.stepEvents (c.runPlan fs arguments host).journal := by
  rw [told, journalOf, c.program.stepEvents_append]
  exact List.append_nil _

theorem told_recorded (arguments : List (String × Value)) (host : σ) :
    c.told fs.recorded arguments (host, []) = c.told fs arguments host := by
  rw [told_eq, told_eq, runPlan_recorded c fs]
  rfl

/-- A run that skips nothing loses only what fails. -/
theorem failedStep?_eq_of_skipsNothing {p : Program} (hskips : SkipsNothing pr) {e : Event}
    (he : e ∈ p.stepEvents pr.journal) : e.failedStep? = e.lostStep? := by
  cases e with
  | stepSkipped step name cause =>
    obtain ⟨entry, hmem, hentry⟩ := List.mem_filterMap.mp (List.mem_of_mem_filter he)
    cases entry with
    | stepSettled step' id o =>
      rw [Entry.event?_stepSettled] at hentry
      cases o with
      | skipped cause' => exact absurd hmem (hskips.journal step' id cause')
      | _ => cases hentry
    | _ => cases hentry
  | _ => rfl

theorem stepEvents_of_adds_start {arguments : List (String × Value)} {host : σ}
    (hadds : c.program.Adds ids events (c.start arguments host) pr) :
    c.program.stepEvents pr.journal = events := by
  rw [hadds.journal, Program.stepEvents, filterMap_event?_start]
  rfl

/-- A run that may stop, beside one that goes on: they are the same if nothing fails, and else the
first one goes as far as the other does in the groups up to the first failure. -/
theorem runPlan_stopping (h : c.Valid) (h' : c.stopping.Valid) (hcontains : c.failFast = false)
    (fs : Functions σ) (arguments : List (String × Value)) (host : σ) :
    ((c.told fs arguments host).findSome? Event.failedStep? = none ∧
      c.stopping.runPlan fs arguments host = c.runPlan fs arguments host) ∨
    ∃ group ∈ c.plan.groups, ∃ step,
      group.IsCutAt Event.failedStep? step (c.told fs arguments host)
        (c.stopping.told fs arguments host) ∧
      (c.stopping.runPlan fs arguments host).SameMoment c.program
        (c.runGroups fs 0 (StepGroup.allUpTo step c.plan.groups) (c.start arguments host)) := by
  have honce := h.isSafeSchedule.occurs_once
  rw [told_eq, told_eq]
  rcases runGroups_stopping h fs hcontains
    (fun i hi => List.mem_range.mp (honce.mem_iff.mp hi)) (honce.nodup_iff.mpr List.nodup_range) 0
    (c.start arguments host) rfl with hgoes | ⟨group, hgroup, step, hstops, hsame⟩
  · obtain ⟨events, hadds, hnone⟩ := hgoes.told
    refine .inl ⟨?_, hgoes.same⟩
    rw [runPlan, stepEvents_of_adds_start hadds, List.findSome?_eq_none_iff]
    intro e he
    have hkept := List.findSome?_eq_none_iff.mp hnone e he
    cases e with
    | stepFailed step name error => cases hkept
    | _ => rfl
  · obtain ⟨events, cut, hevents, hcut, hat⟩ := hstops.told
    refine .inr ⟨group, hgroup, step, ?_, hsame⟩
    have hskips := h'.skipsNothing_runPlan rfl fs arguments host
    have hstopping : c.program.stepEvents (c.stopping.runPlan fs arguments host).journal = cut :=
      stepEvents_of_adds_start hcut
    have hfailed : group.IsCutAt Event.failedStep? step events cut := by
      apply hat.congr
      intro e he
      exact failedStep?_eq_of_skipsNothing hskips (hstopping ▸ he)
    rw [runPlan, stepEvents_of_adds_start hevents]
    exact hstopping.symm ▸ hfailed

/-- A run that ends with its first failure, beside one that goes on after it: it is told of as far
as that step if it is synchronous, and else as far as its group. No later step is started, and only
the functions that are called up to there are called. -/
structure EndsAt (trace minimal : Compilation) (fs : Functions σ)
    (arguments : List (String × Value)) (host host' : σ) (group : StepGroup) (step : StepId) :
    Prop where
  mem_groups : group ∈ trace.plan.groups
  kind : ∃ s, trace.plan.step? step = some s ∧ (s.isAsync ↔ step ∈ group.asynchronous)
  cut : group.IsCutAt Event.failedStep? step (trace.told fs arguments host)
    (minimal.told fs arguments host')
  steps : ∀ e ∈ minimal.told fs arguments host',
    ∃ i ∈ (StepGroup.allUpTo step trace.plan.groups).flatMap StepGroup.steps, e.step? = some i
  calls : minimal.callsIn fs minimal.plan.groups arguments host' =
    trace.callsIn fs (StepGroup.allUpTo step trace.plan.groups) arguments host'

theorem Valid.kind_of_mem_steps (h : c.Valid) (hgroup : group ∈ c.plan.groups)
    (hstep : step ∈ group.steps) :
    ∃ s, c.plan.step? step = some s ∧ (s.isAsync ↔ step ∈ group.asynchronous) := by
  have hsafe := h.isSafeSchedule
  by_cases hasync : step ∈ group.asynchronous
  · obtain ⟨s, d, hs, -, hkind, -⟩ := hsafe.asynchronous group hgroup step hasync
    exact ⟨s, hs, by simp [hkind, hasync]⟩
  · have hsync : step ∈ group.synchronous := (List.mem_append.mp hstep).resolve_right hasync
    obtain ⟨s, d, hs, -, hkind, -⟩ := hsafe.synchronous group hgroup step hsync
    exact ⟨s, hs, by simp [hkind, hasync]⟩

theorem endsAt_of_isCutAt (h : c.Valid) (h' : c.stopping.Valid) (hcontains : c.failFast = false)
    (arguments : List (String × Value)) (host : σ) {first : StepId}
    (hfirst : (c.told fs arguments host).findSome? Event.failedStep? = some first) :
    ∃ group, c.EndsAt c.stopping fs arguments host host group first := by
  rcases runPlan_stopping h h' hcontains fs arguments host with
    ⟨hnone, -⟩ | ⟨group, hgroup, step, hcut, hsame⟩
  · exact absurd (hfirst.symm.trans hnone) (by simp)
  obtain rfl : step = first := Option.some.inj (hcut.findSome?.symm.trans hfirst)
  refine ⟨group, hgroup, h.kind_of_mem_steps hgroup hcut.mem_steps, hcut, ?_, ?_⟩
  · have hsize : ∀ i ∈ (StepGroup.allUpTo step c.plan.groups).flatMap StepGroup.steps,
        i < c.plan.size := fun i hi => List.mem_range.mp
      (h.isSafeSchedule.occurs_once.mem_iff.mp (StepGroup.allUpTo_subset step _ hi))
    obtain ⟨events, hadds⟩ := exists_adds_runGroups h fs 0 hsize (c.start arguments host)
    have htold : c.stopping.told fs arguments host = events := by
      rw [told_eq, ← stepEvents_of_adds_start hadds]
      exact hsame.events
    rw [htold]
    exact hadds.told
  · -- On record, the run comes to the same failure.
    rcases runPlan_stopping h h' hcontains fs.recorded arguments (host, []) with
      ⟨hnone, -⟩ | ⟨_, -, step', hcut', hsame'⟩
    · rw [told_recorded, hfirst] at hnone
      cases hnone
    · have hstep := hcut'.findSome?
      rw [told_recorded, hfirst] at hstep
      obtain rfl := Option.some.inj hstep
      exact congrArg Prod.snd hsame'.host

theorem callsIn_stopping_of_findSome? (h : c.Valid) (h' : c.stopping.Valid)
    (hcontains : c.failFast = false) (arguments : List (String × Value)) (host : σ)
    (hnone : (c.told fs arguments host).findSome? Event.failedStep? = none) :
    c.stopping.told fs arguments host = c.told fs arguments host ∧
      c.stopping.callsIn fs c.stopping.plan.groups arguments host =
        c.callsIn fs c.plan.groups arguments host := by
  constructor
  · rcases runPlan_stopping h h' hcontains fs arguments host with
      ⟨-, hsame⟩ | ⟨_, -, step, hcut, -⟩
    · rw [told_eq, told_eq, hsame]
      rfl
    · rw [hcut.findSome?] at hnone
      cases hnone
  · rcases runPlan_stopping h h' hcontains fs.recorded arguments (host, []) with
      ⟨-, hsame⟩ | ⟨_, -, step, hcut, -⟩
    · exact congrArg (fun pr => pr.host.2) hsame
    · have hstep := hcut.findSome?
      rw [told_recorded, hnone] at hstep
      cases hstep

/-- A run by the minimal profile is the beginning of one by the trace profile: all of it if nothing
fails, and else as far as the first step that fails, or as its group. -/
theorem minimal_run_is_beginning {settings : Settings} {source : ProgramSource} {host host' : σ}
    (h : compile settings source = .ok c) (arguments : List (String × Value))
    (hhost : fs.IsSteady ∨ host = host') :
    ∃ trace minimal, compile (settings.withProfile .trace) source = .ok trace ∧
      compile (settings.withProfile .minimal) source = .ok minimal ∧
      ((trace.told fs arguments host).findSome? Event.failedStep? = none →
        minimal.told fs arguments host' = trace.told fs arguments host ∧
        minimal.callsIn fs minimal.plan.groups arguments host' =
          trace.callsIn fs trace.plan.groups arguments host') ∧
      ∀ step, (trace.told fs arguments host).findSome? Event.failedStep? = some step →
        ∃ group, trace.EndsAt minimal fs arguments host host' group step := by
  have htrace := compile_withSettings h (settings.withProfile .trace)
  have hminimal := compile_withSettings h (settings.withProfile .minimal)
  have hvalid := valid_of_compile htrace
  have hvalid' : (c.withSettings (settings.withProfile .trace)).stopping.Valid :=
    valid_of_compile hminimal
  have htold : (c.withSettings (settings.withProfile .trace)).told fs arguments host =
      (c.withSettings (settings.withProfile .trace)).told fs arguments host' := by
    rw [told_eq, told_eq]
    have hagree := agree_runPlan (c.withSettings (settings.withProfile .trace)) arguments hhost
    have hagree' := agree_runPlan (c.withSettings (settings.withProfile .trace)) arguments
      (.inr rfl : fs.IsSteady ∨ host' = host')
    exact (hagree.trans hagree'.symm).events
  refine ⟨_, _, htrace, hminimal, ?_, ?_⟩
  · intro hnone
    rw [htold] at hnone ⊢
    exact callsIn_stopping_of_findSome? hvalid hvalid' rfl arguments host' hnone
  · intro step hfirst
    rw [htold] at hfirst
    obtain ⟨group, hends⟩ := endsAt_of_isCutAt hvalid hvalid' rfl arguments host' hfirst
    exact ⟨group, hends.mem_groups, hends.kind, htold.symm ▸ hends.cut, hends.steps, hends.calls⟩

/-- Without host functions the checkout fails at an asynchronous step, with two steps left. -/
theorem exists_stop_in_checkout :
    ∃ trace minimal group step,
      compile (({} : Settings).withProfile .trace) .checkout = .ok trace ∧
      compile (({} : Settings).withProfile .minimal) .checkout = .ok minimal ∧
      trace.EndsAt minimal (.empty : Functions Unit) [] () () group step ∧
      (minimal.told (.empty : Functions Unit) [] ()).length <
        (trace.told (.empty : Functions Unit) [] ()).length := by
  have htrace : (compile (({} : Settings).withProfile .trace) .checkout).toOption.any fun c =>
      ((c.told (.empty : Functions Unit) [] ()).findSome? Event.failedStep?).isSome &&
        (c.told (.empty : Functions Unit) [] ()).length == 8 := by decide +kernel
  have hminimal : (compile (({} : Settings).withProfile .minimal) .checkout).toOption.any fun c =>
      (c.told (.empty : Functions Unit) [] ()).length == 4 := by decide +kernel
  obtain ⟨c, hc, -⟩ := exists_checkout
  obtain ⟨trace, minimal, ht, hm, -, hends⟩ :=
    minimal_run_is_beginning hc [] (.inl (@Functions.isSteady_empty Unit) : _ ∨ () = ())
  rw [ht] at htrace
  rw [hm] at hminimal
  simp only [Except.toOption, Option.any_some, Bool.and_eq_true, beq_iff_eq] at htrace hminimal
  obtain ⟨step, hstep⟩ := Option.isSome_iff_exists.mp htrace.1
  obtain ⟨group, hend⟩ := hends step hstep
  exact ⟨trace, minimal, group, step, ht, hm, hend, by omega⟩

end Compilation

end FormulaEngine
