import FormulaEngine.Proofs.Run.Arrivals
import FormulaEngine.Proofs.Run.Cuts

/-!
# What is told of steps

From one moment of a run to a later one, events are told of the steps in between and of no others.
Two runs are at the same moment if they have told of the same events, and have the same slots and
host.
-/

namespace FormulaEngine

variable {σ : Type} {p : Program} {pr pr' pr'' : Progress σ} {ids ids' : List StepId}
  {events events' : List Event}

/-- Between two moments of a run events are told of some steps. -/
structure Program.Adds (p : Program) (ids : List StepId) (events : List Event)
    (pr pr' : Progress σ) : Prop where
  journal : p.stepEvents pr'.journal = p.stepEvents pr.journal ++ events
  told : ∀ e ∈ events, ∃ i ∈ ids, e.step? = some i

namespace Program.Adds

theorem refl (pr : Progress σ) : p.Adds [] [] pr pr :=
  ⟨(List.append_nil _).symm, fun _ he => absurd he List.not_mem_nil⟩

theorem trans (h : p.Adds ids events pr pr') (h' : p.Adds ids' events' pr' pr'') :
    p.Adds (ids ++ ids') (events ++ events') pr pr'' := by
  constructor
  · rw [h'.journal, h.journal, List.append_assoc]
  · intro e he
    rcases List.mem_append.mp he with he | he
    · obtain ⟨i, hi, hstep⟩ := h.told e he
      exact ⟨i, List.mem_append_left _ hi, hstep⟩
    · obtain ⟨i, hi, hstep⟩ := h'.told e he
      exact ⟨i, List.mem_append_right _ hi, hstep⟩

theorem mono (h : p.Adds ids events pr pr') (hids : ids ⊆ ids') : p.Adds ids' events pr pr' := by
  refine ⟨h.journal, fun e he => ?_⟩
  obtain ⟨i, hi, hstep⟩ := h.told e he
  exact ⟨i, hids hi, hstep⟩

theorem note_left {entries : List Entry} (hquiet : p.stepEvents entries = [])
    (h : p.Adds ids events (pr.note entries) pr') : p.Adds ids events pr pr' := by
  refine ⟨?_, h.told⟩
  rw [h.journal, Progress.note, p.stepEvents_append, hquiet, List.append_nil]

theorem note_right {entries : List Entry} (hquiet : p.stepEvents entries = [])
    (h : p.Adds ids events pr pr') : p.Adds ids events pr (pr'.note entries) := by
  refine ⟨?_, h.told⟩
  rw [← h.journal, Progress.note, p.stepEvents_append, hquiet, List.append_nil]

theorem of_journal (h : p.Adds ids events pr pr') (hjournal : pr''.journal = pr'.journal) :
    p.Adds ids events pr pr'' :=
  ⟨hjournal ▸ h.journal, h.told⟩

end Program.Adds

/-- Two runs have come to the same moment, as far as slots, the host and events of steps tell. -/
structure Progress.SameMoment (p : Program) (pr pr' : Progress σ) : Prop where
  slots : pr.slots = pr'.slots
  host : pr.host = pr'.host
  events : p.stepEvents pr.journal = p.stepEvents pr'.journal

namespace Progress.SameMoment

theorem trans (h : SameMoment p pr pr') (h' : SameMoment p pr' pr'') : SameMoment p pr pr'' :=
  ⟨h.slots.trans h'.slots, h.host.trans h'.host, h.events.trans h'.events⟩

theorem refl (pr : Progress σ) : SameMoment p pr pr := ⟨rfl, rfl, rfl⟩

theorem symm (h : SameMoment p pr pr') : SameMoment p pr' pr :=
  ⟨h.slots.symm, h.host.symm, h.events.symm⟩

/-- Entries that tell of no step make no difference. -/
theorem note_left {entries : List Entry} (hquiet : p.stepEvents entries = [])
    (h : SameMoment p pr pr') : SameMoment p (pr.note entries) pr' := by
  refine ⟨h.slots, h.host, ?_⟩
  rw [Progress.note, p.stepEvents_append, hquiet, List.append_nil, h.events]

theorem note_right {entries : List Entry} (hquiet : p.stepEvents entries = [])
    (h : SameMoment p pr pr') : SameMoment p pr (pr'.note entries) :=
  (h.symm.note_left hquiet).symm

end Progress.SameMoment

theorem Outcome.step?_event (o : Outcome) (step : StepId) (name : String) :
    (o.event step name).step? = some step := by
  cases o <;> rfl

theorem Outcome.lostStep?_event (o : Outcome) (step : StepId) (name : String) :
    (o.event step name).lostStep? = if o.isValue then none else some step := by
  cases o <;> rfl

namespace Compilation

variable {σ : Type} {c : Compilation} {fs : Functions σ} {group : StepGroup}
  {groups : List StepGroup}

/-- What a synchronous step comes to. -/
def resultOfStep (c : Compilation) (fs : Functions σ) (d : Declaration) (pr : Progress σ) :
    Except Fault Value :=
  ((c.routine fs .synchronous pr.slots d).run fs pr.host).result

theorem adds_runStep (step : StepId) (d : Declaration) (pr : Progress σ) :
    c.program.Adds [step] [.stepStarted step (c.program.qualifiedName d.id),
      (Outcome.settle d.id (c.resultOfStep fs d pr)).event step (c.program.qualifiedName d.id)]
      pr (c.runStep fs step d pr) := by
  constructor
  · exact stepEvents_land [(step, d)] ⟨[c.resultOfStep fs d pr], _, _⟩ pr
  · intro e he
    refine ⟨step, List.mem_singleton_self _, ?_⟩
    rcases List.mem_pair.mp he with rfl | rfl
    · rfl
    · exact Outcome.step?_event _ _ _

theorem adds_runAsynchronous (steps : List (StepId × Declaration)) (pr : Progress σ) :
    c.program.Adds (steps.map Prod.fst) (c.eventsOf steps (c.resultsOf fs steps pr)) pr
      (c.runAsynchronous fs steps pr) := by
  constructor
  · exact stepEvents_land steps _ pr
  · intro e he
    rcases List.mem_append.mp he with he | he
    · obtain ⟨x, hx, rfl⟩ := List.mem_map.mp he
      exact ⟨x.1, List.mem_map_of_mem hx, rfl⟩
    · obtain ⟨⟨x, r⟩, hx, rfl⟩ := List.mem_map.mp he
      exact ⟨x.1, List.mem_map_of_mem (List.of_mem_zip hx).1, Outcome.step?_event _ _ _⟩

theorem exists_adds_runSynchronous (c : Compilation) (fs : Functions σ)
    (steps : List (StepId × Declaration)) (pr : Progress σ) :
    ∃ events, c.program.Adds (steps.map Prod.fst) events pr (c.runSynchronous fs steps pr) := by
  induction steps generalizing pr with
  | nil => exact ⟨[], .refl pr⟩
  | cons x rest ih =>
    have hstep := @adds_runStep σ c fs x.1 x.2 pr
    by_cases hstopped : (c.runStep fs x.1 x.2 pr).stopped
    · rw [runSynchronous_cons_of_stopped hstopped]
      exact ⟨_, hstep.mono (by simp)⟩
    · rw [runSynchronous_cons_of_running (Bool.eq_false_iff.mpr hstopped)]
      obtain ⟨events, hrest⟩ := ih (c.runStep fs x.1 x.2 pr)
      exact ⟨_, hstep.trans hrest⟩

theorem exists_adds_runGroup (h : c.Valid) (fs : Functions σ) (index : Nat)
    (hgroup : ∀ i ∈ group.steps, i < c.plan.size) (pr : Progress σ) :
    ∃ events, c.program.Adds group.steps events pr (c.runGroup fs index group pr) := by
  obtain ⟨events, hsynchronous⟩ := exists_adds_runSynchronous c fs
    (c.scheduled group.synchronous) (pr.note [.groupStarted index group])
  have hasynchronous := @adds_runAsynchronous σ c fs (c.scheduled group.asynchronous)
    (c.runSynchronous fs (c.scheduled group.synchronous) (pr.note [.groupStarted index group]))
  rw [h.map_fst_scheduled fun i hi => hgroup i (List.mem_append_left _ hi)] at hsynchronous
  rw [h.map_fst_scheduled fun i hi => hgroup i (List.mem_append_right _ hi)] at hasynchronous
  have hstarted := hsynchronous.note_left rfl
  by_cases hstopped : (c.runSynchronous fs (c.scheduled group.synchronous)
      (pr.note [.groupStarted index group])).stopped
  · rw [runGroup_of_stopped hstopped]
    exact ⟨_, (hstarted.mono (List.subset_append_left _ _)).note_right rfl⟩
  · rw [runGroup_of_running (Bool.eq_false_iff.mpr hstopped)]
    exact ⟨_, (hstarted.trans hasynchronous).note_right rfl⟩

theorem exists_adds_runGroups (h : c.Valid) (fs : Functions σ) (index : Nat)
    (hgroups : ∀ i ∈ groups.flatMap StepGroup.steps, i < c.plan.size) (pr : Progress σ) :
    ∃ events, c.program.Adds (groups.flatMap StepGroup.steps) events pr
      (c.runGroups fs index groups pr) := by
  induction groups generalizing index pr with
  | nil => exact ⟨[], .refl pr⟩
  | cons group rest ih =>
    rw [List.flatMap_cons] at hgroups ⊢
    obtain ⟨events, hgroup⟩ := exists_adds_runGroup h fs index
      (fun i hi => hgroups i (List.mem_append_left _ hi)) pr
    by_cases hstopped : (c.runGroup fs index group pr).stopped
    · rw [runGroups_cons_of_stopped hstopped]
      exact ⟨_, (hgroup.mono (List.subset_append_left _ _)).note_right rfl⟩
    · rw [runGroups_cons_of_running (Bool.eq_false_iff.mpr hstopped)]
      obtain ⟨events', hrest⟩ := ih (index + 1)
        (fun i hi => hgroups i (List.mem_append_right _ hi)) (c.runGroup fs index group pr)
      exact ⟨_, hgroup.trans hrest⟩

end Compilation

end FormulaEngine
