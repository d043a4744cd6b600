import FormulaEngine.Proofs.Run.Causes
import FormulaEngine.Proofs.Run.Events
import FormulaEngine.Proofs.Run.Solution

/-!
# Traces

What observers are told of a run that contains failures is fixed by the plan, but for what becomes
of each step. A step is told of when it is started and when it is settled, and it is started after
all that it reads have been settled.
-/

namespace FormulaEngine

namespace Event

/-- The step that is started with an event. -/
def startedStep? : Event → Option StepId
  | .stepStarted step _ => some step
  | _ => none

/-- The step that has ended with an event, in whatever way. -/
def settledStep? : Event → Option StepId
  | .stepCompleted step _ | .stepFailed step _ _ | .stepSkipped step _ _ => some step
  | _ => none

end Event

theorem Outcome.startedStep?_event (o : Outcome) (step : StepId) (name : String) :
    (o.event step name).startedStep? = none := by
  cases o <;> rfl

theorem Outcome.settledStep?_event (o : Outcome) (step : StepId) (name : String) :
    (o.event step name).settledStep? = some step := by
  cases o <;> rfl

/-- The slot that is written with an entry. -/
def Entry.written? : Entry → Option DeclId
  | .stepSettled _ id _ => some id
  | _ => none

namespace Compilation

variable {c : Compilation} {outcome : StepId → Outcome} {step : StepId} {steps : List StepId}
  {group : StepGroup} {groups : List StepGroup} {index : Nat}

/-! ### The trace of a plan -/

def nameOf (c : Compilation) (step : StepId) : String :=
  ((c.plan.step? step).map fun s => c.program.qualifiedName s.declaration).getD ""

def started (c : Compilation) (step : StepId) : Event := .stepStarted step (c.nameOf step)

def ended (c : Compilation) (outcome : StepId → Outcome) (step : StepId) : Event :=
  (outcome step).event step (c.nameOf step)

/-- What is told of a group, if that becomes of its steps: the synchronous ones end one by one, and
the asynchronous ones are started before any of them ends. -/
def traceOfGroup (c : Compilation) (outcome : StepId → Outcome) (index : Nat)
    (group : StepGroup) : List Event :=
  [.groupStarted index group.size] ++
    (group.synchronous.flatMap fun step => [c.started step, c.ended outcome step]) ++
    group.asynchronous.map c.started ++ group.asynchronous.map (c.ended outcome) ++
    [.groupCompleted index]

/-- What is told of groups that are numbered from `index` on. -/
def traceOfGroups (c : Compilation) (outcome : StepId → Outcome) (index : Nat) :
    List StepGroup → List Event
  | [] => []
  | group :: rest =>
    c.traceOfGroup outcome index group ++ traceOfGroups c outcome (index + 1) rest

/-- What is told of a run of the plan. -/
def trace (c : Compilation) (outcome : StepId → Outcome) : List Event :=
  c.traceOfGroups outcome 0 c.plan.groups

variable {f : Event → Option StepId}

theorem filterMap_traceOfGroup
    (hmark : ∀ i, (∀ n, f (.groupStarted i n) = none) ∧ f (.groupCompleted i) = none)
    (hstep : (∀ step, f (c.started step) = some step ∧ f (c.ended outcome step) = none) ∨
      ∀ step, f (c.started step) = none ∧ f (c.ended outcome step) = some step) :
    (c.traceOfGroup outcome index group).filterMap f = group.steps := by
  rcases hstep with hstep | hstep
  all_goals
    simp [traceOfGroup, StepGroup.steps, List.filterMap_flatMap, List.filterMap_map,
      hmark, hstep]

/-- Each step of the groups has one event with which it is started, and one with which it ends. -/
theorem filterMap_traceOfGroups
    (hmark : ∀ i, (∀ n, f (.groupStarted i n) = none) ∧ f (.groupCompleted i) = none)
    (hstep : (∀ step, f (c.started step) = some step ∧ f (c.ended outcome step) = none) ∨
      ∀ step, f (c.started step) = none ∧ f (c.ended outcome step) = some step) :
    (c.traceOfGroups outcome index groups).filterMap f = groups.flatMap StepGroup.steps := by
  induction groups generalizing index with
  | nil => rfl
  | cons group rest ih =>
    rw [traceOfGroups, List.filterMap_append, filterMap_traceOfGroup hmark hstep, ih,
      List.flatMap_cons]

theorem filterMap_startedStep?_traceOfGroups :
    (c.traceOfGroups outcome index groups).filterMap Event.startedStep? =
      groups.flatMap StepGroup.steps :=
  filterMap_traceOfGroups (fun _ => ⟨fun _ => rfl, rfl⟩)
    (.inl fun _ => ⟨rfl, Outcome.startedStep?_event _ _ _⟩)

theorem filterMap_settledStep?_traceOfGroups :
    (c.traceOfGroups outcome index groups).filterMap Event.settledStep? =
      groups.flatMap StepGroup.steps :=
  filterMap_traceOfGroups (fun _ => ⟨fun _ => rfl, rfl⟩)
    (.inr fun _ => ⟨rfl, Outcome.settledStep?_event _ _ _⟩)

theorem mem_steps_of_startedStep? {e : Event} (he : e ∈ c.traceOfGroup outcome index group)
    (hstep : e.startedStep? = some step) : step ∈ group.steps := by
  have hsteps : (c.traceOfGroup outcome index group).filterMap Event.startedStep? = group.steps :=
    filterMap_traceOfGroup (fun _ => ⟨fun _ => rfl, rfl⟩)
      (.inl fun _ => ⟨rfl, Outcome.startedStep?_event _ _ _⟩)
  rw [← hsteps]
  exact List.mem_filterMap.mpr ⟨e, he, hstep⟩

/-! ### The order of events -/

/-- The second of two events does not end a step that the first one starts a reader of. -/
def InOrder (dep : StepId → StepId → Prop) (e e' : Event) : Prop :=
  ∀ k i, e.startedStep? = some k → e'.settledStep? = some i → ¬dep i k

variable {dep : StepId → StepId → Prop}

theorem inOrder_of_startedStep?_eq_none {e e' : Event} (h : e.startedStep? = none) :
    InOrder dep e e' := by
  intro k i hk
  exact absurd (h.symm.trans hk) (by simp)

theorem inOrder_of_settledStep?_eq_none {e e' : Event} (h : e'.settledStep? = none) :
    InOrder dep e e' := by
  intro k i _ hi
  exact absurd (h.symm.trans hi) (by simp)

theorem pairwise_synchronous (hirrefl : ∀ i, ¬dep i i)
    (hforward : steps.Pairwise fun a b => ¬dep b a) :
    (steps.flatMap fun step => [c.started step, c.ended outcome step]).Pairwise
      (InOrder dep) := by
  have hof : ∀ step, ∀ e ∈ [c.started step, c.ended outcome step], ∀ k,
      (e.startedStep? = some k → k = step) ∧ (e.settledStep? = some k → k = step) := by
    intro step e he k
    rcases List.mem_pair.mp he with rfl | rfl
    · simp [started, Event.startedStep?, Event.settledStep?, eq_comm]
    · simp [ended, Outcome.startedStep?_event, Outcome.settledStep?_event, eq_comm]
  rw [List.pairwise_flatMap]
  constructor
  · intro step _
    rw [List.pairwise_pair]
    intro k i hk hi
    obtain rfl := (hof step _ List.mem_cons_self k).1 hk
    obtain rfl := (hof k _ (by simp) i).2 hi
    exact hirrefl i
  · refine hforward.imp fun {a b} hdep e he e' he' k i hk hi => ?_
    obtain rfl := (hof a e he k).1 hk
    obtain rfl := (hof b e' he' i).2 hi
    exact hdep

theorem pairwise_traceOfGroup (hirrefl : ∀ i, ¬dep i i) (hsafe : group.IsSafe dep) :
    (c.traceOfGroup outcome index group).Pairwise (InOrder dep) := by
  have hmem : ∀ e ∈ c.traceOfGroup outcome index group, ∀ k, e.startedStep? = some k →
      k ∈ group.steps := fun e he k hk => mem_steps_of_startedStep? he hk
  have hsynchronous := @pairwise_synchronous c outcome group.synchronous dep hirrefl
    (hsafe.forward.sublist (List.sublist_append_left _ _))
  have hended : ∀ e ∈ group.asynchronous.map (c.ended outcome), e.startedStep? = none := by
    intro e he
    obtain ⟨step, -, rfl⟩ := List.mem_map.mp he
    exact Outcome.startedStep?_event _ _ _
  have hstarted : ∀ e ∈ group.asynchronous.map c.started, e.settledStep? = none := by
    intro e he
    obtain ⟨step, -, rfl⟩ := List.mem_map.mp he
    rfl
  unfold traceOfGroup at hmem ⊢
  refine List.pairwise_append.mpr ⟨List.pairwise_append.mpr ⟨List.pairwise_append.mpr
    ⟨List.pairwise_append.mpr ⟨List.pairwise_singleton _ _, hsynchronous, ?_⟩, ?_, ?_⟩, ?_, ?_⟩,
    List.pairwise_singleton _ _, ?_⟩
  · intro e he e' _
    obtain rfl := List.mem_singleton.mp he
    exact inOrder_of_startedStep?_eq_none rfl
  · exact List.pairwise_of_forall_mem_list fun e _ e' he' =>
      inOrder_of_settledStep?_eq_none (hstarted e' he')
  · exact fun e _ e' he' => inOrder_of_settledStep?_eq_none (hstarted e' he')
  · exact List.pairwise_of_forall_mem_list fun e he e' _ =>
      inOrder_of_startedStep?_eq_none (hended e he)
  · intro e he e' he' k i hk hi
    obtain ⟨step, hstep, rfl⟩ := List.mem_map.mp he'
    obtain rfl : step = i := Option.some.inj ((Outcome.settledStep?_event _ _ _).symm.trans hi)
    have hk' := hmem e (List.mem_append_left _ (List.mem_append_left _ he)) k hk
    exact hsafe.alone step hstep k hk'
  · intro e _ e' he'
    obtain rfl := List.mem_singleton.mp he'
    exact inOrder_of_settledStep?_eq_none rfl

theorem pairwise_traceOfGroups (hirrefl : ∀ i, ¬dep i i) (hsafe : StepGroup.AreSafe dep groups) :
    (c.traceOfGroups outcome index groups).Pairwise (InOrder dep) := by
  induction groups generalizing index with
  | nil => exact List.Pairwise.nil
  | cons group rest ih =>
    obtain ⟨hgroup, hlater, hrest⟩ := StepGroup.areSafe_cons_iff.mp hsafe
    rw [traceOfGroups, List.pairwise_append]
    refine ⟨pairwise_traceOfGroup hirrefl hgroup, ih hrest, ?_⟩
    intro e he e' he' k i hk hi
    have hi' : i ∈ rest.flatMap StepGroup.steps := by
      rw [← @filterMap_settledStep?_traceOfGroups c outcome rest (index + 1)]
      exact List.mem_filterMap.mpr ⟨e', he', hi⟩
    exact hlater k (mem_steps_of_startedStep? he hk) i hi'

theorem mem_traceOfGroups (hstep : step ∈ groups.flatMap StepGroup.steps) :
    c.started step ∈ c.traceOfGroups outcome index groups ∧
      c.ended outcome step ∈ c.traceOfGroups outcome index groups := by
  induction groups generalizing index with
  | nil => exact absurd hstep List.not_mem_nil
  | cons group rest ih =>
    rw [traceOfGroups, List.mem_append, List.mem_append]
    rw [List.flatMap_cons, List.mem_append] at hstep
    rcases hstep with hstep | hstep
    · have hgroup : c.started step ∈ c.traceOfGroup outcome index group ∧
          c.ended outcome step ∈ c.traceOfGroup outcome index group := by
        rcases List.mem_append.mp hstep with hstep | hstep
        · simp only [traceOfGroup, List.mem_append, List.mem_flatMap]
          constructor <;> grind
        · simp only [traceOfGroup, List.mem_append, List.mem_map]
          constructor <;> grind
      exact ⟨.inl hgroup.1, .inl hgroup.2⟩
    · obtain ⟨hstarted, hended⟩ := @ih (index + 1) hstep
      exact ⟨.inr hstarted, .inr hended⟩

/-- What a step reads has ended before it is started. -/
theorem exists_split_of_inOrder {events : List Event} {e e' : Event} {k i : StepId}
    (hevents : events.Pairwise (InOrder dep)) (he : e ∈ events) (he' : e' ∈ events)
    (hi : e.settledStep? = some i) (hk : e'.startedStep? = some k) (hdep : dep i k) :
    ∃ before middle after, events = before ++ e :: (middle ++ e' :: after) := by
  obtain ⟨before, rest, rfl⟩ := List.append_of_mem he
  rcases List.mem_append.mp he' with hbefore | hrest
  · have hnot := (List.pairwise_append.mp hevents).2.2 e' hbefore e List.mem_cons_self
    exact absurd hdep (hnot k i hk hi)
  · rcases List.mem_cons.mp hrest with rfl | hrest
    · cases e' <;> simp [Event.startedStep?, Event.settledStep?] at hk hi
    · obtain ⟨middle, after, rfl⟩ := List.append_of_mem hrest
      exact ⟨before, middle, after, rfl⟩

/-! ### The trace of a run -/

variable {σ : Type} {fs : Functions σ} {pr pr' pr'' : Progress σ} {events events' : List Event}
  {d : Declaration} {steps : List (StepId × Declaration)}

/-- Between two moments of a run the events are told, if the steps that are settled come to the
given outcomes. -/
def Tells (c : Compilation) (outcome : StepId → Outcome) (events : List Event)
    (pr pr' : Progress σ) : Prop :=
  ∃ entries, pr'.journal = pr.journal ++ entries ∧
    ((∀ step id o, .stepSettled step id o ∈ entries → o = outcome step) →
      entries.filterMap (Entry.event? c.program) = events)

theorem Tells.trans (h : c.Tells outcome events pr pr') (h' : c.Tells outcome events' pr' pr'') :
    c.Tells outcome (events ++ events') pr pr'' := by
  obtain ⟨entries, hjournal, hevents⟩ := h
  obtain ⟨entries', hjournal', hevents'⟩ := h'
  refine ⟨entries ++ entries', by rw [hjournal', hjournal, List.append_assoc], fun hsettled => ?_⟩
  rw [List.filterMap_append, hevents fun step id o hmem => hsettled step id o (by simp [hmem]),
    hevents' fun step id o hmem => hsettled step id o (by simp [hmem])]

theorem tells_note {entries : List Entry}
    (h : entries.filterMap (Entry.event? c.program) = events) :
    c.Tells outcome events pr (pr.note entries) :=
  ⟨entries, rfl, fun _ => h⟩

theorem tells_afterRan {α : Type} (ran : Ran σ α) : c.Tells outcome [] pr (pr.afterRan ran) :=
  ⟨_, rfl, fun _ => Entry.filterMap_event?_panicked _ _⟩

theorem tells_settle {r : Except Fault Value}
    (hname : c.program.qualifiedName d.id = c.nameOf step) :
    c.Tells outcome [c.ended outcome step] pr (pr.settle c.failFast step d.id r) := by
  refine ⟨_, rfl, fun hsettled => ?_⟩
  have heq := hsettled step d.id _ List.mem_cons_self
  rw [List.filterMap_cons, Entry.event?_stepSettled, heq, hname]
  rfl

theorem tells_runStep (hname : c.program.qualifiedName d.id = c.nameOf step) :
    c.Tells outcome [c.started step, c.ended outcome step] pr (c.runStep fs step d pr) := by
  have hstarted : c.Tells outcome [c.started step] pr (pr.note [.stepStarted step d.id]) := by
    apply tells_note
    rw [started, ← hname]
    rfl
  exact (hstarted.trans (tells_afterRan _)).trans (tells_settle hname)

theorem tells_settleAll (hnames : ∀ x ∈ steps, c.program.qualifiedName x.2.id = c.nameOf x.1)
    {results : List (Except Fault Value)} (hlength : results.length = steps.length) :
    c.Tells outcome ((steps.map Prod.fst).map (c.ended outcome)) pr
      (c.settleAll steps results pr) := by
  induction steps generalizing results pr with
  | nil => exact ⟨[], (List.append_nil _).symm, fun _ => rfl⟩
  | cons x rest ih =>
    cases results with
    | nil => exact absurd hlength (by simp)
    | cons r results =>
      have hfirst := @tells_settle c outcome x.1 σ pr x.2 r (hnames x List.mem_cons_self)
      have hlength' : results.length = rest.length := by simpa using hlength
      exact hfirst.trans (ih (fun y hy => hnames y (List.mem_cons_of_mem _ hy)) hlength')

theorem tells_runAsynchronous
    (hnames : ∀ x ∈ steps, c.program.qualifiedName x.2.id = c.nameOf x.1) :
    c.Tells outcome
      ((steps.map Prod.fst).map c.started ++ (steps.map Prod.fst).map (c.ended outcome)) pr
      (c.runAsynchronous fs steps pr) := by
  have hstarted : c.Tells outcome ((steps.map Prod.fst).map c.started) pr
      (pr.note (steps.map fun x => .stepStarted x.1 x.2.id)) := by
    apply tells_note
    rw [List.filterMap_map, List.map_map, List.filterMap_eq_map_iff_forall_eq_some]
    intro x hx
    change some (Event.stepStarted x.1 (c.program.qualifiedName x.2.id)) =
      some (.stepStarted x.1 (c.nameOf x.1))
    rw [hnames x hx]
  have hlength := (@Routine.forall₂_run_joinAll σ _ fs _ steps
    (fun x => c.routine fs .asynchronous pr.slots x.2) pr.host).length_eq
  have hran := hstarted.trans (tells_afterRan
    ((Routine.joinAll (steps.map fun x => c.routine fs .asynchronous pr.slots x.2)).run fs pr.host))
  rw [List.append_nil] at hran
  exact hran.trans (tells_settleAll hnames hlength.symm)

theorem stopped_runStep (hcontains : c.failFast = false) :
    (c.runStep fs step d pr).stopped = pr.stopped := by
  simp [runStep, Progress.settle, Progress.afterRan, Progress.note, hcontains]

theorem stopped_settleAll (hcontains : c.failFast = false) {results : List (Except Fault Value)} :
    (c.settleAll steps results pr).stopped = pr.stopped := by
  unfold settleAll
  induction steps.zip results generalizing pr with
  | nil => rfl
  | cons x rest ih =>
    rw [List.foldl_cons, ih]
    simp [Progress.settle, hcontains]

theorem tells_runSynchronous (hcontains : c.failFast = false) (hrunning : pr.stopped = false)
    (hnames : ∀ x ∈ steps, c.program.qualifiedName x.2.id = c.nameOf x.1) :
    c.Tells outcome
        ((steps.map Prod.fst).flatMap fun step => [c.started step, c.ended outcome step]) pr
        (c.runSynchronous fs steps pr) ∧
      (c.runSynchronous fs steps pr).stopped = false := by
  induction steps generalizing pr with
  | nil => exact ⟨⟨[], (List.append_nil _).symm, fun _ => rfl⟩, hrunning⟩
  | cons x rest ih =>
    have hstopped : (c.runStep fs x.1 x.2 pr).stopped = false := by
      rw [stopped_runStep hcontains, hrunning]
    obtain ⟨htells, hend⟩ := ih hstopped fun y hy => hnames y (List.mem_cons_of_mem _ hy)
    have hfirst := @tells_runStep c outcome x.1 σ fs pr x.2 (hnames x List.mem_cons_self)
    rw [runSynchronous]
    simp only [hstopped]
    exact ⟨hfirst.trans htells, hend⟩

theorem Valid.exists_step_of_mem_scheduled (h : c.Valid) {ids : List StepId}
    {x : StepId × Declaration} (hx : x ∈ c.scheduled ids) :
    ∃ s, c.plan.step? x.1 = some s ∧ s.declaration = x.2.id := by
  obtain ⟨merge, hplan⟩ := h.exists_plan_eq
  rw [hplan]
  exact ⟨_, Plan.step?_ofLayers_eq_some_iff.mpr ⟨x.2.id, (h.mem_scheduled_iff.mp hx).2.1, rfl⟩, rfl⟩

theorem Valid.qualifiedName_eq_nameOf (h : c.Valid) {ids : List StepId}
    {x : StepId × Declaration} (hx : x ∈ c.scheduled ids) :
    c.program.qualifiedName x.2.id = c.nameOf x.1 := by
  obtain ⟨s, hs, hdeclaration⟩ := h.exists_step_of_mem_scheduled hx
  rw [nameOf, hs, ← hdeclaration]
  rfl

theorem Valid.map_fst_scheduled (h : c.Valid) {ids : List StepId}
    (hids : ∀ i ∈ ids, i < c.plan.size) : (c.scheduled ids).map Prod.fst = ids := by
  rw [scheduled, List.map_filterMap]
  have hsome : ∀ i ∈ ids, (Option.map Prod.fst do
      let s ← c.plan.step? i
      let d ← c.program.declaration? s.declaration
      some (i, d)) = some i := by
    intro i hi
    obtain ⟨s, hs⟩ : ∃ s, c.plan.step? i = some s := ⟨_, List.getElem?_eq_getElem (hids i hi)⟩
    obtain ⟨-, hvertex, -⟩ := h.isSafeSchedule.vertex_of_step i _ hs
    obtain ⟨d, hd, -⟩ := h.mem_vertices_iff.mp hvertex
    simp [hs, hd]
  rw [List.filterMap_congr hsome, List.filterMap_some]

/-- A group is told of as a whole, whatever becomes of its steps. -/
theorem tells_runGroup (h : c.Valid) (hcontains : c.failFast = false)
    (hrunning : pr.stopped = false) (hgroup : ∀ i ∈ group.steps, i < c.plan.size) :
    c.Tells outcome (c.traceOfGroup outcome index group) pr (c.runGroup fs index group pr) ∧
      (c.runGroup fs index group pr).stopped = false := by
  have hstart : (pr.note [.groupStarted index group]).stopped = false := hrunning
  have hmark : c.Tells outcome [.groupStarted index group.size] pr
      (pr.note [.groupStarted index group]) := tells_note rfl
  obtain ⟨hsynchronous, hstopped⟩ := @tells_runSynchronous c outcome σ fs _
    (c.scheduled group.synchronous) hcontains hstart fun x hx => h.qualifiedName_eq_nameOf hx
  have hasynchronous := @tells_runAsynchronous c outcome σ fs
    (c.runSynchronous fs (c.scheduled group.synchronous) (pr.note [.groupStarted index group]))
    (c.scheduled group.asynchronous) fun x hx => h.qualifiedName_eq_nameOf hx
  rw [h.map_fst_scheduled fun i hi => hgroup i (List.mem_append_left _ hi)] at hsynchronous
  rw [h.map_fst_scheduled fun i hi => hgroup i (List.mem_append_right _ hi)] at hasynchronous
  rw [runGroup_of_running hstopped]
  constructor
  · have hall := ((hmark.trans hsynchronous).trans hasynchronous).trans
      (tells_note (show [Entry.groupCompleted index].filterMap (Entry.event? c.program) =
        [.groupCompleted index] from rfl))
    rwa [← List.append_assoc] at hall
  · exact (stopped_settleAll hcontains).trans hstopped

theorem tells_runGroups (h : c.Valid) (hcontains : c.failFast = false)
    (hrunning : pr.stopped = false) (hgroups : ∀ i ∈ groups.flatMap StepGroup.steps,
      i < c.plan.size) :
    c.Tells outcome (c.traceOfGroups outcome index groups) pr (c.runGroups fs index groups pr) := by
  induction groups generalizing index pr with
  | nil => exact ⟨[], (List.append_nil _).symm, fun _ => rfl⟩
  | cons group rest ih =>
    rw [List.flatMap_cons] at hgroups
    obtain ⟨hgroup, hstopped⟩ := @tells_runGroup c outcome group index σ fs pr h hcontains hrunning
      fun i hi => hgroups i (List.mem_append_left _ hi)
    rw [runGroups]
    simp only [hstopped]
    exact hgroup.trans (ih hstopped fun i hi => hgroups i (List.mem_append_right _ hi))

theorem filterMap_event?_start (arguments : List (String × Value)) (host : σ) :
    (c.start arguments host).journal.filterMap (Entry.event? c.program) = [] := by
  rw [List.filterMap_eq_nil_iff]
  intro e he
  obtain ⟨name, rfl⟩ := exists_ignoredArgument_of_mem_start he
  rfl

/-! ### What is written -/

/-- A run has written the slots of what was settled, each once and for its own step, and they hold
what was written. -/
structure WritesOnce (c : Compilation) (settled : List (StepId × Declaration))
    (pr : Progress σ) : Prop where
  written : pr.journal.filterMap Entry.written? = idsOf settled
  kept : ∀ step id o, .stepSettled step id o ∈ pr.journal →
    pr.slots.get? id = some o ∧ ∃ s, c.plan.step? step = some s ∧ s.declaration = id

theorem Valid.keeps_writesOnce (h : c.Valid) (fs : Functions σ) :
    c.KeepsEach fs (fun settled pr => c.WritesOnce settled pr) where
  note {settled pr e} hquiet hpr := by
    have hnone : [e].filterMap Entry.written? = [] := by
      cases e with
      | stepSettled step id o => exact absurd rfl (hquiet.ne_stepSettled step id o)
      | _ => rfl
    constructor
    · rw [Progress.note, List.filterMap_append, hnone, List.append_nil, hpr.written]
    · intro step id o hmem
      rcases List.mem_append.mp hmem with hmem | hmem
      · exact hpr.kept step id o hmem
      · exact absurd (List.mem_singleton.mp hmem).symm (hquiet.ne_stepSettled step id o)
  host _ hpr := ⟨hpr.written, hpr.kept⟩
  settle {settled pr x r} hx hpr := by
    constructor
    · rw [Progress.settle, List.filterMap_append, hpr.written, idsOf_append]
      rfl
    · intro step id o hmem
      rcases List.mem_append.mp hmem with hmem | hmem
      · obtain ⟨hslot, hstep⟩ := hpr.kept step id o hmem
        exact ⟨Slots.get?_insert_of_some hx.empty hslot, hstep⟩
      · cases List.mem_singleton.mp hmem
        exact ⟨Slots.get?_insert_self _ _ _,
          h.exists_step_of_mem_scheduled (hx.wave.mem_schedule (List.mem_singleton_self x))⟩

theorem writesOnce_start (arguments : List (String × Value)) (host : σ) :
    c.WritesOnce [] (c.start arguments host) := by
  constructor
  · rw [idsOf, List.map_nil, List.filterMap_eq_nil_iff]
    intro e he
    obtain ⟨name, rfl⟩ := exists_ignoredArgument_of_mem_start he
    rfl
  · intro step id o hmem
    obtain ⟨name, heq⟩ := exists_ignoredArgument_of_mem_start hmem
    exact absurd heq (by simp)

/-- The slots of globals are filled before a run, and each other one is written once. -/
theorem Valid.count_written (h : c.Valid) {arguments : List (String × Value)}
    (hpr : c.WritesOnce c.schedule pr) {id : DeclId} (hid : id < c.program.size) :
    ((c.seed arguments).get? id).isSome.toNat +
      (pr.journal.filterMap Entry.written?).count id = 1 := by
  obtain ⟨d, hd⟩ : ∃ d, c.program.declaration? id = some d := ⟨_, List.getElem?_eq_getElem hid⟩
  have hnodup := h.nodup_schedule
  have hmem : id ∈ idsOf c.schedule ↔ d.isVertex := by
    rw [h.mem_idsOf_schedule_iff]
    simp [hd]
  have hseed : ((c.seed arguments).get? id).isSome ↔ d.isVertex = false := by
    rw [get?_seed, hd]
    exact isSome_given_iff
  rw [hpr.written]
  cases hvertex : d.isVertex with
  | true =>
    have hempty : ((c.seed arguments).get? id).isSome = false := by
      rw [Bool.eq_false_iff, Ne, hseed]
      simp [hvertex]
    rw [hempty, List.count_eq_one_of_mem hnodup (hmem.mpr hvertex)]
    rfl
  | false =>
    have hfilled : ((c.seed arguments).get? id).isSome = true := hseed.mpr hvertex
    have hnot : id ∉ idsOf c.schedule := fun hin => by simp [hmem.mp hin] at hvertex
    rw [hfilled, List.count_eq_zero_of_not_mem hnot]
    rfl

theorem Valid.exists_stepFor (h : c.Valid) {u : DeclId} (hu : u ∈ c.graph.vertices) :
    ∃ s, c.plan.stepFor? u = some s ∧ c.layers.flatten[s.id]? = some u ∧
      s.id ∈ c.plan.groups.flatMap StepGroup.steps := by
  obtain ⟨i, hi⟩ := List.getElem?_of_mem
    ((Plan.mem_flatten_iff h.wellFormed h.isLayering).mpr (h.mem_vertices_iff.mp hu))
  obtain ⟨merge, hplan⟩ := h.exists_plan_eq
  rw [hplan]
  refine ⟨_, Plan.stepFor?_ofLayers h.wellFormed h.isLayering hi, hi, ?_⟩
  obtain ⟨k, group, hgroup, hmem⟩ := @Plan.exists_group c.program c.layers merge i h.wellFormed
    h.isLayering (List.getElem?_eq_some_iff.mp hi).1
  exact List.mem_flatMap.mpr ⟨group, List.mem_of_getElem? hgroup, hmem⟩

/-- What a run that contains failures tells and writes. Its slots are those that were filled before
and those that its journal settles. -/
structure FollowsPlan (c : Compilation) (arguments : List (String × Value)) (pr : Progress σ)
    (outcome : StepId → Outcome) (events : List Event) : Prop where
  slots : ∀ step s, c.plan.step? step = some s →
    pr.slots.get? s.declaration = some (outcome step)
  told : events = c.trace outcome
  started_once : (events.filterMap Event.startedStep?).Perm (List.range c.plan.size)
  settled_once : (events.filterMap Event.settledStep?).Perm (List.range c.plan.size)
  replay : pr.slots = (c.seed arguments).replay pr.journal
  written_once : ∀ id < c.program.size, ((c.seed arguments).get? id).isSome.toNat +
    (pr.journal.filterMap Entry.written?).count id = 1
  in_order : ∀ u v, (u, v) ∈ c.graph.edges → ∃ s t, c.plan.stepFor? u = some s ∧
    c.plan.stepFor? v = some t ∧ ∃ before middle after,
      events = before ++ c.ended outcome s.id :: (middle ++ c.started t.id :: after)

theorem Valid.pairwise_trace (h : c.Valid) :
    (c.trace outcome).Pairwise (InOrder (Plan.Reads c.program c.layers.flatten)) := by
  refine pairwise_traceOfGroups ?_ h.areSafe
  rintro i ⟨u, v, hu, hv, hdep⟩
  obtain rfl : u = v := Option.some.inj (hu.symm.trans hv)
  exact h.acyclic u hdep

theorem Valid.followsPlan (h : c.Valid) (hpr : c.WritesOnce c.schedule pr)
    (hfilled : c.IsFilled c.schedule pr) {arguments : List (String × Value)}
    (hreplay : pr.slots = (c.seed arguments).replay pr.journal)
    (hslots : ∀ step s o, c.plan.step? step = some s → pr.slots.get? s.declaration = some o →
      outcome step = o)
    (hevents : events = c.trace outcome) : c.FollowsPlan arguments pr outcome events where
  slots step s hs := by
    obtain ⟨-, hvertex, -⟩ := h.isSafeSchedule.vertex_of_step step s hs
    have hmem : s.declaration ∈ idsOf c.schedule := h.idsOf_schedule_perm.mem_iff.mpr hvertex
    obtain ⟨o, ho, -⟩ := hfilled.done s.declaration hmem
    rw [hslots step s o hs ho]
    exact ho
  told := hevents
  started_once := by
    rw [hevents, trace, filterMap_startedStep?_traceOfGroups]
    exact h.isSafeSchedule.occurs_once
  settled_once := by
    rw [hevents, trace, filterMap_settledStep?_traceOfGroups]
    exact h.isSafeSchedule.occurs_once
  replay := hreplay
  written_once _ hid := h.count_written hpr hid
  in_order u v hedge := by
    have hdep := h.mem_edges_iff.mp hedge
    obtain ⟨s, hs, hu, hmem⟩ := h.exists_stepFor
      (h.mem_vertices_iff.mpr (hdep.right_isVertex h.wellFormed))
    obtain ⟨t, ht, hv, hmem'⟩ := h.exists_stepFor
      (h.mem_vertices_iff.mpr hdep.left_isVertex)
    refine ⟨s, t, hs, ht, ?_⟩
    rw [hevents]
    exact exists_split_of_inOrder h.pairwise_trace (mem_traceOfGroups hmem).2
      (mem_traceOfGroups hmem').1 (Outcome.settledStep?_event _ _ _) rfl
      ⟨u, v, hu, hv, .single hdep⟩

/-- Under a profile that contains failures, what observers are told of a run is the trace of the
plan with what has become of each step. So each step is started once and ends once, and what it
reads has ended before. -/
theorem trace_of_runPlan {settings : Settings} {source : ProgramSource}
    (h : compile settings source = .ok c) (hprofile : c.profile = .trace ∨ c.profile = .verbose)
    (fs : Functions σ) (arguments : List (String × Value)) (host : σ) :
    ∃ outcome : StepId → Outcome, c.FollowsPlan arguments (c.runPlan fs arguments host) outcome
      ((c.journalOf (c.runPlan fs arguments host)).filterMap (Entry.event? c.program)) := by
  have hvalid := valid_of_compile h
  have hcontains : c.failFast = false := by
    rcases hprofile with hprofile | hprofile <;> simp [failFast, hprofile, Profile.containsFailures]
  have hkeeps := (hvalid.keeps_writesOnce fs).and (hvalid.keeps_tracesCauses fs arguments)
  obtain ⟨settled, -, ⟨hwrites, hcauses⟩, hfilled, hall⟩ :=
    hkeeps.runPlan hvalid ⟨writesOnce_start arguments host, tracesCauses_start host⟩
  obtain rfl := hall (hvalid.stopped_runPlan hcontains fs arguments host)
  let outcome (step : StepId) : Outcome :=
    ((c.plan.step? step).bind fun s =>
      (c.runPlan fs arguments host).slots.get? s.declaration).getD (.value .null)
  have hslots : ∀ step s o, c.plan.step? step = some s →
      (c.runPlan fs arguments host).slots.get? s.declaration = some o → outcome step = o := by
    intro step s o hs ho
    simp [outcome, hs, ho]
  refine ⟨outcome, hvalid.followsPlan hwrites hfilled hcauses.replay hslots ?_⟩
  obtain ⟨entries, hjournal, hevents⟩ : c.Tells outcome (c.trace outcome)
      (c.start arguments host) (c.runPlan fs arguments host) :=
    tells_runGroups hvalid hcontains rfl fun i hi =>
      List.mem_range.mp (hvalid.isSafeSchedule.occurs_once.mem_iff.mp hi)
  have hentries : ∀ step id o, .stepSettled step id o ∈ entries → o = outcome step := by
    intro step id o hmem
    obtain ⟨hslot, s, hs, rfl⟩ := hwrites.kept step id o (hjournal ▸ List.mem_append_right _ hmem)
    exact (hslots step s o hs hslot).symm
  rw [journalOf, List.filterMap_append, hjournal, List.filterMap_append, filterMap_event?_start,
    hevents hentries]
  exact List.append_nil _

theorem exists_trace_of_checkout :
    ∃ c outcome, compile {} .checkout = .ok c ∧ c.profile = .verbose ∧
      c.FollowsPlan [] (c.runPlan .echo [] ()) outcome
        ((c.journalOf (c.runPlan .echo [] ())).filterMap (Entry.event? c.program)) := by
  obtain ⟨c, hc, hprofile⟩ := exists_checkout
  obtain ⟨outcome, hfollows⟩ := trace_of_runPlan hc (.inr hprofile) .echo [] ()
  exact ⟨c, outcome, hc, hprofile, hfollows⟩

end Compilation

end FormulaEngine
