import FormulaEngine.Proofs.Eval.Steadiness
import FormulaEngine.Proofs.Run.Events
import FormulaEngine.Proofs.Run.Waves
import Mathlib.Data.List.Forall2

/-!
# Grouping

How steps are put into groups cannot be seen from a run. The steps of a group run in waves: each
synchronous step is one, and so are the asynchronous steps together. Merging groups leaves the list
of waves as it is, and a run of groups does what a run of their waves does, but for marking where a
group begins and ends.
-/

namespace FormulaEngine

namespace Progress

variable {σ ι : Type} {p : Program} {fs : Functions σ} {pr pr' pr'' : Progress σ}

/-- Two runs have come to the same, as far as slots, recorded failures and events of steps tell. The
states of their hosts differ only if they do not matter. -/
structure Agree (p : Program) (fs : Functions σ) (pr pr' : Progress σ) : Prop where
  slots : pr.slots = pr'.slots
  recorded : pr.recorded = pr'.recorded
  stopped : pr.stopped = pr'.stopped
  events : p.stepEvents pr.journal = p.stepEvents pr'.journal
  host : fs.IsSteady ∨ pr.host = pr'.host

namespace Agree

theorem refl (pr : Progress σ) : Agree p fs pr pr := ⟨rfl, rfl, rfl, rfl, .inr rfl⟩

theorem symm (h : Agree p fs pr pr') : Agree p fs pr' pr :=
  ⟨h.slots.symm, h.recorded.symm, h.stopped.symm, h.events.symm, h.host.imp_right Eq.symm⟩

theorem trans (h : Agree p fs pr pr') (h' : Agree p fs pr' pr'') : Agree p fs pr pr'' := by
  refine ⟨h.slots.trans h'.slots, h.recorded.trans h'.recorded, h.stopped.trans h'.stopped,
    h.events.trans h'.events, ?_⟩
  rcases h.host with hfs | hhost
  · exact .inl hfs
  · exact h'.host.imp_right hhost.trans

theorem note (h : Agree p fs pr pr') (entries : List Entry) :
    Agree p fs (pr.note entries) (pr'.note entries) := by
  refine ⟨h.slots, h.recorded, h.stopped, ?_, h.host⟩
  rw [Progress.note, Progress.note, p.stepEvents_append, p.stepEvents_append, h.events]

/-- Entries that tell of no step may stand in one journal and not in the other. -/
theorem note_left (h : Agree p fs pr pr') {entries : List Entry}
    (hquiet : p.stepEvents entries = []) : Agree p fs (pr.note entries) pr' := by
  refine ⟨h.slots, h.recorded, h.stopped, ?_, h.host⟩
  rw [Progress.note, p.stepEvents_append, hquiet, List.append_nil, h.events]

theorem afterRan (h : Agree p fs pr pr') {α : Type} {ran ran' : Ran σ α}
    (hhost : fs.IsSteady ∨ ran.host = ran'.host) :
    Agree p fs (pr.afterRan ran) (pr'.afterRan ran') := by
  refine ⟨h.slots, h.recorded, h.stopped, ?_, hhost⟩
  rw [Progress.afterRan, Progress.afterRan, p.stepEvents_append, p.stepEvents_append,
    p.stepEvents_panicked, p.stepEvents_panicked, h.events]

theorem settle (h : Agree p fs pr pr') (failFast : Bool) (step : StepId) (id : DeclId)
    {r r' : Except Fault Value} (hr : r = r') :
    Agree p fs (pr.settle failFast step id r) (pr'.settle failFast step id r') := by
  subst hr
  refine ⟨?_, ?_, ?_, ?_, h.host⟩
  · rw [Progress.settle, Progress.settle, h.slots]
  · rw [Progress.settle, Progress.settle, h.recorded]
  · rw [Progress.settle, Progress.settle, h.stopped]
  · rw [Progress.settle, Progress.settle, p.stepEvents_append, p.stepEvents_append, h.events]

end Agree

/-- Runs one item after the other, up to one with which the run ends. -/
def untilStopped (run : ι → Progress σ → Progress σ) : List ι → Progress σ → Progress σ
  | [], pr => pr
  | x :: rest, pr =>
    if (run x pr).stopped then run x pr else untilStopped run rest (run x pr)

variable {run : ι → Progress σ → Progress σ} {items front back : List ι}

theorem untilStopped_append (hrunning : pr.stopped = false) :
    untilStopped run (front ++ back) pr =
      if (untilStopped run front pr).stopped then untilStopped run front pr
      else untilStopped run back (untilStopped run front pr) := by
  induction front generalizing pr with
  | nil => simp [untilStopped, hrunning]
  | cons x rest ih =>
    rw [List.cons_append, untilStopped, untilStopped]
    by_cases hstopped : (run x pr).stopped
    · simp [hstopped]
    · simp only [hstopped]
      exact ih (by simpa using hstopped)

theorem untilStopped_singleton (x : ι) : untilStopped run [x] pr = run x pr := by
  rw [untilStopped, untilStopped, ite_self]

theorem Agree.untilStopped (hrun : ∀ x {pr pr'}, Agree p fs pr pr' →
      Agree p fs (run x pr) (run x pr')) (h : Agree p fs pr pr') :
    Agree p fs (untilStopped run items pr) (untilStopped run items pr') := by
  induction items generalizing pr pr' with
  | nil => exact h
  | cons x rest ih =>
    have hx := hrun x h
    rw [Progress.untilStopped, Progress.untilStopped, hx.stopped]
    by_cases hstopped : (run x pr').stopped
    · rw [if_pos hstopped, if_pos hstopped]
      exact hx
    · rw [if_neg hstopped, if_neg hstopped]
      exact ih hx

end Progress

namespace Compilation

variable {σ : Type} {c : Compilation} {fs : Functions σ} {pr pr' : Progress σ} {host host' : σ}

/-! ### Steps -/

/-- If the states of the host matter at all, they are the same at the end when they were at the
beginning, and the results are. -/
theorem agree_run {α : Type} {r r' : Routine α}
    (hends : fs.IsSteady → ∀ a b, r.Ends fs a → r.Ends fs b → a = b) (hr : r = r')
    (hhost : fs.IsSteady ∨ host = host') :
    (r.run fs host).result = (r'.run fs host').result ∧
      (fs.IsSteady ∨ (r.run fs host).host = (r'.run fs host').host) := by
  subst hr
  rcases hhost with hfs | rfl
  · exact ⟨hends hfs _ _ (Routine.ends_run r host) (Routine.ends_run r host'), .inl hfs⟩
  · exact ⟨rfl, .inr rfl⟩

theorem agree_runStep (h : pr.Agree c.program fs pr') (step : StepId) (d : Declaration) :
    (c.runStep fs step d pr).Agree c.program fs (c.runStep fs step d pr') := by
  have hroutine : c.routine fs .synchronous pr.slots d = c.routine fs .synchronous pr'.slots d := by
    rw [h.slots]
  obtain ⟨hresult, hhost⟩ := agree_run
    (fun hfs _ _ hr hr' => eq_of_ends_of_isSteady hfs hr hr') hroutine h.host
  exact ((h.note [.stepStarted step d.id]).afterRan hhost).settle c.failFast step d.id hresult

theorem agree_settleAll (h : pr.Agree c.program fs pr') (steps : List (StepId × Declaration))
    {results results' : List (Except Fault Value)} (hresults : results = results') :
    (c.settleAll steps results pr).Agree c.program fs (c.settleAll steps results' pr') := by
  subst hresults
  unfold settleAll
  induction steps.zip results generalizing pr pr' with
  | nil => exact h
  | cons settled rest ih => exact ih (h.settle c.failFast settled.1.1 settled.1.2.id rfl)

theorem agree_runAsynchronous (h : pr.Agree c.program fs pr')
    (steps : List (StepId × Declaration)) :
    (c.runAsynchronous fs steps pr).Agree c.program fs (c.runAsynchronous fs steps pr') := by
  let together (s : Slots) : Routine (List (Except Fault Value)) :=
    Routine.joinAll (steps.map fun x => c.routine fs .asynchronous s x.2)
  have hends : fs.IsSteady → ∀ results results', (together pr.slots).Ends fs results →
      (together pr.slots).Ends fs results' → results = results' := by
    intro hfs results results' hresults hresults'
    -- The turns that calls take may differ, so only the results of the steps are compared.
    exact eq_of_forall₂_ends hfs
      (List.forall₂_map_left_iff.mp (Routine.ends_joinAll hresults))
      (List.forall₂_map_left_iff.mp (Routine.ends_joinAll hresults'))
  obtain ⟨hresult, hhost⟩ := agree_run hends (congrArg together h.slots) h.host
  have hstarted := h.note (steps.map fun x => .stepStarted x.1 x.2.id)
  exact agree_settleAll (hstarted.afterRan hhost) steps hresult

/-! ### Waves -/

/-- What runs at once: one synchronous step, or the asynchronous steps of a group. -/
inductive Wave where
  | single (step : StepId × Declaration)
  | together (steps : List (StepId × Declaration))

def wavesOf (c : Compilation) (group : StepGroup) : List Wave :=
  (c.scheduled group.synchronous).map .single ++
    match c.scheduled group.asynchronous with
    | [] => []
    | steps => [.together steps]

def runWave (c : Compilation) (fs : Functions σ) : Wave → Progress σ → Progress σ
  | .single x, pr => c.runStep fs x.1 x.2 pr
  | .together steps, pr => c.runAsynchronous fs steps pr

theorem agree_runWave (wave : Wave) {pr pr' : Progress σ} (h : pr.Agree c.program fs pr') :
    (c.runWave fs wave pr).Agree c.program fs (c.runWave fs wave pr') := by
  cases wave with
  | single x => exact agree_runStep h x.1 x.2
  | together steps => exact agree_runAsynchronous h steps

/-- Merging two groups puts their waves one after the other. -/
theorem wavesOf_absorb (g h : StepGroup) (hg : g.isAsynchronous = false) :
    c.wavesOf (g.absorb h) = c.wavesOf g ++ c.wavesOf h := by
  have hnone : g.asynchronous = [] := StepGroup.isAsynchronous_eq_false_iff.mp hg
  simp [wavesOf, StepGroup.absorb, hnone, scheduled]

theorem runSynchronous_eq (steps : List (StepId × Declaration)) (pr : Progress σ) :
    c.runSynchronous fs steps pr = Progress.untilStopped (c.runWave fs) (steps.map .single) pr := by
  induction steps generalizing pr with
  | nil => rfl
  | cons x rest ih =>
    rw [runSynchronous, List.map_cons, Progress.untilStopped, ih]
    rfl

theorem runAsynchronous_nil (pr : Progress σ) : c.runAsynchronous fs [] pr = pr := by
  simp [runAsynchronous, settleAll, Routine.joinAll, Routine.run, Progress.note, Progress.afterRan]

theorem agree_runSynchronous (h : pr.Agree c.program fs pr')
    (steps : List (StepId × Declaration)) :
    (c.runSynchronous fs steps pr).Agree c.program fs
      (Progress.untilStopped (c.runWave fs) (steps.map .single) pr') := by
  rw [runSynchronous_eq]
  exact h.untilStopped fun wave _ _ => agree_runWave wave

theorem agree_runGroup (h : pr.Agree c.program fs pr') (hrunning : pr'.stopped = false)
    (index : Nat) (group : StepGroup) :
    (c.runGroup fs index group pr).Agree c.program fs
      (Progress.untilStopped (c.runWave fs) (c.wavesOf group) pr') := by
  have hstarted : (pr.note [.groupStarted index group]).Agree c.program fs pr' := h.note_left rfl
  have hsynchronous := agree_runSynchronous hstarted (c.scheduled group.synchronous)
  rw [wavesOf, Progress.untilStopped_append hrunning]
  unfold runGroup
  apply Progress.Agree.note_left _ rfl
  rw [hsynchronous.stopped]
  split
  case isTrue => exact hsynchronous
  case isFalse =>
    -- Without asynchronous steps there is no second wave, and running none of them does nothing.
    split
    case h_1 hnone =>
      rw [hnone, runAsynchronous_nil]
      exact hsynchronous
    case h_2 =>
      rw [Progress.untilStopped_singleton]
      exact agree_runAsynchronous hsynchronous _

/-- A run of groups comes to what a run of their waves comes to. -/
theorem agree_runGroups (h : pr.Agree c.program fs pr') (hrunning : pr'.stopped = false)
    (index : Nat) (groups : List StepGroup) :
    (c.runGroups fs index groups pr).Agree c.program fs
      (Progress.untilStopped (c.runWave fs) (groups.flatMap c.wavesOf) pr') := by
  induction groups generalizing index pr pr' with
  | nil => exact h
  | cons group rest ih =>
    have hgroup := agree_runGroup h hrunning index group
    rw [List.flatMap_cons, Progress.untilStopped_append hrunning, runGroups, hgroup.stopped]
    split
    case isTrue => exact hgroup.note_left rfl
    case isFalse hstopped => exact ih hgroup (by simpa using hstopped) (index + 1)

/-! ### Plans -/

def waves (c : Compilation) : List Wave := c.plan.groups.flatMap c.wavesOf

/-- Merging or not, a plan has the waves of its layers. -/
theorem waves_withSettings (c : Compilation) (settings : Settings) :
    (c.withSettings settings).waves =
      (c.layers.map (Plan.groupOf c.program c.layers.flatten)).flatMap c.wavesOf :=
  Plan.flatMap_groupsOf rfl wavesOf_absorb

theorem agree_runPlan (c : Compilation) (arguments : List (String × Value))
    (hhost : fs.IsSteady ∨ host = host') :
    (c.runPlan fs arguments host).Agree c.program fs
      (Progress.untilStopped (c.runWave fs) c.waves (c.start arguments host')) := by
  have hstart : (c.start arguments host).Agree c.program fs (c.start arguments host') :=
    ⟨rfl, rfl, rfl, rfl, hhost⟩
  exact agree_runGroups hstart rfl 0 c.plan.groups

theorem agree_runPlan_of_merging (c : Compilation) (profile : Profile) (merge merge' : Bool)
    (arguments : List (String × Value)) (hhost : fs.IsSteady ∨ host = host') :
    ((c.withSettings ⟨profile, merge⟩).runPlan fs arguments host).Agree c.program fs
      ((c.withSettings ⟨profile, merge'⟩).runPlan fs arguments host') := by
  have hrun := agree_runPlan (c.withSettings ⟨profile, merge⟩) arguments hhost
  have hrun' := agree_runPlan (c.withSettings ⟨profile, merge'⟩) arguments
    (.inr rfl : fs.IsSteady ∨ host' = host')
  rw [waves_withSettings] at hrun hrun'
  exact hrun.trans hrun'.symm

/-- The layers that have to wait for something asynchronous. -/
def suspendingLayers (c : Compilation) : Nat :=
  c.layers.countP fun layer => layer.any fun d =>
    (c.program.declaration? d).any Declaration.isAsync

theorem Valid.suspensionPoints_withSettings (h : c.Valid) (settings : Settings) :
    (c.withSettings settings).plan.suspensionPoints = c.suspendingLayers := by
  have hnodup : c.layers.flatten.Nodup := h.isLayering.nodup h.wellFormed
  exact @Plan.countP_groupsOf c.program c.layers settings.mergesSynchronousGroups hnodup

/-- Merging groups changes nothing but the groups: the result of a run is the same and so are the
events of its steps, and a plan suspends once for each layer that has something asynchronous. -/
theorem merging_is_unobservable {settings : Settings} {source : ProgramSource}
    (h : compile settings source = .ok c) (arguments : List (String × Value))
    (hhost : fs.IsSteady ∨ host = host') :
    ∃ merged separate,
      compile { settings with mergesSynchronousGroups := true } source = .ok merged ∧
      compile { settings with mergesSynchronousGroups := false } source = .ok separate ∧
      merged.evaluate fs arguments host = separate.evaluate fs arguments host' ∧
      merged.program.stepEvents (merged.journalOf (merged.runPlan fs arguments host)) =
        separate.program.stepEvents
          (separate.journalOf (separate.runPlan fs arguments host')) ∧
      merged.plan.suspensionPoints = c.suspendingLayers ∧
      separate.plan.suspensionPoints = c.suspendingLayers := by
  have hvalid := valid_of_compile h
  have hagree := agree_runPlan_of_merging c settings.profile true false arguments hhost
  refine ⟨_, _, compile_withSettings h _, compile_withSettings h _, ?_, ?_, ?_, ?_⟩
  · rw [evaluate, evaluate, resultOf, resultOf, hagree.slots, hagree.recorded]
    rfl
  · rw [journalOf, journalOf, Program.stepEvents_append, Program.stepEvents_append]
    exact congrArg (· ++ []) hagree.events
  · exact hvalid.suspensionPoints_withSettings _
  · exact hvalid.suspensionPoints_withSettings _

/-- The groups of the checkout can be merged, and a run comes to the same. -/
theorem exists_merging_of_checkout :
    ∃ merged separate,
      compile {} .checkout = .ok merged ∧
      compile { mergesSynchronousGroups := false } .checkout = .ok separate ∧
      merged.plan.groups.length < separate.plan.groups.length ∧
      merged.evaluate .echo [] () = separate.evaluate .echo [] () := by
  have hmerged : (compile {} .checkout).toOption.any fun c => c.plan.groups.length == 2 := by
    decide +kernel
  have hseparate : (compile { mergesSynchronousGroups := false } .checkout).toOption.any
      fun c => c.plan.groups.length == 4 := by decide +kernel
  obtain ⟨c, hc, -⟩ := exists_checkout
  obtain ⟨merged, separate, hm, hs, hresult, -⟩ :=
    merging_is_unobservable hc [] (.inl Functions.isSteady_echo : _ ∨ () = ())
  rw [hm] at hmerged
  rw [hs] at hseparate
  refine ⟨merged, separate, hm, hs, ?_, hresult⟩
  simp only [Except.toOption, Option.any_some, beq_iff_eq] at hmerged hseparate
  omega

end Compilation

end FormulaEngine
