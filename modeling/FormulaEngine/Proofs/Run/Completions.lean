import FormulaEngine.Proofs.Run.Profiles
import FormulaEngine.Proofs.Run.Traces

/-!
# When groups are completed

Observers are told that a group is completed when the run leaves it. Each step of the group has an
outcome then, unless the run ends with a synchronous step that fails: the steps behind it have none,
and never get one.
-/

namespace FormulaEngine

/-- The step that is settled with an entry. -/
def Entry.settledStep? : Entry → Option StepId
  | .stepSettled step _ _ => some step
  | _ => none

theorem Entry.filterMap_settledStep?_event? (p : Program) (entries : List Entry) :
    (entries.filterMap (event? p)).filterMap Event.settledStep? =
      entries.filterMap settledStep? := by
  rw [List.filterMap_filterMap]
  apply List.filterMap_congr
  intro e _
  cases e with
  | stepSettled step id o =>
    rw [event?_stepSettled]
    exact Outcome.settledStep?_event o step _
  | _ => rfl

theorem Entry.mem_filterMap_settledStep? {entries : List Entry} {step : StepId} :
    step ∈ entries.filterMap settledStep? ↔ ∃ id o, .stepSettled step id o ∈ entries := by
  rw [List.mem_filterMap]
  constructor
  · rintro ⟨e, he, hstep⟩
    cases e with
    | stepSettled step' id o =>
      obtain rfl : step' = step := Option.some.inj hstep
      exact ⟨id, o, he⟩
    | _ => cases hstep
  · rintro ⟨id, o, hmem⟩
    exact ⟨_, hmem, rfl⟩

theorem Slots.isSome_get?_replay_iff {s : Slots} {entries : List Entry} {id : DeclId} :
    ((s.replay entries).get? id).isSome ↔
      (s.get? id).isSome ∨ ∃ step o, .stepSettled step id o ∈ entries := by
  induction entries generalizing s with
  | nil => simp [replay]
  | cons e rest ih =>
    rw [replay, List.foldl_cons, ← replay, ih]
    cases e with
    | stepSettled step other o =>
      by_cases hid : id = other
      · subst hid
        simp only [after, get?_insert_self, Option.isSome_some, true_or, true_iff]
        exact .inr ⟨step, o, List.mem_cons_self⟩
      · simp [after, get?_insert_of_ne s hid, hid]
    | _ => simp [after]

namespace Compilation

variable {σ : Type} {c : Compilation} {fs : Functions σ} {arguments : List (String × Value)}
  {pr : Progress σ} {step : StepId} {group : StepGroup} {groups : List StepGroup}
  {index start : Nat} {entries before part : List Entry} {ids ends done left : List StepId}

/-- A step has an outcome: its slot is filled, and one event tells how it has ended. -/
structure HasOutcome (c : Compilation) (arguments : List (String × Value)) (before : List Entry)
    (step : StepId) : Prop where
  filled : ∃ s, c.plan.step? step = some s ∧
    (((c.seed arguments).replay before).get? s.declaration).isSome
  told : ((before.filterMap (Entry.event? c.program)).filterMap Event.settledStep?).count step = 1

/-- A step has no outcome: its slot is empty, and no event tells that it has ended. -/
structure LacksOutcome (c : Compilation) (arguments : List (String × Value)) (before : List Entry)
    (step : StepId) : Prop where
  empty : ∃ s, c.plan.step? step = some s ∧
    ((c.seed arguments).replay before).get? s.declaration = none
  untold : ((before.filterMap (Entry.event? c.program)).filterMap Event.settledStep?).count step = 0

/-- Whenever a group is completed, each of its steps has an outcome. -/
def CompletesGroups (c : Compilation) (arguments : List (String × Value)) (journal : List Entry) :
    Prop :=
  ∀ before index after, journal = before ++ .groupCompleted index :: after →
    ∃ group, c.plan.groups[index]? = some group ∧
      ∀ step ∈ group.steps, c.HasOutcome arguments before step

/-- A run that ends with its first failure has come to it at a synchronous step of a group that has
steps behind it. -/
def CutsShort (c : Compilation) (events : List Event) (group : StepGroup) : Prop :=
  c.profile = .minimal ∧ ∃ front step later name error, group.steps = front ++ step :: later ∧
    later ≠ [] ∧ step ∈ group.synchronous ∧ .stepFailed step name error ∈ events

/-- A step is settled with some entry, but not with a value. -/
def IsLost (step : StepId) (entries : List Entry) : Prop :=
  ∃ id o, .stepSettled step id o ∈ entries ∧ o.isValue = false

theorem IsLost.mem_settled (h : IsLost step entries) :
    step ∈ entries.filterMap Entry.settledStep? := by
  obtain ⟨id, o, hmem, -⟩ := h
  exact Entry.mem_filterMap_settledStep?.mpr ⟨id, o, hmem⟩

theorem isLost_append_iff {front rest : List Entry} :
    IsLost step (front ++ rest) ↔ IsLost step front ∨ IsLost step rest := by
  simp only [IsLost, List.mem_append, or_and_right, exists_or]

/-! ### How a group is left -/

/-- With some entries the first steps of a group are settled. If any are left, the run ends with its
first failure, and this was at the last one; there are steps at which every failure is the last. -/
structure Leaves (c : Compilation) (ends ids done left : List StepId) (entries : List Entry) :
    Prop where
  ids_eq : ids = done ++ left
  settled : entries.filterMap Entry.settledStep? = done
  quiet : ∀ index, .groupCompleted index ∉ entries
  cut : left ≠ [] → c.failFast ∧ ∃ step ∈ ends, done.getLast? = some step ∧ IsLost step entries
  last : c.failFast → ∀ step ∈ ends, IsLost step entries → done.getLast? = some step

theorem Leaves.not_isLost (h : c.Leaves ends ids done left entries) (hdone : step ∉ done) :
    ¬IsLost step entries :=
  fun hlost => hdone (h.settled ▸ hlost.mem_settled)

/-- Entries with which no step is settled leave nothing. -/
theorem leaves_nil (hsettled : entries.filterMap Entry.settledStep? = [])
    (hquiet : ∀ index, .groupCompleted index ∉ entries) : c.Leaves ends [] [] [] entries where
  ids_eq := rfl
  settled := hsettled
  quiet := hquiet
  cut h := absurd rfl h
  last _ _ _ hlost := absurd (hsettled ▸ hlost.mem_settled) List.not_mem_nil

theorem Leaves.append {front rest : List Entry} {ids' : List StepId}
    (h : c.Leaves ends ids ids [] front) (hkept : c.failFast → ∀ step, ¬IsLost step front)
    (h' : c.Leaves ends ids' done left rest) :
    c.Leaves ends (ids ++ ids') (ids ++ done) left (front ++ rest) where
  ids_eq := by rw [h'.ids_eq, List.append_assoc]
  settled := by rw [List.filterMap_append, h.settled, h'.settled]
  quiet index hmem := (List.mem_append.mp hmem).elim (h.quiet index) (h'.quiet index)
  cut hleft := by
    obtain ⟨hfast, step, hstep, hlast, hlost⟩ := h'.cut hleft
    exact ⟨hfast, step, hstep, List.mem_getLast?_append_of_mem_getLast? hlast,
      isLost_append_iff.mpr (.inr hlost)⟩
  last hfast step hstep hlost := by
    have hrest := (isLost_append_iff.mp hlost).resolve_left (hkept hfast step)
    exact List.mem_getLast?_append_of_mem_getLast? (h'.last hfast step hstep hrest)

/-- What was planned behind the end of a run is left as well. -/
theorem Leaves.extend {ids' : List StepId} (h : c.Leaves ends ids done left entries)
    (hfast : c.failFast) (hstep : step ∈ ends) (hlost : IsLost step entries) :
    c.Leaves ends (ids ++ ids') done (left ++ ids') entries where
  ids_eq := by rw [h.ids_eq, List.append_assoc]
  settled := h.settled
  quiet := h.quiet
  cut _ := ⟨hfast, step, hstep, h.last hfast step hstep hlost, hlost⟩
  last := h.last

theorem leaves_runStep (fs : Functions σ) (step : StepId) (d : Declaration) (pr : Progress σ) :
    ∃ entries, (c.runStep fs step d pr).journal = pr.journal ++ entries ∧
      c.Leaves ends [step] [step] [] entries ∧
      ((c.runStep fs step d pr).stopped ↔ pr.stopped ∨ c.failFast ∧ IsLost step entries) := by
  let ran := (c.routine fs .synchronous pr.slots d).run fs pr.host
  let o := Outcome.settle d.id ran.result
  have hjournal : (c.runStep fs step d pr).journal =
      pr.journal ++ (.stepStarted step d.id :: ran.panics.map .panicked ++
        [.stepSettled step d.id o]) := by
    simp [runStep, Progress.settle, Progress.afterRan, Progress.note, ran, o]
  refine ⟨_, hjournal, ⟨rfl, ?_, ?_, fun h => absurd rfl h, ?_⟩, ?_⟩
  · have hpanics : (ran.panics.map Entry.panicked).filterMap Entry.settledStep? = [] := by
      rw [List.filterMap_map, List.filterMap_eq_nil_iff]
      exact fun _ _ => rfl
    simp [List.filterMap_cons, List.filterMap_append, hpanics, Entry.settledStep?]
  · simp
  · rintro - other - ⟨id, o', hmem, -⟩
    obtain rfl : other = step := by
      simp at hmem
      exact hmem.1
    rfl
  · have hlost : IsLost step (.stepStarted step d.id :: ran.panics.map .panicked ++
        [.stepSettled step d.id o]) ↔ o.isValue = false := by
      simp [IsLost]
    rw [hlost]
    simp [runStep, Progress.settle, Progress.afterRan, Progress.note, ran, o]

/-- Synchronous steps are settled in their order up to one that ends the run. -/
theorem leaves_runSynchronous (fs : Functions σ) {steps : List (StepId × Declaration)}
    (hends : steps.map Prod.fst ⊆ ends) (hrunning : pr.stopped = false) :
    ∃ entries done left, (c.runSynchronous fs steps pr).journal = pr.journal ++ entries ∧
      c.Leaves ends (steps.map Prod.fst) done left entries ∧
      ((c.runSynchronous fs steps pr).stopped ↔ c.failFast ∧ ∃ step, IsLost step entries) := by
  induction steps generalizing pr with
  | nil =>
    refine ⟨[], [], [], (List.append_nil _).symm, leaves_nil rfl fun _ => List.not_mem_nil, ?_⟩
    simp [runSynchronous, hrunning, IsLost]
  | cons x rest ih =>
    obtain ⟨hx, hrest⟩ := List.cons_subset.mp hends
    obtain ⟨entries, hjournal, hleaves, hstop⟩ := @leaves_runStep σ c ends fs x.1 x.2 pr
    rw [hrunning, Bool.false_eq_true, false_or] at hstop
    by_cases hstopped : (c.runStep fs x.1 x.2 pr).stopped
    · obtain ⟨hfast, hlost⟩ := hstop.mp hstopped
      rw [runSynchronous_cons_of_stopped hstopped]
      refine ⟨entries, [x.1], _, hjournal, hleaves.extend hfast hx hlost, ?_⟩
      exact iff_of_true hstopped ⟨hfast, x.1, hlost⟩
    · have hkept : c.failFast → ∀ step, ¬IsLost step entries := by
        intro hfast step hlost
        obtain rfl := List.mem_singleton.mp (hleaves.settled ▸ hlost.mem_settled)
        exact hstopped (hstop.mpr ⟨hfast, hlost⟩)
      obtain ⟨later, done, left, hjournal', hleaves', hstop'⟩ :=
        ih hrest (Bool.eq_false_iff.mpr hstopped)
      rw [runSynchronous_cons_of_running (Bool.eq_false_iff.mpr hstopped)]
      refine ⟨entries ++ later, x.1 :: done, left, ?_, hleaves.append hkept hleaves', ?_⟩
      · rw [hjournal', hjournal, List.append_assoc]
      · rw [hstop']
        refine and_congr_right fun hfast => exists_congr fun step => ?_
        rw [isLost_append_iff, or_iff_right (hkept hfast step)]

/-- Asynchronous steps are all settled. -/
theorem leaves_runAsynchronous (fs : Functions σ) {steps : List (StepId × Declaration)}
    (hends : ∀ step ∈ ends, step ∉ steps.map Prod.fst) (pr : Progress σ) :
    ∃ entries, (c.runAsynchronous fs steps pr).journal = pr.journal ++ entries ∧
      c.Leaves ends (steps.map Prod.fst) (steps.map Prod.fst) [] entries := by
  let together := Routine.joinAll (steps.map fun s => c.routine fs .asynchronous pr.slots s.2)
  let ran := together.run fs pr.host
  have hlength : ran.result.length = steps.length :=
    (Routine.forall₂_run_joinAll steps (fun x => c.routine fs .asynchronous pr.slots x.2)
      pr.host).length_eq.symm
  have hjournal : (c.runAsynchronous fs steps pr).journal = pr.journal ++
      (steps.map (fun s => Entry.stepStarted s.1 s.2.id) ++ ran.panics.map .panicked ++
        Entry.settled steps ran.result) := by
    rw [runAsynchronous, journal_settleAll, ← List.append_assoc, ← List.append_assoc]
    rfl
  have hsettled : (steps.map (fun s => Entry.stepStarted s.1 s.2.id) ++
      ran.panics.map Entry.panicked ++ Entry.settled steps ran.result).filterMap
        Entry.settledStep? = steps.map Prod.fst := by
    have hfst : (Entry.settled steps ran.result).filterMap Entry.settledStep? =
        (steps.zip ran.result).map (Prod.fst ∘ Prod.fst) := by
      rw [Entry.settled, List.filterMap_map]
      exact List.filterMap_eq_map_iff_forall_eq_some.mpr fun _ _ => rfl
    rw [List.filterMap_append, List.filterMap_append, List.filterMap_map, List.filterMap_map, hfst,
      ← List.map_map, List.map_fst_zip hlength.ge]
    simp [Function.comp_def, Entry.settledStep?]
  refine ⟨_, hjournal, ⟨(List.append_nil _).symm, hsettled, ?_, fun h => absurd rfl h, ?_⟩⟩
  · simp [Entry.settled]
  · exact fun _ step hstep hlost => absurd (hsettled ▸ hlost.mem_settled) (hends step hstep)

/-- A run comes to the end of each group, unless it ends at a synchronous step. -/
theorem leaves_runGroup (h : c.Valid) (fs : Functions σ) (index : Nat)
    (hsize : ∀ i ∈ group.steps, i < c.plan.size) (hnodup : group.steps.Nodup)
    (hrunning : pr.stopped = false) :
    ∃ entries done left, (c.runGroup fs index group pr).journal =
        pr.journal ++ (entries ++ [.groupCompleted index]) ∧
      c.Leaves group.synchronous group.steps done left entries ∧
      ((c.runGroup fs index group pr).stopped = false → left = []) := by
  have hmark : c.Leaves group.synchronous [] [] [] [.groupStarted index group] :=
    leaves_nil rfl fun _ => by simp
  have hkept : c.failFast → ∀ step, ¬IsLost step [.groupStarted index group] :=
    fun _ step => hmark.not_isLost List.not_mem_nil
  have hsynchronous := h.map_fst_scheduled fun i hi => hsize i (List.mem_append_left _ hi)
  have hasynchronous := h.map_fst_scheduled fun i hi => hsize i (List.mem_append_right _ hi)
  obtain ⟨entries, done, left, hjournal, hleaves, hstop⟩ :=
    @leaves_runSynchronous σ c (pr.note [.groupStarted index group]) group.synchronous fs
      (c.scheduled group.synchronous) (fun _ hi => hsynchronous ▸ hi) hrunning
  rw [hsynchronous] at hleaves
  have hstarted := hmark.append hkept hleaves
  by_cases hstopped : (c.runSynchronous fs (c.scheduled group.synchronous)
      (pr.note [.groupStarted index group])).stopped
  · obtain ⟨hfast, step, hlost⟩ := hstop.mp hstopped
    have hstep : step ∈ group.synchronous := by
      rw [hleaves.ids_eq, ← hleaves.settled]
      exact List.mem_append_left _ hlost.mem_settled
    rw [runGroup_of_stopped hstopped]
    refine ⟨_, _, _, ?_, hstarted.extend hfast hstep (isLost_append_iff.mpr (.inr hlost)),
      fun hrun => absurd (hstopped.symm.trans hrun) (by simp)⟩
    rw [Progress.note, hjournal]
    simp [Progress.note]
  · have hrunning' := Bool.eq_false_iff.mpr hstopped
    have hnone : left = [] := by
      by_contra hleft
      obtain ⟨hfast, step, -, -, hlost⟩ := hleaves.cut hleft
      exact hstopped (hstop.mpr ⟨hfast, step, hlost⟩)
    subst hnone
    have hdone : group.synchronous = done := hleaves.ids_eq.trans (List.append_nil _)
    obtain ⟨later, hjournal', hleaves'⟩ := @leaves_runAsynchronous σ c group.synchronous fs
      (c.scheduled group.asynchronous) (fun step hstep hmem =>
        (List.nodup_append.mp hnodup).2.2 step hstep step (hasynchronous ▸ hmem) rfl)
      (c.runSynchronous fs (c.scheduled group.synchronous) (pr.note [.groupStarted index group]))
    rw [hasynchronous] at hleaves'
    rw [List.nil_append, List.nil_append, ← hdone] at hstarted
    have hkept' : c.failFast → ∀ step, ¬IsLost step ([.groupStarted index group] ++ entries) := by
      intro hfast step hlost
      have hlost' := (isLost_append_iff.mp hlost).resolve_left (hkept hfast step)
      exact hstopped (hstop.mpr ⟨hfast, step, hlost'⟩)
    rw [runGroup_of_running hrunning']
    refine ⟨_, _, _, ?_, hstarted.append hkept' hleaves', fun _ => rfl⟩
    rw [Progress.note, hjournal', hjournal]
    simp [Progress.note]

/-! ### How groups are left -/

/-- What is told of groups that are numbered from `start` on. The run may end with any of them. -/
inductive Unfolds (c : Compilation) : Nat → List StepGroup → List Entry → Prop where
  | nil {start : Nat} : Unfolds c start [] []
  | stop {start : Nat} {group : StepGroup} {rest : List StepGroup} {entries : List Entry}
      {done left : List StepId}
      (h : c.Leaves group.synchronous group.steps done left entries) :
    Unfolds c start (group :: rest) (entries ++ [.groupCompleted start, .stopped start])
  | next {start : Nat} {group : StepGroup} {rest : List StepGroup} {entries later : List Entry}
      (h : c.Leaves group.synchronous group.steps group.steps [] entries)
      (hrest : Unfolds c (start + 1) rest later) :
    Unfolds c start (group :: rest) (entries ++ [.groupCompleted start] ++ later)

theorem unfolds_runGroups (h : c.Valid) (fs : Functions σ)
    (hsize : ∀ i ∈ groups.flatMap StepGroup.steps, i < c.plan.size)
    (hnodup : (groups.flatMap StepGroup.steps).Nodup) (hrunning : pr.stopped = false) :
    ∃ entries, (c.runGroups fs start groups pr).journal = pr.journal ++ entries ∧
      c.Unfolds start groups entries := by
  induction groups generalizing start pr with
  | nil => exact ⟨[], (List.append_nil _).symm, .nil⟩
  | cons group rest ih =>
    rw [List.flatMap_cons] at hsize hnodup
    obtain ⟨hfirst, hrest, -⟩ := List.nodup_append.mp hnodup
    obtain ⟨entries, done, left, hjournal, hleaves, hend⟩ := leaves_runGroup h fs start
      (fun i hi => hsize i (List.mem_append_left _ hi)) hfirst hrunning
    by_cases hstopped : (c.runGroup fs start group pr).stopped
    · rw [runGroups_cons_of_stopped hstopped]
      refine ⟨_, ?_, .stop hleaves⟩
      rw [Progress.note, hjournal]
      simp
    · have hrunning' := Bool.eq_false_iff.mpr hstopped
      obtain rfl := hend hrunning'
      obtain rfl : group.steps = done := hleaves.ids_eq.trans (List.append_nil _)
      obtain ⟨later, hjournal', hlater⟩ :=
        ih (fun i hi => hsize i (List.mem_append_right _ hi)) hrest hrunning'
      rw [runGroups_cons_of_running hrunning']
      refine ⟨_, ?_, .next hleaves hlater⟩
      rw [hjournal', hjournal]
      simp

/-- When a group is completed, the groups before it were settled as a whole, and it has been left
with some entries. -/
structure IsLeft (c : Compilation) (groups : List StepGroup) (k : Nat) (before : List Entry)
    (group : StepGroup) (done left : List StepId) (part : List Entry) : Prop where
  group_eq : groups[k]? = some group
  settled : before.filterMap Entry.settledStep? = (groups.take k).flatMap StepGroup.steps ++ done
  leaves : c.Leaves group.synchronous group.steps done left part
  subset : part ⊆ before

theorem Leaves.isLeft (h : c.Leaves group.synchronous group.steps done left part) :
    c.IsLeft (group :: groups) 0 part group done left part :=
  ⟨rfl, h.settled, h, List.Subset.refl part⟩

theorem IsLeft.cons {first : StepGroup} {front : List Entry} {k : Nat}
    (h : c.IsLeft groups k before group done left part)
    (hfront : front.filterMap Entry.settledStep? = first.steps) :
    c.IsLeft (first :: groups) (k + 1) (front ++ [.groupCompleted start] ++ before) group done left
      part where
  group_eq := h.group_eq
  settled := by
    rw [List.filterMap_append, List.filterMap_append, hfront, h.settled, List.take_succ_cons,
      List.flatMap_cons, List.append_assoc, List.append_assoc]
    rfl
  leaves := h.leaves
  subset _ he := List.mem_append_right _ (h.subset he)

theorem exists_split_behind {α : Type} {front rest before after : List α} {a : α}
    (h : front ++ rest = before ++ a :: after) (hfront : a ∉ front) :
    ∃ later, before = front ++ later ∧ rest = later ++ a :: after := by
  rcases List.append_eq_append_iff.mp h with ⟨later, hbefore, hrest⟩ | ⟨later, rfl, hrest⟩
  · exact ⟨later, hbefore, hrest⟩
  · cases later with
    | nil => exact ⟨[], by simp, hrest.symm⟩
    | cons b later =>
      obtain ⟨rfl, -⟩ := List.cons.inj hrest
      exact absurd (by simp) hfront

/-- Each group that is completed has been left. -/
theorem Unfolds.isLeft (h : c.Unfolds start groups entries) {after : List Entry}
    (hsplit : entries = before ++ .groupCompleted index :: after) :
    ∃ k group done left part, index = start + k ∧
      c.IsLeft groups k before group done left part := by
  induction h generalizing before with
  | nil => exact absurd hsplit (by simp)
  | stop hleaves =>
    obtain ⟨later, rfl, hlater⟩ := exists_split_behind hsplit (hleaves.quiet index)
    cases later with
    | nil =>
      obtain ⟨heq, -⟩ := List.cons.inj hlater
      rw [List.append_nil]
      exact ⟨0, _, _, _, _, (Entry.groupCompleted.inj heq).symm, hleaves.isLeft⟩
    | cons e later => exact absurd (List.cons.inj hlater).2 (by cases later <;> simp)
  | @next start group rest entries later hleaves _ ih =>
    rw [List.append_assoc] at hsplit
    obtain ⟨later', rfl, hlater⟩ := exists_split_behind hsplit (hleaves.quiet index)
    cases later' with
    | nil =>
      obtain ⟨heq, -⟩ := List.cons.inj hlater
      rw [List.append_nil]
      exact ⟨0, _, _, _, _, (Entry.groupCompleted.inj heq).symm, hleaves.isLeft⟩
    | cons e later' =>
      obtain ⟨rfl, hrest⟩ := List.cons.inj hlater
      obtain ⟨k, group', done, left, part, rfl, hleft⟩ := ih hrest
      refine ⟨k + 1, group', done, left, part, by omega, ?_⟩
      rw [List.append_cons]
      exact hleft.cons hleaves.settled

/-- A group with a step that was lost is completed after that. -/
theorem Unfolds.exists_completion (h : c.Unfolds start groups entries)
    (hlost : IsLost step entries) : ∃ before k after group done left part,
      entries = before ++ .groupCompleted (start + k) :: after ∧
        c.IsLeft groups k before group done left part ∧ IsLost step part := by
  have hmarks : ∀ marks : List Entry, marks.filterMap Entry.settledStep? = [] →
      ¬IsLost step marks := fun marks hmarks hlost =>
    absurd (hmarks ▸ hlost.mem_settled) List.not_mem_nil
  induction h with
  | nil => exact absurd hlost (hmarks [] rfl)
  | @stop start group rest entries done left hleaves =>
    have hpart := (isLost_append_iff.mp hlost).resolve_right (hmarks _ rfl)
    exact ⟨entries, 0, [.stopped start], group, done, left, entries, rfl, hleaves.isLeft, hpart⟩
  | @next start group rest entries later hleaves _ ih =>
    rcases isLost_append_iff.mp hlost with hfirst | hlater
    · have hpart := (isLost_append_iff.mp hfirst).resolve_right (hmarks _ rfl)
      refine ⟨entries, 0, later, group, group.steps, [], entries, ?_, hleaves.isLeft, hpart⟩
      rw [List.append_assoc]
      rfl
    · obtain ⟨before, k, after, group', done, left, part, rfl, hleft, hpart⟩ := ih hlater
      refine ⟨entries ++ [.groupCompleted start] ++ before, k + 1, after, group', done, left, part,
        ?_, hleft.cons hleaves.settled, hpart⟩
      rw [List.append_assoc _ before, Nat.add_right_comm, Nat.add_assoc]

/-! ### Outcomes -/

theorem IsLeft.nodup (hleft : c.IsLeft c.plan.groups index before group done left part)
    (h : c.Valid) : (before.filterMap Entry.settledStep? ++ left).Nodup := by
  have hall := h.isSafeSchedule.occurs_once.nodup_iff.mpr List.nodup_range
  obtain ⟨hlt, hgroup⟩ := List.getElem?_eq_some_iff.mp hleft.group_eq
  rw [← List.take_append_drop index c.plan.groups, List.drop_eq_getElem_cons hlt, hgroup,
    List.flatMap_append, List.flatMap_cons, ← List.append_assoc] at hall
  rw [hleft.settled, List.append_assoc, ← hleft.leaves.ids_eq]
  exact (List.nodup_append.mp hall).1

theorem IsLeft.hasOutcome (hleft : c.IsLeft c.plan.groups index before group done left part)
    (h : c.Valid) (hnamed : ∀ step id o, .stepSettled step id o ∈ before →
      ∃ s, c.plan.step? step = some s ∧ s.declaration = id) (hstep : step ∈ done) :
    c.HasOutcome arguments before step := by
  have hmem : step ∈ before.filterMap Entry.settledStep? := by
    rw [hleft.settled]
    exact List.mem_append_right _ hstep
  obtain ⟨id, o, hentry⟩ := Entry.mem_filterMap_settledStep?.mp hmem
  obtain ⟨s, hs, rfl⟩ := hnamed step id o hentry
  refine ⟨⟨s, hs, Slots.isSome_get?_replay_iff.mpr (.inr ⟨step, o, hentry⟩)⟩, ?_⟩
  rw [Entry.filterMap_settledStep?_event?]
  exact List.count_eq_one_of_mem (List.nodup_append.mp (hleft.nodup h)).1 hmem

theorem IsLeft.lacksOutcome (hleft : c.IsLeft c.plan.groups index before group done left part)
    (h : c.Valid) (hnamed : ∀ step id o, .stepSettled step id o ∈ before →
      ∃ s, c.plan.step? step = some s ∧ s.declaration = id) (hstep : step ∈ left) :
    c.LacksOutcome arguments before step := by
  have hnot : step ∉ before.filterMap Entry.settledStep? := fun hmem =>
    (List.nodup_append.mp (hleft.nodup h)).2.2 step hmem step hstep rfl
  have hgroup : step ∈ group.steps := by
    rw [hleft.leaves.ids_eq]
    exact List.mem_append_right _ hstep
  have hplan : step ∈ c.plan.groups.flatMap StepGroup.steps :=
    List.mem_flatMap.mpr ⟨group, List.mem_of_getElem? hleft.group_eq, hgroup⟩
  have hsize : step < c.plan.size :=
    List.mem_range.mp (h.isSafeSchedule.occurs_once.mem_iff.mp hplan)
  obtain ⟨s, hs⟩ : ∃ s, c.plan.step? step = some s := ⟨_, List.getElem?_eq_getElem hsize⟩
  obtain ⟨hid, hvertex, hfor⟩ := h.isSafeSchedule.vertex_of_step step s hs
  obtain ⟨d, hd, hisVertex⟩ := h.mem_vertices_iff.mp hvertex
  refine ⟨⟨s, hs, ?_⟩, ?_⟩
  · rw [← Option.not_isSome_iff_eq_none, Slots.isSome_get?_replay_iff]
    rintro (hseed | ⟨other, o, hentry⟩)
    · rw [get?_seed, hd] at hseed
      exact absurd hisVertex (by simp [isSome_given_iff.mp hseed])
    · obtain ⟨t, ht, htarget⟩ := hnamed other _ o hentry
      obtain ⟨hid', -, hfor'⟩ := h.isSafeSchedule.vertex_of_step other t ht
      rw [htarget, hfor] at hfor'
      obtain rfl := Option.some.inj hfor'
      obtain rfl : step = other := hid.symm.trans hid'
      exact hnot (Entry.mem_filterMap_settledStep?.mpr ⟨_, o, hentry⟩)
  · rw [Entry.filterMap_settledStep?_event?]
    exact List.count_eq_zero_of_not_mem hnot

/-- When a group is completed its first steps have outcomes. The others have none, and then the run
ends with a synchronous step. -/
structure SplitsOutcomes (c : Compilation) (arguments : List (String × Value))
    (before : List Entry) (group : StepGroup) (done left : List StepId) : Prop where
  steps_eq : group.steps = done ++ left
  settled : ∀ step ∈ done, c.HasOutcome arguments before step
  unsettled : ∀ step ∈ left, c.LacksOutcome arguments before step
  cut : left ≠ [] → c.CutsShort (before.filterMap (Entry.event? c.program)) group

theorem failFast_iff : c.failFast ↔ c.profile = .minimal := by
  rw [failFast]
  cases c.profile <;> simp [Profile.containsFailures]

theorem CutsShort.mono {events events' : List Event} (h : c.CutsShort events group)
    (hevents : events ⊆ events') : c.CutsShort events' group := by
  obtain ⟨hprofile, front, step, later, name, error, hsteps, hlater, hstep, hfailed⟩ := h
  exact ⟨hprofile, front, step, later, name, error, hsteps, hlater, hstep, hevents hfailed⟩

theorem isLost_of_stepFailed {name : String} {error : EvalError}
    (h : .stepFailed step name error ∈ entries.filterMap (Entry.event? c.program)) :
    IsLost step entries := by
  obtain ⟨e, he, hevent⟩ := List.mem_filterMap.mp h
  cases e with
  | stepSettled step' id o =>
    cases o with
    | failed failure =>
      obtain ⟨rfl, -, -⟩ := Event.stepFailed.inj (Option.some.inj hevent)
      exact ⟨id, _, he, rfl⟩
    | _ => cases hevent
  | _ => cases hevent

/-- Where nothing is skipped, a step that is lost has failed. -/
theorem exists_stepFailed_of_isLost
    (hskips : ∀ step id cause, .stepSettled step id (.skipped cause) ∉ entries)
    (hlost : IsLost step entries) :
    ∃ name error, .stepFailed step name error ∈ entries.filterMap (Entry.event? c.program) := by
  obtain ⟨id, o, hmem, hvalue⟩ := hlost
  cases o with
  | value v => cases hvalue
  | failed failure => exact ⟨_, _, List.mem_filterMap.mpr ⟨_, hmem, rfl⟩⟩
  | skipped cause => exact absurd hmem (hskips step id cause)

theorem IsLeft.splitsOutcomes (hleft : c.IsLeft c.plan.groups index before group done left part)
    (h : c.Valid) (hnamed : ∀ step id o, .stepSettled step id o ∈ before →
      ∃ s, c.plan.step? step = some s ∧ s.declaration = id)
    (hskips : c.failFast → ∀ step id cause, .stepSettled step id (.skipped cause) ∉ before) :
    c.SplitsOutcomes arguments before group done left where
  steps_eq := hleft.leaves.ids_eq
  settled _ := hleft.hasOutcome h hnamed
  unsettled _ := hleft.lacksOutcome h hnamed
  cut hne := by
    obtain ⟨hfast, step, hstep, hlast, id, o, hmem, hvalue⟩ := hleft.leaves.cut hne
    obtain ⟨front, rfl⟩ := List.getLast?_eq_some_iff.mp hlast
    obtain ⟨name, error, hfailed⟩ := @exists_stepFailed_of_isLost c step before (hskips hfast)
      ⟨id, o, hleft.subset hmem, hvalue⟩
    refine ⟨failFast_iff.mp hfast, front, step, left, name, error, ?_, hne, hstep, hfailed⟩
    rw [hleft.leaves.ids_eq, List.append_assoc]
    rfl

/-! ### Runs -/

theorem IsLeft.behind {front : List Entry} {k : Nat}
    (h : c.IsLeft groups k before group done left part)
    (hfront : front.filterMap Entry.settledStep? = []) :
    c.IsLeft groups k (front ++ before) group done left part :=
  ⟨h.group_eq, by rw [List.filterMap_append, hfront, List.nil_append, h.settled], h.leaves,
    fun _ he => List.mem_append_right _ (h.subset he)⟩

theorem Valid.unfolds_runPlan (h : c.Valid) (fs : Functions σ) (arguments : List (String × Value))
    (host : σ) : ∃ entries, (c.runPlan fs arguments host).journal =
      (c.start arguments host).journal ++ entries ∧ c.Unfolds 0 c.plan.groups entries := by
  have honce := h.isSafeSchedule.occurs_once
  exact unfolds_runGroups h fs (fun i hi => List.mem_range.mp (honce.mem_iff.mp hi))
    (honce.nodup_iff.mpr List.nodup_range) rfl

theorem filterMap_settledStep?_start (arguments : List (String × Value)) (host : σ) :
    (c.start arguments host).journal.filterMap Entry.settledStep? = [] := by
  rw [List.filterMap_eq_nil_iff]
  intro e he
  obtain ⟨name, rfl⟩ := exists_ignoredArgument_of_mem_start he
  rfl

/-- Whenever a run completes a group, it has left it. -/
theorem Valid.isLeft_of_completion (h : c.Valid) {after : List Entry} {host : σ}
    (hsplit : c.journalOf (c.runPlan fs arguments host) =
      before ++ .groupCompleted index :: after) :
    ∃ group done left part, c.IsLeft c.plan.groups index before group done left part := by
  obtain ⟨entries, hjournal, hunfolds⟩ := h.unfolds_runPlan fs arguments host
  rw [journalOf, hjournal, List.append_assoc] at hsplit
  obtain ⟨later, rfl, hlater⟩ := exists_split_behind hsplit fun hmem => by
    obtain ⟨name, heq⟩ := exists_ignoredArgument_of_mem_start hmem
    cases heq
  rcases List.append_eq_append_iff.mp hlater with ⟨rest, -, hrest⟩ | ⟨rest, hentries, hrest⟩
  · -- Behind its groups a run tells of its end only.
    cases rest with
    | nil => cases hrest
    | cons e rest => exact absurd (List.cons.inj hrest).2 (by simp)
  · cases rest with
    | nil => cases hrest
    | cons e rest =>
      obtain ⟨rfl, -⟩ := List.cons.inj hrest
      obtain ⟨k, group, done, left, part, rfl, hleft⟩ := hunfolds.isLeft hentries
      rw [Nat.zero_add]
      exact ⟨group, done, left, part, hleft.behind (filterMap_settledStep?_start arguments host)⟩

/-- A run completes the group of each step that it loses. -/
theorem Valid.exists_completion (h : c.Valid) {host : σ}
    (hlost : IsLost step (c.journalOf (c.runPlan fs arguments host))) :
    ∃ before index after group done left part,
      c.journalOf (c.runPlan fs arguments host) = before ++ .groupCompleted index :: after ∧
        c.IsLeft c.plan.groups index before group done left part ∧ IsLost step part := by
  obtain ⟨entries, hjournal, hunfolds⟩ := h.unfolds_runPlan fs arguments host
  obtain ⟨last, hend, hlast⟩ : ∃ last, c.journalOf (c.runPlan fs arguments host) =
      (c.runPlan fs arguments host).journal ++ last ∧ last.filterMap Entry.settledStep? = [] :=
    ⟨_, rfl, rfl⟩
  rw [hend, hjournal] at hlost ⊢
  have hstart := @filterMap_settledStep?_start σ c arguments host
  have hentries : IsLost step entries := by
    rcases isLost_append_iff.mp hlost with hlost | hlost
    · refine (isLost_append_iff.mp hlost).resolve_left fun hfirst => ?_
      exact absurd (hstart ▸ hfirst.mem_settled) List.not_mem_nil
    · exact absurd (hlast ▸ hlost.mem_settled) List.not_mem_nil
  obtain ⟨before, k, after, group, done, left, part, rfl, hleft, hpart⟩ :=
    hunfolds.exists_completion hentries
  refine ⟨(c.start arguments host).journal ++ before, k, after ++ last, group, done, left, part,
    ?_, hleft.behind hstart, hpart⟩
  rw [Nat.zero_add, List.append_assoc, List.append_assoc, List.append_assoc, List.cons_append]

theorem stepSettled_mem_journalOf_iff {id : DeclId} {o : Outcome} :
    .stepSettled step id o ∈ c.journalOf pr ↔ .stepSettled step id o ∈ pr.journal := by
  simp [journalOf]

theorem Valid.splitsOutcomes (h : c.Valid) {after : List Entry} {host : σ}
    (hsplit : c.journalOf (c.runPlan fs arguments host) =
      before ++ .groupCompleted index :: after) :
    ∃ group done left, c.plan.groups[index]? = some group ∧
      c.SplitsOutcomes arguments before group done left := by
  obtain ⟨group, done, left, part, hleft⟩ := h.isLeft_of_completion hsplit
  obtain ⟨_, -, hwrites, -⟩ :=
    (h.keeps_writesOnce fs).runPlan h (writesOnce_start arguments host)
  have hmem : ∀ {step id o}, .stepSettled step id o ∈ before →
      .stepSettled step id o ∈ (c.runPlan fs arguments host).journal := by
    intro step id o hentry
    rw [← stepSettled_mem_journalOf_iff (c := c), hsplit]
    exact List.mem_append_left _ hentry
  refine ⟨group, done, left, hleft.group_eq, hleft.splitsOutcomes h
    (fun step id o hentry => (hwrites.kept step id o (hmem hentry)).2)
    fun hfast step id cause hentry => ?_⟩
  exact (h.skipsNothing_runPlan hfast fs arguments host).journal step id cause (hmem hentry)

/-- Two groups with a step in common are one. -/
theorem Valid.group_eq_of_mem_steps (h : c.Valid) {group' : StepGroup}
    (hgroup : group ∈ c.plan.groups) (hgroup' : group' ∈ c.plan.groups)
    (hstep : step ∈ group.steps) (hstep' : step ∈ group'.steps) : group = group' := by
  have hnodup := h.isSafeSchedule.occurs_once.nodup_iff.mpr List.nodup_range
  have hdisjoint := (List.nodup_flatMap.mp hnodup).2
  have hsymm : Std.Symm (Function.onFun List.Disjoint StepGroup.steps) :=
    ⟨fun _ _ hdisjoint => hdisjoint.symm⟩
  by_contra hne
  exact hdisjoint.forall hgroup hgroup' hne hstep hstep'

/-- A run that is cut short completes a group in which a step has no outcome. -/
theorem Valid.not_completesGroups (h : c.Valid) {host : σ} (hgroup : group ∈ c.plan.groups)
    (hcut : c.CutsShort ((c.journalOf (c.runPlan fs arguments host)).filterMap
      (Entry.event? c.program)) group) :
    ¬c.CompletesGroups arguments (c.journalOf (c.runPlan fs arguments host)) := by
  intro hcompletes
  obtain ⟨hprofile, front, step, later, name, error, hsteps, hlater, hstep, hfailed⟩ := hcut
  obtain ⟨before, index, after, group', done, left, part, hsplit, hleft, hpart⟩ :=
    h.exists_completion (isLost_of_stepFailed hfailed)
  obtain ⟨_, hgroup', houtcomes⟩ := hcompletes before index after hsplit
  obtain rfl := Option.some.inj (hleft.group_eq.symm.trans hgroup')
  have hids := hleft.leaves.ids_eq
  obtain rfl : group = group' := by
    refine h.group_eq_of_mem_steps hgroup (List.mem_of_getElem? hgroup')
      (List.mem_append_left _ hstep) ?_
    rw [hids]
    exact List.mem_append_left _ (hleft.leaves.settled ▸ hpart.mem_settled)
  obtain ⟨hsettled, -, hdisjoint⟩ := List.nodup_append.mp (hleft.nodup h)
  have hnone : left = [] := by
    by_contra hne
    obtain ⟨other, hother⟩ := List.exists_mem_of_ne_nil _ hne
    have htold := (houtcomes other (hids ▸ List.mem_append_right _ hother)).told
    rw [Entry.filterMap_settledStep?_event?] at htold
    have hmem := List.count_pos_iff.mp (htold.symm ▸ Nat.one_pos)
    exact hdisjoint other hmem other hother rfl
  -- So the step that was lost is the last one of the group, but there are others behind it.
  have hlast := hleft.leaves.last (failFast_iff.mpr hprofile) step hstep hpart
  rw [hnone, List.append_nil, hsteps] at hids
  rw [hleft.settled, ← hids] at hsettled
  rw [← hids, List.getLast?_append_of_ne_nil _ (List.cons_ne_nil _ _),
    List.getLast?_cons_of_ne_nil hlater] at hlast
  have hnodup := (List.nodup_append.mp (List.nodup_append.mp hsettled).2.1).2.1
  exact (List.nodup_cons.mp hnodup).1 (List.mem_of_getLast? hlast)

/-- Whenever a run completes a group, each of its steps has an outcome, unless a synchronous step
fails by the minimal profile and others stand behind it in the group: those have none then. -/
theorem completes_groups_unless_cut {settings : Settings} {source : ProgramSource}
    (h : compile settings source = .ok c) (fs : Functions σ) (arguments : List (String × Value))
    (host : σ) :
    (c.CompletesGroups arguments (c.journalOf (c.runPlan fs arguments host)) ↔
      ¬∃ group ∈ c.plan.groups, c.CutsShort
        ((c.journalOf (c.runPlan fs arguments host)).filterMap (Entry.event? c.program)) group) ∧
    ∀ before index after, c.journalOf (c.runPlan fs arguments host) =
        before ++ .groupCompleted index :: after →
      ∃ group done left, c.plan.groups[index]? = some group ∧
        c.SplitsOutcomes arguments before group done left := by
  have hvalid := valid_of_compile h
  refine ⟨⟨?_, fun huncut before index after hsplit => ?_⟩,
    fun _ _ _ hsplit => hvalid.splitsOutcomes hsplit⟩
  · rintro hcompletes ⟨group, hgroup, hcut⟩
    exact hvalid.not_completesGroups hgroup hcut hcompletes
  · obtain ⟨group, done, left, hgroup, houtcomes⟩ := hvalid.splitsOutcomes hsplit
    obtain rfl : left = [] := by
      by_contra hne
      refine huncut ⟨group, List.mem_of_getElem? hgroup, (houtcomes.cut hne).mono ?_⟩
      rw [hsplit, List.filterMap_append]
      exact List.subset_append_left _ _
    refine ⟨group, hgroup, fun step hstep => houtcomes.settled step ?_⟩
    rwa [houtcomes.steps_eq, List.append_nil] at hstep

/-- A source with a formula that fails after it has read another one. -/
def stranded : ProgramSource :=
  ⟨[], [], [⟨"Main", [],
    [⟨"F1", .literal .null, true⟩, ⟨"F2", .list [.ident "F1", .ident "nowhere"], true⟩]⟩]⟩

/-- By the minimal profile the run ends with the last step of the only group, and so no step of the
group is left. -/
theorem exists_completed_groups_of_stranded :
    ∃ c, compile (({} : Settings).withProfile .minimal) stranded = .ok c ∧
      .stepFailed 1 "Main.F2" (.unresolvedIdentifier "nowhere") ∈
        (c.journalOf (c.runPlan (.empty : Functions Unit) [] ())).filterMap
          (Entry.event? c.program) ∧
      c.CompletesGroups [] (c.journalOf (c.runPlan (.empty : Functions Unit) [] ())) := by
  have hrun : (compile (({} : Settings).withProfile .minimal) stranded).toOption.any fun c =>
      c.plan.groups = [⟨[0, 1], []⟩] ∧
      (c.journalOf (c.runPlan (.empty : Functions Unit) [] ())).filterMap
        (Entry.event? c.program) = [.groupStarted 0 2, .stepStarted 0 "Main.F1",
          .stepCompleted 0 "Main.F1", .stepStarted 1 "Main.F2",
          .stepFailed 1 "Main.F2" (.unresolvedIdentifier "nowhere"), .groupCompleted 0] := by
    decide +kernel
  cases hc : compile (({} : Settings).withProfile .minimal) stranded with
  | error e => simp [hc, Except.toOption] at hrun
  | ok c =>
    rw [hc] at hrun
    obtain ⟨hgroups, hevents⟩ := of_decide_eq_true hrun
    refine ⟨c, rfl, by simp [hevents],
      (completes_groups_unless_cut hc (.empty : Functions Unit) [] ()).1.mpr ?_⟩
    rintro ⟨group, hgroup, -, front, step, later, name, error, hsteps, hlater, -, hfailed⟩
    obtain rfl : group = ⟨[0, 1], []⟩ := by simpa [hgroups] using hgroup
    obtain ⟨rfl, -, -⟩ : step = 1 ∧ name = "Main.F2" ∧ error = .unresolvedIdentifier "nowhere" := by
      simpa [hevents] using hfailed
    -- Behind the second of two steps there is none.
    have hsplit : [0, 1] = front ++ 1 :: later := hsteps
    have hfront : front ≠ [] := by
      rintro rfl
      exact absurd (List.cons.inj hsplit).1 Nat.zero_ne_one
    have hpos := List.length_pos_iff.mpr hfront
    have hlength : 2 = front.length + (later.length + 1) := by
      simpa using congrArg List.length hsplit
    exact hlater (List.length_eq_zero_iff.mp (by omega))

end Compilation

/-- A source with a formula that fails and another one that reads it. -/
def ProgramSource.abandoned : ProgramSource :=
  ⟨[], [], [⟨"Main", [], [⟨"F1", .ident "nowhere", true⟩, ⟨"F2", .ident "F1", true⟩]⟩]⟩

/-- By the minimal profile the run ends with the first step of the only group, which is told to be
completed, and the second step has no outcome. -/
theorem Compilation.abandoned_step_has_no_outcome :
    ∃ c, compile (({} : Settings).withProfile .minimal) .abandoned = .ok c ∧
      ¬c.CompletesGroups [] (c.journalOf (c.runPlan (.empty : Functions Unit) [] ())) := by
  have hrun : (compile (({} : Settings).withProfile .minimal) .abandoned).toOption.any fun c =>
      c.plan.groups = [⟨[0, 1], []⟩] ∧ c.profile = .minimal ∧
      (c.journalOf (c.runPlan (.empty : Functions Unit) [] ())).filterMap
        (Entry.event? c.program) = [.groupStarted 0 2, .stepStarted 0 "Main.F1",
          .stepFailed 0 "Main.F1" (.unresolvedIdentifier "nowhere"), .groupCompleted 0] := by
    decide +kernel
  cases hc : compile (({} : Settings).withProfile .minimal) .abandoned with
  | error e => simp [hc, Except.toOption] at hrun
  | ok c =>
    rw [hc] at hrun
    obtain ⟨hgroups, hprofile, hevents⟩ := of_decide_eq_true hrun
    have hgroup : ⟨[0, 1], []⟩ ∈ c.plan.groups := by simp [hgroups]
    refine ⟨c, rfl, (valid_of_compile hc).not_completesGroups hgroup ?_⟩
    rw [hevents]
    exact ⟨hprofile, [], 0, [1], "Main.F1", .unresolvedIdentifier "nowhere", rfl, by simp, by simp,
      by simp⟩

end FormulaEngine
