import FormulaEngine.Proofs.Run.Traces

/-!
# Cutting a run short

Where the events of a run are cut at a step, and which groups are left of a plan that ends with the
step. A synchronous step is the last one; asynchronous ones stay together with their group.
-/

namespace FormulaEngine

namespace Event

/-- The step that an event tells of. -/
def step? (e : Event) : Option StepId := e.startedStep?.or e.settledStep?

/-- The step that has failed with an event. -/
def failedStep? : Event → Option StepId
  | .stepFailed step _ _ => some step
  | _ => none

/-- The step that has ended without a value with an event. -/
def lostStep? : Event → Option StepId
  | .stepFailed step _ _ | .stepSkipped step _ _ => some step
  | _ => none

theorem step?_of_lostStep? {e : Event} {step : StepId} (h : e.lostStep? = some step) :
    e.step? = some step := by
  cases e <;> first | exact h | cases h

end Event

/-- Events up to the first one of which a step is told, in the group of that step: up to the event
itself if the step is synchronous, and else up to the last event of the group. -/
inductive StepGroup.IsCutAt (group : StepGroup) (told? : Event → Option StepId) (step : StepId) :
    List Event → List Event → Prop where
  | synchronous {front later : List Event} {e : Event} (hstep : step ∈ group.synchronous)
      (hfront : front.findSome? told? = none) (he : told? e = some step) :
    IsCutAt group told? step (front ++ e :: later) (front ++ [e])
  | asynchronous {front later : List Event} {e : Event} (hstep : step ∈ group.asynchronous)
      (hfirst : (front ++ [e]).findSome? told? = some step)
      (he : ∃ i ∈ group.steps, e.step? = some i)
      (hlater : ∀ e' ∈ later, ∀ i ∈ group.steps, e'.step? ≠ some i) :
    IsCutAt group told? step (front ++ e :: later) (front ++ [e])

namespace StepGroup.IsCutAt

variable {group : StepGroup} {told? : Event → Option StepId} {step : StepId}
  {events cut before after : List Event}

theorem mem_steps (h : group.IsCutAt told? step events cut) : step ∈ group.steps := by
  cases h with
  | synchronous hstep => exact List.mem_append_left _ hstep
  | asynchronous hstep => exact List.mem_append_right _ hstep

theorem findSome? (h : group.IsCutAt told? step events cut) :
    events.findSome? told? = some step := by
  cases h with
  | synchronous hstep hfront he => simp [List.findSome?_append, hfront, he]
  | @asynchronous front later e hstep hfirst =>
    have hsplit : front ++ e :: later = (front ++ [e]) ++ later := by simp
    rw [hsplit, List.findSome?_append, hfirst]
    rfl

theorem after_nothing (hbefore : before.findSome? told? = none)
    (h : group.IsCutAt told? step events cut) :
    group.IsCutAt told? step (before ++ events) (before ++ cut) := by
  cases h with
  | synchronous hstep hfront he =>
    rw [← List.append_assoc, ← List.append_assoc]
    refine .synchronous hstep ?_ he
    rw [List.findSome?_append, hbefore, hfront]
    rfl
  | asynchronous hstep hfirst he hlater =>
    rw [← List.append_assoc, ← List.append_assoc]
    refine .asynchronous hstep ?_ he hlater
    rw [List.append_assoc, List.findSome?_append, hbefore, hfirst]
    rfl

theorem followed (hafter : step ∈ group.asynchronous →
      ∀ e ∈ after, ∀ i ∈ group.steps, e.step? ≠ some i)
    (h : group.IsCutAt told? step events cut) :
    group.IsCutAt told? step (events ++ after) cut := by
  cases h with
  | synchronous hstep hfront he =>
    rw [List.append_assoc]
    exact .synchronous hstep hfront he
  | asynchronous hstep hfirst he hlater =>
    rw [List.append_assoc]
    refine .asynchronous hstep hfirst he fun e' he' => ?_
    rcases List.mem_append.mp he' with he' | he'
    · exact hlater e' he'
    · exact hafter hstep e' he'

theorem of_synchronous {ids : List StepId} (h : StepGroup.IsCutAt ⟨ids, []⟩ told? step events cut)
    (hids : ids ⊆ group.synchronous) : group.IsCutAt told? step events cut := by
  cases h with
  | synchronous hstep hfront he => exact .synchronous (hids hstep) hfront he
  | asynchronous hstep => exact absurd hstep List.not_mem_nil

/-- It is enough that the events up to the cut tell of the same steps. -/
theorem congr {told?' : Event → Option StepId} (h : group.IsCutAt told? step events cut)
    (heq : ∀ e ∈ cut, told?' e = told? e) : group.IsCutAt told?' step events cut := by
  cases h with
  | @synchronous front later e hstep hfront he =>
    refine .synchronous hstep ?_ ((heq e (by simp)).trans he)
    rw [List.findSome?_eq_none_iff] at hfront ⊢
    exact fun e' he' => (heq e' (by simp [he'])).trans (hfront e' he')
  | asynchronous hstep hfirst he hlater =>
    refine .asynchronous hstep ?_ he hlater
    rw [← List.head?_filterMap, List.filterMap_congr heq, List.head?_filterMap, hfirst]

end StepGroup.IsCutAt

/-! ### Groups up to a step -/

namespace StepGroup

/-- A group without what comes after a step in it. Asynchronous steps stay together. -/
def upTo (step : StepId) (group : StepGroup) : StepGroup :=
  if step ∈ group.synchronous then ⟨group.synchronous.takeWhile (· != step) ++ [step], []⟩
  else group

/-- Groups without what comes after a step. -/
def allUpTo (step : StepId) : List StepGroup → List StepGroup
  | [] => []
  | group :: rest =>
    if step ∈ group.steps then [group.upTo step] else group :: allUpTo step rest

variable {step : StepId} {before after : List StepId} {group : StepGroup}

theorem upTo_of_synchronous (hgroup : group.synchronous = before ++ step :: after)
    (hnew : step ∉ before) : group.upTo step = ⟨before ++ [step], []⟩ := by
  have hall : ∀ i ∈ before, (i != step) = true := by
    intro i hi
    rw [bne_iff_ne]
    exact fun heq => hnew (heq ▸ hi)
  rw [upTo, if_pos (by simp [hgroup]), hgroup, List.takeWhile_append_of_pos hall]
  simp

theorem upTo_of_not_synchronous (h : step ∉ group.synchronous) : group.upTo step = group :=
  if_neg h

theorem steps_upTo_subset (step : StepId) (group : StepGroup) :
    (group.upTo step).steps ⊆ group.steps := by
  intro i hi
  by_cases hstep : step ∈ group.synchronous
  · rw [upTo, if_pos hstep, steps, List.append_nil, List.mem_append, List.mem_singleton] at hi
    apply List.mem_append_left
    rcases hi with hi | rfl
    · exact (List.takeWhile_sublist _).subset hi
    · exact hstep
  · rwa [upTo_of_not_synchronous hstep] at hi

theorem allUpTo_subset (step : StepId) (groups : List StepGroup) :
    (allUpTo step groups).flatMap steps ⊆ groups.flatMap steps := by
  induction groups with
  | nil => exact List.Subset.refl _
  | cons group rest ih =>
    intro i hi
    rw [List.flatMap_cons, List.mem_append]
    by_cases hstep : step ∈ group.steps
    · rw [allUpTo, if_pos hstep, List.flatMap_singleton] at hi
      exact .inl (steps_upTo_subset step group hi)
    · rw [allUpTo, if_neg hstep, List.flatMap_cons, List.mem_append] at hi
      exact hi.imp_right fun hi => ih hi

end StepGroup

end FormulaEngine
