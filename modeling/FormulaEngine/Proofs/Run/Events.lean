import FormulaEngine.Run.Orchestration
import Mathlib.Data.List.Basic

/-!
# What observers see

Observers are told when a group or a step begins and what has become of it. Of a step that is
settled they see its outcome, and of panics nothing.
-/

namespace FormulaEngine

/-- What observers see when a step is settled. -/
def Outcome.event (step : StepId) (name : String) : Outcome → Event
  | .value _ => .stepCompleted step name
  | .failed failure => .stepFailed step name failure.error
  | .skipped cause => .stepSkipped step name cause

theorem Entry.event?_stepSettled (p : Program) (step : StepId) (id : DeclId) (o : Outcome) :
    event? p (.stepSettled step id o) = some (o.event step (p.qualifiedName id)) := by
  cases o <;> rfl

theorem Entry.filterMap_event?_panicked (p : Program) (panics : List Panic) :
    (panics.map .panicked).filterMap (event? p) = [] := by
  rw [List.filterMap_map, List.filterMap_eq_nil_iff]
  exact fun _ _ => rfl

/-! ### Steps -/

/-- Whether an event tells of a step, and not of a group. -/
def Event.isOfStep : Event → Bool
  | .groupStarted _ _ | .groupCompleted _ => false
  | .stepStarted _ _ | .stepCompleted _ _ | .stepFailed _ _ _ | .stepSkipped _ _ _ => true

namespace Program

def stepEvents (p : Program) (journal : List Entry) : List Event :=
  (journal.filterMap (Entry.event? p)).filter Event.isOfStep

theorem stepEvents_append (p : Program) (front rest : List Entry) :
    p.stepEvents (front ++ rest) = p.stepEvents front ++ p.stepEvents rest := by
  rw [stepEvents, List.filterMap_append, List.filter_append]
  rfl

theorem stepEvents_panicked (p : Program) (panics : List Panic) :
    p.stepEvents (panics.map .panicked) = [] := by
  rw [stepEvents, Entry.filterMap_event?_panicked]
  rfl

theorem stepEvents_map {ι : Type} (p : Program) {items : List ι} {entry : ι → Entry}
    {event : ι → Event} (hevent : ∀ x ∈ items, (entry x).event? p = some (event x))
    (hstep : ∀ x ∈ items, (event x).isOfStep) :
    p.stepEvents (items.map entry) = items.map event := by
  have hevents : items.filterMap (Entry.event? p ∘ entry) = items.map event :=
    List.filterMap_eq_map_iff_forall_eq_some.mpr hevent
  rw [stepEvents, List.filterMap_map, hevents, List.filter_eq_self]
  intro e he
  obtain ⟨x, hx, rfl⟩ := List.mem_map.mp he
  exact hstep x hx

end Program

/-! ### Settling -/

/-- The entries with which steps are settled, in their order. -/
def Entry.settled (steps : List (StepId × Declaration)) (results : List (Except Fault Value)) :
    List Entry :=
  (steps.zip results).map fun x => .stepSettled x.1.1 x.1.2.id (.settle x.1.2.id x.2)

theorem Compilation.journal_settleAll {σ : Type} {c : Compilation}
    (steps : List (StepId × Declaration)) (results : List (Except Fault Value))
    (pr : Progress σ) :
    (c.settleAll steps results pr).journal = pr.journal ++ Entry.settled steps results := by
  unfold settleAll Entry.settled
  induction steps.zip results generalizing pr with
  | nil => exact (List.append_nil _).symm
  | cons x rest ih =>
    rw [List.foldl_cons, ih, List.map_cons]
    exact List.append_assoc _ _ _

end FormulaEngine
