import FormulaEngine.Plan.Basic
import FormulaEngine.Proofs.Lookups.Basic

/-!
# Look-ups in a plan

Declarations are scheduled one after another. Each gets the next step, and a table says which step
is whose. When the layers become groups, the step of every declaration is looked up in that table,
and its kind in the list of steps. Both are there for whatever layers could be scheduled.
-/

namespace FormulaEngine

namespace Lookups

variable {ε : Type} {p : Program} {g : DependencyGraph} {scheduled done order : List DeclId}

/-- The steps so far, and which step a declaration has. -/
structure Schedule where
  steps : List Step
  table : List (DeclId × StepId)

def schedule (p : Program) (g : DependencyGraph) (s : Schedule) (id : DeclId) :
    Except (Halt CompileError) Schedule :=
  match p.declaration? id with
  | none => .error (.failed (.internal (.unknownDeclaration id)))
  | some d =>
    if !g.contains id then .error (.failed (.internal (.notAVertex (p.qualifiedName id))))
    else if (s.table.lookup id).isSome then
      .error (.failed (.internal (.repeated (p.qualifiedName id))))
    else
      let kind := if d.isAsync then StepKind.asynchronous else .synchronous
      .ok ⟨s.steps ++ [⟨s.steps.length, id, kind, []⟩], s.table ++ [(id, s.steps.length)]⟩

def stepOf (table : List (DeclId × StepId)) (steps : List Step) (id : DeclId) :
    Except (Halt ε) (StepId × StepKind) := do
  let i ← look (.stepOf id) (table.lookup id)
  let step ← look (.step i) steps[i]?
  .ok (i, step.kind)

def groupOf (table : List (DeclId × StepId)) (steps : List Step) (layer : List DeclId) :
    Except (Halt ε) StepGroup := do
  let placed ← layer.mapM (stepOf table steps)
  .ok (.ofSteps placed)

def assemble (p : Program) (g : DependencyGraph) (layers : List (List DeclId)) (merge : Bool) :
    Except (Halt CompileError) Plan := do
  let s ← layers.flatten.foldlM (schedule p g) ⟨[], []⟩
  if s.steps.length ≠ g.size then
    .error (.failed (.internal (.incomplete s.steps.length g.size)))
  else
    let steps := s.steps.map fun step =>
      { step with dependents := (g.dependents step.declaration).filterMap (s.table.lookup ·) }
    let groups ← layers.mapM (groupOf s.table steps)
    .ok ⟨steps, if merge then StepGroup.merge groups else groups.filter fun g => !g.isEmpty⟩

/-! ### The table -/

theorem lookup_zipIdx_from (l : List DeclId) (id : DeclId) (k : Nat) :
    (l.zipIdx k).lookup id = (l.idxOf? id).map (· + k) := by
  induction l generalizing k with
  | nil => rfl
  | cons a rest ih =>
    rw [List.zipIdx_cons, List.lookup_cons, List.idxOf?_cons, ih]
    by_cases ha : id = a
    · simp [ha]
    · have hne : (id == a) = false := beq_false_of_ne ha
      have hne' : (a == id) = false := beq_false_of_ne (Ne.symm ha)
      rw [hne, if_neg (by simp [hne']), Option.map_map]
      exact congrArg (Option.map · _) (funext fun i => by simp only [Function.comp]; omega)

theorem lookup_zipIdx (l : List DeclId) (id : DeclId) : l.zipIdx.lookup id = l.idxOf? id := by
  rw [lookup_zipIdx_from]
  simp

/-- The schedule of some declarations, before dependents are known. -/
def Schedule.of (p : Program) (done : List DeclId) : Schedule :=
  ⟨done.mapIdx fun i id => ⟨i, id, Plan.kindOf p id, []⟩, done.zipIdx⟩

theorem Schedule.of_append (p : Program) (done : List DeclId) (id : DeclId) :
    Schedule.of p (done ++ [id]) =
      ⟨(Schedule.of p done).steps ++ [⟨done.length, id, Plan.kindOf p id, []⟩],
        (Schedule.of p done).table ++ [(id, done.length)]⟩ := by
  simp [Schedule.of, List.mapIdx_append, List.zipIdx_append]

theorem schedule_eq (h : ∀ d, d ∈ scheduled ↔ d ∈ done) (id : DeclId) :
    schedule p g (.of p done) id =
      givenNo ((Plan.scheduleFault? p g scheduled [id]).map .internal) (.of p (done ++ [id])) := by
  unfold schedule Plan.scheduleFault?
  cases hd : p.declaration? id with
  | none => rfl
  | some d =>
    have hkind : Plan.kindOf p id = if d.isAsync then StepKind.asynchronous else .synchronous := by
      simp [Plan.kindOf, hd]
    have htable : ((Schedule.of p done).table.lookup id).isSome ↔ id ∈ done := by
      rw [Schedule.of, lookup_zipIdx, List.isSome_idxOf?]
    have hlength : (Schedule.of p done).steps.length = done.length := by simp [Schedule.of]
    simp only [htable, hlength, Schedule.of_append, hkind, Option.isNone_some, h]
    by_cases hvertex : g.contains id
    · by_cases hdone : id ∈ done
      · simp [hvertex, hdone]
      · simp [hvertex, hdone, Plan.scheduleFault?]
    · simp [hvertex]

theorem scheduleFault?_cons (id : DeclId) (rest : List DeclId) :
    Plan.scheduleFault? p g scheduled (id :: rest) =
      (Plan.scheduleFault? p g scheduled [id]).or
        (Plan.scheduleFault? p g (id :: scheduled) rest) := by
  simp only [Plan.scheduleFault?]
  split
  · rfl
  · split
    · rfl
    · split <;> rfl

theorem foldlM_schedule (h : ∀ d, d ∈ scheduled ↔ d ∈ done) :
    order.foldlM (schedule p g) (.of p done) =
      givenNo ((Plan.scheduleFault? p g scheduled order).map .internal)
        (.of p (done ++ order)) := by
  induction order generalizing done scheduled with
  | nil =>
    rw [List.append_nil]
    rfl
  | cons id rest ih =>
    rw [List.foldlM_cons, schedule_eq h, scheduleFault?_cons id rest]
    cases Plan.scheduleFault? p g scheduled [id] with
    | some fault => rfl
    | none =>
      have hmem : ∀ d, d ∈ id :: scheduled ↔ d ∈ done ++ [id] := by simp [h, or_comm]
      have hsplit : done ++ id :: rest = (done ++ [id]) ++ rest := by simp
      rw [Option.map_none, givenNo_none, ok_bind, ih hmem, hsplit, Option.none_or]

/-! ### Steps and groups -/

theorem map_steps_of (p : Program) (g : DependencyGraph) (order : List DeclId) :
    (Schedule.of p order).steps.map (fun step =>
      { step with dependents :=
          (g.dependents step.declaration).filterMap ((Schedule.of p order).table.lookup ·) }) =
      Plan.stepsOf p g order := by
  refine List.ext_getElem (by simp [Schedule.of, Plan.stepsOf]) fun i _ _ => ?_
  simp [Schedule.of, Plan.stepsOf, Plan.stepAt, lookup_zipIdx]

/-- A scheduled declaration has a step, which is in the list of steps. -/
theorem stepOf_eq {id : DeclId} {i : StepId} (h : order.idxOf? id = some i) :
    stepOf order.zipIdx (Plan.stepsOf p g order) id =
      (.ok (i, Plan.kindOf p id) : Except (Halt ε) _) := by
  obtain ⟨hi, hid, -⟩ := List.idxOf?_eq_some_iff.mp h
  have hstep : (Plan.stepsOf p g order)[i]? = some (Plan.stepAt p g order i id) := by
    rw [Plan.stepsOf, List.getElem?_mapIdx, List.getElem?_eq_getElem hi, hid, Option.map_some]
  rw [stepOf, look_of_eq_some ((lookup_zipIdx order id).trans h), ok_bind, look_of_eq_some hstep,
    ok_bind]
  rfl

theorem groupOf_eq {layer : List DeclId} (h : ∀ id ∈ layer, id ∈ order) :
    groupOf order.zipIdx (Plan.stepsOf p g order) layer =
      (.ok (Plan.groupOf p order layer) : Except (Halt ε) _) := by
  have hplaced : layer.mapM (stepOf order.zipIdx (Plan.stepsOf p g order)) =
      (.ok (layer.filterMap fun id => (order.idxOf? id).map fun i => (i, Plan.kindOf p id)) :
        Except (Halt ε) _) := by
    induction layer with
    | nil => rfl
    | cons id rest ih =>
      obtain ⟨i, hi⟩ := Option.isSome_iff_exists.mp
        (List.isSome_idxOf?.mpr (h id List.mem_cons_self))
      rw [List.mapM_cons, stepOf_eq hi, ih fun d hd => h d (List.mem_cons_of_mem _ hd),
        List.filterMap_cons, hi]
      rfl
  rw [groupOf, hplaced, ok_bind, Plan.groupOf]

/-- Steps are found for all that could be scheduled, and faults are as they are. -/
theorem assemble_eq (p : Program) (g : DependencyGraph) (layers : List (List DeclId))
    (merge : Bool) : assemble p g layers merge = certain (Plan.assemble p g layers merge) := by
  have hrun : layers.flatten.foldlM (schedule p g) (.of p []) =
      givenNo ((Plan.scheduleFault? p g [] layers.flatten).map .internal)
        (.of p ([] ++ layers.flatten)) := foldlM_schedule fun _ => Iff.rfl
  unfold assemble Plan.assemble Plan.fault?
  change (layers.flatten.foldlM (schedule p g) (.of p []) >>= _) = _
  rw [hrun, List.nil_append]
  cases Plan.scheduleFault? p g [] layers.flatten with
  | some fault => rfl
  | none =>
    have hlength : (Schedule.of p layers.flatten).steps.length = layers.flatten.length := by
      simp [Schedule.of]
    have hgroups : layers.mapM (groupOf layers.flatten.zipIdx
        (Plan.stepsOf p g layers.flatten)) =
        (.ok (layers.map (Plan.groupOf p layers.flatten)) : Except (Halt CompileError) _) :=
      mapM_eq_ok fun layer hlayer => groupOf_eq fun id hid => List.mem_flatten_of_mem hlayer hid
    rw [Option.map_none, givenNo_none, ok_bind, hlength, map_steps_of]
    by_cases hsize : layers.flatten.length = g.size
    · rw [if_neg (not_not_intro hsize)]
      change (layers.mapM (groupOf layers.flatten.zipIdx _) >>= _) = _
      rw [hgroups, ok_bind, if_pos hsize]
      rfl
    · rw [if_pos hsize, if_neg hsize]
      rfl

end Lookups

end FormulaEngine
