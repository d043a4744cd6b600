import FormulaEngine.Proofs.Compilation
import FormulaEngine.Proofs.Plan.Merging

/-!
# Steps of layers

Steps are numbered in the order of layers. A step is found by the number or by the declaration, its
dependents are the numbers of those that read it, and the groups of the layers hold each number
once, as a synchronous or as an asynchronous step.
-/

namespace FormulaEngine

open Relation

namespace StepGroup

theorem synchronous_ofSteps (steps : List (StepId × StepKind)) :
    (ofSteps steps).synchronous = (steps.filter (·.2 == .synchronous)).map Prod.fst := by
  suffices h : ∀ g : StepGroup, (steps.foldl (fun g step => g.push step.1 step.2) g).synchronous =
      g.synchronous ++ (steps.filter (·.2 == .synchronous)).map Prod.fst from h empty
  induction steps with
  | nil => simp
  | cons step rest ih =>
    intro g
    obtain ⟨id, kind⟩ := step
    rw [List.foldl_cons, ih]
    cases kind <;> simp [push]

theorem asynchronous_ofSteps (steps : List (StepId × StepKind)) :
    (ofSteps steps).asynchronous = (steps.filter (·.2 == .asynchronous)).map Prod.fst := by
  suffices h : ∀ g : StepGroup, (steps.foldl (fun g step => g.push step.1 step.2) g).asynchronous =
      g.asynchronous ++ (steps.filter (·.2 == .asynchronous)).map Prod.fst from h empty
  induction steps with
  | nil => simp
  | cons step rest ih =>
    intro g
    obtain ⟨id, kind⟩ := step
    rw [List.foldl_cons, ih]
    cases kind <;> simp [push]

theorem steps_ofSteps_perm (steps : List (StepId × StepKind)) :
    (ofSteps steps).steps.Perm (steps.map Prod.fst) := by
  have hasync : steps.filter (·.2 == .asynchronous) =
      steps.filter fun step => !(step.2 == .synchronous) :=
    List.filter_congr fun step _ => by cases step.2 <;> rfl
  rw [StepGroup.steps, synchronous_ofSteps, asynchronous_ofSteps, hasync, ← List.map_append]
  exact (List.filter_append_perm _ _).map _

end StepGroup

namespace Plan

variable {p : Program} {g : DependencyGraph} {order : List DeclId} {i : StepId} {d : DeclId}

/-! ### Steps -/

theorem idxOf?_eq_some_iff (h : order.Nodup) : order.idxOf? d = some i ↔ order[i]? = some d := by
  rw [List.idxOf?_eq_some_iff, List.getElem?_eq_some_iff]
  refine exists_congr fun hi => and_iff_left_of_imp fun hd k hk heq => ?_
  have hkd : order[k] = order[i] := heq.trans hd.symm
  exact absurd (h.getElem_inj_iff.mp hkd) (Nat.ne_of_lt hk)

theorem getElem?_stepsOf_eq_some_iff {s : Step} :
    (stepsOf p g order)[i]? = some s ↔ ∃ d, order[i]? = some d ∧ stepAt p g order i d = s := by
  rw [stepsOf, List.getElem?_mapIdx, Option.map_eq_some_iff]

/-- The step of a declaration is found under its place in the order. -/
theorem find?_stepsOf_eq_some_iff (h : order.Nodup) {s : Step} :
    (stepsOf p g order).find? (·.declaration == d) = some s ↔
      ∃ i, order[i]? = some d ∧ stepAt p g order i d = s := by
  constructor
  · intro hfind
    have hd : s.declaration = d := by simpa using List.find?_some hfind
    obtain ⟨i, hi⟩ := List.getElem?_of_mem (List.mem_of_find?_eq_some hfind)
    obtain ⟨e, he, rfl⟩ := getElem?_stepsOf_eq_some_iff.mp hi
    obtain rfl : e = d := hd
    exact ⟨i, he, rfl⟩
  · rintro ⟨i, hi, rfl⟩
    have hmem : stepAt p g order i d ∈ stepsOf p g order :=
      List.mem_of_getElem? (getElem?_stepsOf_eq_some_iff.mpr ⟨d, hi, rfl⟩)
    cases hfind : (stepsOf p g order).find? (·.declaration == d) with
    | none => exact absurd (List.find?_eq_none.mp hfind _ hmem) (by simp [stepAt])
    | some s =>
      have hd : s.declaration = d := by simpa using List.find?_some hfind
      obtain ⟨k, hk⟩ := List.getElem?_of_mem (List.mem_of_find?_eq_some hfind)
      obtain ⟨e, he, rfl⟩ := getElem?_stepsOf_eq_some_iff.mp hk
      obtain rfl : e = d := hd
      have hik : i = k := Option.some.inj
        (((idxOf?_eq_some_iff h).mpr hi).symm.trans ((idxOf?_eq_some_iff h).mpr he))
      rw [hik]

/-- The steps of scheduled declarations are found again under their numbers. -/
theorem map_filterMap_idxOf? (h : order.Nodup) {ids : List DeclId} (hids : ∀ e ∈ ids, e ∈ order) :
    (ids.filterMap fun e => order.idxOf? e).map ((stepsOf p g order)[·]?) =
      ids.map fun e => (stepsOf p g order).find? (·.declaration == e) := by
  induction ids with
  | nil => rfl
  | cons e rest ih =>
    obtain ⟨k, hk⟩ := List.getElem?_of_mem (hids e List.mem_cons_self)
    have hstep : (stepsOf p g order)[k]? = some (stepAt p g order k e) :=
      getElem?_stepsOf_eq_some_iff.mpr ⟨e, hk, rfl⟩
    have hfind : (stepsOf p g order).find? (·.declaration == e) = some (stepAt p g order k e) :=
      (find?_stepsOf_eq_some_iff h).mpr ⟨k, hk, rfl⟩
    rw [List.filterMap_cons, (idxOf?_eq_some_iff h).mpr hk, List.map_cons, List.map_cons, hfind,
      hstep, ih fun e he => hids e (List.mem_cons_of_mem _ he)]

/-! ### Groups of layers -/

variable {layer : List DeclId} {layers : List (List DeclId)}

def stepsOfLayer (p : Program) (order layer : List DeclId) : List (StepId × StepKind) :=
  layer.filterMap fun d => (order.idxOf? d).map fun i => (i, kindOf p d)

theorem mem_stepsOfLayer_iff (h : order.Nodup) {kind : StepKind} :
    (i, kind) ∈ stepsOfLayer p order layer ↔
      ∃ d ∈ layer, order[i]? = some d ∧ kindOf p d = kind := by
  simp only [stepsOfLayer, List.mem_filterMap, Option.map_eq_some_iff, Prod.mk.injEq]
  refine exists_congr fun d => and_congr_right fun _ => ?_
  constructor
  · rintro ⟨k, hk, rfl, hkind⟩
    exact ⟨(idxOf?_eq_some_iff h).mp hk, hkind⟩
  · rintro ⟨hi, hkind⟩
    exact ⟨i, (idxOf?_eq_some_iff h).mpr hi, rfl, hkind⟩

theorem mem_synchronous_groupOf_iff (h : order.Nodup) :
    i ∈ (groupOf p order layer).synchronous ↔
      ∃ d ∈ layer, order[i]? = some d ∧ kindOf p d = .synchronous := by
  rw [← mem_stepsOfLayer_iff h, groupOf, StepGroup.synchronous_ofSteps]
  simp [stepsOfLayer, and_assoc]

theorem mem_asynchronous_groupOf_iff (h : order.Nodup) :
    i ∈ (groupOf p order layer).asynchronous ↔
      ∃ d ∈ layer, order[i]? = some d ∧ kindOf p d = .asynchronous := by
  rw [← mem_stepsOfLayer_iff h, groupOf, StepGroup.asynchronous_ofSteps]
  simp [stepsOfLayer, and_assoc]

theorem mem_steps_groupOf_iff (h : order.Nodup) :
    i ∈ (groupOf p order layer).steps ↔ ∃ d ∈ layer, order[i]? = some d := by
  rw [StepGroup.steps, List.mem_append, mem_synchronous_groupOf_iff h,
    mem_asynchronous_groupOf_iff h]
  constructor
  · rintro (⟨d, hd, hi, -⟩ | ⟨d, hd, hi, -⟩)
    · exact ⟨d, hd, hi⟩
    · exact ⟨d, hd, hi⟩
  · rintro ⟨d, hd, hi⟩
    cases hkind : kindOf p d with
    | synchronous => exact .inl ⟨d, hd, hi, hkind⟩
    | asynchronous => exact .inr ⟨d, hd, hi, hkind⟩

theorem flatMap_steps_groupOf_perm (h : order.Nodup) (horder : layers.flatten = order) :
    ((layers.map (groupOf p order)).flatMap StepGroup.steps).Perm (List.range order.length) := by
  have hlayer : ∀ layer ∈ layers,
      (groupOf p order layer).steps.Perm (layer.map (order.idxOf ·)) := by
    intro layer hlayer
    have hfst : (stepsOfLayer p order layer).map Prod.fst = layer.map (order.idxOf ·) := by
      rw [stepsOfLayer, List.map_filterMap]
      refine List.filterMap_eq_map_iff_forall_eq_some.mpr fun d hd => ?_
      have hmem : d ∈ order := horder ▸ List.mem_flatten.mpr ⟨layer, hlayer, hd⟩
      rw [(idxOf?_eq_some_iff h).mpr (List.getElem?_idxOf hmem)]
      rfl
    exact hfst ▸ StepGroup.steps_ofSteps_perm _
  have hrange : order.map (order.idxOf ·) = List.range order.length := by
    refine List.ext_getElem (by simp) fun i hi _ => ?_
    rw [List.getElem_map, List.getElem_range]
    exact h.idxOf_getElem i (by simpa using hi)
  calc ((layers.map (groupOf p order)).flatMap StepGroup.steps).Perm
        (layers.flatMap fun layer => layer.map (order.idxOf ·)) := by
        rw [List.flatMap_map]
        exact List.Perm.flatMap_left _ hlayer
    _ = List.range order.length := by
        rw [← hrange, ← horder, List.map_flatten, List.flatMap_def]

end Plan

end FormulaEngine
