import FormulaEngine.Proofs.Plan.Boundaries
import FormulaEngine.Proofs.Plan.Schedule

/-!
# Plans are safe schedules

What a step reads was scheduled before it: in an earlier group, or as a synchronous step further
ahead in its own. The groups of layers have this property because nothing in a layer depends on
anything in it or above it, not even indirectly, and merging keeps it.
-/

namespace FormulaEngine

open Relation

namespace Plan

/-- A step has the kind of its declaration. -/
def HasAsync (p : Program) (plan : Plan) (i : StepId) (async : Bool) : Prop :=
  ∃ s d, plan.step? i = some s ∧ p.declaration? s.declaration = some d ∧ s.isAsync = async ∧
    d.isAsync = async

/-- A step is done before another one starts. -/
def Before (plan : Plan) (a b : StepId) : Prop :=
  ∃ (i j : Nat) (g h : StepGroup), plan.groups[i]? = some g ∧ plan.groups[j]? = some h ∧
    a ∈ g.steps ∧ b ∈ h.steps ∧
    (i < j ∨ i = j ∧ a ∈ g.synchronous ∧ g.steps.idxOf a < g.steps.idxOf b)

/-- The steps of a plan are the vertices of a graph, the groups hold each of them once and by its
kind, and nothing is started before what it reads is done. -/
structure IsSafeSchedule (p : Program) (g : DependencyGraph) (plan : Plan) : Prop where
  step_of_vertex : ∀ d ∈ g.vertices,
    ∃ s, plan.stepFor? d = some s ∧ s.declaration = d ∧ plan.step? s.id = some s
  vertex_of_step : ∀ i s, plan.step? i = some s →
    s.id = i ∧ s.declaration ∈ g.vertices ∧ plan.stepFor? s.declaration = some s
  occurs_once : (plan.groups.flatMap StepGroup.steps).Perm (List.range plan.size)
  synchronous : ∀ group ∈ plan.groups, ∀ i ∈ group.synchronous, plan.HasAsync p i false
  asynchronous : ∀ group ∈ plan.groups, ∀ i ∈ group.asynchronous, plan.HasAsync p i true
  nonempty : ∀ group ∈ plan.groups, group.steps ≠ []
  before : ∀ u v, (u, v) ∈ g.edges → ∃ s t, plan.stepFor? u = some s ∧ plan.stepFor? v = some t ∧
    s.id < t.id ∧ plan.Before s.id t.id
  alone : ∀ group ∈ plan.groups, ∀ i ∈ group.asynchronous, ∀ k ∈ group.steps, ∀ s t,
    plan.step? i = some s → plan.step? k = some t →
      ¬TransGen (fun u v => (u, v) ∈ g.edges) s.declaration t.declaration
  dependents : ∀ i s, plan.step? i = some s →
    s.dependents.map plan.step? = (g.dependents s.declaration).map plan.stepFor?

variable {p : Program} {layers : List (List DeclId)} {merge : Bool} {group : StepGroup}
  {i k : StepId}

/-! ### The groups of a plan -/

/-- The declaration of one step depends on that of another in the end. -/
def Reads (p : Program) (order : List DeclId) (a b : StepId) : Prop :=
  ∃ u v, order[a]? = some u ∧ order[b]? = some v ∧ TransGen p.DependsOn v u

theorem areSafe_groupOf (hp : p.WellFormed) (h : p.IsLayering layers) :
    StepGroup.AreSafe (Reads p layers.flatten) (layers.map (groupOf p layers.flatten)) := by
  have hlt : ∀ (i k : Nat) (hi : i < layers.length) (hk : k < layers.length) (a b : StepId),
      a ∈ (groupOf p layers.flatten layers[i]).steps →
      b ∈ (groupOf p layers.flatten layers[k]).steps → Reads p layers.flatten a b → i < k := by
    rintro i k hi hk a b ha hb ⟨u, v, hu, hv, hdep⟩
    obtain ⟨u', humem, hu'⟩ := (mem_steps_groupOf_iff (h.nodup hp)).mp ha
    obtain ⟨v', hvmem, hv'⟩ := (mem_steps_groupOf_iff (h.nodup hp)).mp hb
    obtain rfl := Option.some.inj (hu.symm.trans hu')
    obtain rfl := Option.some.inj (hv.symm.trans hv')
    exact h.lt_of_transGen hp (List.getElem?_eq_getElem hk) (List.getElem?_eq_getElem hi) hvmem
      humem hdep
  have hwithin : ∀ g ∈ layers.map (groupOf p layers.flatten), ∀ a ∈ g.steps, ∀ b ∈ g.steps,
      ¬Reads p layers.flatten a b := by
    intro g hg a ha b hb hreads
    obtain ⟨layer, hlayer, rfl⟩ := List.mem_map.mp hg
    obtain ⟨i, hi, rfl⟩ := List.getElem_of_mem hlayer
    exact Nat.lt_irrefl i (hlt i i hi hi a b ha hb hreads)
  refine ⟨fun g hg => ⟨?_, ?_⟩, ?_⟩
  · exact List.pairwise_of_forall_mem_list fun a ha b hb => hwithin g hg b hb a ha
  · exact fun a ha b hb => hwithin g hg a (List.mem_append_right _ ha) b hb
  · rw [List.pairwise_map]
    refine List.pairwise_iff_getElem.mpr fun i k hi hk hik a ha b hb hreads => ?_
    exact Nat.lt_asymm hik (hlt k i hk hi b a hb ha hreads)

theorem areSafe_groupsOf (hp : p.WellFormed) (h : p.IsLayering layers) :
    StepGroup.AreSafe (Reads p layers.flatten) (groupsOf p layers merge) := by
  rw [groupsOf]
  cases merge
  · exact (areSafe_groupOf hp h).filter _
  · exact (areSafe_groupOf hp h).merge

/-- Merging or not, what is listed group by group is the same. -/
theorem flatMap_groupsOf {α : Type} {f : StepGroup → List α} (hempty : f .empty = [])
    (habsorb : ∀ g h : StepGroup, g.isAsynchronous = false → f (g.absorb h) = f g ++ f h) :
    (groupsOf p layers merge).flatMap f = (layers.map (groupOf p layers.flatten)).flatMap f := by
  rw [groupsOf]
  cases merge
  · exact StepGroup.flatMap_filter_nonempty hempty
  · exact StepGroup.flatMap_merge hempty habsorb

theorem steps_groupsOf_perm (hp : p.WellFormed) (h : p.IsLayering layers) :
    ((groupsOf p layers merge).flatMap StepGroup.steps).Perm
      (List.range layers.flatten.length) := by
  rw [flatMap_groupsOf rfl fun _ _ => StepGroup.steps_absorb]
  exact flatMap_steps_groupOf_perm (h.nodup hp) rfl

theorem exists_of_mem_synchronous (hp : p.WellFormed) (h : p.IsLayering layers)
    (hgroup : group ∈ groupsOf p layers merge) (hi : i ∈ group.synchronous) :
    ∃ d, layers.flatten[i]? = some d ∧ kindOf p d = .synchronous := by
  have hmem : i ∈ (groupsOf p layers merge).flatMap StepGroup.synchronous :=
    List.mem_flatMap.mpr ⟨group, hgroup, hi⟩
  rw [flatMap_groupsOf rfl fun _ _ _ => rfl, List.flatMap_map] at hmem
  obtain ⟨layer, -, hi⟩ := List.mem_flatMap.mp hmem
  obtain ⟨d, -, hd, hkind⟩ := (mem_synchronous_groupOf_iff (h.nodup hp)).mp hi
  exact ⟨d, hd, hkind⟩

theorem exists_of_mem_asynchronous (hp : p.WellFormed) (h : p.IsLayering layers)
    (hgroup : group ∈ groupsOf p layers merge) (hi : i ∈ group.asynchronous) :
    ∃ d, layers.flatten[i]? = some d ∧ kindOf p d = .asynchronous := by
  have hmem : i ∈ (groupsOf p layers merge).flatMap StepGroup.asynchronous :=
    List.mem_flatMap.mpr ⟨group, hgroup, hi⟩
  rw [flatMap_groupsOf rfl fun _ _ _ => rfl, List.flatMap_map] at hmem
  obtain ⟨layer, -, hi⟩ := List.mem_flatMap.mp hmem
  obtain ⟨d, -, hd, hkind⟩ := (mem_asynchronous_groupOf_iff (h.nodup hp)).mp hi
  exact ⟨d, hd, hkind⟩

theorem steps_ne_nil (hgroup : group ∈ groupsOf p layers merge) : group.steps ≠ [] := by
  have hempty : group.isEmpty = false := by
    rw [groupsOf] at hgroup
    cases merge
    · simpa using (List.mem_filter.mp hgroup).2
    · exact StepGroup.not_isEmpty_of_mem_merge hgroup
  simpa [StepGroup.isEmpty] using hempty

theorem waits_groupsOf : StepGroup.waits (groupsOf p layers merge) =
    StepGroup.waits (layers.map (groupOf p layers.flatten)) := by
  rw [StepGroup.waits_eq_flatMap, StepGroup.waits_eq_flatMap,
    flatMap_groupsOf rfl fun _ _ => StepGroup.waits_absorb]

/-- The group of a layer suspends if a declaration of the layer does. -/
theorem isAsynchronous_groupOf_iff (h : layers.flatten.Nodup) {layer : List DeclId}
    (hlayer : layer ∈ layers) : (groupOf p layers.flatten layer).isAsynchronous ↔
      ∃ d ∈ layer, (p.declaration? d).any Declaration.isAsync := by
  have hkind : ∀ d, kindOf p d = .asynchronous ↔ (p.declaration? d).any Declaration.isAsync := by
    intro d
    unfold kindOf
    split <;> simp_all
  rw [StepGroup.isAsynchronous, Bool.not_eq_true', List.isEmpty_eq_false_iff_exists_mem]
  constructor
  · rintro ⟨i, hi⟩
    obtain ⟨d, hd, -, hasync⟩ := (mem_asynchronous_groupOf_iff h).mp hi
    exact ⟨d, hd, (hkind d).mp hasync⟩
  · rintro ⟨d, hd, hasync⟩
    obtain ⟨i, hi⟩ := List.getElem?_of_mem (List.mem_flatten.mpr ⟨layer, hlayer, hd⟩)
    exact ⟨i, (mem_asynchronous_groupOf_iff h).mpr ⟨d, hd, hi, (hkind d).mpr hasync⟩⟩

/-- Merging adds no wait and saves none: a plan suspends once for each layer that has to. -/
theorem countP_groupsOf (h : layers.flatten.Nodup) :
    (groupsOf p layers merge).countP StepGroup.isAsynchronous =
      layers.countP fun layer => layer.any fun d => (p.declaration? d).any Declaration.isAsync := by
  calc (groupsOf p layers merge).countP StepGroup.isAsynchronous
      = (layers.map (groupOf p layers.flatten)).countP StepGroup.isAsynchronous := by
        rw [← StepGroup.length_waits, ← StepGroup.length_waits, waits_groupsOf]
    _ = layers.countP (StepGroup.isAsynchronous ∘ groupOf p layers.flatten) := List.countP_map
    _ = layers.countP fun layer =>
          layer.any fun d => (p.declaration? d).any Declaration.isAsync := by
        apply List.countP_congr
        intro layer hlayer
        rw [Function.comp_apply, isAsynchronous_groupOf_iff h hlayer, List.any_eq_true]

/-! ### Plans of layers -/

def ofLayers (p : Program) (layers : List (List DeclId)) (merge : Bool) : Plan :=
  ⟨stepsOf p (.of p) layers.flatten, groupsOf p layers merge⟩

theorem step?_ofLayers_eq_some_iff {s : Step} :
    (ofLayers p layers merge).step? i = some s ↔
      ∃ d, layers.flatten[i]? = some d ∧ stepAt p (.of p) layers.flatten i d = s :=
  getElem?_stepsOf_eq_some_iff

theorem stepFor?_ofLayers (hp : p.WellFormed) (h : p.IsLayering layers) {d : DeclId}
    (hd : layers.flatten[i]? = some d) :
    (ofLayers p layers merge).stepFor? d = some (stepAt p (.of p) layers.flatten i d) :=
  (find?_stepsOf_eq_some_iff (h.nodup hp)).mpr ⟨i, hd, rfl⟩

theorem hasAsync_ofLayers (hp : p.WellFormed) (h : p.IsLayering layers) {d : DeclId}
    (hd : layers.flatten[i]? = some d) :
    (ofLayers p layers merge).HasAsync p i (kindOf p d == .asynchronous) := by
  obtain ⟨declaration, hdecl, -⟩ := (DependencyGraph.mem_vertices_iff hp).mp
    (h.perm.mem_iff.mp (List.mem_of_getElem? hd))
  refine ⟨stepAt p (.of p) layers.flatten i d, declaration,
    step?_ofLayers_eq_some_iff.mpr ⟨d, hd, rfl⟩, hdecl, rfl, ?_⟩
  rw [kindOf, hdecl, Option.any_some]
  cases declaration.isAsync <;> rfl

theorem mem_flatten_iff (hp : p.WellFormed) (h : p.IsLayering layers) {d : DeclId} :
    d ∈ layers.flatten ↔ ∃ e, p.declaration? d = some e ∧ e.isVertex :=
  h.perm.mem_iff.trans (DependencyGraph.mem_vertices_iff hp)

theorem exists_group (hp : p.WellFormed) (h : p.IsLayering layers)
    (hi : i < layers.flatten.length) :
    ∃ (k : Nat) (g : StepGroup), (groupsOf p layers merge)[k]? = some g ∧ i ∈ g.steps := by
  have hmem : i ∈ (groupsOf p layers merge).flatMap StepGroup.steps :=
    (steps_groupsOf_perm hp h).mem_iff.mpr (List.mem_range.mpr hi)
  obtain ⟨g, hg, hi⟩ := List.mem_flatMap.mp hmem
  obtain ⟨k, hk⟩ := List.getElem?_of_mem hg
  exact ⟨k, g, hk, hi⟩

/-- An edge leads to a step with a greater number that starts later. -/
theorem before_ofLayers (hp : p.WellFormed) (h : p.IsLayering layers) {u v : DeclId}
    (hdep : p.DependsOn v u) :
    ∃ s t, (ofLayers p layers merge).stepFor? u = some s ∧
      (ofLayers p layers merge).stepFor? v = some t ∧ s.id < t.id ∧
      (ofLayers p layers merge).Before s.id t.id := by
  obtain ⟨a, ha⟩ := List.getElem?_of_mem ((mem_flatten_iff hp h).mpr (hdep.right_isVertex hp))
  obtain ⟨b, hb⟩ := List.getElem?_of_mem ((mem_flatten_iff hp h).mpr hdep.left_isVertex)
  have hlt : a < b := h.lt_of_getElem? ha hb hdep
  refine ⟨_, _, stepFor?_ofLayers hp h ha, stepFor?_ofLayers hp h hb, hlt, ?_⟩
  obtain ⟨i, g, hi, hag⟩ := @exists_group p layers merge a hp h (List.getElem?_eq_some_iff.mp ha).1
  obtain ⟨k, g', hk, hbg⟩ := @exists_group p layers merge b hp h (List.getElem?_eq_some_iff.mp hb).1
  exact ⟨i, k, g, g', hi, hk, hag, hbg, (areSafe_groupsOf hp h).before hi hk hag hbg
    (Nat.ne_of_lt hlt) ⟨u, v, ha, hb, .single hdep⟩⟩

theorem dependents_ofLayers (hp : p.WellFormed) (h : p.IsLayering layers) (d : DeclId) :
    (stepAt p (.of p) layers.flatten i d).dependents.map (ofLayers p layers merge).step? =
      ((DependencyGraph.of p).dependents d).map (ofLayers p layers merge).stepFor? :=
  map_filterMap_idxOf? (h.nodup hp) fun _ he => (mem_flatten_iff hp h).mpr
    ((DependencyGraph.mem_dependents_iff hp).mp he).left_isVertex

theorem isSafeSchedule_ofLayers (hp : p.WellFormed) (h : p.IsLayering layers) :
    (ofLayers p layers merge).IsSafeSchedule p (.of p) where
  step_of_vertex d hd := by
    obtain ⟨i, hi⟩ := List.getElem?_of_mem (h.perm.mem_iff.mpr hd)
    exact ⟨_, stepFor?_ofLayers hp h hi, rfl, step?_ofLayers_eq_some_iff.mpr ⟨d, hi, rfl⟩⟩
  vertex_of_step i s hs := by
    obtain ⟨d, hd, rfl⟩ := step?_ofLayers_eq_some_iff.mp hs
    exact ⟨rfl, h.perm.mem_iff.mp (List.mem_of_getElem? hd), stepFor?_ofLayers hp h hd⟩
  occurs_once := by
    have hsize : (ofLayers p layers merge).size = layers.flatten.length := List.length_mapIdx
    rw [hsize]
    exact steps_groupsOf_perm hp h
  synchronous group hgroup i hi := by
    obtain ⟨d, hd, hkind⟩ := exists_of_mem_synchronous hp h hgroup hi
    have hasync := @hasAsync_ofLayers p layers merge i hp h d hd
    rwa [hkind] at hasync
  asynchronous group hgroup i hi := by
    obtain ⟨d, hd, hkind⟩ := exists_of_mem_asynchronous hp h hgroup hi
    have hasync := @hasAsync_ofLayers p layers merge i hp h d hd
    rwa [hkind] at hasync
  nonempty _ hgroup := steps_ne_nil hgroup
  before _ _ hedge := before_ofLayers hp h ((DependencyGraph.mem_edges_iff hp).mp hedge)
  alone group hgroup i hi k hk s t hs ht hpath := by
    obtain ⟨u, hu, rfl⟩ := step?_ofLayers_eq_some_iff.mp hs
    obtain ⟨v, hv, rfl⟩ := step?_ofLayers_eq_some_iff.mp ht
    have hdep : TransGen p.DependsOn v u := by
      refine transGen_swap.mp (TransGen.mono (fun a b hedge => ?_) _ _ hpath)
      exact (DependencyGraph.mem_edges_iff hp).mp hedge
    exact ((areSafe_groupsOf hp h).each group hgroup).alone i hi k hk ⟨u, v, hu, hv, hdep⟩
  dependents i s hs := by
    obtain ⟨d, hd, rfl⟩ := step?_ofLayers_eq_some_iff.mp hs
    exact dependents_ofLayers hp h d

end Plan

namespace Compilation

variable {c : Compilation}

theorem Valid.exists_plan_eq (h : c.Valid) :
    ∃ merge, c.plan = Plan.ofLayers c.program c.layers merge := by
  obtain ⟨merge, hgroups⟩ := h.groups_eq
  refine ⟨merge, ?_⟩
  rw [Plan.ofLayers, ← h.graph_eq, ← h.steps_eq, ← hgroups]

theorem Valid.isSafeSchedule (h : c.Valid) : c.plan.IsSafeSchedule c.program c.graph := by
  obtain ⟨merge, hplan⟩ := h.exists_plan_eq
  rw [hplan, h.graph_eq]
  exact Plan.isSafeSchedule_ofLayers h.wellFormed h.isLayering

/-- The plan of whatever compiles is a safe schedule of its graph. -/
theorem isSafeSchedule_of_compile {settings : Settings} {source : ProgramSource}
    (h : compile settings source = .ok c) : c.plan.IsSafeSchedule c.program c.graph :=
  (valid_of_compile h).isSafeSchedule

theorem exists_safe_schedule_of_checkout :
    ∃ c, compile {} .checkout = .ok c ∧ c.plan.IsSafeSchedule c.program c.graph := by
  obtain ⟨c, hc, -⟩ := exists_checkout
  exact ⟨c, hc, isSafeSchedule_of_compile hc⟩

end Compilation

end FormulaEngine
