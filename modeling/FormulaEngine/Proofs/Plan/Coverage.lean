import FormulaEngine.Proofs.Lookups.Plan
import FormulaEngine.Proofs.Plan.Schedule
import FormulaEngine.Proofs.Program.Cycles
import FormulaEngine.Proofs.Program.Edges

/-!
# Layers that cover a graph

Whatever layers are handed over, they make a plan exactly if together they list each vertex of the
graph once and nothing else. If they do not, the fault is the first declaration that has no place
there, or else that vertices are missing. If they do, every declaration has one place, so no look-up
of a step by its declaration fails and no dependent is lost.
-/

namespace FormulaEngine

namespace Program

/-- A declaration is a formula in which something is awaited, at any depth. -/
def Awaits (p : Program) (d : DeclId) : Prop :=
  ∃ e expr exported operand, p.declaration? d = some e ∧ e.kind = .formula expr exported ∧
    expr.Contains (.await operand)

end Program

theorem DependencyGraph.size_eq {g : DependencyGraph} : g.size = g.vertices.length := by
  rw [vertices, List.length_map, size]

namespace Plan

variable {p : Program} {g : DependencyGraph} {order scheduled before layer : List DeclId}
  {layers : List (List DeclId)} {merge : Bool} {d : DeclId} {i : StepId} {s : Step}
  {fault : InternalFault}

theorem kindOf_eq_asynchronous_iff : kindOf p d = .asynchronous ↔ p.Awaits d := by
  have hkind : kindOf p d = .asynchronous ↔ (p.declaration? d).any Declaration.isAsync := by
    unfold kindOf
    split <;> simp_all
  rw [hkind, Option.any_eq_true]
  constructor
  · rintro ⟨e, he, hasync⟩
    obtain ⟨expr, hexpr, hasync⟩ := (Option.any_eq_true _ _).mp hasync
    obtain ⟨operand, hoperand⟩ := Expr.isAsync_iff.mp hasync
    unfold Declaration.expr? at hexpr
    split at hexpr
    · next exported hkind =>
      obtain rfl := Option.some.inj hexpr
      exact ⟨e, _, exported, operand, he, hkind, hoperand⟩
    · exact absurd hexpr (by simp)
  · rintro ⟨e, expr, exported, operand, he, hkind, hoperand⟩
    refine ⟨e, he, ?_⟩
    rw [Declaration.isAsync, Declaration.expr?, hkind]
    exact Expr.isAsync_iff.mpr ⟨operand, hoperand⟩

instance : DecidablePred p.Awaits := fun _ => decidable_of_iff _ kindOf_eq_asynchronous_iff

/-! ### What has no place -/

/-- A declaration cannot be scheduled behind others: there is none of that number, it is not
evaluated, or it is one of them. -/
inductive Misplaced (p : Program) (g : DependencyGraph) (before : List DeclId) :
    DeclId → InternalFault → Prop where
  | unknown {d : DeclId} (h : p.declaration? d = none) :
    Misplaced p g before d (.unknownDeclaration d)
  | notAVertex {d : DeclId} (hdeclared : p.declaration? d ≠ none) (h : d ∉ g.vertices) :
    Misplaced p g before d (.notAVertex (p.qualifiedName d))
  | repeated {d : DeclId} (hdeclared : p.declaration? d ≠ none) (hvertex : d ∈ g.vertices)
      (h : d ∈ before) :
    Misplaced p g before d (.repeated (p.qualifiedName d))

/-- Why declarations in an order make no plan: behind vertices, each listed once, there is one that
has no place, or else some vertices are not listed. -/
inductive IsFaultOf (p : Program) (g : DependencyGraph) (order : List DeclId) :
    InternalFault → Prop where
  | misplaced {before after : List DeclId} {d : DeclId} {fault : InternalFault}
      (horder : order = before ++ d :: after) (hnodup : before.Nodup)
      (hvertices : ∀ e ∈ before, e ∈ g.vertices) (h : Misplaced p g before d fault) :
    IsFaultOf p g order fault
  | incomplete {v : DeclId} (hnodup : order.Nodup) (hvertices : ∀ e ∈ order, e ∈ g.vertices)
      (hvertex : v ∈ g.vertices) (h : v ∉ order) :
    IsFaultOf p g order (.incomplete order.length g.vertices.length)

theorem scheduleFault?_singleton_iff (hbefore : ∀ e, e ∈ scheduled ↔ e ∈ before) :
    scheduleFault? p g scheduled [d] = some fault ↔ Misplaced p g before d fault := by
  constructor
  · intro h
    simp only [scheduleFault?] at h
    split at h
    · next hd =>
      obtain rfl := Option.some.inj h
      exact .unknown (Option.isNone_iff_eq_none.mp hd)
    · next hd =>
      have hdeclared : p.declaration? d ≠ none := mt Option.isNone_iff_eq_none.mpr hd
      split at h
      · next hvertex =>
        obtain rfl := Option.some.inj h
        exact .notAVertex hdeclared fun hmem => by simp [DependencyGraph.contains, hmem] at hvertex
      · next hvertex =>
        have hmem : d ∈ g.vertices := by simpa [DependencyGraph.contains] using hvertex
        split at h
        · next hscheduled =>
          obtain rfl := Option.some.inj h
          exact .repeated hdeclared hmem ((hbefore d).mp hscheduled)
        · exact absurd h (by simp)
  · rintro (h | ⟨hdeclared, h⟩ | ⟨hdeclared, hvertex, h⟩)
    · simp [scheduleFault?, h]
    · simp [scheduleFault?, hdeclared, DependencyGraph.contains, h]
    · simp [scheduleFault?, hdeclared, DependencyGraph.contains, hvertex, (hbefore d).mpr h]

theorem scheduleFault?_append {front rest : List DeclId} :
    scheduleFault? p g scheduled (front ++ rest) =
      (scheduleFault? p g scheduled front).or
        (scheduleFault? p g (front.reverse ++ scheduled) rest) := by
  induction front generalizing scheduled with
  | nil => rfl
  | cons d front ih =>
    rw [List.cons_append, Lookups.scheduleFault?_cons, Lookups.scheduleFault?_cons d front, ih,
      Option.or_assoc, List.reverse_cons, List.append_assoc, List.singleton_append]

/-- A fault is that of one declaration behind others that could be scheduled. -/
theorem scheduleFault?_eq_some_iff : scheduleFault? p g scheduled order = some fault ↔
    ∃ front d after, order = front ++ d :: after ∧ scheduleFault? p g scheduled front = none ∧
      scheduleFault? p g (front.reverse ++ scheduled) [d] = some fault := by
  constructor
  · intro h
    induction order generalizing scheduled with
    | nil => exact absurd h (by simp [scheduleFault?])
    | cons d rest ih =>
      rw [Lookups.scheduleFault?_cons] at h
      cases hd : scheduleFault? p g scheduled [d] with
      | some first =>
        rw [hd] at h
        exact ⟨[], d, rest, rfl, rfl, hd.trans h⟩
      | none =>
        rw [hd, Option.none_or] at h
        obtain ⟨front, e, after, rfl, hfront, he⟩ := ih h
        refine ⟨d :: front, e, after, rfl, ?_, ?_⟩
        · rw [Lookups.scheduleFault?_cons, hd, hfront, Option.none_or]
        · rwa [List.reverse_cons, List.append_assoc, List.singleton_append]
  · rintro ⟨front, d, after, rfl, hfront, hd⟩
    rw [scheduleFault?_append, hfront, Option.none_or, Lookups.scheduleFault?_cons, hd,
      Option.some_or]

theorem scheduleFault?_eq_none_iff_of_wellFormed (hp : p.WellFormed) :
    scheduleFault? p (.of p) [] order = none ↔
      order.Nodup ∧ ∀ d ∈ order, d ∈ (DependencyGraph.of p).vertices := by
  rw [scheduleFault?_eq_none_iff]
  refine and_congr_right fun _ => forall₂_congr fun d _ => ⟨fun h => h.2.1, fun hd => ?_⟩
  obtain ⟨e, he, -⟩ := (DependencyGraph.mem_vertices_iff hp).mp hd
  exact ⟨by simp [he], hd, List.not_mem_nil⟩

/-- Different vertices are all the vertices if there are as many of them. -/
theorem length_eq_iff_of_nodup {vertices : List DeclId} (hvertices : vertices.Nodup)
    (hnodup : order.Nodup) (hsubset : ∀ d ∈ order, d ∈ vertices) :
    order.length = vertices.length ↔ ∀ v ∈ vertices, v ∈ order := by
  have hsubperm : order.Subperm vertices := hnodup.subperm hsubset
  constructor
  · intro hlength v hv
    exact (hsubperm.perm_of_length_le hlength.ge).mem_iff.mpr hv
  · intro hall
    exact Nat.le_antisymm hsubperm.length_le (hvertices.subperm hall).length_le

/-- Declarations in an order are without a fault exactly if they are the vertices, each once. -/
theorem fault?_eq_none_iff (hp : p.WellFormed) : fault? p (.of p) order = none ↔
    order.Nodup ∧ ∀ d, d ∈ order ↔ d ∈ (DependencyGraph.of p).vertices := by
  rw [fault?, Option.or_eq_none_iff, scheduleFault?_eq_none_iff_of_wellFormed hp,
    DependencyGraph.size_eq]
  constructor
  · rintro ⟨⟨hnodup, hsubset⟩, hlength⟩
    have hlength : order.length = (DependencyGraph.of p).vertices.length := by
      by_contra hne
      simp [hne] at hlength
    exact ⟨hnodup, fun d => ⟨hsubset d, (length_eq_iff_of_nodup
      (DependencyGraph.vertices_nodup hp) hnodup hsubset).mp hlength d⟩⟩
  · rintro ⟨hnodup, hmem⟩
    refine ⟨⟨hnodup, fun d hd => (hmem d).mp hd⟩, if_pos ?_⟩
    exact (length_eq_iff_of_nodup (DependencyGraph.vertices_nodup hp) hnodup
      fun d hd => (hmem d).mp hd).mpr fun d hd => (hmem d).mpr hd

theorem fault?_eq_some_iff (hp : p.WellFormed) :
    fault? p (.of p) order = some fault ↔ IsFaultOf p (.of p) order fault := by
  rw [fault?, DependencyGraph.size_eq]
  constructor
  · intro h
    cases hschedule : scheduleFault? p (.of p) [] order with
    | some first =>
      obtain rfl : first = fault := by simpa [hschedule] using h
      obtain ⟨front, d, after, horder, hfront, hd⟩ := scheduleFault?_eq_some_iff.mp hschedule
      obtain ⟨hnodup, hsubset⟩ := (scheduleFault?_eq_none_iff_of_wellFormed hp).mp hfront
      exact .misplaced horder hnodup hsubset
        ((scheduleFault?_singleton_iff fun e => by simp).mp hd)
    | none =>
      -- All of them have a place, so a wrong number can only be too small.
      obtain ⟨hnodup, hsubset⟩ := (scheduleFault?_eq_none_iff_of_wellFormed hp).mp hschedule
      rw [hschedule, Option.none_or, Option.ite_none_left_eq_some, length_eq_iff_of_nodup
        (DependencyGraph.vertices_nodup hp) hnodup hsubset] at h
      obtain ⟨hmissing, hfault⟩ := h
      push Not at hmissing
      obtain ⟨v, hv, hnot⟩ := hmissing
      obtain rfl := Option.some.inj hfault
      exact .incomplete hnodup hsubset hv hnot
  · rintro (⟨horder, hnodup, hsubset, hd⟩ | ⟨hnodup, hsubset, hv, hnot⟩)
    · have hschedule : scheduleFault? p (.of p) [] order = some fault :=
        scheduleFault?_eq_some_iff.mpr ⟨_, _, _, horder,
          (scheduleFault?_eq_none_iff_of_wellFormed hp).mpr ⟨hnodup, hsubset⟩,
          (scheduleFault?_singleton_iff fun e => by simp).mpr hd⟩
      rw [hschedule, Option.some_or]
    · have hlength : order.length ≠ (DependencyGraph.of p).vertices.length := fun hlength =>
        hnot ((length_eq_iff_of_nodup (DependencyGraph.vertices_nodup hp) hnodup hsubset).mp
          hlength _ hv)
      rw [(scheduleFault?_eq_none_iff_of_wellFormed hp).mpr ⟨hnodup, hsubset⟩, Option.none_or,
        if_neg hlength]

/-! ### What is made of layers -/

/-- The declaration that a step evaluates. -/
def declarationOf? (plan : Plan) (i : StepId) : Option DeclId :=
  (plan.step? i).map (·.declaration)

/-- The steps of a group are for the declarations of a layer: in their order, but those that await
something behind the others. -/
structure Runs (p : Program) (plan : Plan) (group : StepGroup) (layer : List DeclId) : Prop where
  synchronous : group.synchronous.map plan.declarationOf? =
    (layer.filter fun d => ¬p.Awaits d).map some
  asynchronous : group.asynchronous.map plan.declarationOf? =
    (layer.filter fun d => p.Awaits d).map some

/-- A plan numbers the declarations of layers in order, knows every reader of each by its number,
and has a group for each layer that is not empty, unless groups are merged. -/
structure IsMadeOf (p : Program) (g : DependencyGraph) (layers : List (List DeclId)) (merge : Bool)
    (plan : Plan) : Prop where
  id_eq : ∀ i s, plan.step? i = some s → s.id = i
  declarations_eq : plan.steps.map (·.declaration) = layers.flatten
  kind_iff : ∀ s ∈ plan.steps, s.kind = .asynchronous ↔ p.Awaits s.declaration
  dependents_eq : ∀ s ∈ plan.steps,
    s.dependents.map plan.declarationOf? = (g.dependents s.declaration).map some
  dependents_ascending : ∀ s ∈ plan.steps, (g.dependents s.declaration).Pairwise (· < ·)
  mem_dependents_iff : ∀ s ∈ plan.steps, ∀ v,
    v ∈ g.dependents s.declaration ↔ (s.declaration, v) ∈ g.edges
  groups_eq : ∃ groups, List.Forall₂ (Runs p plan) groups (layers.filter (· ≠ [])) ∧
    plan.groups = if merge then StepGroup.merge groups else groups

/-- The numbers of declarations in an order lead back to them. -/
theorem map_getElem?_filterMap_idxOf? {ids : List DeclId} (hids : ∀ e ∈ ids, e ∈ order) :
    (ids.filterMap (order.idxOf? ·)).map (order[·]?) = ids.map some := by
  induction ids with
  | nil => rfl
  | cons e rest ih =>
    have hmem := List.isSome_idxOf?.mpr (hids e List.mem_cons_self)
    obtain ⟨k, hk⟩ := Option.isSome_iff_exists.mp hmem
    obtain ⟨hlt, hget, -⟩ := List.idxOf?_eq_some_iff.mp hk
    rw [List.filterMap_cons, hk, List.map_cons, List.map_cons,
      ih fun e he => hids e (List.mem_cons_of_mem _ he), List.getElem?_eq_getElem hlt, hget]

theorem map_declaration_stepsOf : (stepsOf p g order).map (·.declaration) = order :=
  List.ext_getElem (by simp [stepsOf]) fun i _ _ => by simp [stepsOf, stepAt]

theorem declarationOf?_stepsOf {groups : List StepGroup} :
    (⟨stepsOf p g order, groups⟩ : Plan).declarationOf? = (order[·]?) := by
  funext i
  rw [declarationOf?, step?, ← List.getElem?_map, map_declaration_stepsOf]

theorem map_fst_filter_stepsOfLayer {kind : StepKind} :
    ((stepsOfLayer p order layer).filter (·.2 == kind)).map Prod.fst =
      (layer.filter (kindOf p · == kind)).filterMap (order.idxOf? ·) := by
  induction layer with
  | nil => rfl
  | cons d rest ih =>
    unfold stepsOfLayer at ih ⊢
    by_cases hkind : kindOf p d == kind
    · cases hd : order.idxOf? d <;> simp [hd, hkind, ih]
    · cases hd : order.idxOf? d <;> simp [hd, hkind, ih]

theorem runs_groupOf {groups : List StepGroup} (hlayer : ∀ d ∈ layer, d ∈ order) :
    Runs p ⟨stepsOf p g order, groups⟩ (groupOf p order layer) layer := by
  have hkind : ∀ d, (kindOf p d == .asynchronous) = decide (p.Awaits d) := fun d => by
    rw [Bool.eq_iff_iff, beq_iff_eq, kindOf_eq_asynchronous_iff, decide_eq_true_iff]
  have hkind' : ∀ d, (kindOf p d == .synchronous) = decide (¬p.Awaits d) := fun d => by
    rw [decide_not, ← hkind]
    cases kindOf p d <;> rfl
  constructor
  · rw [declarationOf?_stepsOf, groupOf, StepGroup.synchronous_ofSteps]
    refine (congrArg _ map_fst_filter_stepsOfLayer).trans ?_
    simp only [hkind']
    exact map_getElem?_filterMap_idxOf? fun e he => hlayer e (List.mem_of_mem_filter he)
  · rw [declarationOf?_stepsOf, groupOf, StepGroup.asynchronous_ofSteps]
    refine (congrArg _ map_fst_filter_stepsOfLayer).trans ?_
    simp only [hkind]
    exact map_getElem?_filterMap_idxOf? fun e he => hlayer e (List.mem_of_mem_filter he)

theorem Runs.size_eq {plan : Plan} {group : StepGroup} (h : Runs p plan group layer) :
    group.size = layer.length := by
  have hsync := congrArg List.length h.synchronous
  have hasync := congrArg List.length h.asynchronous
  rw [List.length_map, List.length_map] at hsync hasync
  have hsplit := @List.length_eq_length_filter_add _ layer fun d => decide (p.Awaits d)
  simp only [← decide_not] at hsplit
  rw [StepGroup.size, StepGroup.steps, List.length_append, hsync, hasync, Nat.add_comm, ← hsplit]

theorem Runs.isEmpty_eq {plan : Plan} {group : StepGroup} (h : Runs p plan group layer) :
    (!group.isEmpty) = decide (layer ≠ []) := by
  rw [StepGroup.isEmpty, Bool.eq_iff_iff, Bool.not_eq_true', List.isEmpty_eq_false_iff,
    decide_eq_true_iff, ← List.length_pos_iff, ← List.length_pos_iff, ← h.size_eq]
  rfl

theorem exists_groups_eq : ∃ groups,
    List.Forall₂ (Runs p ⟨stepsOf p g layers.flatten, groupsOf p layers merge⟩) groups
      (layers.filter (· ≠ [])) ∧
    groupsOf p layers merge = if merge then StepGroup.merge groups else groups := by
  have hruns : ∀ layer ∈ layers, Runs p ⟨stepsOf p g layers.flatten, groupsOf p layers merge⟩
      (groupOf p layers.flatten layer) layer := fun layer hlayer =>
    runs_groupOf fun d hd => List.mem_flatten_of_mem hlayer hd
  have hfilter : (layers.map (groupOf p layers.flatten)).filter (fun g => !g.isEmpty) =
      (layers.filter (· ≠ [])).map (groupOf p layers.flatten) := by
    rw [List.filter_map]
    exact congrArg _ (List.filter_congr fun layer hlayer => (hruns layer hlayer).isEmpty_eq)
  refine ⟨(layers.filter (· ≠ [])).map (groupOf p layers.flatten), ?_, ?_⟩
  · rw [List.forall₂_map_left_iff, List.forall₂_same]
    exact fun layer hlayer => hruns layer (List.mem_of_mem_filter hlayer)
  · rw [groupsOf, ← hfilter]
    cases merge
    · rfl
    · simp [StepGroup.merge]

/-- The vertices of a graph, each once, have all that reads them among them. -/
theorem isMadeOf (hp : p.WellFormed)
    (hmem : ∀ d, d ∈ layers.flatten ↔ d ∈ (DependencyGraph.of p).vertices) :
    IsMadeOf p (.of p) layers merge
      ⟨stepsOf p (.of p) layers.flatten, groupsOf p layers merge⟩ := by
  have hstep : ∀ s ∈ stepsOf p (.of p) layers.flatten, ∃ i d,
      layers.flatten[i]? = some d ∧ stepAt p (.of p) layers.flatten i d = s := fun s hs => by
    obtain ⟨i, hi⟩ := List.getElem?_of_mem hs
    exact ⟨i, getElem?_stepsOf_eq_some_iff.mp hi⟩
  exact {
    id_eq i s hs := by
      obtain ⟨d, -, rfl⟩ := getElem?_stepsOf_eq_some_iff.mp hs
      rfl
    declarations_eq := map_declaration_stepsOf
    kind_iff s hs := by
      obtain ⟨i, d, -, rfl⟩ := hstep s hs
      exact kindOf_eq_asynchronous_iff
    dependents_eq s hs := by
      obtain ⟨i, d, -, rfl⟩ := hstep s hs
      rw [declarationOf?_stepsOf]
      refine map_getElem?_filterMap_idxOf? fun e he => (hmem e).mpr ?_
      exact (DependencyGraph.mem_vertices_iff hp).mpr
        ((DependencyGraph.mem_dependents_iff hp).mp he).left_isVertex
    dependents_ascending s _ := DependencyGraph.pairwise_dependents hp s.declaration
    mem_dependents_iff s _ v :=
      (DependencyGraph.mem_dependents_iff hp).trans (DependencyGraph.mem_edges_iff hp).symm
    groups_eq := exists_groups_eq }

/-- Layers make a plan if they list each vertex of the graph of a program once and nothing else.
Otherwise the error is the first fault in their order. -/
theorem assemble_outcome {source : ProgramSource} (hlower : Program.lower source = .ok p)
    (hbuild : DependencyGraph.build p (Scopes.ofProgram p) = .ok g)
    (layers : List (List DeclId)) (merge : Bool) :
    ((∃ plan, assemble p g layers merge = .ok plan) ↔
      layers.flatten.Nodup ∧ ∀ d, d ∈ layers.flatten ↔ d ∈ g.vertices) ∧
    (∀ e, assemble p g layers merge = .error e ↔
      ∃ fault, e = .internal fault ∧ IsFaultOf p g layers.flatten fault) ∧
    ∀ plan, assemble p g layers merge = .ok plan → IsMadeOf p g layers merge plan := by
  have hp := Program.wellFormed_of_lower hlower
  obtain rfl := DependencyGraph.eq_of_build hbuild
  have hnone := @fault?_eq_none_iff p layers.flatten hp
  have hsome := fun fault => @fault?_eq_some_iff p layers.flatten fault hp
  unfold assemble
  cases hfault : fault? p (.of p) layers.flatten with
  | none =>
    have hcovers := hnone.mp hfault
    refine ⟨iff_of_true ⟨_, rfl⟩ hcovers, fun e => iff_of_false (by simp) ?_, fun plan hplan => ?_⟩
    · rintro ⟨fault, -, h⟩
      exact absurd (hfault.symm.trans ((hsome fault).mpr h)) (by simp)
    · obtain rfl := Except.ok.inj hplan
      exact isMadeOf hp hcovers.2
  | some fault =>
    refine ⟨iff_of_false (by simp) fun h => ?_, fun e => ⟨fun he => ?_, ?_⟩, by simp⟩
    · exact absurd (hfault.symm.trans (hnone.mpr h)) (by simp)
    · exact ⟨fault, (Except.error.inj he).symm, (hsome fault).mp hfault⟩
    · rintro ⟨other, rfl, h⟩
      rw [Option.some.inj (hfault.symm.trans ((hsome other).mpr h))]

/-- Layers with a gap among them make a plan. An argument has no place in layers, and no formula may
be missing. -/
theorem assemble_outcome_market :
    ∃ p g, Program.lower .market = .ok p ∧
      DependencyGraph.build p (Scopes.ofProgram p) = .ok g ∧
      (∃ plan, assemble p g [[4, 2], [], [10, 3, 9], [5, 6, 7, 8]] false = .ok plan ∧
        IsMadeOf p g [[4, 2], [], [10, 3, 9], [5, 6, 7, 8]] false plan) ∧
      assemble p g [[4], [0, 4, 11]] true = .error (.internal (.notAVertex "rate")) ∧
      assemble p g [[4, 2]] true = .error (.internal (.incomplete 2 9)) := by
  have hlower : Program.lower .market = .ok (Program.ofSource .market) := rfl
  have hbuild : DependencyGraph.build (Program.ofSource .market)
      (Scopes.ofProgram (Program.ofSource .market)) = .ok (.of (Program.ofSource .market)) := rfl
  have hvertices : (DependencyGraph.of (Program.ofSource .market)).vertices =
      [2, 3, 4, 5, 6, 7, 8, 9, 10] := rfl
  have houtcome := assemble_outcome hlower hbuild
  refine ⟨_, _, hlower, hbuild, ?_, ?_, ?_⟩
  · have hperm : [4, 2, 10, 3, 9, 5, 6, 7, 8].Perm [2, 3, 4, 5, 6, 7, 8, 9, 10] := by decide
    obtain ⟨hiff, -, hmade⟩ := houtcome [[4, 2], [], [10, 3, 9], [5, 6, 7, 8]] false
    obtain ⟨plan, hplan⟩ := hiff.mpr ⟨by decide, fun d => hvertices ▸ hperm.mem_iff⟩
    exact ⟨plan, hplan, hmade plan hplan⟩
  · have hbefore : ∀ e ∈ [4], e ∈ [2, 3, 4, 5, 6, 7, 8, 9, 10] := by decide
    refine ((houtcome [[4], [0, 4, 11]] true).2.1 _).mpr ⟨_, rfl, ?_⟩
    refine .misplaced rfl (List.nodup_singleton 4) (hvertices ▸ hbefore) ?_
    exact .notAVertex (Option.isSome_iff_ne_none.mp rfl) (by simp [hvertices])
  · have hlisted : ∀ e ∈ [4, 2], e ∈ [2, 3, 4, 5, 6, 7, 8, 9, 10] := by decide
    refine ((houtcome [[4, 2]] true).2.1 _).mpr ⟨_, rfl, ?_⟩
    exact .incomplete (v := 3) (by decide) (hvertices ▸ hlisted) (by simp [hvertices]) (by simp)

end Plan

end FormulaEngine
