import FormulaEngine.Compilation
import FormulaEngine.Proofs.Plan.Assembly
import FormulaEngine.Proofs.Program.Imports

/-!
# What compiles

A source compiles exactly if it can be lowered, its import paths have the lengths of their kinds,
and nothing depends on itself. The stages after the check for cycles never fail: the layers of a
graph without cycles always make a plan.
-/

namespace FormulaEngine

open Relation

/-- What later stages rely on in a compilation. -/
structure Compilation.Valid (c : Compilation) : Prop where
  wellFormed : c.program.WellFormed
  scopes_eq : c.scopes = Scopes.ofProgram c.program
  graph_eq : c.graph = DependencyGraph.of c.program
  flawless : ∀ {id d expr exported}, c.program.declaration? id = some d →
    d.kind = .formula expr exported → ∀ part, expr.Contains part → ¬part.Flawed
  path_length : ∀ {id d path kind}, c.program.declaration? id = some d →
    d.kind = .imported path kind → path.length = kind.pathLength
  acyclic : ∀ d, ¬TransGen c.program.DependsOn d d
  isLayering : c.program.IsLayering c.layers
  steps_eq : c.plan.steps = Plan.stepsOf c.program c.graph c.layers.flatten
  groups_eq : ∃ merge, c.plan.groups = Plan.groupsOf c.program c.layers merge

namespace Compilation

variable {settings : Settings} {source : ProgramSource} {c : Compilation}

/-! ### The stages -/

theorem compile_of_not_lowerable (h : ¬source.Lowerable) :
    ∃ e, compile settings source = .error e ∧ ProgramSource.IsLoweringError e := by
  obtain ⟨e, hlower, he⟩ := Program.lower_of_not_lowerable h
  refine ⟨e, ?_, he⟩
  unfold compile
  rw [hlower]
  rfl

theorem error?_eq_none_iff {module : String} {i : ImportSource} :
    i.error? module = none ↔ i.Fits := by
  unfold ImportSource.error? ImportSource.Fits
  split <;> simp [*]

theorem error?_of_not_fits {module : String} {i : ImportSource} (h : ¬i.Fits) :
    i.error? module = some (.malformedImport module i.name i.kind i.path.length) :=
  if_neg h

/-- The first import that does not fit is the error. -/
theorem compile_of_not_fits (h : source.Lowerable) (hfits : ¬∀ i ∈ source.imports, i.2.Fits) :
    ∃ front module i rest, source.imports = front ++ (module, i) :: rest ∧
      (∀ x ∈ front, x.2.Fits) ∧ ¬i.Fits ∧ compile settings source =
        .error (.malformedImport module i.name i.kind i.path.length) := by
  have hne : source.imports.findSome? (fun i => ImportSource.error? i.1 i.2) ≠ none := fun hnone =>
    hfits fun i hi => error?_eq_none_iff.mp (List.findSome?_eq_none_iff.mp hnone i hi)
  obtain ⟨e, he⟩ := Option.ne_none_iff_exists'.mp hne
  obtain ⟨front, ⟨module, i⟩, rest, hsplit, hi, hfront⟩ := List.findSome?_eq_some_iff.mp he
  have hi' : ¬i.Fits := fun hfit => by
    rw [error?_eq_none_iff.mpr hfit] at hi
    exact absurd hi (by simp)
  refine ⟨front, module, i, rest, hsplit, fun x hx => error?_eq_none_iff.mp (hfront x hx), hi', ?_⟩
  rw [error?_of_not_fits hi'] at hi
  obtain rfl := Option.some.inj hi
  unfold compile
  rw [Program.lower_of_lowerable h]
  change (DependencyGraph.build _ _ >>= _) = _
  unfold DependencyGraph.build
  rw [Program.findSome?_pathError?, he]
  rfl

theorem build_of_fits (h : ∀ i ∈ source.imports, i.2.Fits) :
    DependencyGraph.build (Program.ofSource source)
      (Scopes.ofProgram (Program.ofSource source)) = .ok (.of (Program.ofSource source)) := by
  have hfind : (Program.ofSource source).declarations.findSome?
      (Declaration.pathError? (Program.ofSource source)) = none := by
    rw [Program.findSome?_pathError?]
    exact List.findSome?_eq_none_iff.mpr fun x hx => error?_eq_none_iff.mpr (h x hx)
  unfold DependencyGraph.build
  rw [hfind]

/-- The check for cycles fails exactly if a declaration depends on itself. -/
theorem checkAcyclic_cases {p : Program} (hp : p.WellFormed) :
    ((∀ d, ¬TransGen p.DependsOn d d) ∧ checkAcyclic p (.of p) = .ok ()) ∨
      (∃ d, TransGen p.DependsOn d d) ∧
        ∃ name cycle, checkAcyclic p (.of p) = .error (.cyclicDependency name cycle) := by
  unfold checkAcyclic DependencyGraph.cycleError?
  cases hback : (DependencyGraph.of p).digraph.backEdge? with
  | none =>
    have hacyclic := Digraph.backEdge?_eq_none_iff.mp hback
    exact .inl ⟨(DependencyGraph.acyclic_iff hp).mp hacyclic, rfl⟩
  | some edge =>
    have hreaches := (Digraph.isBack_of_backEdge? hback).reaches_self
    exact .inr ⟨⟨_, DependencyGraph.transGen_of_reaches hp hreaches⟩, _, _, rfl⟩

theorem compile_of_cycle (h : source.Lowerable) (hfits : ∀ i ∈ source.imports, i.2.Fits)
    {d : DeclId} (hcycle : TransGen (Program.ofSource source).DependsOn d d) :
    ∃ name cycle, compile settings source = .error (.cyclicDependency name cycle) := by
  rcases checkAcyclic_cases (Program.wellFormed_ofSource h) with
    ⟨hacyclic, -⟩ | ⟨-, name, cycle, hcheck⟩
  · exact absurd hcycle (hacyclic d)
  refine ⟨name, cycle, ?_⟩
  unfold compile
  rw [Program.lower_of_lowerable h]
  change (DependencyGraph.build _ _ >>= _) = _
  rw [build_of_fits hfits]
  change (checkAcyclic _ _ >>= _) = _
  rw [hcheck]
  rfl

/-- Without a cycle every later stage succeeds. -/
theorem compile_of_acyclic (h : source.Lowerable) (hfits : ∀ i ∈ source.imports, i.2.Fits)
    (hacyclic : ∀ d, ¬TransGen (Program.ofSource source).DependsOn d d) :
    ∃ layers, (Program.ofSource source).IsLayering layers ∧
      compile settings source =
        .ok ⟨Program.ofSource source, Scopes.ofProgram (Program.ofSource source),
          .of (Program.ofSource source), layers,
          ⟨Plan.stepsOf (Program.ofSource source) (.of (Program.ofSource source)) layers.flatten,
            Plan.groupsOf (Program.ofSource source) layers settings.mergesSynchronousGroups⟩,
          settings.profile⟩ := by
  have hp := Program.wellFormed_ofSource h
  obtain ⟨layers, hlayers, hlayering⟩ :=
    DependencyGraph.layers_of_acyclic hp ((DependencyGraph.acyclic_iff hp).mpr hacyclic)
  refine ⟨layers, hlayering, ?_⟩
  rcases checkAcyclic_cases hp with ⟨-, hcheck⟩ | ⟨⟨d, hcycle⟩, -⟩
  · unfold compile
    rw [Program.lower_of_lowerable h]
    change (DependencyGraph.build _ _ >>= _) = _
    rw [build_of_fits hfits]
    change (checkAcyclic _ _ >>= _) = _
    rw [hcheck]
    change (DependencyGraph.layers _ >>= _) = _
    rw [hlayers]
    change (Plan.assemble _ _ _ _ >>= _) = _
    rw [Plan.assemble_of_isLayering hp hlayering]
    rfl
  · exact absurd hcycle (hacyclic d)

theorem conditions_of_compile (h : compile settings source = .ok c) :
    source.Lowerable ∧ (∀ i ∈ source.imports, i.2.Fits) ∧
      ∀ d, ¬TransGen (Program.ofSource source).DependsOn d d := by
  have hlower : source.Lowerable := by
    by_contra hlower
    obtain ⟨e, he, -⟩ := @compile_of_not_lowerable settings source hlower
    exact absurd (h.symm.trans he) (by simp)
  have hfits : ∀ i ∈ source.imports, i.2.Fits := by
    by_contra hfits
    obtain ⟨_, _, _, _, -, -, -, he⟩ := @compile_of_not_fits settings source hlower hfits
    exact absurd (h.symm.trans he) (by simp)
  refine ⟨hlower, hfits, fun d hcycle => ?_⟩
  obtain ⟨_, _, he⟩ := @compile_of_cycle settings source hlower hfits d hcycle
  exact absurd (h.symm.trans he) (by simp)

/-- A source compiles if and only if it can be lowered, its imports fit and nothing depends on
itself. The first of these that fails says which error there is, and no other error occurs. -/
theorem compile_outcome (settings : Settings) (source : ProgramSource) :
    ((∃ c, compile settings source = .ok c) ↔
      source.Lowerable ∧ (∀ i ∈ source.imports, i.2.Fits) ∧
        ∀ d, ¬TransGen (Program.ofSource source).DependsOn d d) ∧
    (¬source.Lowerable →
      ∃ e, compile settings source = .error e ∧ ProgramSource.IsLoweringError e) ∧
    (source.Lowerable → (¬∀ i ∈ source.imports, i.2.Fits) →
      ∃ front module i rest, source.imports = front ++ (module, i) :: rest ∧
        (∀ x ∈ front, x.2.Fits) ∧ ¬i.Fits ∧ compile settings source =
          .error (.malformedImport module i.name i.kind i.path.length)) ∧
    (source.Lowerable → (∀ i ∈ source.imports, i.2.Fits) →
      (∃ d, TransGen (Program.ofSource source).DependsOn d d) →
        ∃ name cycle, compile settings source = .error (.cyclicDependency name cycle)) ∧
    (∀ e, compile settings source = .error e →
      e ≠ .undecodable ∧ (∀ name, e ≠ .unknownProfile name) ∧ ∀ fault, e ≠ .internal fault) := by
  refine ⟨⟨fun ⟨_, hc⟩ => conditions_of_compile hc, ?_⟩, compile_of_not_lowerable,
    compile_of_not_fits, fun hlower hfits ⟨_, hcycle⟩ => compile_of_cycle hlower hfits hcycle, ?_⟩
  · rintro ⟨hlower, hfits, hacyclic⟩
    obtain ⟨_, -, hc⟩ := @compile_of_acyclic settings source hlower hfits hacyclic
    exact ⟨_, hc⟩
  · intro e he
    by_cases hlower : source.Lowerable
    · by_cases hfits : ∀ i ∈ source.imports, i.2.Fits
      · by_cases hcycle : ∃ d, TransGen (Program.ofSource source).DependsOn d d
        · obtain ⟨d, hcycle⟩ := hcycle
          obtain ⟨_, _, hcyclic⟩ := @compile_of_cycle settings source hlower hfits d hcycle
          obtain rfl := Except.error.inj (he.symm.trans hcyclic)
          simp
        · rw [not_exists] at hcycle
          obtain ⟨_, -, hc⟩ := @compile_of_acyclic settings source hlower hfits hcycle
          exact absurd (he.symm.trans hc) (by simp)
      · obtain ⟨_, _, _, _, -, -, -, hmalformed⟩ :=
          @compile_of_not_fits settings source hlower hfits
        obtain rfl := Except.error.inj (he.symm.trans hmalformed)
        simp
    · obtain ⟨_, hother, herror⟩ := @compile_of_not_lowerable settings source hlower
      obtain rfl := Except.error.inj (he.symm.trans hother)
      cases herror <;> simp

/-! ### A compilation -/

theorem exists_member {id : DeclId} {d : Declaration}
    (h : (Program.ofSource source).declaration? id = some d) (hvertex : d.isVertex) :
    ∃ m ∈ source.modules, (d.name, d.kind) ∈ m.members := by
  rcases Program.mem_declarations_of_declaration? h with hmem | hmem
  · rw [(Program.mem_globals_place hmem).2] at hvertex
    exact absurd hvertex (by simp)
  · exact Program.exists_member_of_mem_placeModules hmem

theorem valid_of_compile (h : compile settings source = .ok c) : c.Valid := by
  obtain ⟨hlower, hfits, hacyclic⟩ := conditions_of_compile h
  obtain ⟨layers, hlayering, hcompile⟩ := @compile_of_acyclic settings source hlower hfits hacyclic
  obtain rfl := Except.ok.inj (h.symm.trans hcompile)
  refine ⟨Program.wellFormed_ofSource hlower, rfl, rfl, ?_, ?_, hacyclic, hlayering, rfl, ⟨_, rfl⟩⟩
  · intro id d expr exported hd hkind
    obtain ⟨m, hm, hmem⟩ := exists_member hd (by simp [Declaration.isVertex, hkind])
    rcases Program.mem_members_iff.mp hmem with ⟨i, -, -, heq⟩ | ⟨f, hf, -, heq⟩
    · exact absurd (heq.trans hkind) (by simp)
    · obtain ⟨rfl, -⟩ := DeclKind.formula.inj (heq.trans hkind)
      exact hlower.formulas m hm f hf
  · intro id d path kind hd hkind
    obtain ⟨m, hm, hmem⟩ := exists_member hd (by simp [Declaration.isVertex, hkind])
    rcases Program.mem_members_iff.mp hmem with ⟨i, hi, -, heq⟩ | ⟨f, -, -, heq⟩
    · obtain ⟨rfl, rfl⟩ := DeclKind.imported.inj (heq.trans hkind)
      exact hfits (m.name, i) (List.mem_flatMap.mpr ⟨m, hm, List.mem_map.mpr ⟨i, hi, rfl⟩⟩)
    · exact absurd (heq.trans hkind) (by simp)

/-- A compilation as it would be by other settings. -/
def withSettings (c : Compilation) (settings : Settings) : Compilation :=
  { c with
    plan := ⟨c.plan.steps,
      Plan.groupsOf c.program c.layers settings.mergesSynchronousGroups⟩
    profile := settings.profile }

theorem bind_eq_ok_iff {α β : Type} {stage : Except CompileError α}
    {next : α → Except CompileError β} {b : β} :
    (stage >>= next) = .ok b ↔ ∃ a, stage = .ok a ∧ next a = .ok b := by
  cases stage with
  | error e => simp [bind, Except.bind]
  | ok a => simp [bind, Except.bind]

theorem compile_eq_ok_iff : compile settings source = .ok c ↔
    Program.lower source = .ok c.program ∧ c.scopes = .ofProgram c.program ∧
      DependencyGraph.build c.program c.scopes = .ok c.graph ∧
      checkAcyclic c.program c.graph = .ok () ∧ c.graph.layers = .ok c.layers ∧
      Plan.assemble c.program c.graph c.layers settings.mergesSynchronousGroups = .ok c.plan ∧
      c.profile = settings.profile := by
  unfold compile
  simp only [bind_eq_ok_iff, Except.ok.injEq]
  constructor
  · rintro ⟨p, hlower, g, hbuild, _, hcheck, layers, hlayers, plan, hplan, rfl⟩
    exact ⟨hlower, rfl, hbuild, hcheck, hlayers, hplan, rfl⟩
  · rintro ⟨hlower, hscopes, hbuild, hcheck, hlayers, hplan, hprofile⟩
    refine ⟨_, hlower, _, hscopes ▸ hbuild, (), hcheck, _, hlayers, _, hplan, ?_⟩
    rw [← hscopes, ← hprofile]

theorem program_of_compile (h : compile settings source = .ok c) :
    c.program = Program.ofSource source := by
  obtain ⟨hlower, -⟩ := compile_eq_ok_iff.mp h
  exact (Program.lowerable_of_lower hlower).2

theorem profile_of_compile (h : compile settings source = .ok c) :
    c.profile = settings.profile := by
  obtain ⟨-, -, -, -, -, -, hprofile⟩ := compile_eq_ok_iff.mp h
  exact hprofile

theorem assemble_eq_ok_iff {p : Program} {g : DependencyGraph} {layers : List (List DeclId)}
    {merge : Bool} {plan : Plan} : Plan.assemble p g layers merge = .ok plan ↔
      Plan.fault? p g layers.flatten = none ∧
        plan = ⟨Plan.stepsOf p g layers.flatten, Plan.groupsOf p layers merge⟩ := by
  unfold Plan.assemble
  cases Plan.fault? p g layers.flatten with
  | none => simp [eq_comm]
  | some fault => simp

/-- Settings only say how groups are merged and how failures are treated. -/
theorem compile_withSettings (h : compile settings source = .ok c) (settings' : Settings) :
    compile settings' source = .ok (c.withSettings settings') := by
  obtain ⟨hlower, hscopes, hbuild, hcheck, hlayers, hplan, -⟩ := compile_eq_ok_iff.mp h
  obtain ⟨hfault, hplan⟩ := assemble_eq_ok_iff.mp hplan
  have hsteps : c.plan.steps = Plan.stepsOf c.program c.graph c.layers.flatten := by rw [hplan]
  refine compile_eq_ok_iff.mpr ⟨hlower, hscopes, hbuild, hcheck, hlayers, ?_, rfl⟩
  exact assemble_eq_ok_iff.mpr ⟨hfault, by rw [withSettings, hsteps]⟩

theorem Valid.isCall_of_await (h : c.Valid) {d : Declaration}
    (hd : c.program.declaration? d.id = some d) {expr operand : Expr} {exported : Bool}
    (hkind : d.kind = .formula expr exported) (hoperand : expr.Contains (.await operand)) :
    operand.isCall := by
  by_contra hcall
  apply h.flawless hd hkind _ hoperand
  exact .await fun function args heq => hcall (Expr.isCall_iff.mpr ⟨function, args, heq⟩)

theorem Valid.mem_edges_iff (h : c.Valid) {u v : DeclId} :
    (u, v) ∈ c.graph.edges ↔ c.program.DependsOn v u := by
  rw [h.graph_eq]
  exact DependencyGraph.mem_edges_iff h.wellFormed

theorem Valid.mem_dependencies_iff (h : c.Valid) {u v : DeclId} :
    u ∈ c.graph.dependencies v ↔ c.program.DependsOn v u := by
  rw [h.graph_eq]
  exact DependencyGraph.mem_dependencies_iff h.wellFormed

theorem Valid.mem_vertices_iff (h : c.Valid) {v : DeclId} :
    v ∈ c.graph.vertices ↔ ∃ d, c.program.declaration? v = some d ∧ d.isVertex := by
  rw [h.graph_eq]
  exact DependencyGraph.mem_vertices_iff h.wellFormed

end Compilation

/-- A source in which one module waits for a rate that another one reads. -/
def ProgramSource.checkout : ProgramSource :=
  ⟨[⟨"order"⟩], [⟨"unit", .string "EUR"⟩],
    [⟨"rates", [⟨"item", ["order"], .argument⟩],
        [⟨"live", .awaitCall "fetch" [.ident "item"], true⟩]⟩,
      ⟨"orders", [⟨"rate", ["rates", "live"], .formula⟩],
        [⟨"total", .list [.ident "rate", .ident "unit"], true⟩]⟩]⟩

theorem Compilation.exists_checkout :
    ∃ c, compile {} .checkout = .ok c ∧ c.profile = .verbose := by
  have hprofile : (compile {} .checkout).toOption.map (·.profile) = some .verbose := by
    decide +kernel
  cases hc : compile {} .checkout with
  | error e => simp [hc, Except.toOption] at hprofile
  | ok c => exact ⟨c, rfl, by simpa [hc, Except.toOption] using hprofile⟩

end FormulaEngine
