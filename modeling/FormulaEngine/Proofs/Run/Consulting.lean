import FormulaEngine.Proofs.Eval.Defaults
import FormulaEngine.Proofs.Program.Edges
import FormulaEngine.Proofs.Run.Settling
import Mathlib.Data.List.Sort

/-!
# The slots that an evaluation consults

Apart from globals, an evaluation looks only along the edges of the graph, although it finds names
in another way than the graph does. An import of a formula or of a module looks at all that it
depends on, in ascending order, up to the first slot without a value.
-/

namespace FormulaEngine

namespace Evaluator

variable {ev : Evaluator} {d : Declaration} {path : List String} {kind : ImportKind} {s : Slots}
  {ids : List DeclId} {u : DeclId}

/-! ### Reading in order -/

theorem readSlot_onSlots_of_get? {o : Outcome} (h : s.get? u = some o) :
    (ev.onSlots s).readSlot u = o.read := by
  have hget : (ev.onSlots s).slots.get? u = some o := h
  rw [readSlot, hget]

theorem exists_readSlot_onSlots_eq_error (h : ∀ v, s.get? u ≠ some (.value v)) :
    ∃ fault, (ev.onSlots s).readSlot u = .error fault := by
  cases hu : s.get? u with
  | none =>
    have hget : (ev.onSlots s).slots.get? u = none := hu
    rw [readSlot, hget]
    exact ⟨_, rfl⟩
  | some o =>
    rw [readSlot_onSlots_of_get? hu]
    cases o with
    | value v => exact absurd hu (h v)
    | failed cause | skipped cause => exact ⟨_, rfl⟩

/-- What is behind the first slot without a value makes no difference. -/
theorem mapM_readSlot_insert (hids : ids.Pairwise (· < ·))
    (h : ¬(u ∈ ids ∧ ∀ w ∈ ids, w < u → ∃ v, s.get? w = some (.value v))) (o : Outcome) :
    ids.mapM (ev.onSlots (s.insert u o)).readSlot = ids.mapM (ev.onSlots s).readSlot := by
  have hother : ∀ w, w ≠ u →
      (ev.onSlots (s.insert u o)).readSlot w = (ev.onSlots s).readSlot w := fun w hne =>
    @readSlot_onSlots (ev.onSlots s) w _ (Slots.get?_insert_of_ne s hne o)
  by_cases hu : u ∈ ids
  · push Not at h
    obtain ⟨w, hw, hlt, hnovalue⟩ := h hu
    obtain ⟨front, rest, rfl⟩ := List.append_of_mem hw
    obtain ⟨fault, hfault⟩ := @exists_readSlot_onSlots_eq_error ev s w hnovalue
    rw [mapM_append_of_error ((hother w hlt.ne).trans hfault), mapM_append_of_error hfault,
      mapM_congr fun a ha => hother a ?_]
    have hbefore : a < w := (List.pairwise_append.mp hids).2.2 a ha w List.mem_cons_self
    exact (hbefore.trans hlt).ne
  · exact mapM_congr fun w hw => hother w fun heq => hu (heq ▸ hw)

/-- With values up to a slot that has none, it is the one that decides. -/
theorem mapM_readSlot_of_failed (hids : ids.Pairwise (· < ·)) (hu : u ∈ ids)
    (hvalues : ∀ w ∈ ids, w < u → ∃ v, s.get? w = some (.value v)) (failure : StepFailure) :
    ids.mapM (ev.onSlots (s.insert u (.failed failure))).readSlot = .error (.skip failure) := by
  obtain ⟨front, rest, rfl⟩ := List.append_of_mem hu
  have hfront : ∀ w ∈ front,
      ∃ v, (ev.onSlots (s.insert u (.failed failure))).readSlot w = .ok v := by
    intro w hw
    have hlt : w < u := (List.pairwise_append.mp hids).2.2 w hw u List.mem_cons_self
    obtain ⟨v, hv⟩ := hvalues w (List.mem_append_left _ hw) hlt
    exact ⟨v, readSlot_onSlots_of_get? ((Slots.get?_insert_of_ne s hlt.ne _).trans hv)⟩
  have hfault : (ev.onSlots (s.insert u (.failed failure))).readSlot u = .error (.skip failure) :=
    readSlot_onSlots_of_get? (Slots.get?_insert_self s u _)
  obtain ⟨vs, hvs⟩ := exists_mapM_eq_ok hfront
  rw [mapM_append_of_error hfault, hvs]
  rfl

/-! ### What an import reads -/

/-- The evaluation and the graph find the same formula by its name. -/
theorem findFormula?_eq_formulaNamed? (hp : ev.program.WellFormed)
    (hscopes : ev.scopes = .ofProgram ev.program) (module name : String) :
    ev.findFormula? module name = ev.program.formulaNamed? ev.scopes module name := by
  refine Option.ext fun id => ?_
  rw [hscopes, findFormula?_eq_some_iff hp, Program.formulaNamed?_eq_some_iff hp]

/-- What is found on slots is made of the values of some of them, read one after the other. -/
def ReadsInOrder (ev : Evaluator) (ids : List DeclId) (found : Slots → Except Fault Value) : Prop :=
  ∃ make : List Value → Except Fault Value, ∀ s,
    found s = ids.mapM (ev.onSlots s).readSlot >>= make

theorem readsInOrder_nil (r : Except Fault Value) : ev.ReadsInOrder [] fun _ => r :=
  ⟨fun _ => r, fun _ => rfl⟩

theorem readsInOrder_readFound (path : List String) (found : Option DeclId) :
    ev.ReadsInOrder found.toList fun s => (ev.onSlots s).readFound path found := by
  cases found with
  | none => exact readsInOrder_nil _
  | some id =>
    refine ⟨fun vs => .ok (vs.headD .null), fun s => ?_⟩
    change (ev.onSlots s).readSlot id = _
    rw [Option.toList_some, List.mapM_cons]
    cases (ev.onSlots s).readSlot id <;> rfl

theorem readsInOrder_readExports (m : ProgramModule) :
    ev.ReadsInOrder (ev.program.exportedFormulas m.id) fun s => (ev.onSlots s).readExports m := by
  let name (id : DeclId) : String := ((ev.program.declaration? id).map (·.name)).getD ""
  let ids := ev.program.exportedFormulas m.id
  refine ⟨fun vs => .ok (.ofFields ((ids.map name).zip vs)), fun s => ?_⟩
  change (ids.mapM fun id => do
    let v ← (ev.onSlots s).readSlot id
    .ok (name id, v)) >>= _ = _
  rw [mapM_pair]
  cases ids.mapM (ev.onSlots s).readSlot <;> rfl

/-- An import of a formula or of a module reads what the graph has it read, in the same order. -/
theorem readsInOrder_importValue (hp : ev.program.WellFormed)
    (hscopes : ev.scopes = .ofProgram ev.program) (hkind : d.kind = .imported path kind)
    (himport : kind = .formula ∨ kind = .module) (hlength : path.length = kind.pathLength) :
    ev.ReadsInOrder (d.reads ev.program ev.scopes) fun s =>
      (ev.onSlots s).importValue path kind := by
  rcases himport with rfl | rfl
  · obtain ⟨module, name, rfl⟩ := List.length_eq_two.mp hlength
    simp only [Declaration.reads, hkind]
    rw [← findFormula?_eq_formulaNamed? hp hscopes]
    exact readsInOrder_readFound [module, name] _
  · obtain ⟨module, rfl⟩ := List.length_eq_one_iff.mp hlength
    have hprogram : ∀ s, (ev.onSlots s).program = ev.program := fun _ => rfl
    simp only [Declaration.reads, hkind, importValue, hprogram]
    cases ev.program.moduleNamed? module with
    | none => exact readsInOrder_nil _
    | some m => exact readsInOrder_readExports m

end Evaluator

namespace Compilation

variable {σ : Type} {settings : Settings} {source : ProgramSource} {c : Compilation}
  {fs : Functions σ} {mode : Mode} {s : Slots} {d : Declaration} {u : DeclId}
  {path : List String} {kind : ImportKind}

/-! ### Edges and slots -/

theorem Valid.pairwise_dependencies (h : c.Valid) (v : DeclId) :
    (c.graph.dependencies v).Pairwise (· < ·) := by
  rw [h.graph_eq]
  exact DependencyGraph.pairwise_dependencies h.wellFormed v

theorem pairwise_reads_of_import (h : compile settings source = .ok c)
    (hkind : d.kind = .imported path kind) (himport : kind = .formula ∨ kind = .module)
    (hlength : path.length = kind.pathLength) :
    (d.reads c.program c.scopes).Pairwise (· < ·) := by
  rcases himport with rfl | rfl
  · obtain ⟨module, name, rfl⟩ := List.length_eq_two.mp hlength
    simp only [Declaration.reads, hkind]
    cases c.program.formulaNamed? c.scopes module name <;> simp
  · obtain ⟨module, rfl⟩ := List.length_eq_one_iff.mp hlength
    simp only [Declaration.reads, hkind]
    cases c.program.moduleNamed? module with
    | none => exact .nil
    | some m =>
      rw [program_of_compile h]
      exact Program.pairwise_exportedFormulas m.id

theorem dependencies_eq_reads (h : compile settings source = .ok c)
    (hd : c.program.declaration? d.id = some d) (hkind : d.kind = .imported path kind)
    (himport : kind = .formula ∨ kind = .module) :
    c.graph.dependencies d.id = d.reads c.program c.scopes := by
  have hvalid := valid_of_compile h
  refine (hvalid.pairwise_dependencies d.id).eq_of_mem_iff
    (pairwise_reads_of_import h hkind himport (hvalid.path_length hd hkind)) fun u => ?_
  rw [hvalid.mem_dependencies_iff, hvalid.scopes_eq, Program.mem_reads_iff hvalid.wellFormed hd]

theorem routine_of_import (hkind : d.kind = .imported path kind) :
    c.routine fs mode s d = .done ((c.evaluator fs s d.module).importValue path kind) := by
  unfold routine Evaluator.run
  rw [hkind]
  rfl

/-- The evaluation of a declaration consults a slot if it matters what is in there. -/
def Consults (c : Compilation) (fs : Functions σ) (mode : Mode) (s : Slots) (d : Declaration)
    (u : DeclId) : Prop :=
  ∃ o o', c.routine fs mode (s.insert u o) d ≠ c.routine fs mode (s.insert u o') d

/-- An import consults what it depends on, in ascending order, until a slot has no value. -/
theorem consults_iff_of_import (h : compile settings source = .ok c)
    (hd : c.program.declaration? d.id = some d) (hkind : d.kind = .imported path kind)
    (himport : kind = .formula ∨ kind = .module) :
    c.Consults fs mode s d u ↔ u ∈ c.graph.dependencies d.id ∧
      ∀ w ∈ c.graph.dependencies d.id, w < u → ∃ v, s.get? w = some (.value v) := by
  have hvalid := valid_of_compile h
  have hids := hvalid.pairwise_dependencies d.id
  let ev := c.evaluator fs s d.module
  obtain ⟨make, hmake⟩ : ev.ReadsInOrder (d.reads c.program c.scopes) fun s =>
      (ev.onSlots s).importValue path kind :=
    Evaluator.readsInOrder_importValue hvalid.wellFormed hvalid.scopes_eq hkind himport
      (hvalid.path_length hd hkind)
  rw [← dependencies_eq_reads h hd hkind himport] at hmake
  have hroutine : ∀ s, c.routine fs mode s d =
      .done ((c.graph.dependencies d.id).mapM (ev.onSlots s).readSlot >>= make) := fun s =>
    (routine_of_import hkind).trans (congrArg _ (hmake s))
  constructor
  · rintro ⟨o, o', hne⟩
    by_contra hunread
    rw [hroutine, hroutine, Evaluator.mapM_readSlot_insert hids hunread,
      Evaluator.mapM_readSlot_insert hids hunread] at hne
    exact hne rfl
  · rintro ⟨hu, hvalues⟩
    -- Two failures of different declarations are told apart by the skips that they lead to.
    refine ⟨.failed ⟨0, .divisionByZero⟩, .failed ⟨1, .divisionByZero⟩, ?_⟩
    rw [hroutine, hroutine, Evaluator.mapM_readSlot_of_failed hids hu hvalues,
      Evaluator.mapM_readSlot_of_failed hids hu hvalues]
    intro heq
    cases heq

/-- An import of a formula finds no such name exactly if the graph has no edge for it. -/
theorem unresolved_iff_of_import (h : compile settings source = .ok c)
    (hd : c.program.declaration? d.id = some d) (hkind : d.kind = .imported path .formula) :
    (∃ name, c.routine fs mode s d = .done (.error (.error (.unresolvedIdentifier name)))) ↔
      c.graph.dependencies d.id = [] := by
  have hvalid := valid_of_compile h
  obtain ⟨module, name, rfl⟩ := List.length_eq_two.mp (hvalid.path_length hd hkind)
  let ev := c.evaluator fs s d.module
  have hfound : ev.findFormula? module name = c.program.formulaNamed? c.scopes module name :=
    Evaluator.findFormula?_eq_formulaNamed? hvalid.wellFormed hvalid.scopes_eq module name
  have hroutine : c.routine fs mode s d =
      .done (ev.readFound [module, name] (c.program.formulaNamed? c.scopes module name)) := by
    rw [routine_of_import hkind, ← hfound]
    rfl
  rw [dependencies_eq_reads h hd hkind (.inl rfl), hroutine]
  simp only [Declaration.reads, hkind]
  cases c.program.formulaNamed? c.scopes module name with
  | none => exact iff_of_true ⟨_, rfl⟩ rfl
  | some id =>
    refine iff_of_false ?_ (by simp)
    rintro ⟨missing, hmissing⟩
    have hfailure := Evaluator.isFailure_of_readSlot (Routine.done.inj hmissing)
    exact hfailure.not_isAbsence (.unresolved missing)

/-! ### The graph and the evaluation -/

/-- The evaluation of a declaration reads along the edges of the graph. Slots that agree on its
dependencies and on globals make no difference to it, and an import consults its dependencies. -/
structure ReadsEdges (c : Compilation) (fs : Functions σ) (d : Declaration) : Prop where
  congr : ∀ mode (s s' : Slots), (∀ u ∈ c.graph.dependencies d.id, s'.get? u = s.get? u) →
    (∀ u e, c.program.declaration? u = some e → e.isVertex = false → s'.get? u = s.get? u) →
      c.routine fs mode s' d = c.routine fs mode s d
  /-- An import reads in ascending order, and no further than up to a slot without a value. -/
  consults_iff : ∀ path kind, d.kind = .imported path kind → kind = .formula ∨ kind = .module →
    ∀ mode s u, c.Consults fs mode s d u ↔ u ∈ c.graph.dependencies d.id ∧
      ∀ w ∈ c.graph.dependencies d.id, w < u → ∃ v, s.get? w = some (.value v)
  consults_all : ∀ path kind, d.kind = .imported path kind → kind = .formula ∨ kind = .module →
    ∀ mode s, (∀ w ∈ c.graph.dependencies d.id, ∃ v, s.get? w = some (.value v)) →
      ∀ u, c.Consults fs mode s d u ↔ u ∈ c.graph.dependencies d.id
  unresolved_iff : ∀ path, d.kind = .imported path .formula → ∀ mode s,
    (∃ name, c.routine fs mode s d = .done (.error (.error (.unresolvedIdentifier name)))) ↔
      c.graph.dependencies d.id = []

theorem readsEdges_of_compile (h : compile settings source = .ok c) (fs : Functions σ)
    (hd : c.program.declaration? d.id = some d) (hvertex : d.isVertex) : c.ReadsEdges fs d where
  congr mode s s' hdeps hglobal := by
    have hvalid := valid_of_compile h
    exact hvalid.routine_congr hd hvertex hglobal fun u hu =>
      hdeps u (hvalid.mem_dependencies_iff.mpr hu)
  consults_iff _ _ hkind himport _ _ _ := consults_iff_of_import h hd hkind himport
  consults_all _ _ hkind himport _ _ hvalues _ := by
    rw [consults_iff_of_import h hd hkind himport]
    exact and_iff_left fun w hw _ => hvalues w hw
  unresolved_iff _ hkind _ _ := unresolved_iff_of_import h hd hkind

end Compilation

/-- A source with an import of a module that exports two of its formulas, and one of a formula that
the module does not have. -/
def ProgramSource.desk : ProgramSource :=
  ⟨[⟨"order"⟩], [⟨"unit", .string "EUR"⟩],
    [⟨"rates", [],
        [⟨"raw", .ident "order", false⟩, ⟨"live", .ident "raw", true⟩,
          ⟨"last", .ident "unit", true⟩]⟩,
      ⟨"desk", [⟨"rates", ["rates"], .module⟩, ⟨"gone", ["rates", "next"], .formula⟩],
        [⟨"total", .list [.member (.ident "rates") "live", .ident "unit"], true⟩]⟩]⟩

theorem Compilation.readsEdges_of_desk :
    ∃ c d, compile {} .desk = .ok c ∧ c.program.declaration? d.id = some d ∧
      d.kind = .imported ["rates"] .module ∧ c.graph.dependencies d.id = [3, 4] ∧
      c.ReadsEdges (.empty : Functions Unit) d := by
  have hlower : ProgramSource.desk.Lowerable := ProgramSource.error?_eq_none_iff.mp rfl
  have hfits : ∀ i ∈ ProgramSource.desk.imports, i.2.Fits := by
    simp [ProgramSource.desk, ProgramSource.imports, ImportSource.Fits, ImportKind.pathLength]
  have hback : (DependencyGraph.of (Program.ofSource .desk)).digraph.backEdge? = none := rfl
  have hacyclic := (DependencyGraph.acyclic_iff (Program.wellFormed_ofSource hlower)).mp
    (Digraph.backEdge?_eq_none_iff.mp hback)
  obtain ⟨layers, -, hc⟩ := @compile_of_acyclic {} _ hlower hfits hacyclic
  let d : Declaration := ⟨5, some 1, "rates", .imported ["rates"] .module⟩
  have hd : (Program.ofSource .desk).declaration? d.id = some d := rfl
  exact ⟨_, d, hc, hd, rfl, dependencies_eq_reads hc hd rfl (.inr rfl),
    readsEdges_of_compile hc .empty hd rfl⟩

end FormulaEngine
