import FormulaEngine.Proofs.Lists
import FormulaEngine.Proofs.Lookups.Basic
import FormulaEngine.Proofs.Program.Dependencies
import Mathlib.Data.List.Dedup
import Mathlib.Data.List.Sort

/-!
# Look-ups in a program

The graph of a program is built with a table of nodes: each declaration that is read or that reads
is looked up there, as are the segments of an import path and the declarations that a module lists.
In a well-formed program they are all there, since what is read is a vertex, paths that do not fit
are errors before they are used, and modules list declarations of the program.
-/

namespace FormulaEngine

namespace Lookups

variable {ε : Type}

def exportedFormulas (p : Program) (id : ModuleId) : Except (Halt ε) (List DeclId) :=
  match p.module? id with
  | none => .ok []
  | some m => do
    let listed ← m.declarations.mapM fun id => do
      let d ← look (.declaration id) p.declarations[id]?
      .ok (id, d.isExported)
    .ok ((listed.filter (·.2)).map (·.1))

def scopeNamed? (p : Program) (s : Scopes) (module : String) : Option Scope :=
  (p.moduleNamed? module).bind fun m => s.module? m.id

def formulaIn? (p : Program) (scope : Scope) (name : String) : Option DeclId :=
  (scope.local? name).bind fun id =>
    (p.declaration? id).bind fun d => if d.isFormula then some id else none

/-- What an import of a formula refers to. The name of the formula is only looked up for a module
that there is. -/
def formulaOf (p : Program) (s : Scopes) (path : List String) :
    Except (Halt ε) (List DeclId) := do
  let module ← look (.segment 0) path[0]?
  match scopeNamed? p s module with
  | none => .ok []
  | some scope =>
    let name ← look (.segment 1) path[1]?
    .ok (formulaIn? p scope name).toList

def exportsOf (p : Program) (path : List String) : Except (Halt ε) (List DeclId) := do
  let module ← look (.segment 0) path[0]?
  match p.moduleNamed? module with
  | none => .ok []
  | some m => exportedFormulas p m.id

/-- What a declaration reads, unless it is an import with a path of the wrong length. -/
def dependenciesOf (p : Program) (s : Scopes) (d : Declaration) :
    Except (Halt CompileError) (List DeclId) :=
  match d.kind with
  | .formula expr _ =>
    match d.module.bind s.module? with
    | none => .ok []
    | some scope => .ok (expr.references.filterMap (p.localVertex? scope))
  | .imported path kind =>
    match d.pathError? p with
    | some e => .error (.failed e)
    | none =>
      match kind with
      | .formula => formulaOf p s path
      | .module => exportsOf p path
      | .argument | .constant => .ok []
  | .argument | .constant _ => .ok []

/-- Numbers as a set in ascending order. -/
def ascending (ids : List DeclId) : List DeclId := ids.dedup.mergeSort

def nodeOf? (vertices : List Declaration) (id : DeclId) : Option (Fin vertices.length) :=
  vertices.findFinIdx? (·.id == id)

/-- The edges to one of the vertices from all that it reads. -/
def edgesTo (vertices : List Declaration) (consumer : DeclId) (producers : List DeclId) :
    Except (Halt ε) (List (Fin vertices.length × Fin vertices.length)) := do
  let v ← look (.node consumer) (nodeOf? vertices consumer)
  producers.mapM fun producer => do
    let u ← look (.node producer) (nodeOf? vertices producer)
    .ok (u, v)

def build (p : Program) (s : Scopes) : Except (Halt CompileError) DependencyGraph := do
  let vertices := p.declarations.filter Declaration.isVertex
  let dependencies ← vertices.mapM fun d => do
    let ids ← dependenciesOf p s d
    .ok (d.id, ascending ids)
  let edges ← dependencies.mapM fun d => edgesTo vertices d.1 d.2
  .ok ⟨vertices, ⟨edges.flatten⟩⟩

/-! ### What is read -/

variable {p : Program} {s : Scopes} {d : Declaration} {path : List String}

theorem exportedFormulas_eq (hp : p.WellFormed) (id : ModuleId) :
    exportedFormulas p id = (.ok (p.exportedFormulas id) : Except (Halt ε) _) := by
  unfold exportedFormulas Program.exportedFormulas
  cases hm : p.module? id with
  | none => rfl
  | some m =>
    have hlisted : ∀ i ∈ m.declarations, (do
        let d ← look (.declaration i) p.declarations[i]?
        .ok (i, d.isExported) : Except (Halt ε) (DeclId × Bool)) =
          .ok (i, (p.declaration? i).any Declaration.isExported) := by
      intro i hi
      obtain ⟨d, hd, -⟩ := hp.declaration_of_module hm hi
      have hlook : look (.declaration i) p.declarations[i]? = (.ok d : Except (Halt ε) _) :=
        look_of_eq_some hd
      rw [hlook, hd]
      rfl
    have hkept : ∀ l : List DeclId,
        ((l.map fun i => (i, (p.declaration? i).any Declaration.isExported)).filter (·.2)).map
          (·.1) = l.filter fun i => (p.declaration? i).any Declaration.isExported := by
      intro l
      rw [List.filter_map, List.map_map]
      exact List.map_id _
    simp only [mapM_eq_ok hlisted]
    exact congrArg Except.ok (hkept _)

theorem formulaOf_eq (module name : String) : formulaOf p s [module, name] =
    (.ok (p.formulaNamed? s module name).toList : Except (Halt ε) _) := by
  have hnamed : p.formulaNamed? s module name =
      (scopeNamed? p s module).bind fun scope => formulaIn? p scope name := by
    unfold Program.formulaNamed? scopeNamed?
    cases p.moduleNamed? module <;> rfl
  rw [hnamed]
  change (match scopeNamed? p s module with
    | none => .ok []
    | some scope => .ok (formulaIn? p scope name).toList : Except (Halt ε) (List DeclId)) = _
  cases scopeNamed? p s module <;> rfl

theorem exportsOf_eq {module : String} (hp : p.WellFormed)
    (hkind : d.kind = .imported [module] .module) :
    exportsOf p [module] = (.ok (d.reads p s) : Except (Halt ε) _) := by
  change (match p.moduleNamed? module with
    | none => .ok []
    | some m => exportedFormulas p m.id : Except (Halt ε) (List DeclId)) = _
  simp only [Declaration.reads, hkind]
  cases p.moduleNamed? module with
  | none => rfl
  | some m => exact exportedFormulas_eq hp m.id

theorem length_of_pathError? {kind : ImportKind} (hkind : d.kind = .imported path kind)
    (h : d.pathError? p = none) : path.length = kind.pathLength := by
  unfold Declaration.pathError? at h
  simp only [hkind] at h
  by_contra hne
  rw [if_neg hne] at h
  exact absurd h (by simp)

theorem dependenciesOf_eq (hp : p.WellFormed) (d : Declaration) :
    dependenciesOf p s d = givenNo (d.pathError? p) (d.reads p s) := by
  unfold dependenciesOf
  cases hkind : d.kind with
  | argument => simp [Declaration.pathError?, Declaration.reads, hkind]
  | constant => simp [Declaration.pathError?, Declaration.reads, hkind]
  | formula expr exported =>
    simp only [Declaration.pathError?, Declaration.reads, hkind]
    cases d.module.bind s.module? <;> rfl
  | imported path kind =>
    cases herror : d.pathError? p with
    | some e => rfl
    | none =>
      have hlength := length_of_pathError? hkind herror
      cases kind with
      | argument => simp [Declaration.reads, hkind]
      | constant => simp [Declaration.reads, hkind]
      | formula =>
        obtain ⟨module, name, rfl⟩ := List.length_eq_two.mp hlength
        simpa only [givenNo_none, Declaration.reads, hkind] using formulaOf_eq module name
      | module =>
        obtain ⟨module, rfl⟩ := List.length_eq_one_iff.mp hlength
        exact exportsOf_eq hp hkind

theorem dependencies_eq (hp : p.WellFormed) (l : List Declaration) :
    (l.mapM fun d => do
      let ids ← dependenciesOf p s d
      .ok (d.id, ascending ids)) =
      givenNo (l.findSome? (Declaration.pathError? p))
        (l.map fun d => (d.id, ascending (d.reads p s))) := by
  refine mapM_eq_givenNo fun d _ => ?_
  rw [dependenciesOf_eq hp]
  cases d.pathError? p <;> rfl

/-- Only imports have paths. -/
theorem findSome?_pathError?_vertices (l : List Declaration) :
    (l.filter Declaration.isVertex).findSome? (Declaration.pathError? p) =
      l.findSome? (Declaration.pathError? p) := by
  induction l with
  | nil => rfl
  | cons d rest ih =>
    cases hvertex : d.isVertex with
    | true => rw [List.filter_cons_of_pos hvertex, List.findSome?_cons, List.findSome?_cons, ih]
    | false =>
      have hnone : d.pathError? p = none := by
        unfold Declaration.isVertex at hvertex
        unfold Declaration.pathError?
        split <;> simp_all
      rw [List.filter_cons_of_neg (by simp [hvertex]), ih, List.findSome?_cons, hnone]

/-! ### Nodes -/

variable {vertices : List Declaration}

theorem pairwise_ascending (ids : List DeclId) : (ascending ids).Pairwise (· < ·) :=
  pairwise_lt_mergeSort (List.nodup_dedup ids)

theorem mem_ascending_iff {ids : List DeclId} {id : DeclId} : id ∈ ascending ids ↔ id ∈ ids := by
  rw [ascending, List.mem_mergeSort, List.mem_dedup]

/-- In ascending order stand the vertices that are read as they are declared. -/
theorem ascending_eq (hvertices : (vertices.map (·.id)).Pairwise (· < ·)) {ids : List DeclId}
    (hids : ∀ id ∈ ids, id ∈ vertices.map (·.id)) :
    ascending ids = ((List.finRange vertices.length).filter fun u =>
      ids.contains (vertices.get u).id).map fun u => (vertices.get u).id := by
  have hright : (((List.finRange vertices.length).filter fun u =>
      ids.contains (vertices.get u).id).map fun u => (vertices.get u).id).Pairwise (· < ·) := by
    refine List.pairwise_map.mpr (.filter _ ?_)
    have hget := hvertices
    rw [← List.map_get_finRange vertices, List.map_map] at hget
    exact List.pairwise_map.mp hget
  refine (pairwise_ascending ids).eq_of_mem_iff hright fun id => ?_
  rw [mem_ascending_iff]
  constructor
  · intro hid
    obtain ⟨d, hd, rfl⟩ := List.mem_map.mp (hids id hid)
    obtain ⟨i, hi, rfl⟩ := List.mem_iff_getElem.mp hd
    refine List.mem_map.mpr ⟨⟨i, hi⟩, ?_, rfl⟩
    exact List.mem_filter.mpr ⟨List.mem_finRange _, by simpa using hid⟩
  · intro hid
    obtain ⟨u, hu, rfl⟩ := List.mem_map.mp hid
    simpa using (List.mem_filter.mp hu).2

theorem nodeOf?_eq (hvertices : (vertices.map (·.id)).Pairwise (· < ·))
    (v : Fin vertices.length) : nodeOf? vertices (vertices.get v).id = some v := by
  refine List.findFinIdx?_eq_some_iff.mpr ⟨by simp, fun u hu => ?_⟩
  have hlt := List.pairwise_iff_getElem.mp hvertices u v (by simp) (by simp) hu
  simp only [List.getElem_map] at hlt
  simpa using Nat.ne_of_lt hlt

theorem edgesTo_eq (hvertices : (vertices.map (·.id)).Pairwise (· < ·)) (v : Fin vertices.length)
    (hreads : ∀ id ∈ (vertices.get v).reads p s, id ∈ vertices.map (·.id)) :
    edgesTo vertices (vertices.get v).id (ascending ((vertices.get v).reads p s)) =
      (.ok (DependencyGraph.edgesTo p s vertices v) : Except (Halt ε) _) := by
  have hnode : ∀ u, (look (.node (vertices.get u).id) (nodeOf? vertices (vertices.get u).id) :
      Except (Halt ε) _) = .ok u := fun u => look_of_eq_some (nodeOf?_eq hvertices u)
  unfold edgesTo
  rw [hnode, ascending_eq hvertices hreads]
  change List.mapM _ _ = _
  rw [List.mapM_map]
  refine mapM_eq_ok fun u _ => ?_
  rw [Function.comp, hnode]
  rfl

theorem mem_vertices_of_mem_reads (hp : p.WellFormed) {id : DeclId} (hd : d ∈ p.declarations)
    (h : id ∈ d.reads p (Scopes.ofProgram p)) : id ∈ (DependencyGraph.of p).vertices := by
  obtain ⟨i, hi⟩ := List.getElem?_of_mem hd
  have hdepends := (Program.mem_reads_iff hp hi).mp h
  exact (DependencyGraph.mem_vertices_iff hp).mpr (hdepends.right_isVertex hp)

theorem edges_eq (hp : p.WellFormed) :
    ((p.declarations.filter Declaration.isVertex).map fun d =>
      (d.id, ascending (d.reads p (Scopes.ofProgram p)))).mapM
        (fun d => edgesTo (p.declarations.filter Declaration.isVertex) d.1 d.2) =
      (.ok ((List.finRange (p.declarations.filter Declaration.isVertex).length).map
        (DependencyGraph.edgesTo p (Scopes.ofProgram p) _)) : Except (Halt ε) _) := by
  have hvertices : ((p.declarations.filter Declaration.isVertex).map (·.id)).Pairwise (· < ·) :=
    DependencyGraph.pairwise_vertices hp
  have hvertex : ∀ d ∈ p.declarations.filter Declaration.isVertex,
      ∀ id ∈ d.reads p (Scopes.ofProgram p),
        id ∈ (p.declarations.filter Declaration.isVertex).map (·.id) := fun d hd _ hid =>
    mem_vertices_of_mem_reads hp (List.mem_of_mem_filter hd) hid
  generalize p.declarations.filter Declaration.isVertex = vertices at hvertices hvertex
  have hmap : (vertices.map fun d => (d.id, ascending (d.reads p (Scopes.ofProgram p)))) =
      (List.finRange vertices.length).map fun v =>
        ((vertices.get v).id, ascending ((vertices.get v).reads p (Scopes.ofProgram p))) := by
    conv_lhs => rw [← List.map_get_finRange vertices, List.map_map]
    rfl
  rw [hmap, List.mapM_map]
  refine mapM_eq_ok fun v _ => ?_
  exact edgesTo_eq hvertices v (hvertex _ (List.getElem_mem v.isLt))

/-- The table of nodes has all that is looked up in it. -/
theorem build_eq (hp : p.WellFormed) :
    build p (Scopes.ofProgram p) = certain (DependencyGraph.build p (Scopes.ofProgram p)) := by
  unfold build DependencyGraph.build
  simp only [dependencies_eq hp, findSome?_pathError?_vertices]
  cases p.declarations.findSome? (Declaration.pathError? p) with
  | some e => rfl
  | none =>
    rw [givenNo_none, ok_bind, edges_eq hp]
    rfl

end Lookups

end FormulaEngine
