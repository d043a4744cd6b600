import FormulaEngine.Proofs.Program.Dependencies

/-!
# Paths of imports

The only fault that the dependencies of a lowered program can have is an import with a path of the
wrong length. The error is of the first such import in the order of the source.
-/

namespace FormulaEngine

/-- The imports of a source in their order, each with the name of its module. -/
def ProgramSource.imports (source : ProgramSource) : List (String × ImportSource) :=
  source.modules.flatMap fun m => m.imports.map fun i => (m.name, i)

/-- The path of an import has the length of its kind. -/
def ImportSource.Fits (i : ImportSource) : Prop := i.path.length = i.kind.pathLength

def ImportSource.error? (module : String) (i : ImportSource) : Option CompileError :=
  if i.path.length = i.kind.pathLength then none
  else some (.malformedImport module i.name i.kind i.path.length)

namespace Program

variable {p : Program} {first : DeclId} {k : ModuleId} {members : List Member}

def memberPathError? (module : String) (member : Member) : Option CompileError :=
  match member.2 with
  | .imported path kind => ImportSource.error? module ⟨member.1, path, kind⟩
  | _ => none

theorem findSome?_members (m : ModuleSource) :
    m.members.findSome? (memberPathError? m.name) =
      m.imports.findSome? (ImportSource.error? m.name) := by
  have hformulas : m.formulas.findSome?
      (memberPathError? m.name ∘ fun f => (f.name, .formula f.expr f.exported)) = none :=
    List.findSome?_eq_none_iff.mpr fun _ _ => rfl
  have himports : memberPathError? m.name ∘ (fun i : ImportSource => (i.name,
      DeclKind.imported i.path i.kind)) = ImportSource.error? m.name := rfl
  rw [ModuleSource.members, List.findSome?_append, List.findSome?_map, List.findSome?_map,
    hformulas, himports, Option.or_none]

theorem pathError?_of_moduleOf? {d : Declaration} {m : ProgramModule}
    (h : p.moduleOf? d.id = some m) :
    d.pathError? p = memberPathError? m.name (d.name, d.kind) := by
  unfold Declaration.pathError? memberPathError?
  cases hkind : d.kind with
  | imported path kind => simp [h, ImportSource.error?]
  | _ => rfl

theorem findSome?_congr {α β : Type} {f g : α → Option β} {l : List α}
    (h : ∀ a ∈ l, f a = g a) : l.findSome? f = l.findSome? g := by
  induction l with
  | nil => rfl
  | cons a rest ih =>
    rw [List.findSome?_cons, List.findSome?_cons, h a List.mem_cons_self,
      ih fun b hb => h b (List.mem_cons_of_mem _ hb)]

theorem findSome?_place {m : ModuleSource} {named : ProgramModule} (hname : named.name = m.name)
    (h : ∀ d ∈ place first (some k) m.members, p.moduleOf? d.id = some named) :
    (place first (some k) m.members).findSome? (Declaration.pathError? p) =
      m.imports.findSome? (ImportSource.error? m.name) := by
  calc (place first (some k) m.members).findSome? (Declaration.pathError? p) =
        (place first (some k) m.members).findSome?
          (memberPathError? m.name ∘ fun d => (d.name, d.kind)) :=
        findSome?_congr fun d hd => hname ▸ pathError?_of_moduleOf? (h d hd)
    _ = m.members.findSome? (memberPathError? m.name) := by
        rw [← List.findSome?_map, map_place]
    _ = m.imports.findSome? (ImportSource.error? m.name) := findSome?_members m

theorem findSome?_placeModules {modules : List ModuleSource}
    (hmodules : ∀ j m, (modulesFrom first k modules)[j]? = some m → p.module? (k + j) = some m)
    (hdeclarations : ∀ d ∈ placeModules first k modules, p.declaration? d.id = some d) :
    (placeModules first k modules).findSome? (Declaration.pathError? p) =
      modules.findSome? fun m => m.imports.findSome? (ImportSource.error? m.name) := by
  induction modules generalizing first k with
  | nil => rfl
  | cons m rest ih =>
    have hm := hmodules 0 _ rfl
    have hplace : ∀ d ∈ place first (some k) m.members,
        p.moduleOf? d.id = some ⟨k, m.name, List.range' first m.members.length⟩ := by
      intro d hd
      obtain ⟨_, -, _, _, -, rfl⟩ := mem_place hd
      have hdecl := hdeclarations _ (List.mem_append_left _ hd)
      simp only [moduleOf?, hdecl, Option.bind_eq_bind, Option.bind_some]
      exact hm
    rw [placeModules, List.findSome?_append, findSome?_place rfl hplace, List.findSome?_cons, ih]
    · cases m.imports.findSome? (ImportSource.error? m.name) <;> rfl
    · intro j m' hm'
      rw [Nat.add_assoc, Nat.add_comm 1 j]
      exact hmodules (j + 1) m' hm'
    · exact fun d hd => hdeclarations d (List.mem_append_right _ hd)

theorem findSome?_imports (source : ProgramSource) :
    source.imports.findSome? (fun i => ImportSource.error? i.1 i.2) =
      source.modules.findSome? fun m => m.imports.findSome? (ImportSource.error? m.name) := by
  unfold ProgramSource.imports
  induction source.modules with
  | nil => rfl
  | cons m rest ih =>
    rw [List.flatMap_cons, List.findSome?_append, List.findSome?_map, ih, List.findSome?_cons]
    change (m.imports.findSome? (ImportSource.error? m.name)).or _ = _
    cases m.imports.findSome? (ImportSource.error? m.name) <;> rfl

/-- The first error of a declaration is that of the first malformed import. -/
theorem findSome?_pathError? (source : ProgramSource) :
    (ofSource source).declarations.findSome? (Declaration.pathError? (ofSource source)) =
      source.imports.findSome? fun i => ImportSource.error? i.1 i.2 := by
  have hglobals : (place 0 none source.globals).findSome?
      (Declaration.pathError? (ofSource source)) = none := by
    refine List.findSome?_eq_none_iff.mpr fun d hd => ?_
    have hvertex := (mem_globals_place hd).2
    unfold Declaration.pathError?
    cases hkind : d.kind with
    | imported path kind => simp [Declaration.isVertex, hkind] at hvertex
    | _ => rfl
  have hmodules : (placeModules source.globals.length 0 source.modules).findSome?
      (Declaration.pathError? (ofSource source)) =
        source.modules.findSome? fun m => m.imports.findSome? (ImportSource.error? m.name) := by
    refine findSome?_placeModules (fun j m hm => ?_) fun d hd =>
      declaration?_of_mem (List.mem_append_right _ hd)
    rw [Nat.zero_add]
    exact hm
  rw [findSome?_imports, ← hmodules]
  change (place 0 none source.globals ++ _).findSome? _ = _
  rw [List.findSome?_append, hglobals, Option.none_or]

end Program

end FormulaEngine
