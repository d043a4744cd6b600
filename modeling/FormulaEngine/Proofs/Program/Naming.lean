import FormulaEngine.Program.Scope
import FormulaEngine.Proofs.Program.Layout

/-!
# What names stand for

In a well-formed program a name stands for at most one declaration of a module, and for at most one
global. Every look-up finds exactly that: in a scope, through the chain of scopes, and among the
declarations of a module.
-/

namespace FormulaEngine

namespace Program

/-- A declaration that belongs to a module, or to none, and has a name there. -/
def Names (p : Program) (module : Option ModuleId) (name : String) (id : DeclId) : Prop :=
  ∃ d, p.declaration? id = some d ∧ d.module = module ∧ d.name = name

variable {p : Program} {module : Option ModuleId} {name : String} {id other : DeclId}
  {j : ModuleId} {m : ProgramModule}

namespace WellFormed

theorem eq_of_names (hp : p.WellFormed) (hid : p.Names module name id)
    (hother : p.Names module name other) : id = other := by
  obtain ⟨d, hd, hmodule, hname⟩ := hid
  obtain ⟨e, he, hmodule', hname'⟩ := hother
  exact hp.name_injective hd he (hmodule.trans hmodule'.symm) (hname.trans hname'.symm)

theorem mem_declarations_iff (hp : p.WellFormed) (hm : p.module? j = some m) :
    id ∈ m.declarations ↔ ∃ d, p.declaration? id = some d ∧ d.module = some j := by
  constructor
  · exact hp.declaration_of_module hm
  · rintro ⟨d, hd, hmodule⟩
    obtain ⟨m', hm', hid⟩ := hp.module_of_declaration hd hmodule
    obtain rfl : m = m' := Option.some.inj (hm.symm.trans hm')
    exact hid

theorem moduleNamed?_eq_some_iff (hp : p.WellFormed) :
    p.moduleNamed? name = some m ↔ p.module? m.id = some m ∧ m.name = name := by
  constructor
  · intro h
    obtain ⟨j, hj⟩ := List.getElem?_of_mem (List.mem_of_find?_eq_some h)
    have hid : m.id = j := hp.module_id_eq hj
    exact ⟨hid ▸ hj, by simpa using List.find?_some h⟩
  · rintro ⟨hm, hname⟩
    cases hfind : p.moduleNamed? name with
    | none =>
      have hne := List.find?_eq_none.mp hfind m (List.mem_of_getElem? hm)
      exact absurd (beq_iff_eq.mpr hname) hne
    | some m' =>
      have hmem : m' ∈ p.modules := List.mem_of_find?_eq_some hfind
      have hname' : m'.name = name := by simpa using List.find?_some hfind
      exact congrArg some (List.inj_on_of_nodup_map hp.module_names hmem (List.mem_of_getElem? hm)
        (hname'.trans hname.symm))

end WellFormed

/-! ### Scopes -/

/-- A look-up in a list in which no name has two entries finds just what is there. -/
theorem lookup_eq_some_iff_mem {symbols : List (String × DeclId)}
    (h : ∀ id other, (name, id) ∈ symbols → (name, other) ∈ symbols → id = other) :
    symbols.lookup name = some id ↔ (name, id) ∈ symbols := by
  have hmem : ∀ id, symbols.lookup name = some id → (name, id) ∈ symbols := by
    intro id hid
    obtain ⟨front, rest, rfl, -⟩ := List.lookup_eq_some_iff.mp hid
    exact List.mem_append_right _ List.mem_cons_self
  refine ⟨hmem id, fun hid => ?_⟩
  cases hlookup : symbols.lookup name with
  | none =>
    have hne := List.lookup_eq_none_iff.mp hlookup _ hid
    exact absurd hne (by simp)
  | some found => rw [h found id (hmem found hlookup) hid]

theorem local?_program_iff (hp : p.WellFormed) :
    (Scopes.ofProgram p).program.local? name = some id ↔ p.Names none name id := by
  have hsymbols : ∀ id, (name, id) ∈ (Scopes.ofProgram p).program.symbols ↔
      p.Names none name id := by
    intro id
    simp only [Scopes.ofProgram, List.mem_map, List.mem_filter, Option.isNone_iff_eq_none,
      Prod.mk.injEq]
    constructor
    · rintro ⟨d, ⟨hmem, hmodule⟩, hname, rfl⟩
      obtain ⟨i, hi⟩ := List.getElem?_of_mem hmem
      have hid : d.id = i := hp.id_eq hi
      exact ⟨d, hid ▸ hi, hmodule, hname⟩
    · rintro ⟨d, hd, hmodule, hname⟩
      exact ⟨d, ⟨List.mem_of_getElem? hd, hmodule⟩, hname, hp.id_eq hd⟩
  rw [Scope.local?, lookup_eq_some_iff_mem, hsymbols]
  intro id other hid hother
  exact hp.eq_of_names ((hsymbols id).mp hid) ((hsymbols other).mp hother)

theorem scope_eq_some_iff {scope : Scope} :
    (Scopes.ofProgram p).module? j = some scope ↔ ∃ m, p.module? j = some m ∧
      scope = ⟨.module m.name, m.declarations.filterMap fun id =>
        (p.declaration? id).map fun d => (d.name, id)⟩ := by
  simp only [Scopes.module?, Scopes.ofProgram, List.getElem?_map, Option.map_eq_some_iff]
  exact exists_congr fun m => and_congr_right fun _ => eq_comm

theorem local?_module_iff (hp : p.WellFormed) {scope : Scope}
    (hscope : (Scopes.ofProgram p).module? j = some scope) :
    scope.local? name = some id ↔ p.Names (some j) name id := by
  obtain ⟨m, hm, rfl⟩ := scope_eq_some_iff.mp hscope
  have hsymbols : ∀ id, (name, id) ∈ (m.declarations.filterMap fun id =>
      (p.declaration? id).map fun d => (d.name, id)) ↔ p.Names (some j) name id := by
    intro id
    simp only [List.mem_filterMap, Option.map_eq_some_iff, Prod.mk.injEq]
    constructor
    · rintro ⟨id, hmem, d, hd, hname, rfl⟩
      obtain ⟨e, he, hmodule⟩ := (hp.mem_declarations_iff hm).mp hmem
      obtain rfl : d = e := Option.some.inj (hd.symm.trans he)
      exact ⟨d, hd, hmodule, hname⟩
    · rintro ⟨d, hd, hmodule, hname⟩
      exact ⟨id, (hp.mem_declarations_iff hm).mpr ⟨d, hd, hmodule⟩, d, hd, hname, rfl⟩
  rw [Scope.local?, lookup_eq_some_iff_mem, hsymbols]
  intro id other hid hother
  exact hp.eq_of_names ((hsymbols id).mp hid) ((hsymbols other).mp hother)

theorem exists_scope (hp : p.WellFormed) {d : Declaration} (hd : p.declaration? id = some d)
    (hmodule : d.module = some j) : ∃ scope, (Scopes.ofProgram p).module? j = some scope := by
  obtain ⟨m, hm, -⟩ := hp.module_of_declaration hd hmodule
  exact ⟨_, scope_eq_some_iff.mpr ⟨m, hm, rfl⟩⟩

/-- Seen from a module, a name stands for what the module declares by it, and else for a global. -/
theorem resolve_eq_some_iff (hp : p.WellFormed) {scope : Scope}
    (hscope : (Scopes.ofProgram p).module? j = some scope) :
    (Scopes.ofProgram p).resolve (some j) name = some id ↔
      p.Names (some j) name id ∨
        (∀ other, ¬p.Names (some j) name other) ∧ p.Names none name id := by
  have hchain : (Scopes.ofProgram p).resolve (some j) name =
      (scope.local? name).or ((Scopes.ofProgram p).program.local? name) := by
    simp only [Scopes.resolve, Scopes.chain, Option.bind_some, hscope, Option.toList_some,
      List.singleton_append, List.findSome?_cons, List.findSome?_nil]
    cases scope.local? name <;> cases (Scopes.ofProgram p).program.local? name <;> rfl
  rw [hchain, Option.or_eq_some_iff, local?_module_iff hp hscope, local?_program_iff hp,
    Option.eq_none_iff_forall_ne_some]
  simp only [ne_eq, local?_module_iff hp hscope]

theorem resolve_none_eq_some_iff (hp : p.WellFormed) :
    (Scopes.ofProgram p).resolve none name = some id ↔ p.Names none name id := by
  rw [← local?_program_iff hp]
  simp only [Scopes.resolve, Scopes.chain, Option.bind_none, Option.toList_none, List.nil_append,
    List.findSome?_cons, List.findSome?_nil]
  cases (Scopes.ofProgram p).program.local? name <;> rfl

theorem names_of_resolve (hp : p.WellFormed)
    (h : (Scopes.ofProgram p).resolve module name = some id) :
    p.Names module name id ∨ p.Names none name id := by
  cases module with
  | none => exact .inr ((resolve_none_eq_some_iff hp).mp h)
  | some j =>
    cases hscope : (Scopes.ofProgram p).module? j with
    | some scope => exact ((resolve_eq_some_iff hp hscope).mp h).imp_right And.right
    | none =>
      refine .inr ((resolve_none_eq_some_iff hp).mp ?_)
      simpa only [Scopes.resolve, Scopes.chain, Option.bind_some, Option.bind_none, hscope] using h

end Program

end FormulaEngine
