import FormulaEngine.Proofs.Program.Edges
import FormulaEngine.Proofs.Run.Consulting
import Mathlib.Data.List.Nodup

/-!
# Look-ups of names

A name is looked up in three ways: in a table of the names of a scope, along a chain of scopes, and
by a search through the declarations of a module. In a lowered program a module gives each name
once, to an import or to a formula, and so all three find the one declaration that the name stands
for.
-/

namespace FormulaEngine

namespace Program

/-- A module has a declaration of a name. -/
def HasMember (p : Program) (j : ModuleId) (name : String) (id : DeclId) : Prop :=
  ∃ m d, p.module? j = some m ∧ id ∈ m.declarations ∧ p.declaration? id = some d ∧ d.name = name

/-- There is an argument or a constant of a name. -/
def HasGlobal (p : Program) (name : String) (id : DeclId) : Prop :=
  ∃ d, p.declaration? id = some d ∧ d.name = name ∧
    (d.kind = .argument ∨ ∃ value, d.kind = .constant value)

/-- A name is not taken in the module from which it is seen. -/
def IsFree (p : Program) (module : Option ModuleId) (name : String) : Prop :=
  ∀ j, module = some j → ∀ id, ¬p.HasMember j name id

/-- What a name stands for, seen from a module or from outside: the one declaration of the module,
else the one argument or constant, else nothing. -/
inductive Denotes (p : Program) (module : Option ModuleId) (name : String) :
    Option DeclId → Prop where
  | member {j : ModuleId} {id : DeclId} (hmodule : module = some j) (h : p.HasMember j name id)
      (honly : ∀ other, p.HasMember j name other → other = id) : Denotes p module name (some id)
  | global {id : DeclId} (hfree : p.IsFree module name) (h : p.HasGlobal name id)
      (honly : ∀ other, p.HasGlobal name other → other = id) : Denotes p module name (some id)
  | nothing (hfree : p.IsFree module name) (h : ∀ id, ¬p.HasGlobal name id) :
    Denotes p module name none

/-- Whichever way a name is looked up, what is found is what it stands for. -/
structure FindsNames (p : Program) : Prop where
  denotes_resolve : ∀ module name, p.Denotes module name ((Scopes.ofProgram p).resolve module name)
  /-- It does not matter in which order the names of a scope are put into a table. -/
  table_eq : ∀ scope ∈ (Scopes.ofProgram p).program :: (Scopes.ofProgram p).modules, ∀ name,
    (Std.HashMap.ofList scope.symbols)[name]? = scope.local? name
  findFormula?_eq : ∀ ev : Evaluator, ev.program = p → ∀ module name,
    ev.findFormula? module name = p.formulaNamed? (Scopes.ofProgram p) module name
  formulaNamed?_iff : ∀ module name id,
    p.formulaNamed? (Scopes.ofProgram p) module name = some id ↔
      ∃ j m d, p.module? j = some m ∧ m.name = module ∧ p.HasMember j name id ∧
        p.declaration? id = some d ∧ d.isFormula
  /-- Inside its module nothing hides a declaration. -/
  reaches : ∀ j m id d, p.module? j = some m → id ∈ m.declarations → p.declaration? id = some d →
    (Scopes.ofProgram p).resolve (some j) d.name = some id

variable {p : Program} {module : Option ModuleId} {name : String} {id : DeclId} {j : ModuleId}

theorem hasMember_iff (hp : p.WellFormed) : p.HasMember j name id ↔ p.Names (some j) name id := by
  constructor
  · rintro ⟨m, d, hm, hid, hd, hname⟩
    obtain ⟨e, he, hmodule⟩ := (hp.mem_declarations_iff hm).mp hid
    obtain rfl : d = e := Option.some.inj (hd.symm.trans he)
    exact ⟨d, hd, hmodule, hname⟩
  · rintro ⟨d, hd, hmodule, hname⟩
    obtain ⟨m, hm, hid⟩ := hp.module_of_declaration hd hmodule
    exact ⟨m, d, hm, hid, hd, hname⟩

theorem hasGlobal_iff (hp : p.WellFormed) : p.HasGlobal name id ↔ p.Names none name id := by
  refine exists_congr fun d => and_congr_right fun hd => ?_
  have hglobal : d.module = none ↔ d.kind = .argument ∨ ∃ value, d.kind = .constant value := by
    rw [← not_iff_not, ← ne_eq, ← hp.isVertex_iff hd, Declaration.isVertex]
    cases d.kind <;> simp
  rw [hglobal, and_comm]

/-! ### The chain of scopes -/

/-- Along the chain the module comes first, whether there is one of that number or not. -/
theorem resolve_eq_some_iff_names (hp : p.WellFormed) :
    (Scopes.ofProgram p).resolve module name = some id ↔
      (∃ j, module = some j ∧ p.Names (some j) name id) ∨
        (∀ j, module = some j → ∀ other, ¬p.Names (some j) name other) ∧ p.Names none name id := by
  cases module with
  | none => simp [resolve_none_eq_some_iff hp]
  | some j =>
    simp only [Option.some.injEq, exists_eq_left', forall_eq']
    cases hscope : (Scopes.ofProgram p).module? j with
    | some scope => exact resolve_eq_some_iff hp hscope
    | none =>
      have hfree : ∀ other, ¬p.Names (some j) name other := by
        rintro other ⟨d, hd, hmodule, -⟩
        obtain ⟨scope, hfound⟩ := exists_scope hp hd hmodule
        exact absurd (hscope.symm.trans hfound) (by simp)
      have houtside : (Scopes.ofProgram p).resolve (some j) name =
          (Scopes.ofProgram p).resolve none name := by
        simp [Scopes.resolve, Scopes.chain, hscope]
      rw [houtside, resolve_none_eq_some_iff hp]
      exact ⟨fun h => .inr ⟨hfree, h⟩, fun h => h.elim (absurd · (hfree id)) And.right⟩

theorem isFree_iff (hp : p.WellFormed) : p.IsFree module name ↔
    ∀ j, module = some j → ∀ other, ¬p.Names (some j) name other := by
  simp only [IsFree, hasMember_iff hp]

theorem denotes_resolve (hp : p.WellFormed) (module : Option ModuleId) (name : String) :
    p.Denotes module name ((Scopes.ofProgram p).resolve module name) := by
  cases hresolve : (Scopes.ofProgram p).resolve module name with
  | some id =>
    rcases (resolve_eq_some_iff_names hp).mp hresolve with ⟨j, hmodule, hid⟩ | ⟨hfree, hid⟩
    · exact .member hmodule ((hasMember_iff hp).mpr hid)
        fun other hother => hp.eq_of_names ((hasMember_iff hp).mp hother) hid
    · exact .global ((isFree_iff hp).mpr hfree) ((hasGlobal_iff hp).mpr hid)
        fun other hother => hp.eq_of_names ((hasGlobal_iff hp).mp hother) hid
  | none =>
    have hnot := fun id => mt (resolve_eq_some_iff_names hp).mpr
      (Option.eq_none_iff_forall_ne_some.mp hresolve id)
    have hfree : ∀ j, module = some j → ∀ other, ¬p.Names (some j) name other :=
      fun j hmodule other hother => hnot other (.inl ⟨j, hmodule, hother⟩)
    exact .nothing ((isFree_iff hp).mpr hfree) fun id hid =>
      hnot id (.inr ⟨hfree, (hasGlobal_iff hp).mp hid⟩)

/-! ### Tables -/

/-- A table has for each name the entry that a search finds, if no name has two entries. -/
theorem getElem?_ofList_eq_lookup {symbols : List (String × DeclId)}
    (h : (symbols.map Prod.fst).Nodup) (name : String) :
    (Std.HashMap.ofList symbols)[name]? = symbols.lookup name := by
  cases hlookup : symbols.lookup name with
  | none =>
    refine Std.HashMap.getElem?_ofList_of_contains_eq_false ?_
    have hne := List.lookup_eq_none_iff.mp hlookup
    simpa using fun id hid => hne (name, id) hid
  | some id =>
    obtain ⟨front, rest, hsymbols, -⟩ := List.lookup_eq_some_iff.mp hlookup
    refine Std.HashMap.getElem?_ofList_of_mem (beq_self_eq_true name) ?_
      (hsymbols ▸ List.mem_append_right front List.mem_cons_self)
    exact (List.pairwise_map.mp h).imp fun hne => beq_false_of_ne hne

theorem nodup_symbols_program {source : ProgramSource} (h : source.Lowerable) :
    ((Scopes.ofProgram (ofSource source)).program.symbols.map Prod.fst).Nodup := by
  simp only [Scopes.ofProgram, List.map_map]
  refine List.pairwise_map.mpr (((pairwise_declarations h).filter _).imp_of_mem ?_)
  intro d e hd he hne
  have hd' : d.module = none := by simpa using (List.mem_filter.mp hd).2
  have he' : e.module = none := by simpa using (List.mem_filter.mp he).2
  exact hne (hd'.trans he'.symm)

theorem nodup_symbols_module {source : ProgramSource} (h : source.Lowerable) {scope : Scope}
    (hscope : (Scopes.ofProgram (ofSource source)).module? j = some scope) :
    (scope.symbols.map Prod.fst).Nodup := by
  have hp := wellFormed_ofSource h
  obtain ⟨m, hm, rfl⟩ := scope_eq_some_iff.mp hscope
  have hids : m.declarations.Nodup :=
    (pairwise_declarations_modulesFrom (List.mem_of_getElem? hm)).nodup
  refine List.pairwise_map.mpr (List.pairwise_filterMap.mpr ?_)
  refine hids.pairwise_of_forall_ne fun id hid other hother hne x hx y hy => ?_
  obtain ⟨d, hd, rfl⟩ := Option.map_eq_some_iff.mp hx
  obtain ⟨e, he, rfl⟩ := Option.map_eq_some_iff.mp hy
  obtain ⟨d', hd', hmodule⟩ := hp.declaration_of_module hm hid
  obtain ⟨e', he', hmodule'⟩ := hp.declaration_of_module hm hother
  obtain rfl := Option.some.inj (hd.symm.trans hd')
  obtain rfl := Option.some.inj (he.symm.trans he')
  exact fun hname => hne (hp.name_injective hd he (hmodule.trans hmodule'.symm) hname)

/-- No scope has two entries for one name. -/
theorem nodup_symbols {source : ProgramSource} (h : source.Lowerable) {scope : Scope}
    (hscope : scope ∈ (Scopes.ofProgram (ofSource source)).program ::
      (Scopes.ofProgram (ofSource source)).modules) :
    (scope.symbols.map Prod.fst).Nodup := by
  rcases List.mem_cons.mp hscope with rfl | hscope
  · exact nodup_symbols_program h
  · obtain ⟨j, hj⟩ := List.getElem?_of_mem hscope
    exact nodup_symbols_module h hj

/-! ### The search -/

/-- The evaluation searches a module for a formula, the graph looks it up in the scope. -/
theorem findFormula?_eq (hp : p.WellFormed) (ev : Evaluator) (hev : ev.program = p)
    (module name : String) :
    ev.findFormula? module name = p.formulaNamed? (Scopes.ofProgram p) module name := by
  subst hev
  exact @Evaluator.findFormula?_eq_formulaNamed? { ev with scopes := .ofProgram ev.program }
    hp rfl module name

theorem formulaNamed?_iff_hasMember (hp : p.WellFormed) {module : String} :
    p.formulaNamed? (Scopes.ofProgram p) module name = some id ↔
      ∃ j m d, p.module? j = some m ∧ m.name = module ∧ p.HasMember j name id ∧
        p.declaration? id = some d ∧ d.isFormula := by
  rw [formulaNamed?_eq_some_iff hp]
  simp only [hasMember_iff hp]
  constructor
  · rintro ⟨j, m, d, hm, hmodule, hd, hin, hname, hformula⟩
    exact ⟨j, m, d, hm, hmodule, ⟨d, hd, hin, hname⟩, hd, hformula⟩
  · rintro ⟨j, m, d, hm, hmodule, ⟨e, he, hin, hname⟩, hd, hformula⟩
    obtain rfl := Option.some.inj (hd.symm.trans he)
    exact ⟨j, m, d, hm, hmodule, hd, hin, hname, hformula⟩

/-- In a lowered program every look-up of a name finds what the name stands for, and so each
declaration of a module is found there by its own name. -/
theorem findsNames_of_lower {source : ProgramSource} (h : lower source = .ok p) : p.FindsNames := by
  obtain ⟨hlower, rfl⟩ := lowerable_of_lower h
  have hp := wellFormed_ofSource hlower
  exact {
    denotes_resolve := denotes_resolve hp
    table_eq scope hscope := getElem?_ofList_eq_lookup (nodup_symbols hlower hscope)
    findFormula?_eq := findFormula?_eq hp
    formulaNamed?_iff _ _ _ := formulaNamed?_iff_hasMember hp
    reaches j m id d hm hid hd := (resolve_eq_some_iff_names hp).mpr
      (.inl ⟨j, rfl, (hasMember_iff hp).mp ⟨m, d, hm, hid, hd, rfl⟩⟩) }

/-- One module has a formula with the name of a constant, another one does not. -/
theorem findsNames_of_lower_market :
    ∃ p, lower .market = .ok p ∧ p.FindsNames ∧
      (Scopes.ofProgram p).resolve (some 1) "unit" = some 9 ∧
      (Scopes.ofProgram p).resolve (some 0) "unit" = some 1 := by
  have hlower : lower .market = .ok (ofSource .market) := rfl
  have hfinds := findsNames_of_lower hlower
  refine ⟨_, hlower, hfinds, ?_, by decide⟩
  exact hfinds.reaches 1 _ 9 _ rfl (by decide) rfl

end Program

end FormulaEngine
