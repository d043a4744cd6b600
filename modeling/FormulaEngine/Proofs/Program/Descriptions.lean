import FormulaEngine.Proofs.Program.Dependencies

/-!
# Descriptions

A declaration is known by the name of its module, if it has one, by its own name, and by what it is.
Its number only says where it stands. What a name or an import stands for is found by descriptions,
and what depends on what is a matter of descriptions too.
-/

namespace FormulaEngine

/-- A declaration without its number. -/
structure Description where
  module : Option String
  name : String
  kind : DeclKind

/-- The first of two declarations depends on the second wherever they are declared together. -/
inductive Description.Needs (x y : Description) : Prop where
  /-- A formula names a member of its own module. -/
  | name {expr : Expr} {exported : Bool} {module : String}
      (hkind : x.kind = .formula expr exported) (hmodule : x.module = some module)
      (hy : y.module = some module) (hname : expr.Contains (.ident y.name)) : Needs x y
  /-- An import is of a formula of the module that it names. -/
  | formula {module : String} {expr : Expr} {exported : Bool}
      (hkind : x.kind = .imported [module, y.name] .formula) (hy : y.module = some module)
      (hformula : y.kind = .formula expr exported) : Needs x y
  /-- An import is of a module that exports a formula. -/
  | exports {module : String} {expr : Expr} (hkind : x.kind = .imported [module] .module)
      (hy : y.module = some module) (hexported : y.kind = .formula expr true) : Needs x y

namespace Declaration

variable {d d' : Declaration}

theorem isVertex_congr (h : d.kind = d'.kind) : d.isVertex = d'.isVertex := by
  unfold isVertex
  rw [h]

theorem isFormula_iff : d.isFormula ↔ ∃ expr exported, d.kind = .formula expr exported := by
  unfold isFormula
  cases d.kind <;> simp

theorem isExported_iff : d.isExported ↔ ∃ expr, d.kind = .formula expr true := by
  unfold isExported
  cases d.kind <;> simp

end Declaration

namespace Program

variable {p : Program} {u v : DeclId} {d : Declaration} {j : ModuleId} {m : ProgramModule}
  {name : String} {x y : Description}

def description? (p : Program) (id : DeclId) : Option Description :=
  (p.declaration? id).map fun d => ⟨(p.moduleOf? id).map (·.name), d.name, d.kind⟩

/-- Something of a description is declared, under whatever number. -/
def Declares (p : Program) (x : Description) : Prop := ∃ id, p.description? id = some x

def HasModule (p : Program) (name : String) : Prop := name ∈ p.modules.map (·.name)

/-! ### Declarations and descriptions -/

theorem description?_of_global (hd : p.declaration? u = some d) (hglobal : d.module = none) :
    p.description? u = some ⟨none, d.name, d.kind⟩ := by
  simp [description?, moduleOf?, hd, hglobal]

theorem description?_of_member (hd : p.declaration? u = some d) (hj : d.module = some j)
    (hm : p.module? j = some m) : p.description? u = some ⟨some m.name, d.name, d.kind⟩ := by
  simp [description?, moduleOf?, hd, hj, hm]

theorem declaration?_of_description? (h : p.description? u = some x) :
    ∃ d, p.declaration? u = some d ∧ d.name = x.name ∧ d.kind = x.kind := by
  obtain ⟨d, hd, rfl⟩ := Option.map_eq_some_iff.mp h
  exact ⟨d, hd, rfl, rfl⟩

theorem exists_description? (hd : p.declaration? u = some d) :
    ∃ x, p.description? u = some x ∧ x.name = d.name ∧ x.kind = d.kind := by
  refine ⟨⟨(p.moduleOf? u).map (·.name), d.name, d.kind⟩, ?_, rfl, rfl⟩
  rw [description?, hd, Option.map_some]

theorem hasModule_iff : p.HasModule name ↔ ∃ j m, p.module? j = some m ∧ m.name = name := by
  constructor
  · intro h
    obtain ⟨m, hm, hname⟩ := List.mem_map.mp h
    obtain ⟨j, hj⟩ := List.getElem?_of_mem hm
    exact ⟨j, m, hj, hname⟩
  · rintro ⟨j, m, hm, hname⟩
    exact List.mem_map.mpr ⟨m, List.mem_of_getElem? hm, hname⟩

namespace WellFormed

variable (hp : p.WellFormed)

include hp

/-- A declaration has no module, or one of the program. -/
theorem module_cases (hd : p.declaration? u = some d) :
    d.module = none ∧ p.description? u = some ⟨none, d.name, d.kind⟩ ∨
      ∃ j m, d.module = some j ∧ p.module? j = some m ∧
        p.description? u = some ⟨some m.name, d.name, d.kind⟩ := by
  cases hmodule : d.module with
  | none => exact .inl ⟨rfl, description?_of_global hd hmodule⟩
  | some j =>
    obtain ⟨m, hm, -⟩ := hp.module_of_declaration hd hmodule
    exact .inr ⟨j, m, rfl, hm, description?_of_member hd hmodule hm⟩

theorem eq_of_module_name {k : ModuleId} {m' : ProgramModule} (hm : p.module? j = some m)
    (hm' : p.module? k = some m') (hname : m.name = m'.name) : j = k := by
  have heq : m = m' := List.inj_on_of_nodup_map hp.module_names (List.mem_of_getElem? hm)
    (List.mem_of_getElem? hm') hname
  rw [← hp.module_id_eq hm, ← hp.module_id_eq hm', heq]

theorem exists_global_iff {Q : String → DeclKind → Prop} :
    (∃ e, p.declaration? u = some e ∧ e.module = none ∧ Q e.name e.kind) ↔
      ∃ x, p.description? u = some x ∧ x.module = none ∧ Q x.name x.kind := by
  constructor
  · rintro ⟨e, he, hglobal, hQ⟩
    exact ⟨_, description?_of_global he hglobal, rfl, hQ⟩
  · rintro ⟨x, hx, hglobal, hQ⟩
    obtain ⟨e, he, -⟩ := declaration?_of_description? hx
    rcases hp.module_cases he with ⟨hnone, hdescription⟩ | ⟨j, m, -, -, hdescription⟩
    · obtain rfl := Option.some.inj (hx.symm.trans hdescription)
      exact ⟨e, he, hnone, hQ⟩
    · obtain rfl := Option.some.inj (hx.symm.trans hdescription)
      cases hglobal

theorem exists_member_iff (hm : p.module? j = some m) {Q : String → DeclKind → Prop} :
    (∃ e, p.declaration? u = some e ∧ e.module = some j ∧ Q e.name e.kind) ↔
      ∃ x, p.description? u = some x ∧ x.module = some m.name ∧ Q x.name x.kind := by
  constructor
  · rintro ⟨e, he, hj, hQ⟩
    exact ⟨_, description?_of_member he hj hm, rfl, hQ⟩
  · rintro ⟨x, hx, hmodule, hQ⟩
    obtain ⟨e, he, -⟩ := declaration?_of_description? hx
    rcases hp.module_cases he with ⟨-, hdescription⟩ | ⟨k, m', hk, hm', hdescription⟩
    · obtain rfl := Option.some.inj (hx.symm.trans hdescription)
      cases hmodule
    · obtain rfl := Option.some.inj (hx.symm.trans hdescription)
      obtain rfl := hp.eq_of_module_name hm hm' (Option.some.inj hmodule).symm
      exact ⟨e, he, hk, hQ⟩

theorem hasModule_of_member (hx : p.description? u = some x) (hmodule : x.module = some name) :
    p.HasModule name := by
  obtain ⟨e, he, -⟩ := declaration?_of_description? hx
  rcases hp.module_cases he with ⟨-, hdescription⟩ | ⟨j, m, -, hm, hdescription⟩
  · obtain rfl := Option.some.inj (hx.symm.trans hdescription)
    cases hmodule
  · obtain rfl := Option.some.inj (hx.symm.trans hdescription)
    obtain rfl := Option.some.inj hmodule
    exact List.mem_map.mpr ⟨m, List.mem_of_getElem? hm, rfl⟩

/-- No two declarations are called the same. -/
theorem eq_of_description? (hx : p.description? u = some x) (hy : p.description? v = some y)
    (hmodule : x.module = y.module) (hname : x.name = y.name) : u = v := by
  obtain ⟨d, hd, hdname, -⟩ := declaration?_of_description? hx
  obtain ⟨e, he, hename, -⟩ := declaration?_of_description? hy
  have heq : d.name = e.name := by rw [hdname, hename, hname]
  rcases hp.module_cases hd with ⟨hnone, hd'⟩ | ⟨j, m, hj, hm, hd'⟩
  all_goals
    obtain rfl := Option.some.inj (hx.symm.trans hd')
    rcases hp.module_cases he with ⟨hnone', he'⟩ | ⟨k, m', hk, hm', he'⟩
    all_goals obtain rfl := Option.some.inj (hy.symm.trans he')
  · exact hp.name_injective hd he (hnone.trans hnone'.symm) heq
  · cases hmodule
  · cases hmodule
  · obtain rfl := hp.eq_of_module_name hm hm' (Option.some.inj hmodule)
    exact hp.name_injective hd he (hj.trans hk.symm) heq

/-! ### Names, formulas and exports -/

theorem names_none_iff : p.Names none name u ↔
    ∃ x, p.description? u = some x ∧ x.module = none ∧ x.name = name :=
  hp.exists_global_iff (Q := fun other _ => other = name)

theorem names_some_iff (hm : p.module? j = some m) : p.Names (some j) name u ↔
    ∃ x, p.description? u = some x ∧ x.module = some m.name ∧ x.name = name :=
  hp.exists_member_iff hm (Q := fun other _ => other = name)

theorem mem_exportedFormulas_iff (hm : p.module? j = some m) : u ∈ p.exportedFormulas j ↔
    ∃ x, p.description? u = some x ∧ x.module = some m.name ∧
      ∃ expr, x.kind = .formula expr true := by
  simp only [Program.mem_exportedFormulas_iff hp hm, Declaration.isExported_iff]
  exact hp.exists_member_iff hm (Q := fun _ kind => ∃ expr, kind = .formula expr true)

/-- What depends on what is seen from descriptions. -/
theorem dependsOn_iff : p.DependsOn v u ↔
    ∃ x y, p.description? v = some x ∧ p.description? u = some y ∧ x.Needs y := by
  constructor
  · intro h
    cases h with
    | name hd hkind hmodule hname hu =>
      obtain ⟨m, hm, -⟩ := hp.module_of_declaration hd hmodule
      obtain ⟨y, hy, hin, rfl⟩ := (hp.names_some_iff hm).mp hu
      exact ⟨_, y, description?_of_member hd hmodule hm, hy, .name hkind rfl hin hname⟩
    | formula hd hkind hm hmodule he hin hname hformula =>
      obtain ⟨x, hx, -, hxkind⟩ := exists_description? hd
      obtain ⟨expr, exported, hekind⟩ := Declaration.isFormula_iff.mp hformula
      refine ⟨x, _, hx, description?_of_member he hin hm, ?_⟩
      subst hmodule hname
      exact .formula (hxkind.trans hkind) rfl hekind
    | exports hd hkind hm hmodule he hin hexported =>
      obtain ⟨x, hx, -, hxkind⟩ := exists_description? hd
      obtain ⟨expr, hekind⟩ := Declaration.isExported_iff.mp hexported
      refine ⟨x, _, hx, description?_of_member he hin hm, ?_⟩
      subst hmodule
      exact .exports (hxkind.trans hkind) rfl hekind
  · rintro ⟨x, y, hx, hy, hneeds⟩
    obtain ⟨d, hd, -, hdkind⟩ := declaration?_of_description? hx
    cases hneeds with
    | name hkind hmodule hin hname =>
      obtain ⟨j, m, hm, rfl⟩ := hasModule_iff.mp (hp.hasModule_of_member hx hmodule)
      obtain ⟨d', hd', hj, -⟩ :=
        (hp.exists_member_iff hm (Q := fun _ _ => True)).mpr ⟨x, hx, hmodule, trivial⟩
      obtain rfl := Option.some.inj (hd.symm.trans hd')
      exact .name hd (hdkind.trans hkind) hj hname ((hp.names_some_iff hm).mpr ⟨y, hy, hin, rfl⟩)
    | formula hkind hin hformula =>
      obtain ⟨j, m, hm, rfl⟩ := hasModule_iff.mp (hp.hasModule_of_member hy hin)
      obtain ⟨e, he, hj, hname, hekind⟩ := (hp.exists_member_iff hm
        (Q := fun name kind => name = y.name ∧ kind = y.kind)).mpr ⟨y, hy, hin, rfl, rfl⟩
      exact .formula hd (hdkind.trans hkind) hm rfl he hj hname
        (Declaration.isFormula_iff.mpr ⟨_, _, hekind.trans hformula⟩)
    | exports hkind hin hexported =>
      obtain ⟨j, m, hm, rfl⟩ := hasModule_iff.mp (hp.hasModule_of_member hy hin)
      obtain ⟨e, he, hj, hekind⟩ := (hp.exists_member_iff hm
        (Q := fun _ kind => kind = y.kind)).mpr ⟨y, hy, hin, rfl⟩
      exact .exports hd (hdkind.trans hkind) hm rfl he hj
        (Declaration.isExported_iff.mpr ⟨_, hekind.trans hexported⟩)

end WellFormed

/-! ### Descriptions of a source -/

variable {source : ProgramSource} {first : DeclId} {k : ModuleId} {modules : List ModuleSource}
  {members : List Member}

theorem mem_place_iff {module : Option ModuleId} {kind : DeclKind} :
    (name, kind) ∈ members ↔
      ∃ d ∈ place first module members, d.module = module ∧ d.name = name ∧ d.kind = kind := by
  constructor
  · intro h
    obtain ⟨i, hi, heq⟩ := List.mem_iff_getElem.mp h
    refine ⟨_, List.mem_mapIdx.mpr ⟨i, hi, rfl⟩, rfl, ?_, ?_⟩
    · rw [heq]
    · rw [heq]
  · rintro ⟨d, hd, -, rfl, rfl⟩
    obtain ⟨_, -, _, _, hmem, rfl⟩ := mem_place hd
    exact hmem

/-- The members of the modules are what is placed for them. -/
theorem mem_placeModules_iff {i : Nat} {kind : DeclKind} :
    (∃ m, modules[i]? = some m ∧ (name, kind) ∈ m.members) ↔
      ∃ d ∈ placeModules first k modules, d.module = some (k + i) ∧ d.name = name ∧
        d.kind = kind := by
  induction modules generalizing first k i with
  | nil => simp [placeModules]
  | cons m rest ih =>
    have hlater : ∀ d ∈ placeModules (first + m.members.length) (k + 1) rest,
        d.module ≠ some k := by
      intro d hd heq
      obtain ⟨j, hj, hle⟩ := le_module_of_mem_placeModules hd
      obtain rfl := Option.some.inj (heq.symm.trans hj)
      exact absurd hle (Nat.not_succ_le_self _)
    have hfirst : ∀ d ∈ place first (some k) m.members, d.module = some k := by
      intro d hd
      obtain ⟨_, -, _, _, -, rfl⟩ := mem_place hd
      rfl
    cases i with
    | zero =>
      rw [List.getElem?_cons_zero]
      simp only [Option.some.injEq, exists_eq_left', Nat.add_zero]
      rw [@mem_place_iff _ first _ (some k)]
      refine exists_congr fun d => and_congr_left fun hd => ?_
      rw [placeModules, List.mem_append, or_iff_left]
      exact fun hmem => hlater d hmem hd.1
    | succ i =>
      rw [List.getElem?_cons_succ, @ih (first + m.members.length) (k + 1) i]
      refine exists_congr fun d => ?_
      rw [placeModules, List.mem_append, Nat.add_assoc, Nat.add_comm 1 i]
      refine and_congr_left fun hd => ?_
      rw [or_iff_right]
      intro hmem
      have heq := Option.some.inj ((hfirst d hmem).symm.trans hd.1)
      exact absurd heq (Nat.ne_of_lt (Nat.lt_add_of_pos_right (Nat.succ_pos i)))

theorem name_module?_ofSource (i : ModuleId) :
    ((ofSource source).module? i).map (·.name) = source.modules[i]?.map (·.name) := by
  have hnames := congrArg (·[i]?)
    (@map_name_modulesFrom source.globals.length 0 source.modules)
  simpa [module?, ofSource] using hnames

theorem hasModule_ofSource_iff :
    (ofSource source).HasModule name ↔ name ∈ source.modules.map (·.name) := by
  rw [HasModule, ofSource, map_name_modulesFrom]

/-- A program declares what its source does, each module under its name. -/
theorem declares_ofSource_iff : (ofSource source).Declares x ↔
    x.module = none ∧ (x.name, x.kind) ∈ source.globals ∨
      ∃ m ∈ source.modules, x.module = some m.name ∧ (x.name, x.kind) ∈ m.members := by
  constructor
  · rintro ⟨id, hid⟩
    obtain ⟨d, hd, rfl⟩ := Option.map_eq_some_iff.mp hid
    rcases mem_declarations_of_declaration? hd with hmem | hmem
    · left
      have hglobal := (mem_globals_place hmem).1
      refine ⟨by simp [moduleOf?, hd, hglobal], ?_⟩
      exact mem_place_iff.mpr ⟨d, hmem, hglobal, rfl, rfl⟩
    · right
      obtain ⟨i, _, -, hmodule, -⟩ := exists_of_mem_placeModules hmem
      obtain ⟨m, hm, hmember⟩ := mem_placeModules_iff.mpr ⟨d, hmem, hmodule, rfl, rfl⟩
      refine ⟨m, List.mem_of_getElem? hm, ?_, hmember⟩
      have hname := @name_module?_ofSource source i
      rw [hm] at hname
      simpa [moduleOf?, hd, hmodule] using hname
  · rintro (⟨hmodule, hmem⟩ | ⟨m, hm, hmodule, hmem⟩)
    · obtain ⟨d, hd, hglobal, hname, hkind⟩ := (@mem_place_iff _ 0 _ none _).mp hmem
      refine ⟨d.id, ?_⟩
      rw [description?_of_global (declaration?_of_mem (List.mem_append_left _ hd)) hglobal,
        hname, hkind, ← hmodule]
    · obtain ⟨i, hi⟩ := List.getElem?_of_mem hm
      obtain ⟨d, hd, hin, hname, hkind⟩ :=
        (@mem_placeModules_iff _ source.globals.length 0 _ _ _).mp ⟨m, hi, hmem⟩
      rw [Nat.zero_add] at hin
      have hmodule? := @name_module?_ofSource source i
      rw [hi, Option.map_some, Option.map_eq_some_iff] at hmodule?
      obtain ⟨m', hm', hname'⟩ := hmodule?
      refine ⟨d.id, ?_⟩
      rw [description?_of_member (declaration?_of_mem (List.mem_append_right _ hd)) hin hm',
        hname, hkind, hname', ← hmodule]

end Program

end FormulaEngine
