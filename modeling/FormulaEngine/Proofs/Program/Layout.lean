import FormulaEngine.Proofs.Program.Lowering

/-!
# The layout of a lowered program

Declarations and modules are numbered by their places. A module declares exactly the declarations
that name it as theirs; those are the formulas and imports, and within a module, as among the
globals, each has a name of its own. Nothing later looks at how a program was laid out.
-/

namespace FormulaEngine

namespace Program

/-- What holds of every lowered program. -/
structure WellFormed (p : Program) : Prop where
  id_eq : ∀ {i d}, p.declaration? i = some d → d.id = i
  module_id_eq : ∀ {j m}, p.module? j = some m → m.id = j
  module_of_declaration : ∀ {i d j}, p.declaration? i = some d → d.module = some j →
    ∃ m, p.module? j = some m ∧ i ∈ m.declarations
  declaration_of_module : ∀ {i j m}, p.module? j = some m → i ∈ m.declarations →
    ∃ d, p.declaration? i = some d ∧ d.module = some j
  isVertex_iff : ∀ {i d}, p.declaration? i = some d → (d.isVertex ↔ d.module ≠ none)
  name_injective : ∀ {i j d e}, p.declaration? i = some d → p.declaration? j = some e →
    d.module = e.module → d.name = e.name → i = j
  module_names : (p.modules.map (·.name)).Nodup

/-! ### Placing members -/

variable {first : DeclId} {module : Option ModuleId} {k : ModuleId} {members : List Member}
  {modules : List ModuleSource}

theorem length_place : (place first module members).length = members.length := by
  simp [place]

theorem map_place : (place first module members).map (fun d => (d.name, d.kind)) = members :=
  List.ext_getElem (by simp [place]) fun i _ _ => by simp [place]

theorem mem_place {d : Declaration} (h : d ∈ place first module members) :
    ∃ i < members.length, ∃ name kind, (name, kind) ∈ members ∧
      d = ⟨first + i, module, name, kind⟩ := by
  obtain ⟨i, hi, rfl⟩ := List.mem_mapIdx.mp h
  exact ⟨i, hi, members[i].1, members[i].2, List.getElem_mem hi, rfl⟩

theorem id_of_getElem?_place {i : Nat} {d : Declaration}
    (h : (place first module members)[i]? = some d) : d.id = first + i := by
  rw [place, List.getElem?_mapIdx, Option.map_eq_some_iff] at h
  obtain ⟨member, -, rfl⟩ := h
  rfl

theorem pairwise_place (h : (members.map Prod.fst).Nodup) :
    (place first module members).Pairwise fun d e => d.module = e.module → d.name ≠ e.name := by
  have hnames : (place first module members).map (·.name) = members.map Prod.fst := by
    exact List.ext_getElem (by simp [place]) fun i _ _ => by simp [place]
  rw [← hnames] at h
  refine List.Pairwise.imp ?_ (List.pairwise_map.mp h)
  exact fun hne _ => hne

theorem id_of_getElem?_placeModules {i : Nat} {d : Declaration}
    (h : (placeModules first k modules)[i]? = some d) : d.id = first + i := by
  induction modules generalizing first k i with
  | nil => simp [placeModules] at h
  | cons m rest ih =>
    rw [placeModules, List.getElem?_append, length_place] at h
    split at h
    · exact id_of_getElem?_place h
    case isFalse hle =>
      rw [ih h, Nat.add_assoc, Nat.add_sub_cancel' (Nat.not_lt.mp hle)]

theorem exists_of_mem_placeModules {d : Declaration} (h : d ∈ placeModules first k modules) :
    ∃ j m, (modulesFrom first k modules)[j]? = some m ∧ d.module = some (k + j) ∧
      d.id ∈ m.declarations := by
  induction modules generalizing first k with
  | nil => exact absurd h List.not_mem_nil
  | cons m rest ih =>
    rcases List.mem_append.mp h with h | h
    · obtain ⟨i, hi, name, kind, -, rfl⟩ := mem_place h
      exact ⟨0, _, rfl, rfl, by simpa [List.mem_range'_1] using hi⟩
    · obtain ⟨j, m', hm', hmodule, hid⟩ := ih h
      refine ⟨j + 1, m', hm', ?_, hid⟩
      rw [hmodule, Nat.add_assoc, Nat.add_comm 1 j]

theorem exists_of_mem_modulesFrom {i : DeclId} {j : Nat} {m : ProgramModule}
    (h : (modulesFrom first k modules)[j]? = some m) (hi : i ∈ m.declarations) :
    ∃ d ∈ placeModules first k modules, d.id = i ∧ d.module = some (k + j) := by
  induction modules generalizing first k j with
  | nil => simp [modulesFrom] at h
  | cons source rest ih =>
    cases j with
    | zero =>
      obtain rfl : _ = m := Option.some.inj h
      obtain ⟨hle, hlt⟩ := List.mem_range'_1.mp hi
      have hplace : i - first < source.members.length := Nat.sub_lt_left_of_lt_add hle hlt
      refine ⟨⟨i, some k, source.members[i - first].1, source.members[i - first].2⟩,
        List.mem_append_left _ (List.mem_mapIdx.mpr ⟨i - first, hplace, ?_⟩), rfl, rfl⟩
      rw [Nat.add_sub_cancel' hle]
    | succ j =>
      obtain ⟨d, hd, hid, hmodule⟩ := ih h
      refine ⟨d, List.mem_append_right _ hd, hid, ?_⟩
      rw [hmodule, Nat.add_assoc, Nat.add_comm 1 j]

theorem id_of_getElem?_modulesFrom {j : Nat} {m : ProgramModule}
    (h : (modulesFrom first k modules)[j]? = some m) : m.id = k + j := by
  induction modules generalizing first k j with
  | nil => simp [modulesFrom] at h
  | cons source rest ih =>
    cases j with
    | zero =>
      obtain rfl : _ = m := Option.some.inj h
      rfl
    | succ j =>
      rw [ih h, Nat.add_assoc, Nat.add_comm 1 j]

theorem map_name_modulesFrom :
    (modulesFrom first k modules).map (·.name) = modules.map (·.name) := by
  induction modules generalizing first k with
  | nil => rfl
  | cons m rest ih => rw [modulesFrom, List.map_cons, List.map_cons, ih]

theorem le_module_of_mem_placeModules {d : Declaration} (h : d ∈ placeModules first k modules) :
    ∃ j, d.module = some j ∧ k ≤ j := by
  obtain ⟨j, _, -, hmodule, -⟩ := exists_of_mem_placeModules h
  exact ⟨k + j, hmodule, Nat.le_add_right _ _⟩

theorem exists_member_of_mem_placeModules {d : Declaration}
    (h : d ∈ placeModules first k modules) : ∃ m ∈ modules, (d.name, d.kind) ∈ m.members := by
  induction modules generalizing first k with
  | nil => exact absurd h List.not_mem_nil
  | cons m rest ih =>
    rcases List.mem_append.mp h with h | h
    · obtain ⟨_, -, _, _, hmem, rfl⟩ := mem_place h
      exact ⟨m, List.mem_cons_self, hmem⟩
    · obtain ⟨m', hm', hmem⟩ := ih h
      exact ⟨m', List.mem_cons_of_mem _ hm', hmem⟩

theorem mem_members_iff {m : ModuleSource} {name : String} {kind : DeclKind} :
    (name, kind) ∈ m.members ↔
      (∃ i ∈ m.imports, i.name = name ∧ .imported i.path i.kind = kind) ∨
        ∃ f ∈ m.formulas, f.name = name ∧ .formula f.expr f.exported = kind := by
  simp [ModuleSource.members]

theorem isVertex_of_mem_placeModules {d : Declaration} (h : d ∈ placeModules first k modules) :
    d.isVertex := by
  obtain ⟨m, -, hmem⟩ := exists_member_of_mem_placeModules h
  unfold Declaration.isVertex
  rcases mem_members_iff.mp hmem with ⟨i, -, -, hkind⟩ | ⟨f, -, -, hkind⟩
  · rw [← hkind]
  · rw [← hkind]

/-- Declarations of one module have different names. -/
theorem pairwise_placeModules
    (h : ∀ m ∈ modules, (m.imports.map (·.name) ++ m.formulas.map (·.name)).Nodup) :
    (placeModules first k modules).Pairwise fun d e => d.module = e.module → d.name ≠ e.name := by
  induction modules generalizing first k with
  | nil => exact List.Pairwise.nil
  | cons m rest ih =>
    have hm := h m List.mem_cons_self
    rw [← ModuleSource.map_fst_members] at hm
    refine List.pairwise_append.mpr ⟨pairwise_place hm,
      ih fun m' hm' => h m' (List.mem_cons_of_mem _ hm'), fun d hd e he heq => ?_⟩
    obtain ⟨_, -, _, _, -, rfl⟩ := mem_place hd
    obtain ⟨j, hmodule, hle⟩ := le_module_of_mem_placeModules he
    rw [hmodule] at heq
    obtain rfl : k = j := Option.some.inj heq
    exact absurd hle (Nat.not_succ_le_self _)

/-! ### The whole program -/

variable {source : ProgramSource}

theorem mem_globals_place {d : Declaration} (h : d ∈ place 0 none source.globals) :
    d.module = none ∧ d.isVertex = false := by
  obtain ⟨_, -, name, kind, hmem, rfl⟩ := mem_place h
  refine ⟨rfl, ?_⟩
  rcases List.mem_append.mp hmem with hmem | hmem
  · obtain ⟨_, -, heq⟩ := List.mem_map.mp hmem
    obtain ⟨-, rfl⟩ := Prod.mk.inj heq
    rfl
  · obtain ⟨_, -, heq⟩ := List.mem_map.mp hmem
    obtain ⟨-, rfl⟩ := Prod.mk.inj heq
    rfl

theorem id_of_declaration? {i : DeclId} {d : Declaration}
    (h : (ofSource source).declaration? i = some d) : d.id = i := by
  rw [declaration?, ofSource, List.getElem?_append, length_place] at h
  split at h
  · rw [id_of_getElem?_place h, Nat.zero_add]
  case isFalse hle =>
    rw [id_of_getElem?_placeModules h, Nat.add_sub_cancel' (Nat.not_lt.mp hle)]

theorem mem_declarations_of_declaration? {i : DeclId} {d : Declaration}
    (h : (ofSource source).declaration? i = some d) :
    d ∈ place 0 none source.globals ∨ d ∈ placeModules source.globals.length 0 source.modules :=
  List.mem_append.mp (List.mem_of_getElem? h)

theorem declaration?_of_mem {d : Declaration} (h : d ∈ (ofSource source).declarations) :
    (ofSource source).declaration? d.id = some d := by
  obtain ⟨i, hi⟩ := List.getElem?_of_mem h
  have hid : d.id = i := id_of_declaration? hi
  rw [hid]
  exact hi

theorem pairwise_declarations (h : source.Lowerable) :
    (ofSource source).declarations.Pairwise fun d e => d.module = e.module → d.name ≠ e.name := by
  have hglobals := h.global_names
  rw [← ProgramSource.map_fst_globals] at hglobals
  refine List.pairwise_append.mpr ⟨pairwise_place hglobals,
    pairwise_placeModules h.member_names, fun d hd e he heq => ?_⟩
  obtain ⟨j, hmodule, -⟩ := le_module_of_mem_placeModules he
  rw [(mem_globals_place hd).1, hmodule] at heq
  exact absurd heq (by simp)

/-- Lowering gives well-formed programs. -/
theorem wellFormed_ofSource (h : source.Lowerable) : (ofSource source).WellFormed where
  id_eq := id_of_declaration?
  module_id_eq hm := by
    rw [id_of_getElem?_modulesFrom hm, Nat.zero_add]
  module_of_declaration hd hmodule := by
    rcases mem_declarations_of_declaration? hd with hmem | hmem
    · rw [(mem_globals_place hmem).1] at hmodule
      exact absurd hmodule (by simp)
    · obtain ⟨j, m, hm, heq, hid⟩ := exists_of_mem_placeModules hmem
      rw [hmodule, Nat.zero_add] at heq
      obtain rfl := Option.some.inj heq
      exact ⟨m, hm, id_of_declaration? hd ▸ hid⟩
  declaration_of_module hm hi := by
    obtain ⟨d, hmem, hid, hmodule⟩ := exists_of_mem_modulesFrom hm hi
    refine ⟨d, ?_, by rw [hmodule, Nat.zero_add]⟩
    rw [← hid]
    exact declaration?_of_mem (List.mem_append_right _ hmem)
  isVertex_iff hd := by
    rcases mem_declarations_of_declaration? hd with hmem | hmem
    · obtain ⟨hmodule, hvertex⟩ := mem_globals_place hmem
      simp [hmodule, hvertex]
    · obtain ⟨j, hmodule, -⟩ := le_module_of_mem_placeModules hmem
      simp [hmodule, isVertex_of_mem_placeModules hmem]
  name_injective {i j d e} hd he hmodule hname := by
    have hpairwise := List.pairwise_iff_getElem.mp (pairwise_declarations h)
    obtain ⟨hi, rfl⟩ := List.getElem?_eq_some_iff.mp hd
    obtain ⟨hj, rfl⟩ := List.getElem?_eq_some_iff.mp he
    rcases Nat.lt_trichotomy i j with hlt | heq | hlt
    · exact absurd hname (hpairwise i j hi hj hlt hmodule)
    · exact heq
    · exact absurd hname.symm (hpairwise j i hj hi hlt hmodule.symm)
  module_names := by
    rw [ofSource, map_name_modulesFrom]
    exact h.module_names

theorem wellFormed_of_lower {p : Program} (h : lower source = .ok p) : p.WellFormed := by
  obtain ⟨hlower, rfl⟩ := lowerable_of_lower h
  exact wellFormed_ofSource hlower

end Program

end FormulaEngine
