import FormulaEngine.Proofs.Eval.Delegation
import FormulaEngine.Proofs.Lists
import FormulaEngine.Proofs.Program.Dependencies

/-!
# What an evaluation looks at

The evaluation of a declaration looks only at the slots of what its names and its import stand for.
In a well-formed program these are declarations that it depends on, or globals.
-/

namespace FormulaEngine.Evaluator

variable {ev : Evaluator} {mode : Mode} {d : Declaration} {id : DeclId} {s : Slots}

/-- The evaluation of a declaration can look at the slot of another. -/
inductive Reads (ev : Evaluator) (d : Declaration) : DeclId → Prop where
  | own (hglobal : d.isVertex = false) : Reads ev d d.id
  | name {expr : Expr} {exported : Bool} {name : String} {id : DeclId}
      (hkind : d.kind = .formula expr exported) (hname : expr.Contains (.ident name))
      (hid : ev.scopes.resolve ev.module name = some id) : Reads ev d id
  | formula {module name : String} {id : DeclId}
      (hkind : d.kind = .imported [module, name] .formula)
      (hid : ev.findFormula? module name = some id) : Reads ev d id
  | exports {module : String} {m : ProgramModule} {id : DeclId}
      (hkind : d.kind = .imported [module] .module)
      (hm : ev.program.moduleNamed? module = some m)
      (hid : id ∈ ev.program.exportedFormulas m.id) : Reads ev d id
  | argument {name : String} {id : DeclId} (hkind : d.kind = .imported [name] .argument)
      (hid : ev.findGlobal? name (fun kind => kind matches .argument) = some id) : Reads ev d id
  | constant {name : String} {id : DeclId} (hkind : d.kind = .imported [name] .constant)
      (hid : ev.findGlobal? name (fun kind => kind matches .constant _) = some id) : Reads ev d id

/-! ### Reading and depending -/

theorem exists_of_find?_formula {p : Program} {m : ProgramModule} {name : String}
    (h : (m.declarations.find? fun id =>
      (p.declaration? id).any fun d => d.isFormula && d.name == name) = some id) :
    id ∈ m.declarations ∧ ∃ e, p.declaration? id = some e ∧ e.name = name ∧ e.isFormula := by
  have hany := List.find?_some h
  simp only [Option.any_eq_true, Bool.and_eq_true, beq_iff_eq] at hany
  obtain ⟨e, he, hformula, hname⟩ := hany
  exact ⟨List.mem_of_find?_eq_some h, e, he, hname, hformula⟩

/-- The formula that an import finds is the one that the program has by that name. -/
theorem findFormula?_eq_some_iff (hp : ev.program.WellFormed) {module name : String} :
    ev.findFormula? module name = some id ↔
      ∃ j m e, ev.program.module? j = some m ∧ m.name = module ∧
        ev.program.declaration? id = some e ∧ e.module = some j ∧ e.name = name ∧ e.isFormula := by
  simp only [findFormula?, Option.bind_eq_bind, Option.bind_eq_some_iff,
    hp.moduleNamed?_eq_some_iff]
  constructor
  · rintro ⟨m, ⟨hm, hmodule⟩, hid⟩
    obtain ⟨hmem, e, he, hname, hformula⟩ := exists_of_find?_formula hid
    obtain ⟨e', he', hin⟩ := (hp.mem_declarations_iff hm).mp hmem
    obtain rfl : e = e' := Option.some.inj (he.symm.trans he')
    exact ⟨m.id, m, e, hm, hmodule, he, hin, hname, hformula⟩
  · rintro ⟨j, m, e, hm, hmodule, he, hin, hname, hformula⟩
    obtain rfl : m.id = j := hp.module_id_eq hm
    refine ⟨m, ⟨hm, hmodule⟩, ?_⟩
    cases hfind : m.declarations.find? fun id =>
        (ev.program.declaration? id).any fun d => d.isFormula && d.name == name with
    | none =>
      have hne := List.find?_eq_none.mp hfind id ((hp.mem_declarations_iff hm).mpr ⟨e, he, hin⟩)
      exact absurd (by simp [he, hformula, hname]) hne
    | some other =>
      obtain ⟨hmem, e', he', hname', -⟩ := exists_of_find?_formula hfind
      obtain ⟨e'', he'', hin'⟩ := (hp.mem_declarations_iff hm).mp hmem
      obtain rfl : e' = e'' := Option.some.inj (he'.symm.trans he'')
      rw [hp.name_injective he' he (hin'.trans hin.symm) (hname'.trans hname.symm)]

theorem findGlobal?_eq_some_iff {name : String} {fits : DeclKind → Bool} :
    ev.findGlobal? name fits = some id ↔ ev.scopes.program.local? name = some id ∧
      ∃ e, ev.program.declaration? id = some e ∧ fits e.kind := by
  simp only [findGlobal?, Option.bind_eq_bind, Option.bind_eq_some_iff,
    Option.ite_none_right_eq_some]
  constructor
  · rintro ⟨_, hlocal, e, he, hfits, heq⟩
    obtain rfl := Option.some.inj heq
    exact ⟨hlocal, e, he, hfits⟩
  · rintro ⟨hlocal, e, he, hfits⟩
    exact ⟨id, hlocal, e, he, hfits, rfl⟩

theorem names_of_findGlobal? (hp : ev.program.WellFormed)
    (hscopes : ev.scopes = .ofProgram ev.program) {name : String} {fits : DeclKind → Bool}
    (h : ev.findGlobal? name fits = some id) : ev.program.Names none name id := by
  obtain ⟨hlocal, -⟩ := findGlobal?_eq_some_iff.mp h
  rw [hscopes] at hlocal
  exact (Program.local?_program_iff hp).mp hlocal

theorem Reads.dependsOn_or_global (h : ev.Reads d id) (hp : ev.program.WellFormed)
    (hscopes : ev.scopes = .ofProgram ev.program) (hmodule : ev.module = d.module)
    (hd : ev.program.declaration? d.id = some d) (hvertex : d.isVertex) :
    ev.program.DependsOn d.id id ∨
      ∃ e, ev.program.declaration? id = some e ∧ e.isVertex = false := by
  have hglobal : ∀ {name : String}, ev.program.Names none name id →
      ∃ e, ev.program.declaration? id = some e ∧ e.isVertex = false := by
    rintro name ⟨e, he, hnone, -⟩
    refine ⟨e, he, ?_⟩
    have hiff := hp.isVertex_iff he
    simpa [hnone] using hiff
  cases h with
  | own hown => exact absurd hvertex (by simp [hown])
  | name hkind hname hid =>
    obtain ⟨j, hj⟩ := Option.ne_none_iff_exists'.mp ((hp.isVertex_iff hd).mp hvertex)
    rw [hscopes, hmodule, hj] at hid
    rcases Program.names_of_resolve hp hid with hnames | hnames
    · exact .inl (.name hd hkind hj hname hnames)
    · exact .inr (hglobal hnames)
  | formula hkind hid =>
    obtain ⟨j, m, e, hm, hmodule, he, hin, hname, hformula⟩ := (findFormula?_eq_some_iff hp).mp hid
    exact .inl (.formula hd hkind hm hmodule he hin hname hformula)
  | exports hkind hm hid =>
    obtain ⟨hm, hmodule⟩ := hp.moduleNamed?_eq_some_iff.mp hm
    obtain ⟨e, he, hin, hexported⟩ := (Program.mem_exportedFormulas_iff hp hm).mp hid
    exact .inl (.exports hd hkind hm hmodule he hin hexported)
  | argument hkind hid => exact .inr (hglobal (names_of_findGlobal? hp hscopes hid))
  | constant hkind hid => exact .inr (hglobal (names_of_findGlobal? hp hscopes hid))

/-! ### The frame -/

def onSlots (ev : Evaluator) (s : Slots) : Evaluator := { ev with slots := s }

theorem readSlot_onSlots (h : s.get? id = ev.slots.get? id) :
    (ev.onSlots s).readSlot id = ev.readSlot id := by
  have hget : (ev.onSlots s).slots.get? id = ev.slots.get? id := h
  rw [readSlot, readSlot, hget]
  rfl

theorem readFound_onSlots {path : List String} {found : Option DeclId}
    (h : ∀ id, found = some id → s.get? id = ev.slots.get? id) :
    (ev.onSlots s).readFound path found = ev.readFound path found := by
  cases found with
  | none => rfl
  | some id => exact readSlot_onSlots (h id rfl)

theorem readExports_onSlots {m : ProgramModule}
    (h : ∀ id ∈ ev.program.exportedFormulas m.id, s.get? id = ev.slots.get? id) :
    (ev.onSlots s).readExports m = ev.readExports m := by
  unfold readExports
  refine congrArg (· >>= fun fields => Except.ok (Value.ofFields fields))
    (mapM_congr fun id hid => ?_)
  rw [readSlot_onSlots (h id hid)]
  rfl

theorem importValue_onSlots {path : List String} {kind : ImportKind}
    (hkind : d.kind = .imported path kind)
    (h : ∀ id, ev.Reads d id → s.get? id = ev.slots.get? id) :
    (ev.onSlots s).importValue path kind = ev.importValue path kind := by
  unfold importValue
  split
  case h_1 module name => exact readFound_onSlots fun id hid => h id (.formula hkind hid)
  case h_2 module =>
    have hmodule : (ev.onSlots s).program.moduleNamed? module =
        ev.program.moduleNamed? module := rfl
    rw [hmodule]
    cases hm : ev.program.moduleNamed? module with
    | none => rfl
    | some m => exact readExports_onSlots fun id hid => h id (.exports hkind hm hid)
  case h_3 name => exact readFound_onSlots fun id hid => h id (.argument hkind hid)
  case h_4 name => exact readFound_onSlots fun id hid => h id (.constant hkind hid)
  case h_5 => rfl

theorem read_onSlots {name : String}
    (h : ∀ id, ev.scopes.resolve ev.module name = some id → s.get? id = ev.slots.get? id) :
    (ev.onSlots s).read name = ev.read name := by
  have hresolve : (ev.onSlots s).scopes.resolve (ev.onSlots s).module name =
      ev.scopes.resolve ev.module name := rfl
  rw [read, read, hresolve]
  cases hid : ev.scopes.resolve ev.module name with
  | none => rfl
  | some id => exact readSlot_onSlots (h id hid)

theorem probe_onSlots {path : Path}
    (h : ∀ id, ev.scopes.resolve ev.module path.root = some id → s.get? id = ev.slots.get? id) :
    (ev.onSlots s).probe path = ev.probe path := by
  have hresolve : (ev.onSlots s).scopes.resolve (ev.onSlots s).module path.root =
      ev.scopes.resolve ev.module path.root := rfl
  rw [probe, probe, hresolve]
  cases hid : ev.scopes.resolve ev.module path.root with
  | none => rfl
  | some id =>
    change ((ev.onSlots s).readSlot id).map _ = (ev.readSlot id).map _
    rw [readSlot_onSlots (h id hid)]

theorem relatedOn_onSlots {expr : Expr}
    (h : ∀ name id, expr.Contains (.ident name) → ev.scopes.resolve ev.module name = some id →
      s.get? id = ev.slots.get? id) :
    RelatedOn (fun x y => x = y) (ev.onSlots s) ev mode mode expr where
  read name hname := by rw [read_onSlots (h name · hname)]
  probe path hpath := by rw [probe_onSlots (h path.root · hpath)]
  invoke _ _ _ _ := rfl
  mode_eq _ _ := rfl
  await _ _ _ _ := rfl
  internal _ _ := .inr fun _ => rfl

/-- Slots that a declaration does not read make no difference to its evaluation. -/
theorem run_onSlots (h : ∀ id, ev.Reads d id → s.get? id = ev.slots.get? id) :
    (ev.onSlots s).run mode d = ev.run mode d := by
  refine run_related isCongruence_eq (fun expr exported hkind => ?_) (fun path kind hkind => ?_) ?_
  · exact relatedOn_onSlots fun name id hname hid => h id (.name hkind hname hid)
  · rw [importValue_onSlots hkind h]
  · intro hglobal
    rw [readSlot_onSlots (h d.id (.own hglobal))]

end FormulaEngine.Evaluator
