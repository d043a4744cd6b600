import FormulaEngine.Proofs.Program.Naming

/-!
# What lowering comes to

A program has the declarations of its source in their order, numbered from zero on, and each module
has the numbers behind those of the module before. Lowering looks at the names and expressions of a
source in that order too, so what it refuses is the first that offends.
-/

namespace FormulaEngine

/-! ### The layout -/

namespace Program

/-- The declarations of a program are those of a source, and each is where the source has it. -/
structure IsLayoutOf (p : Program) (source : ProgramSource) : Prop where
  id_eq : ∀ (i : Nat) (d : Declaration), p.declarations[i]? = some d → d.id = i
  declarations_eq : p.declarations.map (fun d => (d.name, d.kind)) =
    source.arguments.map (fun a => (a.name, .argument)) ++
      source.constants.map (fun c => (c.name, .constant c.value)) ++
      source.modules.flatMap fun m =>
        m.imports.map (fun i => (i.name, .imported i.path i.kind)) ++
          m.formulas.map fun f => (f.name, .formula f.expr f.exported)
  module_id_eq : ∀ (j : Nat) (m : ProgramModule), p.modules[j]? = some m → m.id = j
  modules_eq : p.modules.map (fun m => (m.name, m.declarations.length)) =
    source.modules.map fun m => (m.name, m.imports.length + m.formulas.length)
  ranges_eq : List.range (source.arguments.length + source.constants.length) ++
    p.modules.flatMap (·.declarations) = List.range p.declarations.length
  module_iff : ∀ (i : Nat) (d : Declaration), p.declarations[i]? = some d → ∀ j,
    d.module = some j ↔ ∃ m, p.modules[j]? = some m ∧ i ∈ m.declarations
  moduleNamed?_iff : ∀ name m, p.moduleNamed? name = some m ↔
    ∃ j : Nat, (source.modules.map (·.name))[j]? = some name ∧ p.modules[j]? = some m
  name_injective : ∀ (i j : Nat) (d e : Declaration), p.declarations[i]? = some d →
    p.declarations[j]? = some e → d.module = e.module → d.name = e.name → i = j

variable {first : DeclId} {module : Option ModuleId} {k : ModuleId} {members : List Member}
  {modules : List ModuleSource} {source : ProgramSource} {p : Program}

theorem map_placeModules :
    (placeModules first k modules).map (fun d => (d.name, d.kind)) =
      modules.flatMap ModuleSource.members := by
  induction modules generalizing first k with
  | nil => rfl
  | cons m rest ih => rw [placeModules, List.map_append, map_place, ih, List.flatMap_cons]

theorem length_placeModules :
    (placeModules first k modules).length = (modules.flatMap ModuleSource.members).length := by
  rw [← @map_placeModules first k, List.length_map]

/-- The modules have consecutive ranges of numbers. -/
theorem flatMap_declarations_modulesFrom :
    (modulesFrom first k modules).flatMap (·.declarations) =
      List.range' first (modules.flatMap ModuleSource.members).length := by
  induction modules generalizing first k with
  | nil => rfl
  | cons m rest ih =>
    rw [modulesFrom, List.flatMap_cons, ih, List.range'_append_1, List.flatMap_cons,
      List.length_append]

theorem map_modulesFrom :
    (modulesFrom first k modules).map (fun m => (m.name, m.declarations.length)) =
      modules.map fun m => (m.name, m.imports.length + m.formulas.length) := by
  induction modules generalizing first k with
  | nil => rfl
  | cons m rest ih => simp [modulesFrom, ih, ModuleSource.members]

theorem WellFormed.moduleNamed?_iff_getElem? (hp : p.WellFormed) {name : String}
    {m : ProgramModule} : p.moduleNamed? name = some m ↔
      ∃ j : Nat, (p.modules.map (·.name))[j]? = some name ∧ p.modules[j]? = some m := by
  rw [hp.moduleNamed?_eq_some_iff]
  simp only [List.getElem?_map, Option.map_eq_some_iff]
  constructor
  · rintro ⟨hm, hname⟩
    exact ⟨m.id, ⟨m, hm, hname⟩, hm⟩
  · rintro ⟨j, ⟨m', hm', hname⟩, hm⟩
    obtain rfl : m = m' := Option.some.inj (hm.symm.trans hm')
    obtain rfl : m.id = j := hp.module_id_eq hm
    exact ⟨hm, hname⟩

theorem isLayoutOf_ofSource (h : source.Lowerable) : (ofSource source).IsLayoutOf source := by
  have hp := wellFormed_ofSource h
  have hglobals : source.globals.length = source.arguments.length + source.constants.length := by
    simp [ProgramSource.globals]
  exact {
    id_eq _ _ hd := hp.id_eq hd
    declarations_eq := by
      rw [ofSource, List.map_append, map_place, map_placeModules]
      rfl
    module_id_eq _ _ hm := hp.module_id_eq hm
    modules_eq := map_modulesFrom
    ranges_eq := by
      rw [ofSource, flatMap_declarations_modulesFrom, List.length_append, length_place,
        length_placeModules, hglobals, List.range_eq_range', List.range_eq_range']
      simpa using List.range'_append_1 (s := 0)
    module_iff i d hd j := by
      constructor
      · exact hp.module_of_declaration hd
      · rintro ⟨m, hm, hi⟩
        obtain ⟨e, he, hmodule⟩ := hp.declaration_of_module hm hi
        obtain rfl : d = e := Option.some.inj (hd.symm.trans he)
        exact hmodule
    moduleNamed?_iff _ _ := by
      rw [hp.moduleNamed?_iff_getElem?, ofSource, map_name_modulesFrom]
    name_injective _ _ _ _ hd he := hp.name_injective hd he }

end Program

/-! ### Offences -/

/-- Where names have to differ: among the globals, among the modules, and within the module at a
place. -/
inductive NameSpace where
  | globals
  | modules
  | members (place : Nat)
  deriving DecidableEq, Repr

/-- What lowering looks at: a name that is given in a scope, or the expression of a formula. -/
inductive Item where
  | name (space : NameSpace) (scope : ScopeLabel) (name : String)
  | expression (declaration : String) (expr : Expr)

namespace Item

/-- What is wrong with an item behind others: a name that was given before, or an expression that
cannot be evaluated. -/
inductive Offends (before : List Item) : Item → CompileError → Prop where
  | repeated {space : NameSpace} {scope : ScopeLabel} {name : String}
      (h : .name space scope name ∈ before) :
    Offends before (.name space scope name) (.duplicateDeclaration scope name)
  | flawed {declaration : String} {expr : Expr} {flaw : Flaw} (h : expr.flaw? = some flaw) :
    Offends before (.expression declaration expr) (.invalidExpression declaration flaw)

def NoneOffend (items : List Item) : Prop :=
  ∀ before item after, items = before ++ item :: after → ∀ e, ¬item.Offends before e

/-- An error is that of the first item that offends. -/
def FirstOffends (items : List Item) (e : CompileError) : Prop :=
  ∃ before item after, items = before ++ item :: after ∧ item.Offends before e ∧ NoneOffend before

/-- What comes of looking at items one after another, behind others. -/
inductive Scans : List Item → List Item → Option CompileError → Prop where
  | nil {before : List Item} : Scans before [] none
  | offence {before rest : List Item} {item : Item} {e : CompileError} (h : item.Offends before e) :
    Scans before (item :: rest) (some e)
  | pass {before rest : List Item} {item : Item} {r : Option CompileError}
      (h : ∀ e, ¬item.Offends before e) (hrest : Scans (before ++ [item]) rest r) :
    Scans before (item :: rest) r

variable {before items rest : List Item} {item : Item} {e e' : CompileError}
  {r r' : Option CompileError} {space : NameSpace} {scope : ScopeLabel} {name : String}

theorem not_offends_name (h : .name space scope name ∉ before) :
    ¬(Item.name space scope name).Offends before e := by
  rintro ⟨hmem⟩
  exact h hmem

theorem not_offends_expression {declaration : String} {expr : Expr} (h : expr.flaw? = none) :
    ¬(Item.expression declaration expr).Offends before e := by
  rintro (- | hflaw)
  exact absurd (h.symm.trans hflaw) (by simp)

theorem Offends.error_eq (h : item.Offends before e) (h' : item.Offends before e') : e = e' := by
  cases h with
  | repeated => cases h' with | repeated => rfl
  | flawed hflaw =>
    cases h' with
    | flawed hflaw' => rw [Option.some.inj (hflaw.symm.trans hflaw')]

theorem noneOffend_nil : NoneOffend [] := by
  intro before item after h
  exact absurd h.symm (by simp)

theorem NoneOffend.concat (hbefore : NoneOffend before) (h : ∀ e, ¬item.Offends before e) :
    NoneOffend (before ++ [item]) := by
  intro front other after heq
  rcases List.eq_nil_or_concat after with rfl | ⟨after, last, rfl⟩
  · obtain ⟨rfl, hother⟩ := List.append_inj' heq rfl
    obtain rfl := List.singleton_inj.mp hother
    exact h
  · rw [List.concat_eq_append, ← List.cons_append, ← List.append_assoc] at heq
    obtain ⟨rfl, -⟩ := List.append_inj' heq rfl
    exact hbefore front other after rfl

/-- There is one first offence at most. -/
theorem FirstOffends.error_eq (h : FirstOffends items e) (h' : FirstOffends items e') : e = e' := by
  obtain ⟨before, item, after, rfl, hitem, hbefore⟩ := h
  obtain ⟨before', item', after', heq, hitem', hbefore'⟩ := h'
  rcases List.append_eq_append_iff.mp heq with ⟨between, rfl, hcons⟩ | ⟨between, rfl, hcons⟩
  · cases between with
    | nil =>
      obtain ⟨rfl, -⟩ := List.cons.inj hcons
      rw [List.append_nil] at hitem'
      exact hitem.error_eq hitem'
    | cons other between =>
      obtain ⟨rfl, -⟩ := List.cons.inj hcons
      exact absurd hitem (hbefore' before item between rfl e)
  · cases between with
    | nil =>
      obtain ⟨rfl, -⟩ := List.cons.inj hcons
      rw [List.append_nil] at hitem
      exact hitem.error_eq hitem'
    | cons other between =>
      obtain ⟨rfl, -⟩ := List.cons.inj hcons
      exact absurd hitem' (hbefore before' item' between rfl e')

theorem NoneOffend.not_firstOffends (h : NoneOffend items) : ¬FirstOffends items e := by
  rintro ⟨before, item, after, rfl, hitem, -⟩
  exact h before item after rfl e hitem

namespace Scans

theorem append (h : Scans before items r) (hrest : Scans (before ++ items) rest r') :
    Scans before (items ++ rest) (r.or r') := by
  induction h with
  | nil => rwa [List.append_nil] at hrest
  | offence h => exact .offence h
  | pass h _ ih =>
    rw [List.append_cons] at hrest
    exact .pass h (ih hrest)

theorem noneOffend (h : Scans before items none) (hbefore : NoneOffend before) :
    NoneOffend (before ++ items) := by
  generalize hr : (none : Option CompileError) = r at h
  induction h with
  | nil => rwa [List.append_nil]
  | offence => exact absurd hr (by simp)
  | pass h _ ih =>
    rw [List.append_cons]
    exact ih (hbefore.concat h) hr

theorem firstOffends (h : Scans before items (some e)) (hbefore : NoneOffend before) :
    FirstOffends (before ++ items) e := by
  generalize hr : some e = r at h
  induction h with
  | nil => exact absurd hr (by simp)
  | offence h =>
    obtain rfl := Option.some.inj hr
    exact ⟨_, _, _, rfl, h, hbefore⟩
  | pass h _ ih =>
    rw [List.append_cons]
    exact ih (hbefore.concat h) hr

theorem eq_none_iff (h : Scans [] items r) : r = none ↔ NoneOffend items := by
  constructor
  · rintro rfl
    exact h.noneOffend noneOffend_nil
  · intro hnone
    cases r with
    | none => rfl
    | some e => exact absurd (h.firstOffends noneOffend_nil) hnone.not_firstOffends

theorem eq_some_iff (h : Scans [] items r) : r = some e ↔ FirstOffends items e := by
  constructor
  · rintro rfl
    exact h.firstOffends noneOffend_nil
  · intro hfirst
    cases r with
    | none => exact absurd hfirst (h.noneOffend noneOffend_nil).not_firstOffends
    | some e' => rw [(h.firstOffends noneOffend_nil).error_eq hfirst]

end Scans

end Item

/-! ### Where lowering stops -/

/-- The items of a module at a place: its imports, and then each formula's name and expression. -/
def ModuleSource.items (m : ModuleSource) (place : Nat) : List Item :=
  m.imports.map (fun i => .name (.members place) (.module m.name) i.name) ++
    m.formulas.flatMap fun f =>
      [.name (.members place) (.module m.name) f.name, .expression (m.name ++ "." ++ f.name) f.expr]

namespace ProgramSource

/-- The items of a source in order. The name of a module stands before its items. -/
def items (source : ProgramSource) : List Item :=
  source.arguments.map (fun a => .name .globals .program a.name) ++
    source.constants.map (fun c => .name .globals .program c.name) ++
    source.modules.zipIdx.flatMap fun m => .name .modules .program m.1.name :: m.1.items m.2

open Item

variable {before : List Item} {seen : List String} {members : List Member}
  {modules : List ModuleSource} {source : ProgramSource}

theorem scans_globalError?
    (hseen : ∀ name, Item.name .globals .program name ∈ before ↔ name ∈ seen) :
    Scans before (members.map fun m => .name .globals .program m.1)
      (globalError? seen members) := by
  induction members generalizing before seen with
  | nil => exact .nil
  | cons member rest ih =>
    obtain ⟨name, kind⟩ := member
    by_cases hname : name ∈ seen
    · rw [globalError?, if_pos hname]
      exact .offence (.repeated ((hseen name).mpr hname))
    · rw [globalError?, if_neg hname]
      exact .pass (fun _ => not_offends_name (mt (hseen name).mp hname))
        (ih fun other => by simp [hseen, or_comm])

/-- The items of one member of a module. -/
def memberItems (module : String) (place : Nat) (member : Member) : List Item :=
  .name (.members place) (.module module) member.1 ::
    match member.2 with
    | .formula expr _ => [.expression (module ++ "." ++ member.1) expr]
    | _ => []

theorem items_eq_flatMap_members {m : ModuleSource} {place : Nat} :
    m.items place = m.members.flatMap (memberItems m.name place) := by
  rw [ModuleSource.items, ModuleSource.members, List.flatMap_append, List.flatMap_map,
    List.flatMap_map]
  congr 1
  exact List.map_eq_flatMap

theorem scans_memberError? {module : String} {place : Nat}
    (hseen : ∀ name, Item.name (.members place) (.module module) name ∈ before ↔ name ∈ seen) :
    Scans before (members.flatMap (memberItems module place))
      (memberError? module seen members) := by
  induction members generalizing before seen with
  | nil => exact .nil
  | cons member rest ih =>
    obtain ⟨name, kind⟩ := member
    rw [memberError?_cons, List.flatMap_cons, memberItems, List.cons_append]
    by_cases hname : name ∈ seen
    · rw [if_pos hname]
      exact .offence (.repeated ((hseen name).mpr hname))
    · rw [if_neg hname]
      refine .pass (fun _ => not_offends_name (mt (hseen name).mp hname)) ?_
      cases kind with
      | formula expr exported =>
        cases hflaw : expr.flaw? with
        | some flaw =>
          rw [flawOf, hflaw]
          exact .offence (.flawed hflaw)
        | none =>
          rw [flawOf, hflaw]
          exact .pass (fun _ => not_offends_expression hflaw)
            (ih fun other => by simp [hseen, or_comm])
      | _ => exact ih fun other => by simp [hseen, or_comm]

theorem name_mem_items {m : ModuleSource} {place : Nat} {space : NameSpace} {scope : ScopeLabel}
    {name : String} (h : .name space scope name ∈ m.items place) : space = .members place := by
  rw [items_eq_flatMap_members] at h
  obtain ⟨⟨other, kind⟩, -, hmem⟩ := List.mem_flatMap.mp h
  cases kind <;> simp_all [memberItems]

theorem scans_moduleError? {k : Nat}
    (hseen : ∀ name, Item.name .modules .program name ∈ before ↔ name ∈ seen)
    (hfresh : ∀ place scope name, Item.name (.members place) scope name ∈ before → place < k) :
    Scans before
      ((modules.zipIdx k).flatMap fun m => .name .modules .program m.1.name :: m.1.items m.2)
      (moduleError? seen modules) := by
  induction modules generalizing before seen k with
  | nil => exact .nil
  | cons m rest ih =>
    rw [List.zipIdx_cons, List.flatMap_cons, List.cons_append]
    by_cases hname : m.name ∈ seen
    · rw [moduleError?, if_pos hname]
      exact .offence (.repeated ((hseen m.name).mpr hname))
    · rw [moduleError?, if_neg hname]
      refine .pass (fun _ => not_offends_name (mt (hseen m.name).mp hname))
        (.append ?_ (ih (fun other => ?_) fun place scope other hmem => ?_))
      · -- No member of this module was named before.
        rw [items_eq_flatMap_members]
        refine scans_memberError? fun other => iff_of_false (fun hmem => ?_) List.not_mem_nil
        rcases List.mem_append.mp hmem with hmem | hmem
        · exact absurd (hfresh k _ other hmem) (Nat.lt_irrefl k)
        · simp at hmem
      · rw [List.mem_append, List.mem_append, hseen]
        have hitems : Item.name .modules .program other ∉ m.items k :=
          fun hmem => absurd (name_mem_items hmem) (by simp)
        simp [hitems, or_comm]
      · rcases List.mem_append.mp hmem with hmem | hmem
        · rcases List.mem_append.mp hmem with hmem | hmem
          · exact Nat.lt_succ_of_lt (hfresh place scope other hmem)
          · simp at hmem
        · obtain rfl := NameSpace.members.inj (name_mem_items hmem)
          exact Nat.lt_succ_self place

theorem scans_error? : Scans [] source.items source.error? := by
  have hglobals : Scans []
      (source.arguments.map (fun a => .name .globals .program a.name) ++
        source.constants.map fun c => .name .globals .program c.name)
      (globalError? [] source.globals) := by
    have hscan : Scans [] (source.globals.map fun m => .name .globals .program m.1)
        (globalError? [] source.globals) := scans_globalError? fun _ => by simp
    simpa [globals, Function.comp_def] using hscan
  refine hglobals.append (scans_moduleError? (fun name => ?_) fun place scope name hmem => ?_)
  · simp
  · simp at hmem

end ProgramSource

/-- A formula may have the name of an argument. -/
def ProgramSource.shadowing : ProgramSource :=
  ⟨[⟨"order"⟩], [], [⟨"main", [], [⟨"order", .ident "order", true⟩]⟩]⟩

/-- A source with two formulas of one name, of which the first one cannot be evaluated. -/
def ProgramSource.nameless : ProgramSource :=
  ⟨[], [], [⟨"main", [], [⟨"total", .ident "", true⟩, ⟨"total", .list [], true⟩]⟩]⟩

namespace Program

/-- Lowering lays a source out as it stands if no name and no expression offends. Else it fails, and
the error is that of the first one that does. -/
theorem lower_outcome (source : ProgramSource) :
    (∀ p, lower source = .ok p → p.IsLayoutOf source) ∧
      ((∃ p, lower source = .ok p) ↔ Item.NoneOffend source.items) ∧
      ∀ e, lower source = .error e ↔ Item.FirstOffends source.items e := by
  have hscan : Item.Scans [] source.items source.error? := ProgramSource.scans_error?
  cases herror : source.error? with
  | none =>
    have hlower : lower source = .ok (ofSource source) := by
      rw [lower, herror]
    rw [herror] at hscan
    have hnone := hscan.eq_none_iff.mp rfl
    refine ⟨fun p hp => ?_, iff_of_true ⟨_, hlower⟩ hnone, fun e => ?_⟩
    · obtain rfl := Except.ok.inj (hlower.symm.trans hp)
      exact isLayoutOf_ofSource (ProgramSource.error?_eq_none_iff.mp herror)
    · exact iff_of_false (by simp [hlower]) hnone.not_firstOffends
  | some first =>
    have hlower : lower source = .error first := by
      rw [lower, herror]
    rw [herror] at hscan
    refine ⟨by simp [hlower], iff_of_false (by simp [hlower]) fun hnone => ?_, fun e => ?_⟩
    · exact hnone.not_firstOffends (hscan.eq_some_iff.mp rfl)
    · rw [hlower, Except.error.injEq, ← hscan.eq_some_iff, Option.some.injEq]

theorem lower_outcome_shadowing : (∃ p, lower .shadowing = .ok p ∧ p.IsLayoutOf .shadowing) ∧
    Item.FirstOffends ProgramSource.nameless.items
      (.invalidExpression "main.total" .emptyIdentifier) := by
  have hlower : lower .shadowing = .ok (ofSource .shadowing) := rfl
  exact ⟨⟨_, hlower, (lower_outcome _).1 _ hlower⟩, ((lower_outcome _).2.2 _).mp rfl⟩

end Program

end FormulaEngine
