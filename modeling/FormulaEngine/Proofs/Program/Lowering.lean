import FormulaEngine.Program.Lowering
import FormulaEngine.Proofs.Expr.Parts
import Mathlib.Data.List.Nodup

/-!
# Sources that can be lowered

A source is lowered exactly if its names are unique in each scope and no expression has a part that
cannot be evaluated. Otherwise the error is of a repeated name or of such an expression.
-/

namespace FormulaEngine

theorem ModuleSource.map_fst_members (m : ModuleSource) :
    m.members.map Prod.fst = m.imports.map (·.name) ++ m.formulas.map (·.name) := by
  simp [members, Function.comp_def]

namespace ProgramSource

/-- Names are unique in each scope, and every expression can be evaluated. -/
structure Lowerable (p : ProgramSource) : Prop where
  global_names : (p.arguments.map (·.name) ++ p.constants.map (·.name)).Nodup
  module_names : (p.modules.map (·.name)).Nodup
  member_names : ∀ m ∈ p.modules, (m.imports.map (·.name) ++ m.formulas.map (·.name)).Nodup
  formulas : ∀ m ∈ p.modules, ∀ f ∈ m.formulas, ∀ part, f.expr.Contains part → ¬part.Flawed

/-- An error that a source has before its dependencies are looked at. -/
inductive IsLoweringError : CompileError → Prop where
  | duplicate (scope : ScopeLabel) (name : String) :
    IsLoweringError (.duplicateDeclaration scope name)
  | expression (declaration : String) (flaw : Flaw) :
    IsLoweringError (.invalidExpression declaration flaw)

theorem map_fst_globals (p : ProgramSource) :
    p.globals.map Prod.fst = p.arguments.map (·.name) ++ p.constants.map (·.name) := by
  simp [globals, Function.comp_def]

theorem globalError?_eq_none_iff {seen : List String} {members : List Member} :
    globalError? seen members = none ↔
      (members.map Prod.fst).Nodup ∧ ∀ name ∈ members.map Prod.fst, name ∉ seen := by
  induction members generalizing seen with
  | nil => simp [globalError?]
  | cons member rest ih =>
    obtain ⟨name, kind⟩ := member
    by_cases hname : name ∈ seen
    · simp [globalError?, hname]
    · rw [globalError?, if_neg hname, ih, List.map_cons, List.nodup_cons]
      simp only [List.mem_cons, not_or, forall_eq_or_imp]
      constructor
      · rintro ⟨hnodup, hseen⟩
        exact ⟨⟨fun hmem => (hseen name hmem).1 rfl, hnodup⟩, hname,
          fun other hother => (hseen other hother).2⟩
      · rintro ⟨⟨hnotMem, hnodup⟩, -, hseen⟩
        exact ⟨hnodup, fun other hother =>
          ⟨fun heq => hnotMem (heq ▸ hother), hseen other hother⟩⟩

/-- The members of a module are named once each, and their expressions can be evaluated. -/
structure AcceptsMembers (seen : List String) (members : List Member) : Prop where
  nodup : (members.map Prod.fst).Nodup
  unseen : ∀ name ∈ members.map Prod.fst, name ∉ seen
  formulas : ∀ name expr exported, (name, DeclKind.formula expr exported) ∈ members →
    expr.flaw? = none

def flawOf (kind : DeclKind) : Option Flaw :=
  match kind with
  | .formula expr _ => expr.flaw?
  | _ => none

theorem memberError?_cons {module name : String} {kind : DeclKind} {seen : List String}
    {rest : List Member} :
    memberError? module seen ((name, kind) :: rest) =
      if name ∈ seen then some (.duplicateDeclaration (.module module) name)
      else
        match flawOf kind with
        | some flaw => some (.invalidExpression (module ++ "." ++ name) flaw)
        | none => memberError? module (name :: seen) rest := rfl

theorem acceptsMembers_cons_iff {name : String} {kind : DeclKind} {seen : List String}
    {rest : List Member} :
    AcceptsMembers seen ((name, kind) :: rest) ↔
      name ∉ seen ∧ flawOf kind = none ∧ AcceptsMembers (name :: seen) rest := by
  constructor
  · rintro ⟨hnodup, hunseen, hformulas⟩
    rw [List.map_cons, List.nodup_cons] at hnodup
    refine ⟨hunseen name List.mem_cons_self, ?_, hnodup.2, fun other hother => ?_,
      fun other expr exported hmem => hformulas other expr exported (List.mem_cons_of_mem _ hmem)⟩
    · cases kind with
      | formula expr exported => exact hformulas name expr exported List.mem_cons_self
      | _ => rfl
    · rw [List.mem_cons, not_or]
      exact ⟨fun heq => hnodup.1 (heq ▸ hother), hunseen other (List.mem_cons_of_mem _ hother)⟩
  · rintro ⟨hname, hflaw, hnodup, hunseen, hformulas⟩
    refine ⟨List.nodup_cons.mpr ⟨fun hmem => hunseen name hmem List.mem_cons_self, hnodup⟩,
      fun other hother => ?_, fun other expr exported hmem => ?_⟩
    · rcases List.mem_cons.mp hother with rfl | hother
      · exact hname
      · exact fun hmem => hunseen other hother (List.mem_cons_of_mem _ hmem)
    · rcases List.mem_cons.mp hmem with heq | hmem
      · obtain ⟨-, rfl⟩ := Prod.mk.inj heq
        exact hflaw
      · exact hformulas other expr exported hmem

theorem memberError?_eq_none_iff {module : String} {seen : List String} {members : List Member} :
    memberError? module seen members = none ↔ AcceptsMembers seen members := by
  induction members generalizing seen with
  | nil =>
    refine ⟨fun _ => ⟨List.nodup_nil, ?_, ?_⟩, fun _ => rfl⟩
    · exact fun _ h => absurd h List.not_mem_nil
    · exact fun _ _ _ h => absurd h List.not_mem_nil
  | cons member rest ih =>
    obtain ⟨name, kind⟩ := member
    rw [memberError?_cons, acceptsMembers_cons_iff, ← ih]
    by_cases hname : name ∈ seen
    · simp [hname]
    · cases hflaw : flawOf kind <;> simp [hname]

theorem acceptsMembers_iff {m : ModuleSource} :
    AcceptsMembers [] m.members ↔ (m.imports.map (·.name) ++ m.formulas.map (·.name)).Nodup ∧
      ∀ f ∈ m.formulas, ∀ part, f.expr.Contains part → ¬part.Flawed := by
  have hformulas : (∀ name expr exported, (name, DeclKind.formula expr exported) ∈ m.members →
      expr.flaw? = none) ↔ ∀ f ∈ m.formulas, f.expr.flaw? = none := by
    simp only [ModuleSource.members, List.mem_append, List.mem_map, Prod.mk.injEq,
      DeclKind.formula.injEq, reduceCtorEq, and_false, exists_false, false_or]
    constructor
    · exact fun h f hf => h f.name f.expr f.exported ⟨f, hf, rfl, rfl, rfl⟩
    · rintro h name expr exported ⟨f, hf, -, rfl, -⟩
      exact h f hf
  simp only [Expr.flaw?_eq_none_iff] at hformulas
  rw [← ModuleSource.map_fst_members, ← hformulas]
  constructor
  · exact fun h => ⟨h.nodup, fun name expr exported hmem =>
      Expr.flaw?_eq_none_iff.mp (h.formulas name expr exported hmem)⟩
  · exact fun h => ⟨h.1, fun _ _ => List.not_mem_nil, fun name expr exported hmem =>
      Expr.flaw?_eq_none_iff.mpr (h.2 name expr exported hmem)⟩

theorem moduleError?_eq_none_iff {seen : List String} {modules : List ModuleSource} :
    moduleError? seen modules = none ↔
      (modules.map (·.name)).Nodup ∧ (∀ name ∈ modules.map (·.name), name ∉ seen) ∧
        ∀ m ∈ modules, AcceptsMembers [] m.members := by
  induction modules generalizing seen with
  | nil => simp [moduleError?]
  | cons m rest ih =>
    by_cases hname : m.name ∈ seen
    · simp [moduleError?, hname]
    · rw [moduleError?, if_neg hname, Option.or_eq_none_iff, memberError?_eq_none_iff, ih,
        List.map_cons, List.nodup_cons]
      simp only [List.mem_cons, not_or, forall_eq_or_imp]
      constructor
      · rintro ⟨hmembers, hnodup, hseen, hrest⟩
        exact ⟨⟨fun hmem => (hseen m.name hmem).1 rfl, hnodup⟩,
          ⟨hname, fun other hother => (hseen other hother).2⟩, hmembers, hrest⟩
      · rintro ⟨⟨hnotMem, hnodup⟩, ⟨-, hseen⟩, hmembers, hrest⟩
        exact ⟨hmembers, hnodup, fun other hother =>
          ⟨fun heq => hnotMem (heq ▸ hother), hseen other hother⟩, hrest⟩

/-- A source is without errors exactly if it can be lowered. -/
theorem error?_eq_none_iff {p : ProgramSource} : p.error? = none ↔ p.Lowerable := by
  rw [error?, Option.or_eq_none_iff, globalError?_eq_none_iff, moduleError?_eq_none_iff,
    map_fst_globals]
  simp only [acceptsMembers_iff, List.not_mem_nil, not_false_eq_true, implies_true, and_true,
    true_and]
  constructor
  · rintro ⟨hglobals, hmodules, hmembers⟩
    exact ⟨hglobals, hmodules, fun m hm => (hmembers m hm).1, fun m hm => (hmembers m hm).2⟩
  · rintro ⟨hglobals, hmodules, hnames, hformulas⟩
    exact ⟨hglobals, hmodules, fun m hm => ⟨hnames m hm, hformulas m hm⟩⟩

/-! ### The errors -/

theorem isLoweringError_of_globalError? {seen : List String} {members : List Member}
    {e : CompileError} (h : globalError? seen members = some e) : IsLoweringError e := by
  induction members generalizing seen with
  | nil => simp [globalError?] at h
  | cons member rest ih =>
    obtain ⟨name, kind⟩ := member
    by_cases hname : name ∈ seen
    · rw [globalError?, if_pos hname] at h
      obtain rfl := Option.some.inj h
      exact .duplicate _ _
    · rw [globalError?, if_neg hname] at h
      exact ih h

theorem isLoweringError_of_memberError? {module : String} {seen : List String}
    {members : List Member} {e : CompileError} (h : memberError? module seen members = some e) :
    IsLoweringError e := by
  induction members generalizing seen with
  | nil => simp [memberError?] at h
  | cons member rest ih =>
    obtain ⟨name, kind⟩ := member
    rw [memberError?_cons] at h
    by_cases hname : name ∈ seen
    · rw [if_pos hname] at h
      obtain rfl := Option.some.inj h
      exact .duplicate _ _
    · rw [if_neg hname] at h
      cases hflaw : flawOf kind with
      | some flaw =>
        rw [hflaw] at h
        obtain rfl := Option.some.inj h
        exact .expression _ _
      | none =>
        rw [hflaw] at h
        exact ih h

theorem isLoweringError_of_moduleError? {seen : List String} {modules : List ModuleSource}
    {e : CompileError} (h : moduleError? seen modules = some e) : IsLoweringError e := by
  induction modules generalizing seen with
  | nil => simp [moduleError?] at h
  | cons m rest ih =>
    by_cases hname : m.name ∈ seen
    · rw [moduleError?, if_pos hname] at h
      obtain rfl := Option.some.inj h
      exact .duplicate _ _
    · rw [moduleError?, if_neg hname] at h
      rcases Option.or_eq_some_iff.mp h with h | ⟨-, h⟩
      · exact isLoweringError_of_memberError? h
      · exact ih h

theorem isLoweringError_of_error? {p : ProgramSource} {e : CompileError} (h : p.error? = some e) :
    IsLoweringError e := by
  rcases Option.or_eq_some_iff.mp h with h | ⟨-, h⟩
  · exact isLoweringError_of_globalError? h
  · exact isLoweringError_of_moduleError? h

end ProgramSource

namespace Program

theorem lower_of_lowerable {source : ProgramSource} (h : source.Lowerable) :
    lower source = .ok (ofSource source) := by
  unfold lower
  rw [ProgramSource.error?_eq_none_iff.mpr h]

theorem lower_of_not_lowerable {source : ProgramSource} (h : ¬source.Lowerable) :
    ∃ e, lower source = .error e ∧ ProgramSource.IsLoweringError e := by
  cases herror : source.error? with
  | none => exact absurd (ProgramSource.error?_eq_none_iff.mp herror) h
  | some e =>
    refine ⟨e, ?_, ProgramSource.isLoweringError_of_error? herror⟩
    unfold lower
    rw [herror]

theorem lowerable_of_lower {source : ProgramSource} {p : Program} (h : lower source = .ok p) :
    source.Lowerable ∧ p = ofSource source := by
  by_cases hlower : source.Lowerable
  · exact ⟨hlower, Except.ok.inj (h.symm.trans (lower_of_lowerable hlower))⟩
  · obtain ⟨e, he, -⟩ := lower_of_not_lowerable hlower
    exact absurd (he.symm.trans h) (by simp)

end Program

end FormulaEngine
