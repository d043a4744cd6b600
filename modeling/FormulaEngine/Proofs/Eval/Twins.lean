import FormulaEngine.Proofs.Eval.Frame
import FormulaEngine.Proofs.Program.Parts

/-!
# Evaluating twins

A declaration of a part is evaluated in the whole as it is in the part, if the slots that it reads
and the modules that it imports are.
-/

namespace FormulaEngine

theorem Evaluation.ofResult_map {α β : Type} (f : α → β) (r : Except Fault α) :
    Evaluation.ofResult (r.map f) = Evaluation.ofResult r >>= fun a => pure (f a) := by
  cases r <;> rfl

namespace Evaluator

variable {R : ∀ {α : Type}, Evaluation α → Evaluation α → Prop} {ev ev' : Evaluator}
  {d d' : Declaration} {path : List String} {kind : ImportKind}

/-- Two evaluators look at a program and at one of which it is part, from modules of the same
name. -/
structure IsWithin (ev ev' : Evaluator) : Prop where
  wellFormed : ev.program.WellFormed
  wellFormed' : ev'.program.WellFormed
  scopes_eq : ev.scopes = .ofProgram ev.program
  scopes_eq' : ev'.scopes = .ofProgram ev'.program
  isPartOf : ev.program.IsPartOf ev'.program
  module : ∃ j j' m m', ev.module = some j ∧ ev'.module = some j' ∧ ev.program.module? j = some m ∧
    ev'.program.module? j' = some m' ∧ m.name = m'.name

theorem IsWithin.resolve (h : ev.IsWithin ev') (name : String) :
    Option.Rel (ev.program.Twins ev'.program) (ev.scopes.resolve ev.module name)
      (ev'.scopes.resolve ev'.module name) := by
  obtain ⟨j, j', m, m', hj, hj', hm, hm', hname⟩ := h.module
  rw [h.scopes_eq, h.scopes_eq', hj, hj']
  exact h.isPartOf.resolve h.wellFormed h.wellFormed' hm hm' hname name

theorem findFormula?_eq_some_iff_description (hp : ev.program.WellFormed) {module name : String}
    {u : DeclId} : ev.findFormula? module name = some u ↔ ∃ x, ev.program.description? u = some x ∧
      x.module = some module ∧ x.name = name ∧
        ∃ expr exported, x.kind = .formula expr exported := by
  rw [findFormula?_eq_some_iff hp]
  simp only [Declaration.isFormula_iff]
  constructor
  · rintro ⟨j, m, e, hm, rfl, he, hin, hname, hkind⟩
    exact ⟨_, Program.description?_of_member he hin hm, rfl, hname, hkind⟩
  · rintro ⟨x, hx, hmodule, hname, hkind⟩
    obtain ⟨j, m, hm, rfl⟩ := Program.hasModule_iff.mp (hp.hasModule_of_member hx hmodule)
    obtain ⟨e, he, hin, hname, hkind⟩ := (hp.exists_member_iff hm
      (Q := fun other kind => other = name ∧ ∃ expr exported, kind = .formula expr exported)).mpr
        ⟨x, hx, hmodule, hname, hkind⟩
    exact ⟨j, m, e, hm, rfl, he, hin, hname, hkind⟩

theorem findGlobal?_eq_some_iff_description (hp : ev.program.WellFormed)
    (hscopes : ev.scopes = .ofProgram ev.program) {name : String} {fits : DeclKind → Bool}
    {u : DeclId} : ev.findGlobal? name fits = some u ↔ ∃ x, ev.program.description? u = some x ∧
      x.module = none ∧ x.name = name ∧ fits x.kind := by
  rw [findGlobal?_eq_some_iff, hscopes, Program.local?_program_iff hp]
  constructor
  · rintro ⟨⟨e, he, hglobal, hname⟩, e', he', hfits⟩
    obtain rfl := Option.some.inj (he.symm.trans he')
    exact ⟨_, Program.description?_of_global he hglobal, rfl, hname, hfits⟩
  · rintro ⟨x, hx, hmodule, hname, hfits⟩
    obtain ⟨e, he, hglobal, hname, hfits⟩ := (hp.exists_global_iff
      (Q := fun other kind => other = name ∧ fits kind)).mpr ⟨x, hx, hmodule, hname, hfits⟩
    exact ⟨⟨e, he, hglobal, hname⟩, e, he, hfits⟩

/-- A module that the part imports from is there in both programs, or in none. -/
theorem IsWithin.hasModule_iff (h : ev.IsWithin ev') {x : Description} {module : String}
    (hx : ev.program.Declares x) (hkind : x.kind = .imported path kind)
    (hof : kind = .formula ∨ kind = .module) (hhead : path.head? = some module) :
    ev.program.HasModule module ↔ ev'.program.HasModule module :=
  ⟨h.isPartOf.hasModule module, h.isPartOf.imports x path kind module hx hkind hof hhead⟩

theorem IsWithin.findFormula? (h : ev.IsWithin ev') {x : Description} {module name : String}
    (hx : ev.program.Declares x) (hkind : x.kind = .imported [module, name] .formula) :
    Option.Rel (ev.program.Twins ev'.program) (ev.findFormula? module name)
      (ev'.findFormula? module name) := by
  have hmodule := h.hasModule_iff hx hkind (.inl rfl) (@List.head?_cons _ module [name])
  refine Program.rel_twins (fun _ => findFormula?_eq_some_iff_description h.wellFormed)
    (fun _ => findFormula?_eq_some_iff_description h.wellFormed') fun y hy => ?_
  refine ⟨h.isPartOf.declares y, fun hdeclared => ?_⟩
  obtain ⟨u', hu'⟩ := hdeclared
  exact h.isPartOf.members y module hy.1
    (hmodule.mpr (h.wellFormed'.hasModule_of_member hu' hy.1)) ⟨u', hu'⟩

theorem IsWithin.findGlobal? (h : ev.IsWithin ev') (name : String) (fits : DeclKind → Bool) :
    Option.Rel (ev.program.Twins ev'.program) (ev.findGlobal? name fits)
      (ev'.findGlobal? name fits) :=
  Program.rel_twins (fun _ => findGlobal?_eq_some_iff_description h.wellFormed h.scopes_eq)
    (fun _ => findGlobal?_eq_some_iff_description h.wellFormed' h.scopes_eq')
    fun y hy => ⟨h.isPartOf.declares y, h.isPartOf.globals y hy.1⟩

/-- What a declaration finds in two programs is related: the slots of twins, and the exports of
modules of the same name. So are the calls. -/
structure FindsAlike (R : ∀ {α : Type}, Evaluation α → Evaluation α → Prop) (ev ev' : Evaluator)
    (d : Declaration) : Prop where
  slot : ∀ u u', ev.Reads d u → ev.program.Twins ev'.program u u' →
    R (Evaluation.ofResult (ev.readSlot u)) (Evaluation.ofResult (ev'.readSlot u'))
  exports : ∀ module m m', d.kind = .imported [module] .module →
    ev.program.moduleNamed? module = some m → ev'.program.moduleNamed? module = some m' →
      R (Evaluation.ofResult (ev.readExports m)) (Evaluation.ofResult (ev'.readExports m'))
  invoke : ∀ function vs, R (ev.invoke function vs) (ev'.invoke function vs)
  await : ∀ function vs, R (ev.invokeAwaited function vs) (ev'.invokeAwaited function vs)
  raise : ∀ e, R (Evaluation.raise e : Evaluation Value) (Evaluation.raise e)

section

variable (hR : Evaluation.IsCongruence R)

theorem FindsAlike.readFound (hfinds : FindsAlike R ev ev' d) {found found' : Option DeclId}
    (hrel : Option.Rel (ev.program.Twins ev'.program) found found')
    (hreads : ∀ u, found = some u → ev.Reads d u) :
    R (Evaluation.ofResult (ev.readFound path found))
      (Evaluation.ofResult (ev'.readFound path found')) := by
  cases hrel with
  | some htwins => exact hfinds.slot _ _ (hreads _ rfl) htwins
  | none => exact hfinds.raise _

theorem FindsAlike.read (hfinds : FindsAlike R ev ev' d) (h : ev.IsWithin ev') {name : String}
    (hreads : ∀ u, ev.scopes.resolve ev.module name = some u → ev.Reads d u) :
    R (Evaluation.ofResult (ev.read name)) (Evaluation.ofResult (ev'.read name)) := by
  have hrel := h.resolve name
  unfold Evaluator.read
  revert hrel hreads
  generalize ev.scopes.resolve ev.module name = found
  generalize ev'.scopes.resolve ev'.module name = found'
  intro hreads hrel
  cases hrel with
  | some htwins => exact hfinds.slot _ _ (hreads _ rfl) htwins
  | none => exact hfinds.raise _

theorem FindsAlike.importValue (hfinds : FindsAlike R ev ev' d) (h : ev.IsWithin ev')
    (hd : ev.program.declaration? d.id = some d) (hkind : d.kind = .imported path kind) :
    R (Evaluation.ofResult (ev.importValue path kind))
      (Evaluation.ofResult (ev'.importValue path kind)) := by
  obtain ⟨x, hx, -, hxkind⟩ := Program.exists_description? hd
  have hxkind := hxkind.trans hkind
  have hdeclared : ev.program.Declares x := ⟨d.id, hx⟩
  unfold Evaluator.importValue
  split
  case h_1 module name =>
    exact hfinds.readFound (h.findFormula? hdeclared hxkind) fun u hu => .formula hkind hu
  case h_2 module =>
    have hmodule := h.hasModule_iff hdeclared hxkind (.inr rfl) (@List.head?_cons _ module [])
    rw [← h.wellFormed.exists_moduleNamed?_iff, ← h.wellFormed'.exists_moduleNamed?_iff] at hmodule
    cases hm : ev.program.moduleNamed? module with
    | some m =>
      obtain ⟨m', hm'⟩ := hmodule.mp ⟨m, hm⟩
      rw [hm']
      exact hfinds.exports module m m' hkind hm hm'
    | none =>
      cases hm' : ev'.program.moduleNamed? module with
      | none => exact hfinds.raise _
      | some m' =>
        obtain ⟨m, hsome⟩ := hmodule.mpr ⟨m', hm'⟩
        exact absurd (hm.symm.trans hsome) (by simp)
  case h_3 name =>
    exact hfinds.readFound (h.findGlobal? name _) fun u hu => .argument hkind hu
  case h_4 name =>
    exact hfinds.readFound (h.findGlobal? name _) fun u hu => .constant hkind hu
  case h_5 => exact hfinds.raise _

include hR

theorem FindsAlike.probe (hfinds : FindsAlike R ev ev' d) (h : ev.IsWithin ev') {path : Path}
    (hreads : ∀ u, ev.scopes.resolve ev.module path.root = some u → ev.Reads d u) :
    R (Evaluation.ofResult (ev.probe path)) (Evaluation.ofResult (ev'.probe path)) := by
  have hrel := h.resolve path.root
  unfold Evaluator.probe
  revert hrel hreads
  generalize ev.scopes.resolve ev.module path.root = found
  generalize ev'.scopes.resolve ev'.module path.root = found'
  intro hreads hrel
  cases hrel with
  | some htwins =>
    simp only [Evaluation.ofResult_map]
    exact hR.bind (hfinds.slot _ _ (hreads _ rfl) htwins) fun v => hR.pure _
  | none => exact hR.pure none

/-- The evaluations of two declarations of one kind are related if what they find is. -/
theorem FindsAlike.run (hfinds : FindsAlike R ev ev' d) (h : ev.IsWithin ev')
    (hd : ev.program.declaration? d.id = some d) (hvertex : d.isVertex)
    (hkinds : d.kind = d'.kind) (mode : Mode) : R (ev.run mode d) (ev'.run mode d') := by
  have hsame : ev'.run mode d' = ev'.run mode d := by
    unfold Evaluator.run
    unfold Declaration.isVertex at hvertex
    rw [← hkinds]
    cases hkind : d.kind with
    | formula expr exported | imported path kind => rfl
    | argument | constant v => simp [hkind] at hvertex
  rw [hsame]
  refine run_related hR (fun expr exported hkind => ?_) (fun path kind hkind => ?_) ?_
  · exact {
      read name hname := hfinds.read h fun u hu => .name hkind hname hu
      probe path hpath := hfinds.probe hR h fun u hu => .name hkind hpath hu
      invoke function args vs _ := hfinds.invoke function vs
      mode_eq _ _ := rfl
      await function args vs _ := hfinds.await function vs
      internal _ _ := .inr fun _ => hfinds.raise _ }
  · exact hfinds.importValue h hd hkind
  · intro hglobal
    exact absurd hvertex (by simp [hglobal])

end

end Evaluator

end FormulaEngine
