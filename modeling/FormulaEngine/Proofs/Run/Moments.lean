import FormulaEngine.Run.Orchestration
import Mathlib.Data.List.Forall2

/-!
# Moments of a run

The journal of a run tells what the slots were at each moment: what it settled until then has been
put into the slots that the run began with. So what is true at every moment of a run is true of
every way to cut its journal in two.
-/

namespace FormulaEngine

namespace Slots

def after (s : Slots) : Entry → Slots
  | .stepSettled _ id o => s.insert id o
  | _ => s

def replay (s : Slots) (entries : List Entry) : Slots := entries.foldl after s

theorem replay_append {s : Slots} {front rest : List Entry} :
    s.replay (front ++ rest) = (s.replay front).replay rest := List.foldl_append

/-- Only what is settled changes the slots. -/
theorem replay_of_forall {s : Slots} {entries : List Entry}
    (h : ∀ e ∈ entries, ∀ step id o, e ≠ .stepSettled step id o) : s.replay entries = s := by
  induction entries with
  | nil => rfl
  | cons e rest ih =>
    have hrest : s.replay rest = s := ih fun e he => h e (List.mem_cons_of_mem _ he)
    cases e with
    | stepSettled step id o => exact absurd rfl (h _ List.mem_cons_self step id o)
    | _ => exact hrest

/-- Something is true of the slots at every moment that a journal tells of, its end included. -/
def Always (P : Slots → Prop) (s : Slots) (journal : List Entry) : Prop :=
  ∀ before, before <+: journal → P (s.replay before)

theorem Always.concat {P : Slots → Prop} {s : Slots} {journal : List Entry} {e : Entry}
    (h : Always P s journal) (he : P ((s.replay journal).after e)) :
    Always P s (journal ++ [e]) := by
  intro before hbefore
  rcases List.prefix_concat_iff.mp hbefore with rfl | hbefore
  · rw [replay_append]
    exact he
  · exact h before hbefore

theorem Always.replay {P : Slots → Prop} {s : Slots} {journal : List Entry}
    (h : Always P s journal) : P (s.replay journal) := h journal List.prefix_rfl

/-- Filling an empty slot leaves what is filled. -/
theorem get?_insert_of_some {s : Slots} {id u : DeclId} {o o' : Outcome}
    (hempty : s.get? id = none) (hu : s.get? u = some o) : (s.insert id o').get? u = some o := by
  have hne : u ≠ id := by
    intro heq
    rw [heq, hempty] at hu
    exact absurd hu (by simp)
  rw [get?_insert_of_ne s hne, hu]

theorem get?_insert_eq_some {s : Slots} {id u : DeclId} {o o' : Outcome}
    (h : (s.insert id o').get? u = some o) : u = id ∧ o = o' ∨ u ≠ id ∧ s.get? u = some o := by
  by_cases heq : u = id
  · subst heq
    rw [get?_insert_self] at h
    exact .inl ⟨rfl, (Option.some.inj h).symm⟩
  · rw [get?_insert_of_ne s heq] at h
    exact .inr ⟨heq, h⟩

end Slots

/-- Something is true at each entry of a journal, given the entries before it. -/
def AllMoments (P : List Entry → Entry → Prop) (journal : List Entry) : Prop :=
  ∀ before e after, journal = before ++ e :: after → P before e

namespace AllMoments

variable {P : List Entry → Entry → Prop} {journal entries : List Entry}

theorem append (h : AllMoments P journal)
    (hentries : AllMoments (fun before e => P (journal ++ before) e) entries) :
    AllMoments P (journal ++ entries) := by
  intro before e after hsplit
  rcases List.append_eq_append_iff.mp hsplit with ⟨front, rfl, hrest⟩ | ⟨rest, rfl, hrest⟩
  · exact hentries front e after hrest
  · cases rest with
    | nil =>
      have hbefore := hentries [] e after (by simpa using hrest.symm)
      simpa using hbefore
    | cons e' rest =>
      obtain ⟨rfl, -⟩ := List.cons.inj hrest
      exact h before e rest rfl

theorem of_forall (h : ∀ before, ∀ e ∈ entries, P before e) : AllMoments P entries := by
  rintro before e after rfl
  exact h before e (by simp)

end AllMoments

namespace Compilation

variable {σ : Type} {c : Compilation}

/-! ### The beginning -/

/-- The outcome that a declaration has before a run. -/
def given (arguments : List (String × Value)) (d : Declaration) : Option Outcome :=
  match d.kind with
  | .argument => some (.value ((Fields.get? arguments d.name).getD .null))
  | .constant v => some (.value v)
  | _ => none

theorem get?_seed {arguments : List (String × Value)} {id : DeclId} :
    (c.seed arguments).get? id = (c.program.declaration? id).bind (given arguments) := by
  simp only [Slots.get?, seed, List.getElem?_map, Program.declaration?]
  cases c.program.declarations[id]? <;> rfl

theorem isSome_given_iff {arguments : List (String × Value)} {d : Declaration} :
    (given arguments d).isSome ↔ d.isVertex = false := by
  unfold given Declaration.isVertex
  cases d.kind <;> simp

theorem isValue_of_given {arguments : List (String × Value)} {d : Declaration} {o : Outcome}
    (h : given arguments d = some o) : ∃ v, o = .value v := by
  unfold given at h
  split at h
  · exact ⟨_, (Option.some.inj h).symm⟩
  · exact ⟨_, (Option.some.inj h).symm⟩
  · exact absurd h (by simp)

theorem exists_value_of_get?_seed {arguments : List (String × Value)} {id : DeclId} {o : Outcome}
    (h : (c.seed arguments).get? id = some o) : ∃ v, o = .value v := by
  obtain ⟨d, -, hgiven⟩ := Option.bind_eq_some_iff.mp (get?_seed.symm.trans h)
  exact isValue_of_given hgiven

theorem exists_ignoredArgument_of_mem_start {arguments : List (String × Value)} {host : σ}
    {e : Entry} (h : e ∈ (c.start arguments host).journal) : ∃ name, e = .ignoredArgument name := by
  obtain ⟨name, -, rfl⟩ := List.mem_map.mp h
  exact ⟨name, rfl⟩

/-! ### Settling -/

/-- Settling steps together is settling them one after the other. -/
theorem settleAll_induction {Inv : List (StepId × Declaration) → Progress σ → Prop}
    {P : StepId × Declaration → Except Fault Value → Prop}
    {steps : List (StepId × Declaration)} {results : List (Except Fault Value)}
    (hsettle : ∀ before x after r pr, steps = before ++ x :: after → P x r → Inv before pr →
      Inv (before ++ [x]) (pr.settle c.failFast x.1 x.2.id r))
    (hresults : List.Forall₂ P steps results) {pr : Progress σ} (hpr : Inv [] pr) :
    Inv steps (c.settleAll steps results pr) := by
  suffices hrest : ∀ before rest results, steps = before ++ rest → List.Forall₂ P rest results →
      ∀ pr, Inv before pr → Inv steps (c.settleAll rest results pr) from
    hrest [] steps results rfl hresults pr hpr
  intro before rest results hsplit hresults
  induction hresults generalizing before with
  | nil =>
    intro pr hpr
    rw [List.append_nil] at hsplit
    exact hsplit ▸ hpr
  | @cons x r rest results hx _ ih =>
    intro pr hpr
    exact ih (before ++ [x]) (by rw [hsplit, List.append_assoc]; rfl) _
      (hsettle before x rest r pr hsplit hx hpr)

end Compilation

end FormulaEngine
