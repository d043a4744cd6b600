import FormulaEngine.Eval.Evaluator
import Mathlib.Data.List.Forall2

/-!
# Endings of routines

What a routine can come to does not depend on who runs beside it: together, routines only change
which states of the host their requests meet. So whatever is true of each ending of a routine is
true of its result in every run.
-/

namespace FormulaEngine

namespace Routine

variable {σ α β γ : Type} {fs : Functions σ}

/-- A routine can come to a result, where each request may meet any state of the host. -/
def Ends (fs : Functions σ) : Routine α → α → Prop
  | .done a, b => a = b
  | .call function args resume, b => ∃ s, Ends fs (resume (fs.call function args s).1) b
  | .start function args resume, b => ∃ s, Ends fs (resume (fs.start function args s).1) b
  | .turn rest, b => Ends fs rest b
  | .finish function args resume, b => ∃ s, Ends fs (resume (fs.finish function args s).1) b

theorem ends_bind_iff {r : Routine α} {f : α → Routine β} {b : β} :
    (r.bind f).Ends fs b ↔ ∃ a, r.Ends fs a ∧ (f a).Ends fs b := by
  induction r with
  | done a => simp [bind, Ends]
  | call function args resume ih =>
    simp only [bind, Ends, ih]
    rw [exists_comm]
    simp only [exists_and_right]
  | start function args resume ih =>
    simp only [bind, Ends, ih]
    rw [exists_comm]
    simp only [exists_and_right]
  | turn rest ih => exact ih
  | finish function args resume ih =>
    simp only [bind, Ends, ih]
    rw [exists_comm]
    simp only [exists_and_right]

theorem ends_wait_iff {turns : Nat} {r : Routine α} {a : α} :
    (wait turns r).Ends fs a ↔ r.Ends fs a := by
  induction turns with
  | zero => rfl
  | succ turns ih => exact ih

theorem ends_run (r : Routine α) (s : σ) : r.Ends fs (r.run fs s).result := by
  induction r generalizing s with
  | done a => rfl
  | call function args resume ih => exact ⟨s, ih _ _⟩
  | start function args resume ih => exact ⟨s, ih _ _⟩
  | turn rest ih => exact ih s
  | finish function args resume ih => exact ⟨s, ih _ _⟩

/-! ### Routines together -/

/-- Within a round, the second routine comes to its end or to its turn. -/
theorem ends_secondHalf {next : Routine β → Routine γ} {last : β → Routine γ} {r : Routine β}
    {c : γ} (h : (secondHalf next last r).Ends fs c) :
    (∃ b, r.Ends fs b ∧ (last b).Ends fs c) ∨
      ∃ rest, (∀ b, rest.Ends fs b → r.Ends fs b) ∧ (next rest).Ends fs c := by
  induction r with
  | done b => exact .inl ⟨b, rfl, h⟩
  | call function args resume ih =>
    obtain ⟨s, h⟩ := h
    rcases ih _ h with ⟨b, hb, hlast⟩ | ⟨rest, hrest, hnext⟩
    · exact .inl ⟨b, ⟨s, hb⟩, hlast⟩
    · exact .inr ⟨rest, fun b hb => ⟨s, hrest b hb⟩, hnext⟩
  | start function args resume ih =>
    obtain ⟨s, h⟩ := h
    rcases ih _ h with ⟨b, hb, hlast⟩ | ⟨rest, hrest, hnext⟩
    · exact .inl ⟨b, ⟨s, hb⟩, hlast⟩
    · exact .inr ⟨rest, fun b hb => ⟨s, hrest b hb⟩, hnext⟩
  | turn rest => exact .inr ⟨rest, fun _ hb => hb, h⟩
  | finish function args resume ih =>
    obtain ⟨s, h⟩ := h
    rcases ih _ h with ⟨b, hb, hlast⟩ | ⟨rest, hrest, hnext⟩
    · exact .inl ⟨b, ⟨s, hb⟩, hlast⟩
    · exact .inr ⟨rest, fun b hb => ⟨s, hrest b hb⟩, hnext⟩

theorem ends_join {r : Routine α} {r' : Routine β} {c : α × β} (h : (join r r').Ends fs c) :
    r.Ends fs c.1 ∧ r'.Ends fs c.2 := by
  induction r generalizing r' with
  | done a =>
    obtain ⟨b, hb, hc⟩ := ends_bind_iff.mp h
    obtain rfl : (a, b) = c := hc
    exact ⟨rfl, hb⟩
  | call function args resume ih =>
    obtain ⟨s, h⟩ := h
    exact ⟨⟨s, (ih _ h).1⟩, (ih _ h).2⟩
  | start function args resume ih =>
    obtain ⟨s, h⟩ := h
    exact ⟨⟨s, (ih _ h).1⟩, (ih _ h).2⟩
  | turn rest ih =>
    rcases ends_secondHalf h with ⟨b, hb, hlast⟩ | ⟨rest', hrest', hnext⟩
    · obtain ⟨a, ha, hc⟩ := ends_bind_iff.mp hlast
      obtain rfl : (a, b) = c := hc
      exact ⟨ha, hb⟩
    · exact ⟨(ih hnext).1, hrest' _ (ih hnext).2⟩
  | finish function args resume ih =>
    obtain ⟨s, h⟩ := h
    exact ⟨⟨s, (ih _ h).1⟩, (ih _ h).2⟩

theorem ends_joinAll {routines : List (Routine α)} {results : List α}
    (h : (joinAll routines).Ends fs results) :
    List.Forall₂ (fun r a => r.Ends fs a) routines results := by
  induction routines generalizing results with
  | nil =>
    obtain rfl : [] = results := h
    exact .nil
  | cons r rest ih =>
    obtain ⟨⟨a, others⟩, hjoin, hcons⟩ := ends_bind_iff.mp h
    obtain rfl : a :: others = results := hcons
    exact .cons (ends_join hjoin).1 (ih (ends_join hjoin).2)

/-- Together, routines come to results that each of them can come to alone. -/
theorem forall₂_run_joinAll {ι : Type} (items : List ι) (f : ι → Routine α) (s : σ) :
    List.Forall₂ (fun x a => (f x).Ends fs a) items
      ((joinAll (items.map f)).run fs s).result :=
  List.forall₂_map_left_iff.mp (ends_joinAll (ends_run _ s))

end Routine

/-! ### Evaluations -/

namespace Evaluation

variable {σ α β : Type} {fs : Functions σ} {function : String} {args : List Value}

/-- A sequence of evaluations ends with the first fault, or as its last part does. -/
theorem ends_bind_iff {x : Evaluation α} {f : α → Evaluation β} {r : Except Fault β} :
    (x >>= f).run.Ends fs r ↔
      (∃ a, x.run.Ends fs (.ok a) ∧ (f a).run.Ends fs r) ∨
        ∃ fault, x.run.Ends fs (.error fault) ∧ r = .error fault := by
  rw [ExceptT.run_bind]
  refine Routine.ends_bind_iff.trans ⟨?_, ?_⟩
  · rintro ⟨first, hfirst, hrest⟩
    cases first with
    | ok a => exact .inl ⟨a, hfirst, hrest⟩
    | error fault => exact .inr ⟨fault, hfirst, Eq.symm hrest⟩
  · rintro (⟨a, hfirst, hrest⟩ | ⟨fault, hfirst, rfl⟩)
    · exact ⟨.ok a, hfirst, hrest⟩
    · exact ⟨.error fault, hfirst, rfl⟩

theorem ends_call_iff {r : Except Fault Value} :
    (call function args).run.Ends fs r ↔ ∃ s, (fs.call function args s).1.toResult function = r :=
  Iff.rfl

/-- A call that is awaited ends with the answer, or with the panic of its start. -/
theorem ends_awaitCall_iff {r : Except Fault Value} :
    (awaitCall function args).run.Ends fs r ↔
      (∃ s t turns, (fs.start function args s).1 = .accepted turns ∧
        (fs.finish function args t).1.toResult function = r) ∨
      ∃ s text, (fs.start function args s).1 = .panic text ∧
        (Reply.panic text).toResult function = r := by
  constructor
  · rintro ⟨s, h⟩
    cases hstart : (fs.start function args s).1 with
    | accepted turns =>
      rw [hstart] at h
      obtain ⟨t, hfinish⟩ := Routine.ends_wait_iff.mp h
      exact .inl ⟨s, t, turns, hstart, hfinish⟩
    | panic text =>
      rw [hstart] at h
      exact .inr ⟨s, text, hstart, h⟩
  · rintro (⟨s, t, turns, hstart, hfinish⟩ | ⟨s, text, hstart, hresult⟩)
    · refine ⟨s, ?_⟩
      rw [hstart]
      exact Routine.ends_wait_iff.mpr ⟨t, hfinish⟩
    · refine ⟨s, ?_⟩
      rw [hstart]
      exact hresult

end Evaluation

end FormulaEngine
