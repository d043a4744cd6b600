import FormulaEngine.Proofs.Eval.Endings
import Mathlib.Data.Multiset.Basic
import Mathlib.Logic.Hydra

/-!
# Interleaving

Routines in flight together go on one at a time, by one request to the host each, in an order that
nobody knows beforehand: while the answer to one is on its way, any of the others may go on. In
every order all of them come to an end, and each to one that it can come to alone.
-/

namespace FormulaEngine

variable {σ α : Type} {fs : Functions σ}

namespace Routine

/-- What a routine goes on with after one request, unless it is done. -/
def advance? (fs : Functions σ) : Routine α → σ → Option (Ran σ (Routine α))
  | .done _, _ => none
  | .call function args resume, s =>
    let (reply, s) := fs.call function args s
    some ⟨resume reply, s, (reply.panic? function).toList⟩
  | .start function args resume, s =>
    let (receipt, s) := fs.start function args s
    some ⟨resume receipt, s, (receipt.panic? function).toList⟩
  | .turn rest, s => some ⟨rest, s, []⟩
  | .finish function args resume, s =>
    let (reply, s) := fs.finish function args s
    some ⟨resume reply, s, (reply.panic? function).toList⟩

theorem exists_advance?_or_done (r : Routine α) (s : σ) :
    (∃ ran, r.advance? fs s = some ran) ∨ ∃ a, r = .done a := by
  cases r with
  | done a => exact .inr ⟨a, rfl⟩
  | _ => exact .inl ⟨_, rfl⟩

theorem ends_of_advance? {r : Routine α} {s : σ} {ran : Ran σ (Routine α)} {a : α}
    (h : r.advance? fs s = some ran) (hends : ran.result.Ends fs a) : r.Ends fs a := by
  cases r with
  | done b => exact absurd h (by simp [advance?])
  | turn rest =>
    obtain rfl := Option.some.inj h
    exact hends
  | _ =>
    obtain rfl := Option.some.inj h
    exact ⟨s, hends⟩

/-- A routine may go on with another after one request. -/
def Next (fs : Functions σ) (next r : Routine α) : Prop :=
  ∃ s ran, r.advance? fs s = some ran ∧ ran.result = next

/-- A routine has only finitely many requests left, whatever the answers are. -/
theorem wellFounded_next : WellFounded (Next fs : Routine α → Routine α → Prop) := by
  constructor
  intro r
  induction r with
  | done a =>
    constructor
    rintro next ⟨s, ran, h, rfl⟩
    exact absurd h (by simp [advance?])
  | turn rest ih =>
    constructor
    rintro next ⟨s, ran, h, rfl⟩
    obtain rfl := Option.some.inj h
    exact ih
  | call function args resume ih | start function args resume ih
  | finish function args resume ih =>
    constructor
    rintro next ⟨s, ran, h, rfl⟩
    obtain rfl := Option.some.inj h
    exact ih _

end Routine

/-- Routines that run together, and how far they have come. -/
structure Flight (σ α : Type) where
  routines : List (Routine α)
  host : σ
  panics : List Panic

namespace Flight

variable {fl fl' : Flight σ α} {results : List α}

/-- Any one of the routines makes a request, and the others stay as they are. -/
inductive Step (fs : Functions σ) : Flight σ α → Flight σ α → Prop where
  | advance {front back : List (Routine α)} {r : Routine α} {host : σ} {panics : List Panic}
      {ran : Ran σ (Routine α)} (h : r.advance? fs host = some ran) :
    Step fs ⟨front ++ r :: back, host, panics⟩
      ⟨front ++ ran.result :: back, ran.host, panics ++ ran.panics⟩

/-- All routines are done, with the given results. -/
def HasLanded (fl : Flight σ α) (results : List α) : Prop := fl.routines = results.map .done

/-- What one request leads to can be come to from before it. -/
theorem forall₂_ends_of_step (h : Step fs fl fl')
    (hends : List.Forall₂ (fun r a => r.Ends fs a) fl'.routines results) :
    List.Forall₂ (fun r a => r.Ends fs a) fl.routines results := by
  obtain ⟨hrequest⟩ := h
  rename_i front back r host panics ran
  change List.Forall₂ _ (front ++ ran.result :: back) results at hends
  change List.Forall₂ _ (front ++ r :: back) results
  induction front generalizing results with
  | nil =>
    obtain _ | ⟨hresult, hback⟩ := hends
    exact .cons (Routine.ends_of_advance? hrequest hresult) hback
  | cons first front ih =>
    obtain _ | ⟨hfirst, hrest⟩ := hends
    exact .cons hfirst (ih hrest)

theorem HasLanded.forall₂_ends (h : fl.HasLanded results) :
    List.Forall₂ (fun r a => r.Ends fs a) fl.routines results := by
  unfold HasLanded at h
  rw [h, List.forall₂_map_left_iff]
  exact List.forall₂_same.mpr fun _ _ => rfl

/-- In whatever order the routines have gone on, each has come to what it can come to alone. -/
theorem forall₂_ends_of_landed (h : Relation.ReflTransGen (Step fs) fl fl')
    (hlanded : fl'.HasLanded results) :
    List.Forall₂ (fun r a => r.Ends fs a) fl.routines results := by
  induction h using Relation.ReflTransGen.head_induction_on with
  | refl => exact hlanded.forall₂_ends
  | head hstep _ ih => exact forall₂_ends_of_step hstep ih

/-- As long as not all are done, one of them can go on. -/
theorem exists_step_or_landed (fl : Flight σ α) :
    (∃ fl', Step fs fl fl') ∨ ∃ results, fl.HasLanded results := by
  obtain ⟨routines, host, panics⟩ := fl
  by_cases hall : ∀ r ∈ routines, ∃ a, Routine.done a = r
  · right
    have hrange : routines ∈ Set.range (List.map Routine.done) := by
      rw [Set.range_list_map]
      exact hall
    obtain ⟨results, hresults⟩ := hrange
    exact ⟨results, hresults.symm⟩
  · left
    push Not at hall
    obtain ⟨r, hr, hnot⟩ := hall
    obtain ⟨front, back, rfl⟩ := List.append_of_mem hr
    rcases r.exists_advance?_or_done host with ⟨ran, h⟩ | ⟨a, rfl⟩
    · exact ⟨_, .advance h⟩
    · exact absurd rfl (hnot a)

/-- In no order do routines go on forever. -/
theorem wellFounded_step : WellFounded fun fl' fl : Flight σ α => Step fs fl fl' := by
  have hrequests := (Routine.wellFounded_next : WellFounded (Routine.Next fs (α := α))).cutExpand
  refine Subrelation.wf ?_
    (InvImage.wf (fun fl : Flight σ α => (fl.routines : Multiset (Routine α))) hrequests)
  rintro _ _ ⟨h⟩
  rename_i front back r host panics ran
  refine ⟨{ran.result}, r, ?_, ?_⟩
  · intro next hnext
    obtain rfl := Multiset.mem_singleton.mp hnext
    exact ⟨host, ran, h, rfl⟩
  · change ((front ++ ran.result :: back : List _) : Multiset _) + {r} =
      ((front ++ r :: back : List _) : Multiset _) + {ran.result}
    simp only [← Multiset.coe_add, ← Multiset.cons_coe, ← Multiset.singleton_add]
    ac_rfl

theorem exists_landing (fl : Flight σ α) :
    ∃ fl' results, Relation.ReflTransGen (Step fs) fl fl' ∧ fl'.HasLanded results := by
  induction fl using (wellFounded_step : WellFounded fun fl' fl => Step fs fl fl').induction with
  | h fl ih =>
    rcases exists_step_or_landed fl with ⟨fl', hstep⟩ | ⟨results, hlanded⟩
    · obtain ⟨last, results, hlater, hlanded⟩ := ih fl' hstep
      exact ⟨last, results, .head hstep hlater, hlanded⟩
    · exact ⟨fl, results, .refl, hlanded⟩

end Flight

end FormulaEngine
