import FormulaEngine.Plan.Group
import Mathlib.Data.List.Basic

/-!
# Merging groups

A group takes up the next one only while it has no asynchronous step, so merging keeps all steps in
their order and never moves one ahead of an asynchronous step. That is why it keeps groups safe: a
step that nothing in front of it reads is still one after the merge.
-/

namespace FormulaEngine.StepGroup

variable {dep : StepId → StepId → Prop} {g h pending : StepGroup} {groups : List StepGroup}

theorem isEmpty_iff : g.isEmpty ↔ g = empty := by
  obtain ⟨synchronous, asynchronous⟩ := g
  simp [isEmpty, steps, empty, List.isEmpty_iff]

theorem isAsynchronous_eq_false_iff : g.isAsynchronous = false ↔ g.asynchronous = [] := by
  simp [isAsynchronous, List.isEmpty_iff]

theorem asynchronous_absorb (hg : g.isAsynchronous = false) :
    (g.absorb h).asynchronous = h.asynchronous := by
  simp [absorb, isAsynchronous_eq_false_iff.mp hg]

theorem steps_absorb (hg : g.isAsynchronous = false) : (g.absorb h).steps = g.steps ++ h.steps := by
  simp [absorb, steps, isAsynchronous_eq_false_iff.mp hg]

/-! ### What merging keeps -/

/-- Whatever is listed group by group stays the same list, if the empty group adds nothing to it
and taking up a group appends. -/
theorem flatMap_mergeInto {α : Type} {f : StepGroup → List α} (hempty : f empty = [])
    (habsorb : ∀ g h : StepGroup, g.isAsynchronous = false → f (g.absorb h) = f g ++ f h) :
    (mergeInto pending groups).flatMap f = f pending ++ groups.flatMap f := by
  induction groups generalizing pending with
  | nil =>
    rw [mergeInto]
    split
    case isTrue hpending => simp [isEmpty_iff.mp hpending, hempty]
    case isFalse => simp
  | cons g rest ih =>
    rw [mergeInto]
    split
    case isTrue => rw [List.flatMap_cons, ih, List.flatMap_cons]
    case isFalse hpending =>
      rw [ih, habsorb _ _ (by simpa using hpending), List.flatMap_cons, List.append_assoc]

theorem flatMap_filter_nonempty {α : Type} {f : StepGroup → List α} (hempty : f empty = []) :
    (groups.filter fun g => !g.isEmpty).flatMap f = groups.flatMap f := by
  induction groups with
  | nil => rfl
  | cons g rest ih =>
    by_cases hg : g.isEmpty
    · rw [List.filter_cons_of_neg (by simp [hg]), ih, List.flatMap_cons, isEmpty_iff.mp hg, hempty,
        List.nil_append]
    · simp [hg, ih]

theorem flatMap_merge {α : Type} {f : StepGroup → List α} (hempty : f empty = [])
    (habsorb : ∀ g h : StepGroup, g.isAsynchronous = false → f (g.absorb h) = f g ++ f h) :
    (merge groups).flatMap f = groups.flatMap f := by
  rw [merge, flatMap_mergeInto hempty habsorb, hempty, List.nil_append,
    flatMap_filter_nonempty hempty]

/-- No group is empty after merging into one. -/
theorem not_isEmpty_of_mem_mergeInto (hgroups : ∀ g ∈ groups, g.isEmpty = false)
    (hmem : h ∈ mergeInto pending groups) : h.isEmpty = false := by
  induction groups generalizing pending with
  | nil =>
    rw [mergeInto] at hmem
    split at hmem
    case isTrue => exact absurd hmem List.not_mem_nil
    case isFalse hpending =>
      obtain rfl := List.mem_singleton.mp hmem
      simpa using hpending
  | cons g rest ih =>
    have hrest : ∀ g ∈ rest, g.isEmpty = false := fun g hg => hgroups g (List.mem_cons_of_mem _ hg)
    rw [mergeInto] at hmem
    split at hmem
    case isTrue hpending =>
      rcases List.mem_cons.mp hmem with rfl | hmem
      · obtain ⟨synchronous, asynchronous⟩ := h
        simp only [isAsynchronous, Bool.not_eq_true', List.isEmpty_eq_false_iff] at hpending
        simp [isEmpty, steps, hpending]
      · exact ih hrest hmem
    case isFalse => exact ih hrest hmem

theorem not_isEmpty_of_mem_merge (hmem : h ∈ merge groups) : h.isEmpty = false :=
  not_isEmpty_of_mem_mergeInto (fun g hg => by simpa using (List.mem_filter.mp hg).2) hmem

/-! ### Safe groups -/

/-- Where `dep a b` says that `b` reads `a`: nothing reads a later step of the group, or an
asynchronous one. -/
structure IsSafe (dep : StepId → StepId → Prop) (g : StepGroup) : Prop where
  forward : g.steps.Pairwise fun a b => ¬dep b a
  alone : ∀ a ∈ g.asynchronous, ∀ b ∈ g.steps, ¬dep a b

/-- Each group is safe, and nothing reads a step of a later group. -/
structure AreSafe (dep : StepId → StepId → Prop) (groups : List StepGroup) : Prop where
  each : ∀ g ∈ groups, g.IsSafe dep
  across : groups.Pairwise fun g h => ∀ a ∈ g.steps, ∀ b ∈ h.steps, ¬dep b a

theorem areSafe_cons_iff :
    AreSafe dep (g :: groups) ↔ g.IsSafe dep ∧
      (∀ a ∈ g.steps, ∀ b ∈ groups.flatMap steps, ¬dep b a) ∧ AreSafe dep groups := by
  have hlater : (∀ h ∈ groups, ∀ a ∈ g.steps, ∀ b ∈ h.steps, ¬dep b a) ↔
      ∀ a ∈ g.steps, ∀ b ∈ groups.flatMap steps, ¬dep b a := by
    simp only [List.mem_flatMap]
    constructor
    · rintro hall a ha b ⟨h, hh, hb⟩
      exact hall h hh a ha b hb
    · exact fun hall h hh a ha b hb => hall a ha b ⟨h, hh, hb⟩
  rw [← hlater]
  constructor
  · rintro ⟨heach, hacross⟩
    obtain ⟨hfirst, hrest⟩ := List.pairwise_cons.mp hacross
    exact ⟨heach g List.mem_cons_self, hfirst,
      fun h hh => heach h (List.mem_cons_of_mem _ hh), hrest⟩
  · rintro ⟨hg, hfirst, heach, hrest⟩
    refine ⟨fun h hh => ?_, List.pairwise_cons.mpr ⟨hfirst, hrest⟩⟩
    rcases List.mem_cons.mp hh with rfl | hh
    · exact hg
    · exact heach h hh

/-- In a list where nothing reads a later step, what is read stands before what reads it. -/
theorem idxOf_lt_of_pairwise {steps : List StepId} (h : steps.Pairwise fun a b => ¬dep b a)
    {a b : StepId} (ha : a ∈ steps) (hb : b ∈ steps) (hne : a ≠ b) (hdep : dep a b) :
    steps.idxOf a < steps.idxOf b := by
  have ha' : steps.idxOf a < steps.length := List.idxOf_lt_length_iff.mpr ha
  have hb' : steps.idxOf b < steps.length := List.idxOf_lt_length_iff.mpr hb
  rcases Nat.lt_trichotomy (steps.idxOf a) (steps.idxOf b) with hlt | heq | hlt
  · exact hlt
  · exact absurd (List.idxOf_inj ha |>.mp heq) hne
  · have hnot := List.pairwise_iff_getElem.mp h _ _ hb' ha' hlt
    rw [List.getElem_idxOf ha', List.getElem_idxOf hb'] at hnot
    exact absurd hdep hnot

/-- What a step reads is done before it: in an earlier group, or as a synchronous step further ahead
in its own. -/
theorem AreSafe.before (hsafe : AreSafe dep groups) {i j : Nat} (hi : groups[i]? = some g)
    (hj : groups[j]? = some h) {a b : StepId} (ha : a ∈ g.steps) (hb : b ∈ h.steps) (hne : a ≠ b)
    (hdep : dep a b) :
    i < j ∨ i = j ∧ a ∈ g.synchronous ∧ g.steps.idxOf a < g.steps.idxOf b := by
  obtain ⟨hi', rfl⟩ := List.getElem?_eq_some_iff.mp hi
  obtain ⟨hj', rfl⟩ := List.getElem?_eq_some_iff.mp hj
  rcases Nat.lt_trichotomy i j with hlt | rfl | hlt
  · exact .inl hlt
  · have hgroup := hsafe.each _ (List.getElem_mem hi')
    refine .inr ⟨rfl, ?_, idxOf_lt_of_pairwise hgroup.forward ha hb hne hdep⟩
    rcases List.mem_append.mp ha with hsync | hasync
    · exact hsync
    · exact absurd hdep (hgroup.alone a hasync b hb)
  · exact absurd hdep (List.pairwise_iff_getElem.mp hsafe.across j i hj' hi' hlt b hb a ha)

theorem AreSafe.pairwise (hsafe : AreSafe dep groups) :
    (groups.flatMap steps).Pairwise fun a b => ¬dep b a := by
  rw [List.flatMap_def, List.pairwise_flatten, List.pairwise_map]
  refine ⟨fun steps hsteps => ?_, hsafe.across⟩
  obtain ⟨g, hg, rfl⟩ := List.mem_map.mp hsteps
  exact (hsafe.each g hg).forward

theorem IsSafe.absorb (hg : g.IsSafe dep) (hh : h.IsSafe dep)
    (hasync : g.isAsynchronous = false) (hacross : ∀ a ∈ g.steps, ∀ b ∈ h.steps, ¬dep b a) :
    (g.absorb h).IsSafe dep where
  forward := by
    rw [steps_absorb hasync]
    exact List.pairwise_append.mpr ⟨hg.forward, hh.forward, hacross⟩
  alone a ha b hb := by
    have ha' : a ∈ h.asynchronous := by
      simpa [StepGroup.absorb, isAsynchronous_eq_false_iff.mp hasync] using ha
    rw [steps_absorb hasync] at hb
    rcases List.mem_append.mp hb with hb | hb
    · exact hacross b hb a (List.mem_append_right _ ha')
    · exact hh.alone a ha' b hb

theorem isSafe_empty : empty.IsSafe dep := ⟨List.Pairwise.nil, fun _ h => absurd h List.not_mem_nil⟩

theorem AreSafe.mergeInto (hsafe : AreSafe dep (pending :: groups)) :
    AreSafe dep (mergeInto pending groups) := by
  induction groups generalizing pending with
  | nil =>
    rw [StepGroup.mergeInto]
    split
    case isTrue => exact ⟨fun _ h => absurd h List.not_mem_nil, List.Pairwise.nil⟩
    case isFalse => exact hsafe
  | cons g rest ih =>
    obtain ⟨hpending, hfirst, hrest⟩ := areSafe_cons_iff.mp hsafe
    rw [StepGroup.mergeInto]
    split
    case isTrue =>
      refine areSafe_cons_iff.mpr ⟨hpending, ?_, ih hrest⟩
      rwa [flatMap_mergeInto rfl fun g h => steps_absorb, ← List.flatMap_cons]
    case isFalse hasync =>
      -- Only `pending` comes before the group that it takes up, and it has nothing asynchronous.
      have hasync' : pending.isAsynchronous = false := by simpa using hasync
      obtain ⟨hg, hlater, hrest⟩ := areSafe_cons_iff.mp hrest
      have hjoined : (pending.absorb g).IsSafe dep := by
        refine hpending.absorb hg hasync' fun a ha b hb => ?_
        exact hfirst a ha b (List.mem_flatMap.mpr ⟨g, List.mem_cons_self, hb⟩)
      refine ih (areSafe_cons_iff.mpr ⟨hjoined, fun a ha b hb => ?_, hrest⟩)
      rw [steps_absorb hasync'] at ha
      rcases List.mem_append.mp ha with ha | ha
      · obtain ⟨h, hh, hb⟩ := List.mem_flatMap.mp hb
        exact hfirst a ha b (List.mem_flatMap.mpr ⟨h, List.mem_cons_of_mem _ hh, hb⟩)
      · exact hlater a ha b hb

theorem AreSafe.filter (hsafe : AreSafe dep groups) (keep : StepGroup → Bool) :
    AreSafe dep (groups.filter keep) :=
  ⟨fun g hg => hsafe.each g (List.mem_filter.mp hg).1, hsafe.across.sublist List.filter_sublist⟩

theorem AreSafe.merge (hsafe : AreSafe dep groups) : AreSafe dep (merge groups) := by
  refine AreSafe.mergeInto (areSafe_cons_iff.mpr ⟨isSafe_empty, ?_, hsafe.filter _⟩)
  exact fun _ h => absurd h List.not_mem_nil

end FormulaEngine.StepGroup
