import FormulaEngine.Proofs.Plan.Merging

/-!
# Where merged groups end

Merging keeps all steps in their order and never changes what is waited for together, and of what it
leaves only the last group can do without a wait. If no step occurs twice, nothing else could have
come of it: the asynchronous steps show where each group ends.
-/

namespace FormulaEngine.StepGroup

variable {g h pending : StepGroup} {groups merged merged' : List StepGroup}

/-- The steps that are waited for together, for each wait. -/
def waits (groups : List StepGroup) : List (List StepId) :=
  (groups.map (·.asynchronous)).filter fun steps => !steps.isEmpty

theorem waits_cons_of_asynchronous (hg : g.isAsynchronous) :
    waits (g :: groups) = g.asynchronous :: waits groups :=
  List.filter_cons_of_pos hg

theorem waits_cons_of_synchronous (hg : g.isAsynchronous = false) :
    waits (g :: groups) = waits groups :=
  List.filter_cons_of_neg (by simpa [isAsynchronous] using hg)

theorem length_waits : (waits groups).length = groups.countP isAsynchronous := by
  rw [waits, ← List.countP_eq_length_filter, List.countP_map]
  rfl

theorem waits_eq_flatMap : waits groups =
    groups.flatMap fun g => [g.asynchronous].filter fun steps => !steps.isEmpty := by
  induction groups with
  | nil => rfl
  | cons g rest ih =>
    rw [List.flatMap_cons, ← ih]
    exact List.filter_append [g.asynchronous] (rest.map (·.asynchronous))

/-! ### Tight groups -/

/-- No group is empty, and each but the last one ends with a wait. -/
structure AreTight (groups : List StepGroup) : Prop where
  nonempty : ∀ g ∈ groups, g.isEmpty = false
  suspends : ∀ g ∈ groups.dropLast, g.isAsynchronous

theorem mem_dropLast_cons_iff :
    h ∈ (g :: groups).dropLast ↔ groups ≠ [] ∧ (h = g ∨ h ∈ groups.dropLast) := by
  cases groups with
  | nil => simp
  | cons next rest => rw [List.dropLast_cons_of_ne_nil (List.cons_ne_nil next rest)]; simp

theorem AreTight.tail (htight : AreTight (g :: groups)) : AreTight groups where
  nonempty h hh := htight.nonempty h (List.mem_cons_of_mem _ hh)
  suspends h hh := by
    have hne : groups ≠ [] := List.ne_nil_of_mem (List.dropLast_subset groups hh)
    exact htight.suspends h (mem_dropLast_cons_iff.mpr ⟨hne, .inr hh⟩)

/-- A group without a wait is the last one. -/
theorem AreTight.eq_nil_of_synchronous (htight : AreTight (g :: groups))
    (hg : g.isAsynchronous = false) : groups = [] := by
  by_contra hne
  have hsuspends := htight.suspends g (mem_dropLast_cons_iff.mpr ⟨hne, .inl rfl⟩)
  exact absurd hsuspends (by simp [hg])

theorem AreTight.isAsynchronous_iff (htight : AreTight (g :: groups)) :
    g.isAsynchronous ↔ waits (g :: groups) ≠ [] := by
  constructor
  · intro hg
    rw [waits_cons_of_asynchronous hg]
    exact List.cons_ne_nil _ _
  · intro hwaits
    by_contra hg
    have hsync : g.isAsynchronous = false := by simpa using hg
    rw [htight.eq_nil_of_synchronous hsync, waits_cons_of_synchronous hsync] at hwaits
    exact hwaits rfl

theorem suspends_mergeInto (hmem : h ∈ (mergeInto pending groups).dropLast) :
    h.isAsynchronous := by
  induction groups generalizing pending with
  | nil =>
    rw [mergeInto] at hmem
    split at hmem
    all_goals exact absurd hmem List.not_mem_nil
  | cons g rest ih =>
    rw [mergeInto] at hmem
    split at hmem
    case isTrue hpending =>
      rcases (mem_dropLast_cons_iff.mp hmem).2 with rfl | hmem
      · exact hpending
      · exact ih hmem
    case isFalse => exact ih hmem

theorem areTight_merge : AreTight (merge groups) :=
  ⟨fun _ => not_isEmpty_of_mem_merge, fun _ => suspends_mergeInto⟩

theorem flatMap_steps_ne_nil (htight : AreTight (g :: groups)) :
    (g :: groups).flatMap steps ≠ [] := by
  have hg := htight.nonempty g List.mem_cons_self
  rw [List.flatMap_cons]
  exact List.append_ne_nil_of_left_ne_nil (by simpa [isEmpty] using hg) _

theorem eq_of_synchronous (hg : g.isAsynchronous = false) (hh : h.isAsynchronous = false)
    (hsteps : g.steps = h.steps) : g = h := by
  have hg' := isAsynchronous_eq_false_iff.mp hg
  have hh' := isAsynchronous_eq_false_iff.mp hh
  rw [steps, steps, hg', hh', List.append_nil, List.append_nil] at hsteps
  exact congrArg₂ StepGroup.mk hsteps (hg'.trans hh'.symm)

/-- The first step that is waited for cuts a list, in which it occurs once, in one place only. -/
theorem eq_of_asynchronous {rest rest' : List StepId} (hg : g.isAsynchronous)
    (hasync : g.asynchronous = h.asynchronous) (hnodup : (g.steps ++ rest).Nodup)
    (hsteps : g.steps ++ rest = h.steps ++ rest') : g = h ∧ rest = rest' := by
  obtain ⟨a, others, ha⟩ := List.exists_cons_of_ne_nil
    (show g.asynchronous ≠ [] by simpa [isAsynchronous] using hg)
  have hleft : g.steps ++ rest = g.synchronous ++ a :: (others ++ rest) := by simp [steps, ha]
  have hright : h.steps ++ rest' = h.synchronous ++ a :: (others ++ rest') := by
    simp [steps, ← hasync, ha]
  rw [hleft] at hnodup
  rw [hleft, hright] at hsteps
  obtain ⟨-, hcons, hdisjoint⟩ := List.nodup_append.mp hnodup
  have hbefore : a ∉ g.synchronous := fun hmem => hdisjoint a hmem a List.mem_cons_self rfl
  have hbehind : a ∉ others ++ rest := (List.nodup_cons.mp hcons).1
  obtain ⟨hsync, -, hrest⟩ := (List.append_cons_inj_of_notMem hbefore hbehind).mp hsteps
  exact ⟨congrArg₂ StepGroup.mk hsync hasync, List.append_cancel_left hrest⟩

/-- Tight groups that list the same steps, none of them twice, and wait for the same are the
same. -/
theorem AreTight.eq_of_steps_eq (htight : AreTight merged) (htight' : AreTight merged')
    (hnodup : (merged.flatMap steps).Nodup)
    (hsteps : merged.flatMap steps = merged'.flatMap steps)
    (hwaits : waits merged = waits merged') : merged = merged' := by
  induction merged generalizing merged' with
  | nil =>
    cases merged' with
    | nil => rfl
    | cons h rest' => exact absurd hsteps.symm (flatMap_steps_ne_nil htight')
  | cons g rest ih =>
    cases merged' with
    | nil => exact absurd hsteps (flatMap_steps_ne_nil htight)
    | cons h rest' =>
      have hiff : g.isAsynchronous ↔ h.isAsynchronous := by
        rw [htight.isAsynchronous_iff, htight'.isAsynchronous_iff, hwaits]
      simp only [List.flatMap_cons] at hnodup hsteps
      by_cases hg : g.isAsynchronous
      · have hh := hiff.mp hg
        rw [waits_cons_of_asynchronous hg, waits_cons_of_asynchronous hh] at hwaits
        obtain ⟨hasync, hbehind⟩ := List.cons.inj hwaits
        obtain ⟨rfl, hrest⟩ := eq_of_asynchronous hg hasync hnodup hsteps
        have hnodup' := (List.nodup_append.mp hnodup).2.1
        rw [ih htight.tail htight'.tail hnodup' hrest hbehind]
      · -- Without a wait, one group is all that there is on both sides.
        have hg' : g.isAsynchronous = false := by simpa using hg
        have hh' : h.isAsynchronous = false := by simpa [hiff] using hg
        obtain rfl := htight.eq_nil_of_synchronous hg'
        obtain rfl := htight'.eq_nil_of_synchronous hh'
        rw [eq_of_synchronous hg' hh' (by simpa using hsteps)]

/-! ### Merging -/

theorem waits_absorb (hg : g.isAsynchronous = false) :
    [(g.absorb h).asynchronous].filter (fun steps => !steps.isEmpty) =
      [g.asynchronous].filter (fun steps => !steps.isEmpty) ++
        [h.asynchronous].filter fun steps => !steps.isEmpty := by
  rw [asynchronous_absorb hg, isAsynchronous_eq_false_iff.mp hg]
  rfl

theorem waits_merge : waits (merge groups) = waits groups := by
  rw [waits_eq_flatMap, waits_eq_flatMap]
  exact flatMap_merge rfl fun _ _ => waits_absorb

/-- What groups may be merged to: tight groups with all steps in their order, of both kinds and of
each kind, that wait for the same steps together. -/
structure IsMergeOf (merged groups : List StepGroup) : Prop where
  tight : AreTight merged
  steps_eq : merged.flatMap steps = groups.flatMap steps
  synchronous_eq : merged.flatMap synchronous = groups.flatMap synchronous
  asynchronous_eq : merged.flatMap asynchronous = groups.flatMap asynchronous
  waits_eq : waits merged = waits groups

/-- Merging gives what groups may be merged to and adds no wait and saves none. If no step occurs
twice, that is all that they may be merged to. -/
theorem merge_is_determined (groups : List StepGroup) :
    IsMergeOf (merge groups) groups ∧
      (merge groups).countP isAsynchronous = groups.countP isAsynchronous ∧
      ((groups.flatMap steps).Nodup →
        ∀ merged, IsMergeOf merged groups → merged = merge groups) := by
  have hmerge : IsMergeOf (merge groups) groups := {
    tight := areTight_merge
    steps_eq := flatMap_merge rfl fun _ _ => steps_absorb
    synchronous_eq := flatMap_merge rfl fun _ _ _ => rfl
    asynchronous_eq := flatMap_merge rfl fun _ _ _ => rfl
    waits_eq := waits_merge }
  refine ⟨hmerge, ?_, fun hnodup merged h => ?_⟩
  · rw [← length_waits, ← length_waits, waits_merge]
  · refine h.tight.eq_of_steps_eq hmerge.tight ?_ (h.steps_eq.trans hmerge.steps_eq.symm)
      (h.waits_eq.trans hmerge.waits_eq.symm)
    rwa [h.steps_eq]

theorem merge_is_determined_for_seven :
    ∃ groups : List StepGroup,
      groups = [⟨[0], []⟩, ⟨[], []⟩, ⟨[1], [2]⟩, ⟨[3], []⟩, ⟨[4], []⟩, ⟨[], [6, 5]⟩, ⟨[7], []⟩] ∧
      merge groups = [⟨[0, 1], [2]⟩, ⟨[3, 4], [6, 5]⟩, ⟨[7], []⟩] ∧
      (groups.flatMap steps).Nodup ∧ IsMergeOf (merge groups) groups ∧
      (merge groups).countP isAsynchronous = 2 ∧
      ∀ merged, IsMergeOf merged groups → merged = merge groups := by
  refine ⟨_, rfl, by decide, by decide, (merge_is_determined _).1, ?_, ?_⟩
  · exact (merge_is_determined _).2.1.trans (by decide)
  · exact (merge_is_determined _).2.2 (by decide)

end FormulaEngine.StepGroup
