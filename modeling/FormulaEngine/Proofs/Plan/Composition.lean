import FormulaEngine.Proofs.Plan.Boundaries

/-!
# Merging in parts

It makes no difference to merging whether parts of the groups were merged before. To take up a
group that took up others is to take up all of them one by one, and a group that suspends takes up
nothing, merged before or not.
-/

namespace FormulaEngine.StepGroup

variable {g h pending : StepGroup} {groups front rest xs ys : List StepGroup}

theorem absorb_assoc (g h k : StepGroup) : (g.absorb h).absorb k = g.absorb (h.absorb k) := by
  simp [absorb]

theorem isAsynchronous_absorb (hg : g.isAsynchronous = false) :
    (g.absorb h).isAsynchronous = h.isAsynchronous := by
  rw [isAsynchronous, isAsynchronous, asynchronous_absorb hg]

theorem isEmpty_absorb (hg : g.isEmpty = false) : (g.absorb h).isEmpty = false := by
  rw [isEmpty, List.isEmpty_eq_false_iff] at hg ⊢
  obtain ⟨step, hstep⟩ := List.exists_mem_of_ne_nil _ hg
  refine List.ne_nil_of_mem (a := step) ?_
  rcases List.mem_append.mp hstep with hstep | hstep
  · exact List.mem_append_left _ (List.mem_append_left _ hstep)
  · exact List.mem_append_right _ (List.mem_append_left _ hstep)

theorem mergeInto_cons_of_asynchronous (hpending : pending.isAsynchronous) :
    mergeInto pending (g :: rest) = pending :: mergeInto g rest :=
  if_pos hpending

theorem mergeInto_cons_of_synchronous (hpending : pending.isAsynchronous = false) :
    mergeInto pending (g :: rest) = mergeInto (pending.absorb g) rest :=
  if_neg (by simp [hpending])

/-- Whether groups are merged among themselves before makes no difference to one that takes them
up. -/
theorem mergeInto_mergeInto_append (hg : g.isEmpty = false)
    (hgroups : ∀ h ∈ groups, h.isEmpty = false) :
    mergeInto pending (mergeInto g groups ++ rest) = mergeInto pending (g :: (groups ++ rest)) := by
  induction groups generalizing pending g with
  | nil => rw [mergeInto, if_neg (by simp [hg]), List.singleton_append, List.nil_append]
  | cons next groups ih =>
    obtain ⟨hnext, hlater⟩ := List.forall_mem_cons.mp hgroups
    by_cases hsuspends : g.isAsynchronous
    · -- The first group is left as it is, and what comes behind it is merged into the next one.
      rw [mergeInto_cons_of_asynchronous hsuspends, List.cons_append]
      by_cases hpending : pending.isAsynchronous
      · rw [mergeInto_cons_of_asynchronous hpending, mergeInto_cons_of_asynchronous hpending,
          ih hnext hlater, List.cons_append]
      · rw [Bool.not_eq_true] at hpending
        rw [mergeInto_cons_of_synchronous hpending, mergeInto_cons_of_synchronous hpending,
          ih hnext hlater, List.cons_append]
    · rw [Bool.not_eq_true] at hsuspends
      rw [mergeInto_cons_of_synchronous hsuspends, ih (isEmpty_absorb hg) hlater, List.cons_append]
      by_cases hpending : pending.isAsynchronous
      · rw [mergeInto_cons_of_asynchronous hpending, mergeInto_cons_of_asynchronous hpending,
          mergeInto_cons_of_synchronous hsuspends]
      · rw [Bool.not_eq_true] at hpending
        have hjoined : (pending.absorb g).isAsynchronous = false :=
          (isAsynchronous_absorb hpending).trans hsuspends
        rw [mergeInto_cons_of_synchronous hpending, mergeInto_cons_of_synchronous hpending,
          mergeInto_cons_of_synchronous hjoined, absorb_assoc]

theorem mergeInto_merge_append :
    mergeInto pending (merge groups ++ rest) =
      mergeInto pending ((groups.filter fun g => !g.isEmpty) ++ rest) := by
  have hnonempty : ∀ g ∈ groups.filter fun g => !g.isEmpty, g.isEmpty = false :=
    fun g hg => by simpa using (List.mem_filter.mp hg).2
  rw [merge]
  cases hfilter : groups.filter fun g => !g.isEmpty with
  | nil => rfl
  | cons g later =>
    rw [hfilter] at hnonempty
    obtain ⟨hg, hlater⟩ := List.forall_mem_cons.mp hnonempty
    have hfirst : mergeInto empty (g :: later) = mergeInto g later := rfl
    rw [hfirst, mergeInto_mergeInto_append hg hlater, List.cons_append]

/-- Groups that are taken up alike are taken up alike behind others, too. -/
theorem mergeInto_append_congr (h : ∀ pending, mergeInto pending xs = mergeInto pending ys) :
    mergeInto pending (front ++ xs) = mergeInto pending (front ++ ys) := by
  induction front generalizing pending with
  | nil => exact h pending
  | cons g front ih =>
    rw [List.cons_append, List.cons_append, mergeInto, mergeInto]
    split
    case isTrue => rw [ih]
    case isFalse => exact ih

theorem filter_merge : ((merge groups).filter fun g => !g.isEmpty) = merge groups := by
  rw [List.filter_eq_self]
  intro g hg
  simpa using not_isEmpty_of_mem_merge hg

theorem merge_append : merge (xs ++ ys) = merge (merge xs ++ merge ys) := by
  have hback : ∀ pending, mergeInto pending (merge ys) =
      mergeInto pending (ys.filter fun g => !g.isEmpty) := by
    intro pending
    have hmerge := @mergeInto_merge_append pending ys []
    rwa [List.append_nil, List.append_nil] at hmerge
  symm
  calc merge (merge xs ++ merge ys)
      = mergeInto empty (merge xs ++ merge ys) := by
        rw [merge, List.filter_append, filter_merge, filter_merge]
    _ = mergeInto empty ((xs.filter fun g => !g.isEmpty) ++ merge ys) := mergeInto_merge_append
    _ = mergeInto empty ((xs.filter fun g => !g.isEmpty) ++ ys.filter fun g => !g.isEmpty) :=
        mergeInto_append_congr hback
    _ = merge (xs ++ ys) := by rw [merge, List.filter_append]

theorem mergeInto_of_areTight (htight : AreTight (g :: groups)) :
    mergeInto g groups = g :: groups := by
  induction groups generalizing g with
  | nil =>
    have hg := htight.nonempty g List.mem_cons_self
    rw [mergeInto, if_neg (by simp [hg])]
  | cons next rest ih =>
    have hsuspends : g.isAsynchronous :=
      htight.suspends g (mem_dropLast_cons_iff.mpr ⟨List.cons_ne_nil _ _, .inl rfl⟩)
    rw [mergeInto_cons_of_asynchronous hsuspends, ih htight.tail]

theorem merge_eq_self_iff : merge groups = groups ↔ AreTight groups := by
  refine ⟨fun h => h ▸ areTight_merge, fun htight => ?_⟩
  have hfilter : (groups.filter fun g => !g.isEmpty) = groups := by
    rw [List.filter_eq_self]
    intro g hg
    simpa using htight.nonempty g hg
  rw [merge, hfilter]
  cases groups with
  | nil => rfl
  | cons g rest => exact mergeInto_of_areTight htight

/-- Groups may be merged in parts first and then once more as a whole. Merging leaves what was
merged as it is, and other groups only if they are tight as well. -/
theorem merge_is_compositional :
    (∀ xs ys, merge (xs ++ ys) = merge (merge xs ++ merge ys)) ∧
      (∀ groups, merge (merge groups) = merge groups) ∧
      ∀ groups, merge groups = groups ↔ AreTight groups :=
  ⟨fun _ _ => merge_append, fun _ => merge_eq_self_iff.mpr areTight_merge,
    fun _ => merge_eq_self_iff⟩

/-- Merged parts are not yet the whole: what one ends with takes up what the next begins with. -/
example : merge [⟨[0], []⟩] ++ merge [⟨[1], [2]⟩] ≠ merge [⟨[0], []⟩, ⟨[1], [2]⟩] := by decide

end FormulaEngine.StepGroup
