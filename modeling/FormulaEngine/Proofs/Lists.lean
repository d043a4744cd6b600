import Mathlib.Data.List.Forall2

/-!
# Lists

What holds of two lists entry by entry, of numbers in order, and of a computation that goes through
a list and may fail on the way.
-/

namespace FormulaEngine

variable {α β γ : Type} {R : α → β → Prop} {l : List α} {l' : List β} {a : α} {b : β}

theorem exists_of_mem_left (h : List.Forall₂ R l l') (ha : a ∈ l) : ∃ b ∈ l', R a b := by
  induction h with
  | nil => exact absurd ha List.not_mem_nil
  | cons hfirst _ ih =>
    rcases List.mem_cons.mp ha with rfl | ha
    · exact ⟨_, List.mem_cons_self, hfirst⟩
    · obtain ⟨b, hb, hab⟩ := ih ha
      exact ⟨b, List.mem_cons_of_mem _ hb, hab⟩

theorem exists_of_mem_right (h : List.Forall₂ R l l') (hb : b ∈ l') : ∃ a ∈ l, R a b :=
  exists_of_mem_left h.flip hb

theorem map_eq_of_forall₂ {f : α → γ} {g : β → γ} (hR : ∀ a b, R a b → f a = g b)
    (h : List.Forall₂ R l l') : l.map f = l'.map g := by
  induction h with
  | nil => rfl
  | cons hfirst _ ih => rw [List.map_cons, List.map_cons, hR _ _ hfirst, ih]

theorem forall₂_filterMap {f : α → Option β} (h : ∀ a ∈ l, ∃ b, f a = some b ∧ R a b) :
    List.Forall₂ R l (l.filterMap f) := by
  induction l with
  | nil => exact .nil
  | cons a rest ih =>
    obtain ⟨b, hb, hab⟩ := h a List.mem_cons_self
    rw [List.filterMap_cons, hb]
    exact .cons hab (ih fun a ha => h a (List.mem_cons_of_mem _ ha))

theorem countP_le_countP {p : α → Bool} {q : β → Bool}
    (h : ∀ (i : Nat) a, l[i]? = some a → p a → ∃ b, l'[i]? = some b ∧ q b) :
    l.countP p ≤ l'.countP q := by
  induction l generalizing l' with
  | nil => exact Nat.zero_le _
  | cons a rest ih =>
    cases l' with
    | nil =>
      have hnone : ∀ b ∈ a :: rest, ¬p b := by
        intro b hb hp
        obtain ⟨i, hi⟩ := List.getElem?_of_mem hb
        obtain ⟨_, hfound, -⟩ := h i b hi hp
        exact absurd hfound (by simp)
      rw [List.countP_eq_zero.mpr hnone]
      exact Nat.zero_le _
    | cons b rest' =>
      have hrest : rest.countP p ≤ rest'.countP q := ih fun i c hc => h (i + 1) c hc
      rw [List.countP_cons, List.countP_cons]
      by_cases hp : p a
      · obtain ⟨_, hfound, hq⟩ := h 0 a rfl hp
        obtain rfl := Option.some.inj hfound
        rw [if_pos hp, if_pos hq]
        exact Nat.succ_le_succ hrest
      · rw [if_neg hp]
        exact Nat.le_add_right_of_le hrest

/-! ### Numbers in order -/

/-- Sorted, numbers without repetitions are in strictly ascending order. -/
theorem pairwise_lt_mergeSort {l : List Nat} (h : l.Nodup) : l.mergeSort.Pairwise (· < ·) := by
  have hle : l.mergeSort.Pairwise (· ≤ ·) :=
    (List.pairwise_mergeSort (by simpa using fun a b c => Nat.le_trans)
      (by simpa using Nat.le_total) l).imp of_decide_eq_true
  have hne : l.mergeSort.Nodup := (List.mergeSort_perm l _).nodup_iff.mpr h
  exact hle.imp₂ (fun a b hab hneq => Nat.lt_of_le_of_ne hab hneq) hne

section Ascending

variable {below above : List Nat} {d : Nat} (h : (below ++ d :: above).Pairwise (· < ·))

include h

theorem filter_gt_of_pairwise : (below ++ d :: above).filter (d < ·) = above := by
  obtain ⟨-, hright, hbetween⟩ := List.pairwise_append.mp h
  have hbelow : below.filter (d < ·) = [] := List.filter_eq_nil_iff.mpr fun v hv => by
    simpa using Nat.le_of_lt (hbetween v hv d List.mem_cons_self)
  have habove : above.filter (d < ·) = above := List.filter_eq_self.mpr fun v hv => by
    simpa using (List.pairwise_cons.mp hright).1 v hv
  rw [List.filter_append, List.filter_cons_of_neg (by simp), hbelow, habove, List.nil_append]

theorem filter_lt_of_pairwise : (below ++ d :: above).filter (· < d) = below := by
  obtain ⟨-, hright, hbetween⟩ := List.pairwise_append.mp h
  have hbelow : below.filter (· < d) = below := List.filter_eq_self.mpr fun v hv => by
    simpa using hbetween v hv d List.mem_cons_self
  have habove : above.filter (· < d) = [] := List.filter_eq_nil_iff.mpr fun v hv => by
    simpa using Nat.le_of_lt ((List.pairwise_cons.mp hright).1 v hv)
  rw [List.filter_append, List.filter_cons_of_neg (by simp), hbelow, habove, List.append_nil]

theorem idxOf?_of_pairwise : (below ++ d :: above).idxOf? d = some below.length := by
  refine List.idxOf?_eq_some_iff.mpr ⟨by simp, by simp, fun j hj heq => ?_⟩
  rw [List.getElem_append_left hj] at heq
  have hlt := (List.pairwise_append.mp h).2.2 _ (List.getElem_mem hj) d List.mem_cons_self
  exact Nat.ne_of_lt hlt heq

end Ascending

/-- A list that is turned up to an entry begins with that entry. -/
theorem rotateLeft_append_cons (front rest : List α) (a : α) :
    (front ++ a :: rest).rotateLeft front.length = a :: rest ++ front := by
  have hlength : (front ++ a :: rest).length = front.length + rest.length + 1 := by simp; omega
  simp only [List.rotateLeft, hlength]
  split
  · next hle =>
    obtain rfl : front = [] := List.length_eq_zero_iff.mp (by omega)
    simp
  · rw [Nat.mod_eq_of_lt (by omega), List.drop_left, List.take_left]

/-! ### Computations that may fail -/

section Checked

variable {ε : Type} {f g : α → Except ε β} {e : ε}

theorem mapM_congr (h : ∀ a ∈ l, f a = g a) : l.mapM f = l.mapM g := by
  induction l with
  | nil => rfl
  | cons a rest ih =>
    rw [List.mapM_cons, List.mapM_cons, h a List.mem_cons_self,
      ih fun b hb => h b (List.mem_cons_of_mem _ hb)]

theorem mapM_eq_ok {g : α → β} (h : ∀ a ∈ l, f a = .ok (g a)) : l.mapM f = .ok (l.map g) := by
  induction l with
  | nil => rfl
  | cons a rest ih =>
    rw [List.mapM_cons, h a List.mem_cons_self, ih fun b hb => h b (List.mem_cons_of_mem _ hb)]
    rfl

theorem forall₂_of_mapM_eq_ok {bs : List β} (h : l.mapM f = .ok bs) :
    List.Forall₂ (fun a b => f a = .ok b) l bs := by
  induction l generalizing bs with
  | nil =>
    obtain rfl := Except.ok.inj h
    exact .nil
  | cons a rest ih =>
    rw [List.mapM_cons] at h
    cases ha : f a with
    | error e =>
      rw [ha] at h
      cases h
    | ok b =>
      cases hrest : rest.mapM f with
      | error e =>
        rw [ha, hrest] at h
        cases h
      | ok others =>
        rw [ha, hrest] at h
        obtain rfl := Except.ok.inj h
        exact .cons ha (ih hrest)

/-- What comes behind the first failure makes no difference. -/
theorem mapM_append_of_error (h : f a = .error e) (front rest : List α) :
    (front ++ a :: rest).mapM f = front.mapM f >>= fun _ => .error e := by
  rw [List.mapM_append, List.mapM_cons, h]
  rfl

theorem exists_of_mapM_eq_error (h : l.mapM f = .error e) : ∃ a ∈ l, f a = .error e := by
  induction l with
  | nil => exact absurd h (by simp [pure, Except.pure])
  | cons a rest ih =>
    rw [List.mapM_cons] at h
    cases ha : f a with
    | error first =>
      rw [ha] at h
      obtain rfl := Except.error.inj h
      exact ⟨a, List.mem_cons_self, ha⟩
    | ok b =>
      rw [ha] at h
      cases hrest : rest.mapM f with
      | ok bs =>
        rw [hrest] at h
        exact absurd h (by simp [bind, Except.bind, pure, Except.pure])
      | error first =>
        rw [hrest] at h
        obtain rfl := Except.error.inj h
        obtain ⟨a', hmem, ha'⟩ := ih hrest
        exact ⟨a', List.mem_cons_of_mem _ hmem, ha'⟩

theorem exists_mapM_eq_ok (h : ∀ a ∈ l, ∃ b, f a = .ok b) : ∃ bs, l.mapM f = .ok bs := by
  cases hresult : l.mapM f with
  | ok bs => exact ⟨bs, rfl⟩
  | error e =>
    obtain ⟨a, ha, herror⟩ := exists_of_mapM_eq_error hresult
    obtain ⟨b, hb⟩ := h a ha
    cases herror.symm.trans hb

/-- Keys may be put to the results in the end. -/
theorem mapM_pair (key : α → γ) (l : List α) :
    (l.mapM fun a => do
      let b ← f a
      .ok (key a, b)) = l.mapM f >>= fun bs => .ok ((l.map key).zip bs) := by
  induction l with
  | nil => rfl
  | cons a rest ih =>
    rw [List.mapM_cons, List.mapM_cons, ih]
    cases f a with
    | error e => rfl
    | ok b => cases rest.mapM f <;> rfl

end Checked

end FormulaEngine
