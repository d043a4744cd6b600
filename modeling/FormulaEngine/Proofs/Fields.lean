import FormulaEngine.Fields
import Mathlib.Data.List.Nodup
import Mathlib.Data.List.Perm.Basic

/-!
# Fields of entries with different names

If no two of a list of entries have the same name, nothing is lost when fields are made of them, and
the order of the list does not matter.
-/

namespace FormulaEngine.Fields

variable {α β : Type} {fields entries entries' : List (String × α)} {name : String} {a : α}

theorem insert_perm (h : name ∉ fields.map Prod.fst) :
    (insert name a fields).Perm ((name, a) :: fields) := by
  induction fields with
  | nil => exact List.Perm.refl _
  | cons entry rest ih =>
    obtain ⟨other, b⟩ := entry
    rw [List.map_cons, List.mem_cons, not_or] at h
    by_cases hlt : name < other
    · rw [insert, if_pos hlt]
    · rw [insert, if_neg hlt, if_neg h.1]
      exact ((ih h.2).cons _).trans (List.Perm.swap _ _ _)

theorem ofList_perm (h : (entries.map Prod.fst).Nodup) : (ofList entries).Perm entries := by
  suffices hall : ∀ fields : List (String × α), ((fields ++ entries).map Prod.fst).Nodup →
      (entries.foldl (fun fields entry => insert entry.1 entry.2 fields) fields).Perm
        (fields ++ entries) from hall [] h
  clear h
  induction entries with
  | nil => simp
  | cons entry rest ih =>
    intro fields hnodup
    have hsplit : (fields ++ entry :: rest).Perm (entry :: (fields ++ rest)) :=
      List.perm_middle
    have hkeys := (hsplit.map Prod.fst).nodup_iff.mp hnodup
    have hnew : entry.1 ∉ fields.map Prod.fst := by
      rw [List.map_cons, List.nodup_cons, List.map_append, List.mem_append, not_or] at hkeys
      exact hkeys.1.1
    have hinsert := @insert_perm α fields entry.1 entry.2 hnew
    have hnext : (insert entry.1 entry.2 fields ++ rest).Perm (fields ++ entry :: rest) :=
      (hinsert.append_right rest).trans hsplit.symm
    rw [List.foldl_cons]
    exact (ih _ ((hnext.map Prod.fst).nodup_iff.mpr hnodup)).trans hnext

theorem nodup_of_ascending (h : Ascending fields) : (fields.map Prod.fst).Nodup := by
  rw [List.Nodup, List.pairwise_map]
  refine h.imp fun {x y} hlt heq => ?_
  rw [heq] at hlt
  exact String.lt_irrefl _ hlt

theorem get?_eq_some_iff (h : (fields.map Prod.fst).Nodup) :
    get? fields name = some a ↔ (name, a) ∈ fields := by
  induction fields with
  | nil => simp [get?]
  | cons entry rest ih =>
    obtain ⟨other, b⟩ := entry
    obtain ⟨hnew, hrest⟩ := List.nodup_cons.mp h
    by_cases heq : name = other
    · subst heq
      have hnot : (name, a) ∉ rest := fun hmem =>
        hnew (List.mem_map.mpr ⟨_, hmem, rfl⟩)
      simp [get?, eq_comm, hnot]
    · have hne : (name == other) = false := by simpa using heq
      have hlookup : get? ((other, b) :: rest) name = get? rest name := by
        simp [get?, List.lookup_cons, hne]
      rw [hlookup, ih hrest]
      simp [heq]

theorem get?_ofList_eq_some_iff (h : (entries.map Prod.fst).Nodup) :
    get? (ofList entries) name = some a ↔ (name, a) ∈ entries := by
  rw [get?_eq_some_iff (nodup_of_ascending (ascending_ofList entries)), (ofList_perm h).mem_iff]

/-- Fields are the same if they have the same entries. -/
theorem eq_of_perm {fields' : List (String × α)} (h : Ascending fields) (h' : Ascending fields')
    (hperm : fields.Perm fields') : fields = fields' := by
  refine List.Perm.eq_of_pairwise (fun x y _ _ hxy hyx => ?_) h h' hperm
  exact absurd (String.lt_trans hxy hyx) (String.lt_irrefl _)

theorem eq_of_mem_iff {fields' : List (String × α)} (h : Ascending fields)
    (h' : Ascending fields') (hmem : ∀ entry, entry ∈ fields ↔ entry ∈ fields') :
    fields = fields' := by
  apply eq_of_perm h h'
  refine (List.perm_ext_iff_of_nodup ?_ ?_).mpr hmem
  · exact List.Nodup.of_map Prod.fst (nodup_of_ascending h)
  · exact List.Nodup.of_map Prod.fst (nodup_of_ascending h')

end FormulaEngine.Fields
