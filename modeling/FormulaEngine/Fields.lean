/-!
# Fields

Named entries in ascending order of their names, each name once.
-/

namespace FormulaEngine.Fields

variable {α β : Type}

/-- Adds an entry in its place, instead of one with the same name. -/
def insert (name : String) (a : α) : List (String × α) → List (String × α)
  | [] => [(name, a)]
  | (other, b) :: rest =>
    if name < other then (name, a) :: (other, b) :: rest
    else if name = other then (name, a) :: rest
    else (other, b) :: insert name a rest

/-- The fields made of a list of entries, of which the last with a name counts. -/
def ofList (entries : List (String × α)) : List (String × α) :=
  entries.foldl (fun fields entry => insert entry.1 entry.2 fields) []

def get? (fields : List (String × α)) (name : String) : Option α :=
  fields.lookup name

def Ascending (fields : List (String × α)) : Prop :=
  fields.Pairwise fun a b => a.1 < b.1

/-! ### Adding an entry -/

theorem get?_insert_self (name : String) (a : α) (fields : List (String × α)) :
    get? (insert name a fields) name = some a := by
  induction fields with
  | nil => simp [insert, get?]
  | cons entry rest ih =>
    obtain ⟨other, b⟩ := entry
    by_cases hlt : name < other
    · simp [insert, get?, hlt]
    · by_cases heq : name = other
      · simp [insert, get?, heq]
      · have hne : (name == other) = false := by simpa using heq
        simpa [insert, get?, hlt, heq, List.lookup_cons, hne] using ih

theorem get?_insert_of_ne {name other : String} (h : other ≠ name) (a : α)
    (fields : List (String × α)) : get? (insert name a fields) other = get? fields other := by
  have hne : (other == name) = false := by simpa using h
  induction fields with
  | nil => simp [insert, get?, List.lookup_cons, hne]
  | cons entry rest ih =>
    obtain ⟨key, b⟩ := entry
    by_cases hlt : name < key
    · simp [insert, get?, hlt, List.lookup_cons, hne]
    · by_cases heq : name = key
      · subst heq
        simp [insert, get?, List.lookup_cons, hne]
      · have ih' : (insert name a rest).lookup other = rest.lookup other := ih
        simp [insert, get?, hlt, heq, List.lookup_cons, ih']

theorem mem_of_mem_insert {name : String} {a : α} {fields : List (String × α)}
    {entry : String × α} (h : entry ∈ insert name a fields) :
    entry = (name, a) ∨ entry ∈ fields := by
  induction fields with
  | nil => simpa [insert] using h
  | cons first rest ih =>
    obtain ⟨key, b⟩ := first
    by_cases hlt : name < key
    · simpa [insert, hlt] using h
    · by_cases heq : name = key
      · rw [insert, if_neg hlt, if_pos heq] at h
        exact (List.mem_cons.mp h).imp_right (List.mem_cons_of_mem _)
      · rw [insert, if_neg hlt, if_neg heq] at h
        rcases List.mem_cons.mp h with rfl | h
        · exact Or.inr List.mem_cons_self
        · exact (ih h).imp_right (List.mem_cons_of_mem _)

theorem ascending_insert {fields : List (String × α)} (h : Ascending fields) (name : String)
    (a : α) : Ascending (insert name a fields) := by
  induction fields with
  | nil => simp [insert, Ascending]
  | cons first rest ih =>
    obtain ⟨key, b⟩ := first
    obtain ⟨hfirst, hrest⟩ := List.pairwise_cons.mp h
    by_cases hlt : name < key
    · rw [insert, if_pos hlt]
      refine List.pairwise_cons.mpr ⟨fun entry hmem => ?_, h⟩
      rcases List.mem_cons.mp hmem with rfl | hmem
      · exact hlt
      · exact String.lt_trans hlt (hfirst entry hmem)
    · by_cases heq : name = key
      · rw [insert, if_neg hlt, if_pos heq]
        exact List.pairwise_cons.mpr ⟨fun entry hmem => heq ▸ hfirst entry hmem, hrest⟩
      · rw [insert, if_neg hlt, if_neg heq]
        refine List.pairwise_cons.mpr ⟨fun entry hmem => ?_, ih hrest⟩
        rcases mem_of_mem_insert hmem with rfl | hmem
        · exact Decidable.byContradiction fun hge =>
            heq (String.le_antisymm (String.not_lt.mp hge) (String.not_lt.mp hlt))
        · exact hfirst entry hmem

theorem ascending_ofList (entries : List (String × α)) : Ascending (ofList entries) := by
  suffices h : ∀ fields, Ascending fields →
      Ascending (entries.foldl (fun fields entry => insert entry.1 entry.2 fields) fields) from
    h [] List.Pairwise.nil
  induction entries with
  | nil => exact fun _ h => h
  | cons entry rest ih => exact fun fields h => ih _ (ascending_insert h entry.1 entry.2)

end FormulaEngine.Fields
