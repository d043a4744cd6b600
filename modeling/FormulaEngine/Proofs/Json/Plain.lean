import FormulaEngine.Json.Basic
import FormulaEngine.Proofs.Number.Numerals

/-!
# Plain documents

A document is plain if its numbers are written as numbers that are doubles, and nothing in it is
unreadable. How deep it nests then decides whether it can be taken over.
-/

namespace FormulaEngine.Json

/-- Every number is one that can be read and is a double, and nothing is unreadable. -/
inductive Plain : Json → Prop where
  | null : Plain .null
  | bool (b : Bool) : Plain (.bool b)
  | number {n : Numeral} (hwritten : n.IsWritten) (hfloat : n.toFloat?.isSome) : Plain (.number n)
  | string (s : String) : Plain (.string s)
  | array {items : List Json} (h : ∀ j ∈ items, Plain j) : Plain (.array items)
  | object {members : List (String × Json)} (h : ∀ m ∈ members, Plain m.2) : Plain (.object members)

mutual

/-- How many arrays and objects are around the innermost part, at most. -/
def nesting : Json → Nat
  | .array items => nestingOfItems items + 1
  | .object members => nestingOfMembers members + 1
  | _ => 0

def nestingOfItems : List Json → Nat
  | [] => 0
  | j :: rest => max (nesting j) (nestingOfItems rest)

def nestingOfMembers : List (String × Json) → Nat
  | [] => 0
  | (_, j) :: rest => max (nesting j) (nestingOfMembers rest)

end

variable {j : Json} {items : List Json} {members : List (String × Json)} {depth : Nat}

theorem nestingOfItems_le_iff : nestingOfItems items ≤ depth ↔ ∀ j ∈ items, j.nesting ≤ depth := by
  induction items with
  | nil => simp [nestingOfItems]
  | cons j rest ih => rw [nestingOfItems, Nat.max_le, ih, List.forall_mem_cons]

theorem nestingOfMembers_le_iff :
    nestingOfMembers members ≤ depth ↔ ∀ m ∈ members, m.2.nesting ≤ depth := by
  induction members with
  | nil => simp [nestingOfMembers]
  | cons m rest ih =>
    obtain ⟨name, j⟩ := m
    rw [nestingOfMembers, Nat.max_le, ih, List.forall_mem_cons]

/-- What nests in an array has one level less. -/
theorem nesting_array_le_iff :
    (Json.array items).nesting ≤ depth + 1 ↔ ∀ j ∈ items, j.nesting ≤ depth := by
  rw [nesting, Nat.add_le_add_iff_right, nestingOfItems_le_iff]

theorem nesting_object_le_iff :
    (Json.object members).nesting ≤ depth + 1 ↔ ∀ m ∈ members, m.2.nesting ≤ depth := by
  rw [nesting, Nat.add_le_add_iff_right, nestingOfMembers_le_iff]

/-- What is listed in a member of an object has two levels less. -/
theorem nesting_le_of_listed {name : String} (h : (Json.object members).nesting ≤ depth + 2)
    (hm : (name, .array items) ∈ members) (hj : j ∈ items) : j.nesting ≤ depth :=
  nesting_array_le_iff.mp (nesting_object_le_iff.mp h _ hm) j hj

theorem nesting_lt_array (h : j ∈ items) : j.nesting < (Json.array items).nesting :=
  Nat.lt_succ_of_le (nestingOfItems_le_iff.mp (Nat.le_refl _) j h)

theorem nesting_lt_object (h : j ∈ members.map Prod.snd) :
    j.nesting < (Json.object members).nesting := by
  obtain ⟨m, hm, rfl⟩ := List.mem_map.mp h
  exact Nat.lt_succ_of_le (nestingOfMembers_le_iff.mp (Nat.le_refl _) m hm)

theorem areSound_iff : areSound depth items ↔ ∀ j ∈ items, j.isSound depth := by
  induction items with
  | nil => simp [areSound]
  | cons j rest ih => simp [areSound, ih]

theorem haveSound_iff : haveSound depth members ↔ ∀ m ∈ members, m.2.isSound depth := by
  induction members with
  | nil => simp [haveSound]
  | cons m rest ih =>
    obtain ⟨name, j⟩ := m
    simp [haveSound, ih]

theorem Plain.isSound (h : j.Plain) (hdepth : j.nesting ≤ depth) : j.isSound depth := by
  induction h generalizing depth with
  | null | bool _ | string _ => rfl
  | number _ hfloat => exact hfloat
  | array _ ih =>
    cases depth with
    | zero => exact absurd hdepth (by simp [nesting])
    | succ depth =>
      exact areSound_iff.mpr fun j hj => ih j hj (nesting_array_le_iff.mp hdepth j hj)
  | object _ ih =>
    cases depth with
    | zero => exact absurd hdepth (by simp [nesting])
    | succ depth =>
      exact haveSound_iff.mpr fun m hm => ih m hm (nesting_object_le_iff.mp hdepth m hm)

end FormulaEngine.Json
