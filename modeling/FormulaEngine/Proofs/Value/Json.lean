import FormulaEngine.Proofs.Fields
import FormulaEngine.Proofs.Json.Plain
import FormulaEngine.Value.Json

/-!
# Values that are written and read

A value is read from the document it is written as, if its numbers are finite and each is the double
that its text stands for.
-/

namespace FormulaEngine

theorem Fields.ofList_of_ascending {α : Type} {fields : List (String × α)}
    (h : Fields.Ascending fields) : Fields.ofList fields = fields :=
  Fields.eq_of_perm (ascending_ofList fields) h (ofList_perm (nodup_of_ascending h))

namespace Value

variable {v : Value} {items : List Value} {fields : List (String × Value)}

/-- The text of a double is that of a number, and the double of that number is the same again. -/
def ReadsBack (x : Float) : Prop :=
  (Numeral.ofChars? (Numeral.ofFloat jsonStyle x).toChars).bind Numeral.toFloat? = some x

theorem toFloat?_ofFloat {x : Float} (h : ReadsBack x) :
    (Numeral.ofFloat jsonStyle x).toFloat? = some x := by
  rwa [ReadsBack, Numeral.ofChars?_toChars_ofFloat, Option.bind_some] at h

mutual

/-- The numbers in a value, at any depth. -/
def numbers : Value → List Float
  | .number x => [x]
  | .list items => numbersOfItems items
  | .object fields => numbersOfFields fields
  | _ => []

def numbersOfItems : List Value → List Float
  | [] => []
  | v :: rest => numbers v ++ numbersOfItems rest

def numbersOfFields : List (String × Value) → List Float
  | [] => []
  | (_, v) :: rest => numbers v ++ numbersOfFields rest

end

/-- A value whose numbers can be written and read, and whose objects are in order. -/
inductive Portable : Value → Prop where
  | null : Portable .null
  | bool (b : Bool) : Portable (.bool b)
  | number {x : Float} (hfinite : x.isFinite) (hreads : ReadsBack x) : Portable (.number x)
  | string (s : String) : Portable (.string s)
  | list {items : List Value} (h : ∀ v ∈ items, Portable v) : Portable (.list items)
  | object {fields : List (String × Value)} (hascending : Fields.Ascending fields)
      (h : ∀ f ∈ fields, Portable f.2) : Portable (.object fields)

mutual

theorem Canonical.portable (v : Value) (hcanonical : v.Canonical)
    (h : ∀ x ∈ v.numbers, x.isFinite ∧ ReadsBack x) : v.Portable := by
  cases v with
  | null => exact .null
  | bool b => exact .bool b
  | number x =>
    obtain ⟨hfinite, hreads⟩ := h x (List.mem_singleton_self x)
    exact .number hfinite hreads
  | string s => exact .string s
  | list items => exact .list (AllCanonical.portable items hcanonical h)
  | object fields => exact .object hcanonical.1 (HaveCanonical.portable fields hcanonical.2 h)

theorem AllCanonical.portable (items : List Value) (hcanonical : AllCanonical items)
    (h : ∀ x ∈ numbersOfItems items, x.isFinite ∧ ReadsBack x) : ∀ v ∈ items, v.Portable := by
  cases items with
  | nil => simp
  | cons v rest =>
    have hv := Canonical.portable v hcanonical.1 fun x hx => h x (List.mem_append_left _ hx)
    have hrest := AllCanonical.portable rest hcanonical.2 fun x hx =>
      h x (List.mem_append_right _ hx)
    exact List.forall_mem_cons.mpr ⟨hv, hrest⟩

theorem HaveCanonical.portable (fields : List (String × Value)) (hcanonical : HaveCanonical fields)
    (h : ∀ x ∈ numbersOfFields fields, x.isFinite ∧ ReadsBack x) :
    ∀ f ∈ fields, f.2.Portable := by
  cases fields with
  | nil => simp
  | cons f rest =>
    obtain ⟨name, v⟩ := f
    have hv := Canonical.portable v hcanonical.1 fun x hx => h x (List.mem_append_left _ hx)
    have hrest := HaveCanonical.portable rest hcanonical.2 fun x hx =>
      h x (List.mem_append_right _ hx)
    exact List.forall_mem_cons.mpr ⟨hv, hrest⟩

end

theorem itemsToJson_eq (items : List Value) : itemsToJson items = items.map toJson := by
  induction items with
  | nil => rfl
  | cons v rest ih => rw [itemsToJson, ih, List.map_cons]

theorem fieldsToJson_eq (fields : List (String × Value)) :
    fieldsToJson fields = fields.map fun f => (f.1, f.2.toJson) := by
  induction fields with
  | nil => rfl
  | cons f rest ih =>
    obtain ⟨name, v⟩ := f
    rw [fieldsToJson, ih, List.map_cons]

namespace Portable

theorem plain_toJson (h : v.Portable) : v.toJson.Plain := by
  induction h with
  | null => exact .null
  | bool b => exact .bool b
  | number hfinite hreads =>
    rw [toJson, numberToJson, if_pos hfinite]
    exact .number (Numeral.isWritten_ofFloat _ _) (by rw [toFloat?_ofFloat hreads]; rfl)
  | string s => exact .string s
  | list _ ih =>
    rw [toJson, itemsToJson_eq]
    exact .array (List.forall_mem_map.mpr ih)
  | object _ _ ih =>
    rw [toJson, fieldsToJson_eq]
    exact .object (List.forall_mem_map.mpr ih)

theorem itemsOfJson?_itemsToJson (h : ∀ v ∈ items, ofJson? v.toJson = some v) :
    itemsOfJson? (itemsToJson items) = some items := by
  induction items with
  | nil => rfl
  | cons v rest ih =>
    have hrest := ih fun w hw => h w (List.mem_cons_of_mem _ hw)
    rw [itemsToJson, itemsOfJson?, h v List.mem_cons_self, hrest]
    rfl

theorem fieldsOfJson?_fieldsToJson (h : ∀ f ∈ fields, ofJson? f.2.toJson = some f.2) :
    fieldsOfJson? (fieldsToJson fields) = some fields := by
  induction fields with
  | nil => rfl
  | cons f rest ih =>
    obtain ⟨name, v⟩ := f
    have hv : ofJson? v.toJson = some v := h (name, v) List.mem_cons_self
    have hrest := ih fun g hg => h g (List.mem_cons_of_mem _ hg)
    rw [fieldsToJson, fieldsOfJson?, hv, hrest]
    rfl

/-- Every value is read as it was written. -/
theorem ofJson?_toJson (h : v.Portable) : ofJson? v.toJson = some v := by
  induction h with
  | null | bool _ | string _ => rfl
  | number hfinite hreads =>
    rw [toJson, numberToJson, if_pos hfinite, ofJson?, toFloat?_ofFloat hreads]
    rfl
  | list _ ih =>
    rw [toJson, ofJson?, itemsOfJson?_itemsToJson ih]
    rfl
  | object hascending _ ih =>
    rw [toJson, ofJson?, fieldsOfJson?_fieldsToJson ih, Option.map_some, ofFields,
      Fields.ofList_of_ascending hascending]

theorem decode?_toJson {depth : Nat} (h : v.Portable) (hdepth : v.toJson.nesting ≤ depth) :
    decode? depth v.toJson = some v := by
  rw [decode?, if_pos (h.plain_toJson.isSound hdepth), h.ofJson?_toJson]

end Portable

end Value

end FormulaEngine
