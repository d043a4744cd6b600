import FormulaEngine.Json.Record
import FormulaEngine.Proofs.Fields

/-!
# Records that were written

An object with the fields of a record under different names has them as the fields of the record,
and an array of what was encoded is decoded entry by entry.
-/

namespace FormulaEngine.Json

variable {α : Type} {members : List (String × Json)} {encode : α → Json} {decode : Json → Option α}
  {l : List α}

theorem record?_object {names : List String} (hnames : members.map Prod.fst = names)
    (h : names.Nodup) : record? names (.object members) = some (members.map fun m => some m.2) := by
  subst hnames
  have honce : ((members.map Prod.fst).any fun name =>
      decide (1 < members.countP (·.1 == name))) = false := by
    refine List.any_eq_false.mpr fun name _ => ?_
    have hcount : members.countP (·.1 == name) = (members.map Prod.fst).count name := by
      rw [List.count, List.countP_map]
      rfl
    rw [hcount, decide_eq_true_iff, Nat.not_lt]
    exact List.nodup_iff_count_le_one.mp h name
  have hfields : (members.map Prod.fst).map (fun name => members.lookup name) =
      members.map fun m => some m.2 := by
    rw [List.map_map]
    exact List.map_congr_left fun m hm => (Fields.get?_eq_some_iff h).mpr hm
  rw [record?, honce, hfields]
  rfl

theorem mapM_map_eq_some (h : ∀ a ∈ l, decode (encode a) = some a) :
    (l.map encode).mapM decode = some l := by
  induction l with
  | nil => rfl
  | cons a rest ih =>
    rw [List.map_cons, List.mapM_cons, h a List.mem_cons_self,
      ih fun b hb => h b (List.mem_cons_of_mem _ hb)]
    rfl

theorem listOf?_array (h : ∀ a ∈ l, decode (encode a) = some a) :
    listOf? decode (.array (l.map encode)) = some l :=
  mapM_map_eq_some h

end FormulaEngine.Json
