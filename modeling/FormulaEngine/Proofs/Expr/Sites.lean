import FormulaEngine.Proofs.Expr.Parts
import Mathlib.Data.List.Nodup

/-!
# Places in expressions

Equal parts of an expression are told apart by their places. In postorder each place comes after
those below it, and those below it come in the order of the direct parts. So every part is listed
once, at its own place.
-/

namespace FormulaEngine.Expr

/-- The place of a part: which of the direct parts to go to, from the whole expression on. -/
abbrev Site := List Nat

/-- The part at a place. -/
def part? (e : Expr) : Site → Option Expr
  | [] => some e
  | k :: rest => e.children[k]?.bind (part? · rest)

/-- The parts of an expression with their places, each behind its own parts. -/
def postorder (here : Site) (e : Expr) : List (Site × Expr) :=
  (e.children.attach.zipIdx.flatMap fun child => postorder (here ++ [child.2]) child.1.1) ++
    [(here, e)]
termination_by sizeOf e
decreasing_by exact sizeOf_child_lt child.1.2

/-- The parts of some direct parts of an expression, the first of which has the number `k`. -/
def postorderFrom (here : Site) (k : Nat) : List Expr → List (Site × Expr)
  | [] => []
  | e :: rest => postorder (here ++ [k]) e ++ postorderFrom here (k + 1) rest

variable {here site : Site} {k : Nat} {e node : Expr} {items : List Expr}

theorem postorderFrom_eq : postorderFrom here k items =
    (items.zipIdx k).flatMap fun child => postorder (here ++ [child.2]) child.1 := by
  induction items generalizing k with
  | nil => rfl
  | cons e rest ih => rw [postorderFrom, ih, List.zipIdx_cons, List.flatMap_cons]

/-- The parts of an expression are those of its direct parts in order, and then itself. -/
theorem postorder_eq (here : Site) (e : Expr) :
    postorder here e = postorderFrom here 0 e.children ++ [(here, e)] := by
  rw [postorder, postorderFrom_eq]
  conv_rhs => rw [← List.attach_map_subtype_val e.children, List.zipIdx_map, List.flatMap_map]
  rfl

theorem postorderFrom_append {rest : List Expr} : postorderFrom here k (items ++ rest) =
    postorderFrom here k items ++ postorderFrom here (k + items.length) rest := by
  rw [postorderFrom_eq, postorderFrom_eq, postorderFrom_eq, List.zipIdx_append, List.flatMap_append]

theorem mem_postorderFrom_iff {x : Site × Expr} : x ∈ postorderFrom here k items ↔
    ∃ j child, items[j]? = some child ∧ x ∈ postorder (here ++ [k + j]) child := by
  induction items generalizing k with
  | nil => simp [postorderFrom]
  | cons e rest ih =>
    rw [postorderFrom, List.mem_append, ih]
    constructor
    · rintro (hx | ⟨j, child, hchild, hx⟩)
      · exact ⟨0, e, rfl, hx⟩
      · rw [Nat.add_right_comm, Nat.add_assoc] at hx
        exact ⟨j + 1, child, hchild, hx⟩
    · rintro ⟨j, child, hchild, hx⟩
      cases j with
      | zero =>
        obtain rfl := Option.some.inj hchild
        exact .inl hx
      | succ j =>
        rw [← Nat.add_assoc, Nat.add_right_comm] at hx
        exact .inr ⟨j, child, hchild, hx⟩

/-- What is listed in postorder is what is found at the places. -/
theorem mem_postorder_iff : (site, node) ∈ postorder here e ↔
    ∃ rest, site = here ++ rest ∧ e.part? rest = some node := by
  induction e using induction_parts generalizing here with
  | h e ih =>
    rw [postorder_eq, List.mem_append, mem_postorderFrom_iff, List.mem_singleton, Prod.mk.injEq]
    constructor
    · rintro (⟨j, child, hchild, hmem⟩ | ⟨rfl, rfl⟩)
      · obtain ⟨rest, rfl, hrest⟩ :=
          (ih child (List.mem_of_getElem? hchild) child (.refl _)).mp hmem
        refine ⟨j :: rest, ?_, ?_⟩
        · rw [Nat.zero_add, List.append_assoc, List.singleton_append]
        · rw [part?, hchild]
          exact hrest
      · exact ⟨[], (List.append_nil _).symm, rfl⟩
    · rintro ⟨rest, rfl, hrest⟩
      cases rest with
      | nil => exact .inr ⟨List.append_nil _, (Option.some.inj hrest).symm⟩
      | cons j rest =>
        obtain ⟨child, hchild, hrest⟩ := Option.bind_eq_some_iff.mp hrest
        refine .inl ⟨j, child, hchild,
          (ih child (List.mem_of_getElem? hchild) child (.refl _)).mpr ⟨rest, ?_, hrest⟩⟩
        rw [Nat.zero_add, List.append_assoc, List.singleton_append]

theorem exists_of_mem_postorderFrom (h : (site, node) ∈ postorderFrom here k items) :
    ∃ j rest, k ≤ j ∧ site = here ++ j :: rest := by
  obtain ⟨j, child, -, hmem⟩ := mem_postorderFrom_iff.mp h
  obtain ⟨rest, rfl, -⟩ := mem_postorder_iff.mp hmem
  exact ⟨k + j, rest, Nat.le_add_right k j, by rw [List.append_assoc, List.singleton_append]⟩

theorem nodup_postorderFrom (h : ∀ child ∈ items, ∀ here,
    ((postorder here child).map Prod.fst).Nodup) :
    ((postorderFrom here k items).map Prod.fst).Nodup := by
  induction items generalizing k with
  | nil => exact List.nodup_nil
  | cons e rest ih =>
    rw [postorderFrom, List.map_append, List.nodup_append]
    refine ⟨h e List.mem_cons_self _,
      ih fun child hchild => h child (List.mem_cons_of_mem _ hchild),
      fun site hsite other hother heq => ?_⟩
    obtain ⟨⟨_, node⟩, hnode, rfl⟩ := List.mem_map.mp hsite
    obtain ⟨⟨_, node'⟩, hnode', rfl⟩ := List.mem_map.mp hother
    obtain ⟨below, hbelow, -⟩ := mem_postorder_iff.mp hnode
    obtain ⟨j, below', hle, hbelow'⟩ := exists_of_mem_postorderFrom hnode'
    have hpaths := hbelow'.symm.trans (heq.symm.trans hbelow)
    rw [List.append_assoc] at hpaths
    obtain ⟨rfl, -⟩ := List.cons.inj (List.append_cancel_left hpaths)
    exact absurd hle (Nat.not_succ_le_self j)

/-- No two parts are at one place. -/
theorem nodup_postorder : ((postorder here e).map Prod.fst).Nodup := by
  induction e using induction_parts generalizing here with
  | h e ih =>
    rw [postorder_eq, List.map_append, List.nodup_append]
    refine ⟨nodup_postorderFrom fun child hchild _ => ih child hchild child (.refl _),
      List.nodup_singleton _, fun site hsite other hother heq => ?_⟩
    obtain ⟨⟨_, node⟩, hnode, rfl⟩ := List.mem_map.mp hsite
    obtain rfl := List.mem_singleton.mp hother
    obtain ⟨j, rest, -, hbelow⟩ := exists_of_mem_postorderFrom hnode
    exact absurd (List.self_eq_append_right.mp (heq.symm.trans hbelow)) (List.cons_ne_nil _ _)

/-! ### Calls -/

/-- The function that is called at a node. -/
def callee? : Expr → Option String
  | .call function _ => some function
  | _ => none

/-- A node that calls a function, with its place. -/
def callAt? (x : Site × Expr) : Option (Site × String) := x.2.callee?.map (x.1, ·)

/-- The calls in an expression with their places, in postorder. -/
def callSites (e : Expr) : List (Site × String) := (postorder [] e).filterMap callAt?

theorem callAt?_eq_some_iff {x : Site × Expr} {function : String} :
    callAt? x = some (site, function) ↔ ∃ args, x = (site, .call function args) := by
  obtain ⟨place, node⟩ := x
  cases node <;> simp [callAt?, callee?]

/-- What is listed as a call is what stands as a call at its place. -/
theorem mem_callSites_iff {function : String} :
    (site, function) ∈ e.callSites ↔ ∃ args, e.part? site = some (.call function args) := by
  simp only [callSites, List.mem_filterMap, callAt?_eq_some_iff]
  constructor
  · rintro ⟨x, hx, args, rfl⟩
    obtain ⟨rest, rfl, hrest⟩ := mem_postorder_iff.mp hx
    exact ⟨args, hrest⟩
  · rintro ⟨args, hpart⟩
    exact ⟨_, mem_postorder_iff.mpr ⟨site, rfl, hpart⟩, args, rfl⟩

theorem nodup_callSites : (e.callSites.map Prod.fst).Nodup := by
  have hsublist : (e.callSites.map Prod.fst).Sublist ((postorder [] e).map Prod.fst) := by
    unfold callSites
    induction postorder [] e with
    | nil => exact .slnil
    | cons x rest ih =>
      obtain ⟨site, node⟩ := x
      cases node with
      | call function args => exact ih.cons_cons site
      | _ => exact ih.cons site
  exact nodup_postorder.sublist hsublist

end FormulaEngine.Expr
