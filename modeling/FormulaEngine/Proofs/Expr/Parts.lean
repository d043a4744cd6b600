import FormulaEngine.Expr.Walk
import Mathlib.Data.List.Basic

/-!
# Parts of expressions

The parts of an expression are what is reached from it through direct parts. They are exactly the
nodes in preorder, so whatever is read off the preorder holds of the parts: which names are read,
whether something is awaited, and whether a node cannot be evaluated.
-/

namespace FormulaEngine.Expr

variable {e part : Expr}

/-- A part of an expression, at any depth; the expression is a part of itself. -/
inductive Contains : Expr → Expr → Prop where
  | refl (e : Expr) : Contains e e
  | step {e child part : Expr} (h : child ∈ e.children) (hpart : Contains child part) :
    Contains e part

theorem Contains.trans {f : Expr} (hef : Contains e f) (hpart : Contains f part) :
    Contains e part := by
  induction hef with
  | refl => exact hpart
  | step h _ ih => exact .step h (ih hpart)

theorem sizeOf_child_lt {child : Expr} (h : child ∈ e.children) : sizeOf child < sizeOf e := by
  cases e with
  | switch subject cases fallback =>
    simp only [children, List.cons_append, List.mem_cons, List.mem_append, List.mem_flatMap,
      List.not_mem_nil, or_false, Option.mem_toList] at h
    rw [switch.sizeOf_spec]
    rcases h with rfl | ⟨c, hc, hchild⟩ | rfl
    · omega
    · have hlt := List.sizeOf_lt_of_mem hc
      obtain ⟨pattern, value⟩ := c
      rw [Prod.mk.sizeOf_spec] at hlt
      rcases hchild with rfl | rfl
      all_goals omega
    · rw [Option.some.sizeOf_spec]
      omega
  | list items =>
    have hlt := List.sizeOf_lt_of_mem (show child ∈ items from h)
    rw [list.sizeOf_spec]
    omega
  | object fields =>
    obtain ⟨field, hfield, rfl⟩ := List.mem_map.mp h
    have hlt := List.sizeOf_lt_of_mem hfield
    obtain ⟨name, value⟩ := field
    rw [Prod.mk.sizeOf_spec] at hlt
    rw [object.sizeOf_spec]
    change sizeOf value < _
    omega
  | call function args =>
    have hlt := List.sizeOf_lt_of_mem (show child ∈ args from h)
    rw [call.sizeOf_spec]
    omega
  | literal _ | ident _ => exact absurd h List.not_mem_nil
  | member _ _ =>
    obtain rfl := List.mem_singleton.mp h
    rw [member.sizeOf_spec]
    omega
  | unary _ _ =>
    obtain rfl := List.mem_singleton.mp h
    rw [unary.sizeOf_spec]
    omega
  | await _ =>
    obtain rfl := List.mem_singleton.mp h
    rw [await.sizeOf_spec]
    omega
  | binary _ _ _ =>
    rw [binary.sizeOf_spec]
    rcases List.mem_pair.mp h with rfl | rfl
    all_goals omega
  | default _ _ =>
    rw [default.sizeOf_spec]
    rcases List.mem_pair.mp h with rfl | rfl
    all_goals omega
  | conditional _ _ _ =>
    simp only [children, List.mem_cons, List.not_mem_nil, or_false] at h
    rw [conditional.sizeOf_spec]
    rcases h with rfl | rfl | rfl
    all_goals omega

/-- What holds of an expression whenever it holds of all its smaller parts holds of all. -/
theorem induction_parts {motive : Expr → Prop}
    (h : ∀ e, (∀ child ∈ e.children, ∀ part, child.Contains part → motive part) → motive e)
    (e : Expr) : motive e := by
  suffices hall : ∀ size (e : Expr), sizeOf e < size → ∀ part, e.Contains part → motive part from
    hall _ e (Nat.lt_succ_self _) e (.refl e)
  intro size
  induction size with
  | zero => exact fun _ hlt => absurd hlt (Nat.not_lt_zero _)
  | succ size ih =>
    intro e hlt part hpart
    induction hpart with
    | refl e =>
      refine h e fun child hchild part hpart => ih child ?_ part hpart
      have := sizeOf_child_lt hchild
      omega
    | step hchild _ ihpart =>
      have := sizeOf_child_lt hchild
      exact ihpart (by omega)

/-! ### Operands -/

/-- The direct parts of an expression as far as they are evaluated. A call that is awaited is made
where it is awaited, and only its arguments are evaluated before. -/
def operands : Expr → List Expr
  | .await operand => operand.children
  | e => e.children

/-- A part of an expression that is evaluated, at any depth. -/
inductive Evaluates : Expr → Expr → Prop where
  | refl (e : Expr) : Evaluates e e
  | step {e operand part : Expr} (h : operand ∈ e.operands) (hpart : Evaluates operand part) :
    Evaluates e part

theorem exists_child_of_mem_operands (h : part ∈ e.operands) :
    ∃ child ∈ e.children, child.Contains part := by
  cases e with
  | await operand => exact ⟨operand, List.mem_singleton_self _, .step h (.refl _)⟩
  | _ => exact ⟨part, h, .refl _⟩

theorem Evaluates.contains (h : e.Evaluates part) : e.Contains part := by
  induction h with
  | refl e => exact .refl e
  | step h _ ih =>
    obtain ⟨child, hchild, hpart⟩ := exists_child_of_mem_operands h
    exact .step hchild (hpart.trans ih)

/-! ### Preorder -/

theorem preorderList_eq (items : List Expr) : preorderList items = items.flatMap preorder := by
  induction items with
  | nil => rfl
  | cons e rest ih => rw [preorderList, List.flatMap_cons, ih]

theorem preorderCases_eq (cases : List (Expr × Expr)) :
    preorderCases cases = (cases.flatMap fun c => [c.1, c.2]).flatMap preorder := by
  induction cases with
  | nil => rfl
  | cons c rest ih =>
    obtain ⟨pattern, value⟩ := c
    rw [preorderCases, ih]
    simp

theorem preorderFields_eq (fields : List (String × Expr)) :
    preorderFields fields = (fields.map (·.2)).flatMap preorder := by
  induction fields with
  | nil => rfl
  | cons field rest ih =>
    obtain ⟨name, e⟩ := field
    rw [preorderFields, ih]
    rfl

theorem preorderOption_eq (e : Option Expr) :
    preorderOption e = e.toList.flatMap preorder := by
  cases e <;> simp [preorderOption]

/-- The nodes of an expression are itself and then the nodes of its direct parts in order. -/
theorem preorder_eq (e : Expr) : e.preorder = e :: e.children.flatMap preorder := by
  cases e <;> simp [preorder, children, preorderList_eq, preorderCases_eq, preorderFields_eq,
    preorderOption_eq]

theorem mem_preorder_iff : part ∈ e.preorder ↔ e.Contains part := by
  constructor
  · induction e using induction_parts generalizing part with
    | h e ih =>
      intro hmem
      rw [preorder_eq, List.mem_cons, List.mem_flatMap] at hmem
      rcases hmem with rfl | ⟨child, hchild, hmem⟩
      · exact .refl _
      · exact .step hchild (ih child hchild child (.refl child) hmem)
  · intro hpart
    induction hpart with
    | refl e => rw [preorder_eq]; exact List.mem_cons_self
    | step hchild _ ih =>
      rw [preorder_eq]
      exact List.mem_cons_of_mem _ (List.mem_flatMap.mpr ⟨_, hchild, ih⟩)

/-! ### What is known of an expression by its parts -/

theorem isAsync_iff : e.isAsync ↔ ∃ operand, e.Contains (.await operand) := by
  simp only [isAsync, List.any_eq_true, mem_preorder_iff]
  constructor
  · rintro ⟨part, hpart, hawait⟩
    cases part with
    | await operand => exact ⟨operand, hpart⟩
    | _ => simp [isAwait] at hawait
  · rintro ⟨operand, h⟩
    exact ⟨_, h, rfl⟩

theorem mem_foldl_distinct_iff {names seen : List String} {name : String} :
    name ∈ names.foldl (fun seen name => if name ∈ seen then seen else seen ++ [name]) seen ↔
      name ∈ seen ∨ name ∈ names := by
  induction names generalizing seen with
  | nil => simp
  | cons first rest ih =>
    rw [List.foldl_cons, ih]
    by_cases hfirst : first ∈ seen
    · rw [if_pos hfirst, List.mem_cons]
      constructor
      · rintro (h | h)
        · exact .inl h
        · exact .inr (.inr h)
      · rintro (h | rfl | h)
        · exact .inl h
        · exact .inl hfirst
        · exact .inr h
    · rw [if_neg hfirst]
      simp [or_assoc]

/-- The names that are read are those of the identifiers at any depth. -/
theorem mem_references_iff {name : String} :
    name ∈ e.references ↔ e.Contains (.ident name) := by
  simp only [references, distinct, mem_foldl_distinct_iff, List.not_mem_nil, false_or,
    List.mem_filterMap, mem_preorder_iff]
  constructor
  · rintro ⟨part, hpart, hname⟩
    cases part with
    | ident other =>
      obtain rfl : other = name := by simpa [readName?] using hname
      exact hpart
    | _ => simp [readName?] at hname
  · exact fun h => ⟨_, h, rfl⟩

/-! ### Flaws -/

/-- A node that cannot be evaluated. -/
inductive Flawed : Expr → Prop where
  | ident : Flawed (.ident "")
  | member (target : Expr) : Flawed (.member target "")
  | call (args : List Expr) : Flawed (.call "" args)
  | await {operand : Expr} (h : ∀ function args, operand ≠ .call function args) :
    Flawed (.await operand)

theorem isCall_iff : e.isCall ↔ ∃ function args, e = .call function args := by
  cases e <;> simp [isCall]

theorem ownFlaw?_eq_none_iff : e.ownFlaw? = none ↔ ¬e.Flawed := by
  constructor
  · rintro h (_ | _ | _ | hcall)
    · simp [ownFlaw?] at h
    · simp [ownFlaw?] at h
    · simp [ownFlaw?] at h
    · have hiscall := isCall_iff.mp (by simpa [ownFlaw?] using h)
      obtain ⟨function, args, heq⟩ := hiscall
      exact hcall function args heq
  · intro h
    cases e with
    | ident name =>
      have hne : name ≠ "" := fun heq => h (heq ▸ .ident)
      simp [ownFlaw?, hne]
    | member target name =>
      have hne : name ≠ "" := fun heq => h (heq ▸ .member target)
      simp [ownFlaw?, hne]
    | call function args =>
      have hne : function ≠ "" := fun heq => h (heq ▸ .call args)
      simp [ownFlaw?, hne]
    | await operand =>
      have hcall : operand.isCall := by
        by_contra hcall
        exact h (.await fun function args heq => hcall (isCall_iff.mpr ⟨function, args, heq⟩))
      simp [ownFlaw?, hcall]
    | _ => rfl

/-- An expression passes if none of its parts is flawed. -/
theorem flaw?_eq_none_iff : e.flaw? = none ↔ ∀ part, e.Contains part → ¬part.Flawed := by
  simp [flaw?, List.findSome?_eq_none_iff, mem_preorder_iff, ownFlaw?_eq_none_iff]

end FormulaEngine.Expr
