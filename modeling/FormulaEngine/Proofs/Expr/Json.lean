import FormulaEngine.Expr.Json
import FormulaEngine.Proofs.Expr.Parts
import FormulaEngine.Proofs.Json.Records
import FormulaEngine.Proofs.Value.Json

/-!
# Expressions that are written and read

The kind that an expression names is the only member with that name, and tells which fields come
with it. So no expression is read as one of another kind, and each is read as it was written if its
literals are, as far as the depth to which expressions may nest.
-/

namespace FormulaEngine.Expr

variable {e : Expr} {inside : Bool} {kind : String} {fields : List (String × Json)}

/-! ### Nodes -/

theorem nodup_of_mem_shapes : ∀ shape ∈ shapes, shape.2.Nodup ∧ "kind" ∉ shape.2 := by
  decide

theorem split?_node (h : "kind" ∉ fields.map Prod.fst) :
    split? inside (node kind fields) = some (kind, .object fields) := by
  have hnot : ∀ f ∈ fields, (f.1 == "kind") = false := fun f hf =>
    beq_false_of_ne fun heq => h (heq ▸ List.mem_map_of_mem hf)
  have htags : (("kind", Json.string kind) :: fields).filter (·.1 == "kind") =
      [("kind", .string kind)] := by
    rw [List.filter_cons_of_pos (by rfl), List.filter_eq_nil_iff.mpr]
    intro f hf
    simp [hnot f hf]
  have hothers : (("kind", Json.string kind) :: fields).filter (·.1 != "kind") = fields := by
    rw [List.filter_cons_of_neg (by simp), List.filter_eq_self]
    intro f hf
    simp [bne, hnot f hf]
  rw [node, split?, htags, hothers]
  rfl

/-- The parts of a node are its fields. -/
theorem parts?_node (h : shapes.lookup kind = some (fields.map Prod.fst)) :
    parts? inside (node kind fields) = some (kind, fields.map fun f => some f.2) := by
  have hmem : (kind, fields.map Prod.fst) ∈ shapes := by
    obtain ⟨before, after, heq, -⟩ := List.lookup_eq_some_iff.mp h
    rw [heq]
    exact List.mem_append_right _ List.mem_cons_self
  obtain ⟨hnodup, hkind⟩ := nodup_of_mem_shapes _ hmem
  rw [parts?, split?_node hkind]
  change (shapes.lookup kind).bind _ = _
  rw [h]
  change (Json.record? (fields.map Prod.fst) (.object fields)).bind _ = _
  rw [Json.record?_object rfl hnodup]
  rfl

theorem plain_node (h : ∀ f ∈ fields, f.2.Plain) : (node kind fields).Plain :=
  .object (List.forall_mem_cons.mpr ⟨.string kind, h⟩)

/-! ### Lists of parts -/

/-- The pattern and the value of a case are parts of the expression. -/
theorem mem_children_of_mem_cases {subject : Expr} {cases : List (Expr × Expr)}
    {fallback : Option Expr} {c : Expr × Expr} (hc : c ∈ cases) :
    ∀ part ∈ [c.1, c.2], part ∈ (switch subject cases fallback).children := fun _ hpart =>
  List.mem_append_left _ (List.mem_cons_of_mem _ (List.mem_flatMap.mpr ⟨c, hc, hpart⟩))

theorem listToJson_eq (items : List Expr) : listToJson items = items.map toJson := by
  induction items with
  | nil => rfl
  | cons e rest ih => rw [listToJson, ih, List.map_cons]

theorem casesToJson_eq (cases : List (Expr × Expr)) : casesToJson cases =
    cases.map fun c => .object [("pattern", c.1.toJson), ("value", c.2.toJson)] := by
  induction cases with
  | nil => rfl
  | cons c rest ih =>
    obtain ⟨pattern, value⟩ := c
    rw [casesToJson, ih, List.map_cons]

theorem fieldsToJson_eq (fields : List (String × Expr)) : fieldsToJson fields =
    fields.map fun f => .object [("name", .string f.1), ("value", f.2.toJson)] := by
  induction fields with
  | nil => rfl
  | cons f rest ih =>
    obtain ⟨name, value⟩ := f
    rw [fieldsToJson, ih, List.map_cons]

theorem pair?_object {α β : Type} {name name' : String} {first : Json → Option α}
    {second : Json → Option β} {j k : Json} {a : α} {b : β} (hne : name ≠ name')
    (hj : first j = some a) (hk : second k = some b) :
    pair? [name, name'] first second (.object [(name, j), (name', k)]) = some (a, b) := by
  have hrecord : Json.record? [name, name'] (.object [(name, j), (name', k)]) =
      some [some j, some k] := Json.record?_object rfl (by simpa using hne)
  rw [pair?, hrecord]
  simp [hj, hk]

/-- An expression is not written as null, which stands for none. -/
theorem optional?_toJson {decode : Json → Option Expr} (h : decode e.toJson = some e) :
    optional? decode e.toJson = some (some e) := by
  have hmap : (decode e.toJson).map some = some (some e) := congrArg (Option.map some) h
  cases e <;> exact hmap

theorem listOf?_listToJson {decode : Json → Option Expr} {items : List Expr}
    (h : ∀ e ∈ items, decode e.toJson = some e) :
    Json.listOf? decode (.array (listToJson items)) = some items := by
  rw [listToJson_eq]
  exact Json.listOf?_array h

theorem listOf?_casesToJson {decode : Json → Option Expr} {cases : List (Expr × Expr)}
    (h : ∀ c ∈ cases, decode c.1.toJson = some c.1 ∧ decode c.2.toJson = some c.2) :
    Json.listOf? (pair? ["pattern", "value"] decode decode) (.array (casesToJson cases)) =
      some cases := by
  rw [casesToJson_eq]
  exact Json.listOf?_array fun c hc => pair?_object (by decide) (h c hc).1 (h c hc).2

theorem listOf?_fieldsToJson {decode : Json → Option Expr} {fields : List (String × Expr)}
    (h : ∀ f ∈ fields, decode f.2.toJson = some f.2) :
    Json.listOf? (pair? ["name", "value"] Json.string? decode) (.array (fieldsToJson fields)) =
      some fields := by
  rw [fieldsToJson_eq]
  exact Json.listOf?_array fun f hf => pair?_object (by decide) rfl (h f hf)

/-! ### Nesting -/

theorem nesting_lt_node {j : Json} (h : j ∈ fields.map Prod.snd) :
    j.nesting < (node kind fields).nesting :=
  Json.nesting_lt_object (List.mem_cons_of_mem _ h)

/-- A part of an expression nests less deeply than the expression. -/
theorem nesting_child_lt {child : Expr} (h : child ∈ e.children) :
    child.toJson.nesting < e.toJson.nesting := by
  have hlist : ∀ items : List Expr, child ∈ items →
      child.toJson.nesting < (Json.array (listToJson items)).nesting := by
    intro items hmem
    rw [listToJson_eq]
    exact Json.nesting_lt_array (List.mem_map_of_mem hmem)
  cases e with
  | literal _ | ident _ => exact absurd h List.not_mem_nil
  | member _ _ | unary _ _ | await _ =>
    obtain rfl := List.mem_singleton.mp h
    exact nesting_lt_node (by simp)
  | binary _ _ _ | default _ _ =>
    rcases List.mem_pair.mp h with rfl | rfl
    all_goals exact nesting_lt_node (by simp)
  | conditional _ _ _ =>
    simp only [children, List.mem_cons, List.not_mem_nil, or_false] at h
    rcases h with rfl | rfl | rfl
    all_goals exact nesting_lt_node (by simp)
  | list items => exact Nat.lt_trans (hlist items h) (nesting_lt_node (by simp))
  | call function args => exact Nat.lt_trans (hlist args h) (nesting_lt_node (by simp))
  | object fields =>
    obtain ⟨f, hf, rfl⟩ := List.mem_map.mp h
    have hfield : f.2.toJson.nesting <
        (Json.object [("name", .string f.1), ("value", f.2.toJson)]).nesting :=
      Json.nesting_lt_object (by simp)
    have hfields : (Json.object [("name", .string f.1), ("value", f.2.toJson)]).nesting <
        (Json.array (fieldsToJson fields)).nesting := by
      rw [fieldsToJson_eq]
      exact Json.nesting_lt_array (List.mem_map.mpr ⟨f, hf, rfl⟩)
    exact Nat.lt_trans hfield (Nat.lt_trans hfields (nesting_lt_node (by simp)))
  | switch subject cases fallback =>
    simp only [children, List.cons_append, List.mem_cons, List.mem_append, List.mem_flatMap,
      List.not_mem_nil, or_false, Option.mem_toList] at h
    rcases h with rfl | ⟨c, hc, hchild⟩ | rfl
    · exact nesting_lt_node (by simp)
    · have hcase : child.toJson.nesting <
          (Json.object [("pattern", c.1.toJson), ("value", c.2.toJson)]).nesting := by
        rcases hchild with rfl | rfl
        all_goals exact Json.nesting_lt_object (by simp)
      have hcases : (Json.object [("pattern", c.1.toJson), ("value", c.2.toJson)]).nesting <
          (Json.array (casesToJson cases)).nesting := by
        rw [casesToJson_eq]
        exact Json.nesting_lt_array (List.mem_map.mpr ⟨c, hc, rfl⟩)
      exact Nat.lt_trans hcase (Nat.lt_trans hcases (nesting_lt_node (by simp)))
    · exact nesting_lt_node (by simp [optionToJson])

/-! ### Round trip -/

theorem word?_unaryOp (op : UnaryOp) :
    Json.word? true UnaryOp.table (.string op.name) = some op := by
  cases op <;> rfl

theorem word?_binaryOp (op : BinaryOp) :
    Json.word? true BinaryOp.table (.string op.name) = some op := by
  cases op <;> rfl

/-- An expression is read as it was written if its literals and its direct parts are. -/
theorem ofJson?_succ_toJson {depth : Nat} (hliteral : ∀ v, e = .literal v → v.Portable)
    (hchild : ∀ child ∈ e.children, ofJson? depth true child.toJson = some child) :
    ofJson? (depth + 1) inside e.toJson = some e := by
  cases e with
  | literal v =>
    rw [toJson, ofJson?, parts?_node rfl]
    simp only [List.map_cons, List.map_nil, (hliteral v rfl).ofJson?_toJson, Option.map_some]
  | ident name =>
    rw [toJson, ofJson?, parts?_node rfl]
    rfl
  | member target name =>
    have htarget := hchild target (by simp [children])
    rw [toJson, ofJson?, parts?_node rfl]
    simp only [List.map_cons, List.map_nil, htarget]
    rfl
  | unary op operand =>
    have hoperand := hchild operand (by simp [children])
    rw [toJson, ofJson?, parts?_node rfl]
    simp only [List.map_cons, List.map_nil, word?_unaryOp, hoperand]
    rfl
  | binary op lhs rhs =>
    have hlhs := hchild lhs (by simp [children])
    have hrhs := hchild rhs (by simp [children])
    rw [toJson, ofJson?, parts?_node rfl]
    simp only [List.map_cons, List.map_nil, word?_binaryOp, hlhs, hrhs]
    rfl
  | conditional condition consequent alternative =>
    have hcondition := hchild condition (by simp [children])
    have hconsequent := hchild consequent (by simp [children])
    have halternative := hchild alternative (by simp [children])
    rw [toJson, ofJson?, parts?_node rfl]
    simp only [List.map_cons, List.map_nil, hcondition, hconsequent, halternative]
    rfl
  | switch subject cases fallback =>
    have hsubject := hchild subject (by simp [children])
    have hcases : Json.listOf? (pair? ["pattern", "value"] (ofJson? depth true)
        (ofJson? depth true)) (.array (casesToJson cases)) = some cases :=
      listOf?_casesToJson fun c hc => ⟨hchild c.1 (mem_children_of_mem_cases hc _ (by simp)),
        hchild c.2 (mem_children_of_mem_cases hc _ (by simp))⟩
    have hfallback : optional? (ofJson? depth true) (optionToJson fallback) = some fallback := by
      cases fallback with
      | none => rfl
      | some f => exact optional?_toJson (hchild f (by simp [children]))
    rw [toJson, ofJson?, parts?_node rfl]
    simp only [List.map_cons, List.map_nil, hsubject, hcases, Json.fieldOr, hfallback]
    rfl
  | list items =>
    have hitems : Json.listOf? (ofJson? depth true) (.array (listToJson items)) = some items :=
      listOf?_listToJson hchild
    rw [toJson, ofJson?, parts?_node rfl]
    simp only [List.map_cons, List.map_nil, hitems, Option.map_some]
  | object fields =>
    have hfields : Json.listOf? (pair? ["name", "value"] Json.string? (ofJson? depth true))
        (.array (fieldsToJson fields)) = some fields :=
      listOf?_fieldsToJson fun f hf => hchild f.2 (List.mem_map.mpr ⟨f, hf, rfl⟩)
    rw [toJson, ofJson?, parts?_node rfl]
    simp only [List.map_cons, List.map_nil, hfields, Option.map_some]
  | call function args =>
    have hargs : Json.listOf? (ofJson? depth true) (.array (listToJson args)) = some args :=
      listOf?_listToJson hchild
    rw [toJson, ofJson?, parts?_node rfl]
    simp only [List.map_cons, List.map_nil, Json.fieldOr, hargs]
    rfl
  | await operand =>
    have hoperand := hchild operand (by simp [children])
    rw [toJson, ofJson?, parts?_node rfl]
    simp only [List.map_cons, List.map_nil, hoperand, Option.map_some]
  | default target fallback =>
    have htarget := hchild target (by simp [children])
    have hfallback := hchild fallback (by simp [children])
    rw [toJson, ofJson?, parts?_node rfl]
    simp only [List.map_cons, List.map_nil, htarget, hfallback]
    rfl

/-- Every expression is read as it was written. -/
theorem ofJson?_toJson {depth : Nat} (hportable : ∀ v, e.Contains (.literal v) → v.Portable)
    (hdepth : e.toJson.nesting < depth) : ofJson? depth inside e.toJson = some e := by
  induction e using induction_parts generalizing depth inside with
  | h e ih =>
    obtain ⟨depth, rfl⟩ := Nat.exists_eq_succ_of_ne_zero (Nat.ne_zero_of_lt hdepth)
    refine ofJson?_succ_toJson (fun v hv => hportable v (hv ▸ .refl _)) fun child hchild => ?_
    have hlt := nesting_child_lt hchild
    exact ih child hchild child (.refl child) (fun v hv => hportable v (.step hchild hv))
      (by omega)

theorem plain_listToJson {items : List Expr} (h : ∀ e ∈ items, e.toJson.Plain) :
    (Json.array (listToJson items)).Plain := by
  rw [listToJson_eq]
  exact .array (List.forall_mem_map.mpr h)

theorem plain_toJson (hportable : ∀ v, e.Contains (.literal v) → v.Portable) :
    e.toJson.Plain := by
  induction e using induction_parts with
  | h e ih =>
    have hchild : ∀ child ∈ e.children, child.toJson.Plain := fun child hchild =>
      ih child hchild child (.refl child) fun v hv => hportable v (.step hchild hv)
    cases e with
    | literal v =>
      have hv := (hportable v (.refl _)).plain_toJson
      exact plain_node (by simpa using hv)
    | ident name => exact plain_node (by simp [Json.Plain.string])
    | member _ _ | unary _ _ | binary _ _ _ | conditional _ _ _ | await _ | default _ _ =>
      exact plain_node (by simpa [children, Json.Plain.string] using hchild)
    | list items =>
      have hitems : (Json.array (listToJson items)).Plain := plain_listToJson hchild
      exact plain_node (by simpa using hitems)
    | call function args =>
      have hargs : (Json.array (listToJson args)).Plain := plain_listToJson hchild
      exact plain_node (by simpa [Json.Plain.string] using hargs)
    | object fields =>
      have hfields : (Json.array (fieldsToJson fields)).Plain := by
        rw [fieldsToJson_eq]
        refine .array (List.forall_mem_map.mpr fun f hf => .object ?_)
        have hvalue := hchild f.2 (List.mem_map.mpr ⟨f, hf, rfl⟩)
        simpa [Json.Plain.string] using hvalue
      exact plain_node (by simpa using hfields)
    | switch subject cases fallback =>
      have hcases : (Json.array (casesToJson cases)).Plain := by
        rw [casesToJson_eq]
        refine .array (List.forall_mem_map.mpr fun c hc => .object ?_)
        have hpart : ∀ part ∈ [c.1, c.2], part.toJson.Plain := fun part hpart =>
          hchild part (mem_children_of_mem_cases hc part hpart)
        simpa using hpart
      have hfallback : (optionToJson fallback).Plain := by
        cases fallback with
        | none => exact .null
        | some f => exact hchild f (by simp [children])
      have hsubject := hchild subject (by simp [children])
      exact plain_node (by simpa using ⟨hsubject, hcases, hfallback⟩)

theorem decode?_toJson {depth : Nat} (hportable : ∀ v, e.Contains (.literal v) → v.Portable)
    (hdepth : e.toJson.nesting ≤ depth) : decode? depth e.toJson = some e := by
  rw [decode?, if_pos ((plain_toJson hportable).isSound hdepth),
    ofJson?_toJson hportable (Nat.lt_succ_of_le hdepth)]

/-! ### Literals -/

/-- The values that an expression is written with, in preorder. -/
def literals (e : Expr) : List Value :=
  e.preorder.filterMap fun
    | .literal v => some v
    | _ => none

theorem mem_literals_iff {v : Value} : v ∈ e.literals ↔ e.Contains (.literal v) := by
  simp only [literals, List.mem_filterMap, mem_preorder_iff]
  constructor
  · rintro ⟨part, hpart, hv⟩
    cases part with
    | literal w =>
      obtain rfl := Option.some.inj hv
      exact hpart
    | _ => exact absurd hv (by simp)
  · exact fun h => ⟨_, h, rfl⟩

end FormulaEngine.Expr
