import FormulaEngine.Eval.Evaluator
import FormulaEngine.Proofs.Expr.Parts

/-!
# Relating evaluations

Two evaluations of one expression are related if what they read and what they call is. A relation
only has to respect sequencing; equality, agreement of endings, and being free of internal errors
all do.
-/

namespace FormulaEngine

/-! ### Errors of operators -/

/-- An operation that fails does so by an error of the formula. -/
def IsClean {α : Type} (r : Except EvalError α) : Prop :=
  ∀ what, r ≠ .error (.internal what)

theorem IsClean.bind {α β : Type} {r : Except EvalError α} {f : α → Except EvalError β}
    (hr : IsClean r) (hf : ∀ a, IsClean (f a)) : IsClean (r >>= f) := by
  cases r with
  | error e =>
    intro what heq
    exact hr what (congrArg Except.error (Except.error.inj heq))
  | ok a => exact hf a

theorem Value.isClean_truth (operation : String) (v : Value) :
    IsClean (v.truth operation) := by
  intro what
  unfold Value.truth
  split <;> simp

theorem Value.isClean_member (v : Value) (name : String) : IsClean (v.member name) := by
  intro what
  unfold Value.member
  split <;> simp

theorem UnaryOp.isClean_apply (op : UnaryOp) (v : Value) : IsClean (op.apply v) := by
  intro what
  unfold UnaryOp.apply
  split <;> simp

theorem BinaryOp.isClean_onNumbers? {op : BinaryOp} {x y : Float} {r : Except EvalError Value}
    (h : op.onNumbers? x y = some r) : IsClean r := by
  intro what
  cases op <;> simp only [onNumbers?, Option.some.injEq, reduceCtorEq] at h
  case div | rem =>
    rw [← h]
    split <;> simp
  all_goals
    rw [← h]
    simp

theorem BinaryOp.isClean_onStrings? {op : BinaryOp} {s t : String} {r : Except EvalError Value}
    (h : op.onStrings? s t = some r) : IsClean r := by
  intro what
  cases op <;> simp only [onStrings?, Option.some.injEq, reduceCtorEq] at h
  all_goals
    rw [← h]
    simp

theorem BinaryOp.isClean_apply (op : BinaryOp) (v w : Value) : IsClean (op.apply v w) := by
  have hlogic : ∀ f : Bool → Bool → Bool, IsClean (do
      let a ← v.truth op.symbol
      let b ← w.truth op.symbol
      Except.ok (Value.bool (f a b))) := fun f =>
    (v.isClean_truth _).bind fun a => (w.isClean_truth _).bind fun b => by simp [IsClean]
  have hother : ∀ r : Option (Except EvalError Value), (∀ x, r = some x → IsClean x) →
      IsClean (r.getD (.error (.typeMismatch op.symbol (v.typeNames w)))) := by
    intro r hr
    cases r with
    | none => simp [IsClean]
    | some x => exact hr x rfl
  unfold apply
  split
  case h_1 | h_2 => simp [IsClean]
  case h_3 => exact hlogic Bool.and
  case h_4 => exact hlogic Bool.or
  case h_5 =>
    refine hother _ fun x hx => ?_
    split at hx
    · exact isClean_onNumbers? hx
    · exact isClean_onStrings? hx
    · exact absurd hx (by simp)

/-! ### Congruences -/

/-- A relation between evaluations that does not tell evaluations apart which do the same. -/
structure Evaluation.IsCongruence (R : ∀ {α : Type}, Evaluation α → Evaluation α → Prop) :
    Prop where
  pure : ∀ {α : Type} (a : α), R (Pure.pure a : Evaluation α) (Pure.pure a)
  operation : ∀ {α : Type} {r : Except EvalError α}, IsClean r →
    R (Evaluation.ofOperation r) (Evaluation.ofOperation r)
  bind : ∀ {α β : Type} {x y : Evaluation α} {f g : α → Evaluation β}, R x y →
    (∀ a, R (f a) (g a)) → R (x >>= f) (y >>= g)

theorem Expr.contains_ident_of_path? {e : Expr} {path : Path} (h : e.path? = some path) :
    e.Contains (.ident path.root) := by
  induction e using induction_parts generalizing path with
  | h e ih =>
    cases e with
    | ident name =>
      obtain rfl := Option.some.inj h
      exact .refl _
    | member target name =>
      rw [path?, Option.map_eq_some_iff] at h
      obtain ⟨p, hp, rfl⟩ := h
      have htarget : target ∈ (Expr.member target name).children := List.mem_singleton_self _
      have hroot : target.Contains (.ident p.root) := ih target htarget target (.refl _) hp
      exact .step htarget hroot
    | _ => exact absurd h (by simp [path?])

theorem Expr.mem_children_switch {subject : Expr} {cases : List (Expr × Expr)}
    {fallback : Option Expr} {c : Expr × Expr} (h : c ∈ cases) :
    c.1 ∈ (Expr.switch subject cases fallback).children ∧
      c.2 ∈ (Expr.switch subject cases fallback).children := by
  have hall : ∀ e ∈ [c.1, c.2], e ∈ (Expr.switch subject cases fallback).children := fun e he =>
    List.mem_append_left _ (List.mem_cons_of_mem _ (List.mem_flatMap.mpr ⟨c, h, he⟩))
  exact ⟨hall c.1 (by simp), hall c.2 (by simp)⟩

namespace Evaluator

/-- What two evaluators read and call for an expression is related. They are in the same mode if it
waits for anything, and able to do so unless internal errors are related to themselves. -/
structure RelatedOn (R : ∀ {α : Type}, Evaluation α → Evaluation α → Prop) (ev ev' : Evaluator)
    (mode mode' : Mode) (e : Expr) : Prop where
  read : ∀ name, e.Contains (.ident name) →
    R (Evaluation.ofResult (ev.read name)) (Evaluation.ofResult (ev'.read name))
  probe : ∀ path : Path, e.Contains (.ident path.root) →
    R (Evaluation.ofResult (ev.probe path)) (Evaluation.ofResult (ev'.probe path))
  invoke : ∀ function args vs, e.Evaluates (.call function args) →
    R (ev.invoke function vs) (ev'.invoke function vs)
  mode_eq : ∀ operand, e.Contains (.await operand) → mode = mode'
  await : ∀ function args vs, e.Contains (.await (.call function args)) →
    R (ev.invokeAwaited function vs) (ev'.invokeAwaited function vs)
  internal : ∀ operand, e.Contains (.await operand) → (mode = .asynchronous ∧ operand.isCall) ∨
    ∀ what, R (Evaluation.raise (.internal what) : Evaluation Value)
      (Evaluation.raise (.internal what))

variable {R : ∀ {α : Type}, Evaluation α → Evaluation α → Prop} {ev ev' : Evaluator}
  {mode mode' : Mode} {e : Expr}

theorem RelatedOn.operand (h : RelatedOn R ev ev' mode mode' e) {part : Expr}
    (hmem : part ∈ e.operands) : RelatedOn R ev ev' mode mode' part := by
  have hpart : e.Contains part := (Expr.Evaluates.step hmem (.refl part)).contains
  exact {
    read name hname := h.read name (hpart.trans hname)
    probe path hpath := h.probe path (hpart.trans hpath)
    invoke function args vs hcall := h.invoke function args vs (.step hmem hcall)
    mode_eq operand hawait := h.mode_eq operand (hpart.trans hawait)
    await function args vs hawait := h.await function args vs (hpart.trans hawait)
    internal operand hawait := h.internal operand (hpart.trans hawait) }

section

variable (hR : Evaluation.IsCongruence R)

include hR

theorem evalList_related {items : List Expr}
    (h : ∀ e ∈ items, R (ev.eval mode e) (ev'.eval mode' e)) :
    R (ev.evalList mode items) (ev'.evalList mode' items) := by
  induction items with
  | nil =>
    rw [evalList, evalList]
    exact hR.pure _
  | cons e rest ih =>
    rw [evalList, evalList]
    refine hR.bind (h e List.mem_cons_self) fun v => ?_
    refine hR.bind (ih fun e he => h e (List.mem_cons_of_mem _ he)) fun vs => ?_
    exact hR.pure _

theorem evalFields_related {fields : List (String × Expr)}
    (h : ∀ field ∈ fields, R (ev.eval mode field.2) (ev'.eval mode' field.2)) :
    R (ev.evalFields mode fields) (ev'.evalFields mode' fields) := by
  induction fields with
  | nil =>
    rw [evalFields, evalFields]
    exact hR.pure _
  | cons field rest ih =>
    obtain ⟨name, e⟩ := field
    rw [evalFields, evalFields]
    refine hR.bind (h (name, e) List.mem_cons_self) fun v => ?_
    refine hR.bind (ih fun field hfield => h field (List.mem_cons_of_mem _ hfield)) fun vs => ?_
    exact hR.pure _

theorem evalCases_related {cases : List (Expr × Expr)}
    (h : ∀ c ∈ cases, R (ev.eval mode c.1) (ev'.eval mode' c.1) ∧
      R (ev.eval mode c.2) (ev'.eval mode' c.2)) (subject : Value) :
    R (ev.evalCases mode subject cases) (ev'.evalCases mode' subject cases) := by
  induction cases with
  | nil =>
    rw [evalCases, evalCases]
    exact hR.pure _
  | cons c rest ih =>
    obtain ⟨pattern, value⟩ := c
    obtain ⟨hpattern, hvalue⟩ := h (pattern, value) List.mem_cons_self
    rw [evalCases, evalCases]
    refine hR.bind hpattern fun v => ?_
    by_cases heq : v == subject
    · rw [if_pos heq, if_pos heq]
      exact hR.bind hvalue fun w => hR.pure _
    · rw [if_neg heq, if_neg heq]
      exact ih fun c hc => h c (List.mem_cons_of_mem _ hc)

theorem evalFallback_related {fallback : Option Expr}
    (h : ∀ e ∈ fallback, R (ev.eval mode e) (ev'.eval mode' e)) (subject : Value) :
    R (ev.evalFallback mode subject fallback) (ev'.evalFallback mode' subject fallback) := by
  cases fallback with
  | none =>
    rw [evalFallback, evalFallback]
    exact @hR.operation Value (.error (.noMatchingBranch subject.display)) (by simp [IsClean])
  | some e =>
    rw [evalFallback, evalFallback]
    exact h e rfl

theorem evalBinary_related {op : BinaryOp} {lhs rhs : Expr}
    (hlhs : R (ev.eval mode lhs) (ev'.eval mode' lhs))
    (hrhs : R (ev.eval mode rhs) (ev'.eval mode' rhs)) :
    R (ev.eval mode (.binary op lhs rhs)) (ev'.eval mode' (.binary op lhs rhs)) := by
  rw [eval, eval]
  refine hR.bind hlhs fun v => ?_
  by_cases hlazy : op.isLazy
  · rw [if_pos hlazy, if_pos hlazy]
    refine hR.bind (hR.operation (v.isClean_truth _)) fun a => ?_
    by_cases hdecides : op.decides a
    · rw [if_pos hdecides, if_pos hdecides]
      exact hR.pure _
    · rw [if_neg hdecides, if_neg hdecides]
      refine hR.bind hrhs fun w => ?_
      exact hR.bind (hR.operation (w.isClean_truth _)) fun b => hR.pure _
  · rw [if_neg hlazy, if_neg hlazy]
    exact hR.bind hrhs fun w => hR.operation (op.isClean_apply v w)

theorem evalAwait_related {function : String} {args : List Expr}
    (hargs : ∀ e ∈ args, R (ev.eval .asynchronous e) (ev'.eval .asynchronous e))
    (hawait : ∀ vs, R (ev.invokeAwaited function vs) (ev'.invokeAwaited function vs)) :
    R (ev.eval .asynchronous (.await (.call function args)))
      (ev'.eval .asynchronous (.await (.call function args))) := by
  rw [eval, eval]
  exact hR.bind (evalList_related hR hargs) hawait

theorem found_related {fallback : Expr} (h : R (ev.eval mode fallback) (ev'.eval mode' fallback))
    (found : Option Value) :
    R (match found with
      | some v => if v.isNull then ev.eval mode fallback else pure v
      | none => ev.eval mode fallback)
    (match found with
      | some v => if v.isNull then ev'.eval mode' fallback else pure v
      | none => ev'.eval mode' fallback) := by
  cases found with
  | none => exact h
  | some v =>
    by_cases hnull : v.isNull
    · simpa only [if_pos hnull] using h
    · simpa only [if_neg hnull] using hR.pure v

theorem evalDefault_related {target fallback : Expr}
    (hprobe : ∀ path, target.path? = some path →
      R (Evaluation.ofResult (ev.probe path)) (Evaluation.ofResult (ev'.probe path)))
    (htarget : R (ev.eval mode target) (ev'.eval mode' target))
    (hfallback : R (ev.eval mode fallback) (ev'.eval mode' fallback)) :
    R (ev.eval mode (.default target fallback)) (ev'.eval mode' (.default target fallback)) := by
  rw [eval, eval]
  cases hpath : target.path? with
  | some path => exact hR.bind (hprobe path hpath) (found_related hR hfallback)
  | none =>
    have hsome : R (some <$> ev.eval mode target) (some <$> ev'.eval mode' target) := by
      rw [map_eq_pure_bind, map_eq_pure_bind]
      exact hR.bind htarget fun v => hR.pure _
    exact hR.bind hsome (found_related hR hfallback)

/-- The evaluations of an expression are related if what is read and called for it is. -/
theorem eval_related (h : RelatedOn R ev ev' mode mode' e) :
    R (ev.eval mode e) (ev'.eval mode' e) := by
  induction e using Expr.induction_parts with
  | h e ih =>
    have hpart : ∀ part ∈ e.operands, R (ev.eval mode part) (ev'.eval mode' part) := by
      intro part hmem
      obtain ⟨child, hchild, hcontains⟩ := Expr.exists_child_of_mem_operands hmem
      exact ih child hchild part hcontains (h.operand hmem)
    cases e with
    | literal v =>
      rw [eval, eval]
      exact hR.pure v
    | ident name =>
      rw [eval, eval]
      exact h.read name (.refl _)
    | member target name =>
      rw [eval, eval]
      refine hR.bind (hpart target (by simp [Expr.operands, Expr.children])) fun v => ?_
      exact hR.operation (v.isClean_member name)
    | unary op operand =>
      rw [eval, eval]
      refine hR.bind (hpart operand (by simp [Expr.operands, Expr.children])) fun v => ?_
      exact hR.operation (op.isClean_apply v)
    | binary op lhs rhs =>
      have hlhs := hpart lhs (by simp [Expr.operands, Expr.children])
      have hrhs := hpart rhs (by simp [Expr.operands, Expr.children])
      exact evalBinary_related hR hlhs hrhs
    | conditional condition consequent alternative =>
      rw [eval, eval]
      refine hR.bind (hpart condition (by simp [Expr.operands, Expr.children])) fun v => ?_
      refine hR.bind (hR.operation (v.isClean_truth _)) fun b => ?_
      cases b
      · exact hpart alternative (by simp [Expr.operands, Expr.children])
      · exact hpart consequent (by simp [Expr.operands, Expr.children])
    | switch subject cases fallback =>
      rw [eval, eval]
      refine hR.bind (hpart subject (by simp [Expr.operands, Expr.children])) fun v => ?_
      have hcases : ∀ c ∈ cases, R (ev.eval mode c.1) (ev'.eval mode' c.1) ∧
          R (ev.eval mode c.2) (ev'.eval mode' c.2) := fun c hc =>
        ⟨hpart c.1 (Expr.mem_children_switch hc).1, hpart c.2 (Expr.mem_children_switch hc).2⟩
      refine hR.bind (evalCases_related hR hcases v) fun found => ?_
      cases found with
      | some w => exact hR.pure w
      | none =>
        refine evalFallback_related hR (fun e he => hpart e ?_) v
        exact List.mem_append_right _ (Option.mem_toList.mpr he)
    | list items =>
      rw [eval, eval]
      exact hR.bind (evalList_related hR fun e he => hpart e he) fun vs => hR.pure _
    | object fields =>
      rw [eval, eval]
      refine hR.bind (evalFields_related hR fun field hfield => ?_) fun entries => hR.pure _
      exact hpart field.2 (List.mem_map_of_mem hfield)
    | call function args =>
      rw [eval, eval]
      refine hR.bind (evalList_related hR fun e he => hpart e he) fun vs => ?_
      exact h.invoke function args vs (.refl _)
    | await operand =>
      obtain rfl := h.mode_eq operand (.refl _)
      have hinternal := h.internal operand (.refl _)
      cases mode with
      | synchronous =>
        rw [eval.eq_def, eval.eq_def]
        exact (hinternal.resolve_left (by simp)) _
      | asynchronous =>
        cases operand with
        | call function args =>
          exact evalAwait_related hR hpart fun vs => h.await function args vs (.refl _)
        | _ =>
          rw [eval.eq_def, eval.eq_def]
          exact (hinternal.resolve_left (by simp [Expr.isCall])) _
    | default target fallback =>
      have htarget : target ∈ (Expr.default target fallback).children := by simp [Expr.children]
      have hfallback := hpart fallback (by simp [Expr.operands, Expr.children])
      refine evalDefault_related hR (fun path hpath => ?_) (hpart target htarget) hfallback
      exact h.probe path (.step htarget (Expr.contains_ident_of_path? hpath))

end

end Evaluator

end FormulaEngine
