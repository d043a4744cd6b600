import FormulaEngine.Proofs.Eval.Relating

/-!
# Delegation

An evaluation that may suspend has to be driven on by the host, so only what awaits something is
worth evaluating in that way. An evaluator that leaves everything else to the synchronous one, part
by part, agrees with one that is asynchronous throughout. So what is true of evaluations by one mode
is true of how declarations are evaluated.
-/

namespace FormulaEngine.Evaluator

variable {ev : Evaluator} {mode : Mode} {e : Expr} {d : Declaration}

/-! ### Expressions -/

theorem isCongruence_eq : Evaluation.IsCongruence fun x y => x = y where
  pure _ := rfl
  operation _ := rfl
  bind hxy hfg := by rw [hxy, funext hfg]

/-- Without an await, an evaluation that may suspend does not differ from one that may not. -/
theorem eval_synchronous {expr : Expr} (h : expr.isAsync = false) :
    ev.eval .synchronous expr = ev.eval .asynchronous expr := by
  have hawait : ∀ operand, ¬expr.Contains (.await operand) := by
    intro operand hoperand
    have hasync : expr.isAsync := Expr.isAsync_iff.mpr ⟨operand, hoperand⟩
    exact absurd hasync (by simp [h])
  refine eval_related isCongruence_eq ?_
  exact {
    read _ _ := rfl
    probe _ _ := rfl
    invoke _ _ _ _ := rfl
    mode_eq operand hoperand := absurd hoperand (hawait operand)
    await _ _ _ hoperand := absurd hoperand (hawait _)
    internal operand hoperand := absurd hoperand (hawait operand) }

theorem ifAsync_eq {x : Evaluation Value} (h : x = ev.eval .asynchronous e) :
    ev.ifAsync e x = ev.eval .asynchronous e := by
  unfold ifAsync
  cases hasync : e.isAsync with
  | true => exact h
  | false => exact eval_synchronous hasync

theorem evalAsyncList_eq {items : List Expr}
    (h : ∀ e ∈ items, ev.evalAsync e = ev.eval .asynchronous e) :
    ev.evalAsyncList items = ev.evalList .asynchronous items := by
  induction items with
  | nil => rfl
  | cons e rest ih =>
    rw [evalAsyncList, evalList, h e List.mem_cons_self,
      ih fun e he => h e (List.mem_cons_of_mem _ he)]

theorem evalAsyncFields_eq {fields : List (String × Expr)}
    (h : ∀ field ∈ fields, ev.evalAsync field.2 = ev.eval .asynchronous field.2) :
    ev.evalAsyncFields fields = ev.evalFields .asynchronous fields := by
  induction fields with
  | nil => rfl
  | cons field rest ih =>
    obtain ⟨name, e⟩ := field
    rw [evalAsyncFields, evalFields, h (name, e) List.mem_cons_self,
      ih fun field hfield => h field (List.mem_cons_of_mem _ hfield)]

theorem evalAsyncCases_eq {cases : List (Expr × Expr)} {subject : Value}
    {otherwise : Evaluation Value}
    (h : ∀ c ∈ cases, ev.evalAsync c.1 = ev.eval .asynchronous c.1 ∧
      ev.evalAsync c.2 = ev.eval .asynchronous c.2) :
    ev.evalAsyncCases subject cases otherwise = (do
      match ← ev.evalCases .asynchronous subject cases with
      | some w => pure w
      | none => otherwise) := by
  induction cases with
  | nil => rw [evalAsyncCases, evalCases, pure_bind]
  | cons c rest ih =>
    obtain ⟨pattern, value⟩ := c
    obtain ⟨hpattern, hvalue⟩ := h (pattern, value) List.mem_cons_self
    rw [evalAsyncCases, evalCases, hpattern, hvalue, bind_assoc]
    congr 1
    funext v
    by_cases heq : v == subject
    · rw [if_pos heq, if_pos heq, bind_assoc]
      simp only [pure_bind, bind_pure]
    · rw [if_neg heq, if_neg heq]
      exact ih fun c hc => h c (List.mem_cons_of_mem _ hc)

theorem evalAsyncFallback_eq {fallback : Option Expr} {subject : Value}
    (h : ∀ e ∈ fallback, ev.evalAsync e = ev.eval .asynchronous e) :
    ev.evalAsyncFallback subject fallback = ev.evalFallback .asynchronous subject fallback := by
  cases fallback with
  | none => rfl
  | some e => exact h e rfl

/-- Nothing is changed by leaving what awaits nothing to the synchronous evaluation. -/
theorem evalAsync_eq (e : Expr) : ev.evalAsync e = ev.eval .asynchronous e := by
  induction e using Expr.induction_parts with
  | h e ih =>
    have hpart : ∀ part ∈ e.operands, ev.evalAsync part = ev.eval .asynchronous part := by
      intro part hmem
      obtain ⟨child, hchild, hcontains⟩ := Expr.exists_child_of_mem_operands hmem
      exact ih child hchild part hcontains
    cases e with
    | literal v => rfl
    | ident name => rfl
    | member target name =>
      rw [evalAsync]
      apply ifAsync_eq
      rw [eval, hpart target (by simp [Expr.operands, Expr.children])]
    | unary op operand =>
      rw [evalAsync]
      apply ifAsync_eq
      rw [eval, hpart operand (by simp [Expr.operands, Expr.children])]
    | binary op lhs rhs =>
      rw [evalAsync]
      apply ifAsync_eq
      rw [eval, hpart lhs (by simp [Expr.operands, Expr.children]),
        hpart rhs (by simp [Expr.operands, Expr.children])]
      split <;> rfl
    | conditional condition consequent alternative =>
      rw [evalAsync]
      apply ifAsync_eq
      rw [eval, hpart condition (by simp [Expr.operands, Expr.children]),
        hpart consequent (by simp [Expr.operands, Expr.children]),
        hpart alternative (by simp [Expr.operands, Expr.children])]
    | switch subject cases fallback =>
      have hcases : ∀ c ∈ cases, ev.evalAsync c.1 = ev.eval .asynchronous c.1 ∧
          ev.evalAsync c.2 = ev.eval .asynchronous c.2 := fun c hc =>
        ⟨hpart c.1 (Expr.mem_children_switch hc).1, hpart c.2 (Expr.mem_children_switch hc).2⟩
      have hfallback : ∀ e ∈ fallback, ev.evalAsync e = ev.eval .asynchronous e := fun e he =>
        hpart e (List.mem_append_right _ (Option.mem_toList.mpr he))
      rw [evalAsync]
      apply ifAsync_eq
      rw [hpart subject (by simp [Expr.operands, Expr.children])]
      simp only [evalAsyncCases_eq hcases, evalAsyncFallback_eq hfallback]
      rfl
    | list items =>
      rw [evalAsync]
      apply ifAsync_eq
      rw [eval, @evalAsyncList_eq _ items hpart]
    | object fields =>
      rw [evalAsync]
      apply ifAsync_eq
      rw [eval, evalAsyncFields_eq fun field hfield => hpart field.2 (List.mem_map_of_mem hfield)]
    | call function args =>
      rw [evalAsync]
      apply ifAsync_eq
      rw [eval, @evalAsyncList_eq _ args hpart]
    | await operand =>
      cases operand with
      | call function args => rw [evalAsync, eval, @evalAsyncList_eq _ args hpart]
      | _ => rfl
    | default target fallback =>
      rw [evalAsync]
      apply ifAsync_eq
      rw [hpart target (by simp [Expr.operands, Expr.children]),
        hpart fallback (by simp [Expr.operands, Expr.children])]
      rfl

/-! ### Declarations -/

theorem run_of_formula {exported : Bool} (hkind : d.kind = .formula e exported) :
    ev.run mode d = ev.eval mode e := by
  unfold run
  rw [hkind]
  cases mode with
  | synchronous => rfl
  | asynchronous => exact evalAsync_eq e

theorem run_synchronous (h : d.isAsync = false) :
    ev.run .synchronous d = ev.run .asynchronous d := by
  cases hkind : d.kind with
  | formula expr exported =>
    rw [run_of_formula hkind, run_of_formula hkind]
    exact eval_synchronous (by simpa [Declaration.isAsync, Declaration.expr?, hkind] using h)
  | _ => simp only [run, hkind]

/-- The evaluations of a declaration are related if what is read and called for it is. -/
theorem run_related {R : ∀ {α : Type}, Evaluation α → Evaluation α → Prop} {ev ev' : Evaluator}
    {mode mode' : Mode} (hR : Evaluation.IsCongruence R) {d : Declaration}
    (hformula : ∀ expr exported, d.kind = .formula expr exported →
      RelatedOn R ev ev' mode mode' expr)
    (himport : ∀ path kind, d.kind = .imported path kind →
      R (Evaluation.ofResult (ev.importValue path kind))
        (Evaluation.ofResult (ev'.importValue path kind)))
    (hown : d.isVertex = false →
      R (Evaluation.ofResult (ev.readSlot d.id)) (Evaluation.ofResult (ev'.readSlot d.id))) :
    R (ev.run mode d) (ev'.run mode' d) := by
  cases hkind : d.kind with
  | formula expr exported =>
    rw [run_of_formula hkind, run_of_formula hkind]
    exact eval_related hR (hformula expr exported hkind)
  | imported path kind =>
    simp only [run, hkind]
    exact himport path kind hkind
  | argument | constant _ =>
    simp only [run, hkind]
    exact hown (by simp [Declaration.isVertex, hkind])

end FormulaEngine.Evaluator
