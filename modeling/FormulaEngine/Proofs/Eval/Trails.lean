import FormulaEngine.Proofs.Eval.Awaiting
import FormulaEngine.Proofs.Expr.Sites

/-!
# Evaluation from left to right

An evaluation leaves the parts of an expression one after the other, each with a value but for the
last one, which may raise a fault. In which order it does so, and what it calls at which part, can
be told from a trail that it keeps. The trail never goes against the postorder of the expression.
-/

namespace FormulaEngine

/-- A part of an expression that an evaluation has left, by a value or by a fault of its own, and
what was called at it. -/
structure Visit where
  site : Expr.Site
  part : Expr
  calls : List (String × List Value)

/-- What comes of an evaluation, and its visits in order. A fault comes with the place at which it
was raised. -/
structure Trail (σ α : Type) where
  result : Except (Expr.Site × Fault) α
  host : σ
  visits : List Visit

/-- The calls on a trail: at which places, and of which functions. -/
def Trail.callSites {σ α : Type} (trail : Trail σ α) : List (Expr.Site × String) :=
  trail.visits.flatMap fun v => v.calls.map fun call => (v.site, call.1)

/-- An evaluation against a host that keeps a trail. -/
def Tracked (σ α : Type) := σ → Trail σ α

namespace Tracked

variable {σ α β : Type}

instance : Monad (Tracked σ) where
  pure a := fun s => ⟨.ok a, s, []⟩
  bind t f := fun s =>
    match (t s).result with
    | .ok a => { f a (t s).host with visits := (t s).visits ++ (f a (t s).host).visits }
    | .error e => ⟨.error e, (t s).host, (t s).visits⟩

/-- Leaves a part with what comes of it in the end. -/
def leave (fs : Functions σ) (site : Expr.Site) (part : Expr) (x : Evaluation α) : Tracked σ α :=
  fun s =>
    let ran := x.run.run fs s
    ⟨ran.result.mapError (site, ·), ran.host, [⟨site, part, x.run.calls fs s⟩]⟩

/-- Looks at something on the way through a part. Only if it is wrong the part is left. -/
def check (site : Expr.Site) (part : Expr) (r : Except EvalError α) : Tracked σ α :=
  fun s =>
    match r with
    | .ok a => ⟨.ok a, s, []⟩
    | .error e => ⟨.error (site, .error e), s, [⟨site, part, []⟩]⟩

end Tracked

namespace Evaluator

variable {σ : Type} (ev : Evaluator) (fs : Functions σ)

mutual

/-- Evaluates an expression that stands at a place, and keeps a trail. -/
def evalAt (mode : Mode) (here : Expr.Site) : Expr → Tracked σ Value
  | .literal v => .leave fs here (.literal v) (pure v)
  | .ident name => .leave fs here (.ident name) (Evaluation.ofResult (ev.read name))
  | .member target name => do
    let v ← evalAt mode (here ++ [0]) target
    .leave fs here (.member target name) (Evaluation.ofOperation (v.member name))
  | .unary op operand => do
    let v ← evalAt mode (here ++ [0]) operand
    .leave fs here (.unary op operand) (Evaluation.ofOperation (op.apply v))
  | .binary op lhs rhs => do
    let v ← evalAt mode (here ++ [0]) lhs
    if op.isLazy then
      let a ← .check here (.binary op lhs rhs) (v.truth op.symbol)
      if op.decides a then .leave fs here (.binary op lhs rhs) (pure (.bool a))
      else
        let w ← evalAt mode (here ++ [1]) rhs
        .leave fs here (.binary op lhs rhs) do
          let b ← Evaluation.ofOperation (w.truth op.symbol)
          pure (.bool b)
    else
      let w ← evalAt mode (here ++ [1]) rhs
      .leave fs here (.binary op lhs rhs) (Evaluation.ofOperation (op.apply v w))
  | .conditional condition consequent alternative => do
    let v ← evalAt mode (here ++ [0]) condition
    let b ← .check here (.conditional condition consequent alternative) (v.truth "if")
    let w ←
      if b then evalAt mode (here ++ [1]) consequent else evalAt mode (here ++ [2]) alternative
    .leave fs here (.conditional condition consequent alternative) (pure w)
  | .switch subject cases fallback => do
    let v ← evalAt mode (here ++ [0]) subject
    match ← evalCasesAt mode here 1 v cases with
    | some w => .leave fs here (.switch subject cases fallback) (pure w)
    | none =>
      evalFallbackAt mode here (1 + 2 * cases.length) (.switch subject cases fallback) v fallback
  | .list items => do
    let vs ← evalListAt mode here 0 items
    .leave fs here (.list items) (pure (.list vs))
  | .object fields => do
    let entries ← evalFieldsAt mode here 0 fields
    .leave fs here (.object fields) (pure (.ofFields entries))
  | .call function args => do
    let vs ← evalListAt mode here 0 args
    .leave fs here (.call function args) (ev.invoke function vs)
  | .await operand =>
    match mode with
    | .synchronous =>
      .leave fs here (.await operand)
        (Evaluation.raise (.internal "await reached the synchronous evaluator"))
    | .asynchronous =>
      match operand with
      | .call function args => do
        let vs ← evalListAt mode (here ++ [0]) 0 args
        let v ← .leave fs (here ++ [0]) (.call function args) (ev.invokeAwaited function vs)
        .leave fs here (.await (.call function args)) (pure v)
      | operand =>
        .leave fs here (.await operand) (Evaluation.raise (.internal Flaw.awaitsNonCall.message))
  | .default target fallback => do
    let found ←
      match target.path? with
      | some path => .leave fs (here ++ [0]) target (Evaluation.ofResult (ev.probe path))
      | none => some <$> evalAt mode (here ++ [0]) target
    let w ←
      match found with
      | some v => if v.isNull then evalAt mode (here ++ [1]) fallback else pure v
      | none => evalAt mode (here ++ [1]) fallback
    .leave fs here (.default target fallback) (pure w)

/-- Evaluates direct parts of the expression at a place, the first of which has the number `k`. -/
def evalListAt (mode : Mode) (here : Expr.Site) (k : Nat) : List Expr → Tracked σ (List Value)
  | [] => pure []
  | e :: rest => do
    let v ← evalAt mode (here ++ [k]) e
    let vs ← evalListAt mode here (k + 1) rest
    pure (v :: vs)

def evalFieldsAt (mode : Mode) (here : Expr.Site) (k : Nat) :
    List (String × Expr) → Tracked σ (List (String × Value))
  | [] => pure []
  | (name, e) :: rest => do
    let v ← evalAt mode (here ++ [k]) e
    let entries ← evalFieldsAt mode here (k + 1) rest
    pure ((name, v) :: entries)

def evalCasesAt (mode : Mode) (here : Expr.Site) (k : Nat) (subject : Value) :
    List (Expr × Expr) → Tracked σ (Option Value)
  | [] => pure none
  | (pattern, value) :: rest => do
    let v ← evalAt mode (here ++ [k]) pattern
    if v == subject then
      let w ← evalAt mode (here ++ [k + 1]) value
      pure (some w)
    else evalCasesAt mode here (k + 2) subject rest

/-- Leaves a switch in which no case matches. -/
def evalFallbackAt (mode : Mode) (here : Expr.Site) (k : Nat) (whole : Expr) (subject : Value) :
    Option Expr → Tracked σ Value
  | some e => do
    let w ← evalAt mode (here ++ [k]) e
    .leave fs here whole (pure w)
  | none => .leave fs here whole (Evaluation.raise (.noMatchingBranch subject.display))

end

end Evaluator

/-! ### What trails tell -/

def Visit.node (v : Visit) : Expr.Site × Expr := (v.site, v.part)

/-- At a part nothing is called, or it is a call, and the function that it names is called once. -/
def Visit.CallsOwn {σ : Type} (fs : Functions σ) (v : Visit) : Prop :=
  v.calls = [] ∨ ∃ function args vs, v.part = .call function args ∧ v.calls = [(function, vs)] ∧
    fs.contains function

/-- A trail is that of an evaluation. Its visits are to some of the given parts, in their order, and
if there is a fault, the last one is to where it was raised. -/
structure Trail.Follows {σ α : Type} (fs : Functions σ) (parts : List (Expr.Site × Expr))
    (x : Evaluation α) (s : σ) (trail : Trail σ α) : Prop where
  result : trail.result.mapError Prod.snd = (x.run.run fs s).result
  host : trail.host = (x.run.run fs s).host
  calls : trail.visits.flatMap Visit.calls = x.run.calls fs s
  order : (trail.visits.map Visit.node).Sublist parts
  own : ∀ v ∈ trail.visits, v.CallsOwn fs
  last : ∀ site fault, trail.result = .error (site, fault) →
    ∃ front v, trail.visits = front ++ [v] ∧ v.site = site

/-- Whatever the state of the host, the trail follows the parts. -/
def Tracks {σ α : Type} (fs : Functions σ) (parts : List (Expr.Site × Expr)) (x : Evaluation α)
    (t : Tracked σ α) : Prop := ∀ s, (t s).Follows fs parts x s

namespace Evaluation

variable {σ α β : Type} {fs : Functions σ} {x : Evaluation α} {f : α → Evaluation β} {s : σ}

theorem run_bind_of_ok {a : α} (h : (x.run.run fs s).result = .ok a) :
    ((x >>= f).run.run fs s).result = ((f a).run.run fs (x.run.run fs s).host).result ∧
      ((x >>= f).run.run fs s).host = ((f a).run.run fs (x.run.run fs s).host).host ∧
      (x >>= f).run.calls fs s =
        x.run.calls fs s ++ (f a).run.calls fs (x.run.run fs s).host := by
  rw [ExceptT.run_bind]
  change ((Routine.bind _ _).run fs s).result = _ ∧ ((Routine.bind _ _).run fs s).host = _ ∧
    (Routine.bind _ _).calls fs s = _
  simp only [Routine.run_bind, Routine.calls_bind, h, and_self]

theorem run_bind_of_error {fault : Fault} (h : (x.run.run fs s).result = .error fault) :
    ((x >>= f).run.run fs s).result = .error fault ∧
      ((x >>= f).run.run fs s).host = (x.run.run fs s).host ∧
      (x >>= f).run.calls fs s = x.run.calls fs s := by
  rw [ExceptT.run_bind]
  change ((Routine.bind _ _).run fs s).result = _ ∧ ((Routine.bind _ _).run fs s).host = _ ∧
    (Routine.bind _ _).calls fs s = _
  simp only [Routine.run_bind, Routine.calls_bind, h]
  exact ⟨rfl, rfl, List.append_nil _⟩

end Evaluation

section Tracking

variable {σ α β : Type} {fs : Functions σ} {parts parts' : List (Expr.Site × Expr)}
  {x : Evaluation α} {t : Tracked σ α} {f : α → Evaluation β} {g : α → Tracked σ β}
  {site : Expr.Site} {part : Expr}

theorem Tracks.mono (h : Tracks fs parts x t) (hparts : parts.Sublist parts') :
    Tracks fs parts' x t := fun s =>
  ⟨(h s).result, (h s).host, (h s).calls, (h s).order.trans hparts, (h s).own, (h s).last⟩

theorem tracks_pure (a : α) : Tracks fs [] (pure a) (pure a) := fun _ =>
  ⟨rfl, rfl, rfl, .slnil, fun _ hv => absurd hv List.not_mem_nil, fun _ _ h => nomatch h⟩

theorem Tracks.bind (h : Tracks fs parts x t) (hfg : ∀ a, Tracks fs parts' (f a) (g a)) :
    Tracks fs (parts ++ parts') (x >>= f) (t >>= g) := by
  intro s
  obtain ⟨hresult, hhost, hcalls, horder, hown, hlast⟩ := h s
  cases ht : (t s).result with
  | error e =>
    obtain ⟨site, fault⟩ := e
    have hbind : (t >>= g) s = ⟨.error (site, fault), (t s).host, (t s).visits⟩ := by
      change (match (t s).result with | .ok _ => _ | .error _ => _) = _
      rw [ht]
    rw [ht] at hresult
    obtain ⟨hresult', hhost', hcalls'⟩ := Evaluation.run_bind_of_error (f := f) hresult.symm
    rw [hbind]
    refine ⟨hresult'.symm, hhost.trans hhost'.symm, hcalls.trans hcalls'.symm,
      horder.trans (List.sublist_append_left _ _), hown, fun site' fault' heq => ?_⟩
    obtain ⟨rfl, rfl⟩ := Prod.mk.inj (Except.error.inj heq)
    exact hlast _ _ ht
  | ok a =>
    have hbind : (t >>= g) s = ⟨(g a (t s).host).result, (g a (t s).host).host,
        (t s).visits ++ (g a (t s).host).visits⟩ := by
      change (match (t s).result with | .ok _ => _ | .error _ => _) = _
      rw [ht]
    rw [ht] at hresult
    obtain ⟨hresult', hhost', hcalls'⟩ := Evaluation.run_bind_of_ok (f := f) hresult.symm
    rw [← hhost] at hresult' hhost' hcalls'
    obtain ⟨hsecond, hhost₂, hcalls₂, horder₂, hown₂, hlast₂⟩ := hfg a (t s).host
    rw [hbind]
    refine ⟨hsecond.trans hresult'.symm, hhost₂.trans hhost'.symm, ?_, ?_, ?_, ?_⟩
    · rw [List.flatMap_append, hcalls, hcalls₂, hcalls']
    · rw [List.map_append]
      exact horder.append horder₂
    · exact List.forall_mem_append.mpr ⟨hown, hown₂⟩
    · intro site fault heq
      obtain ⟨front, v, hvisits, hsite⟩ := hlast₂ site fault heq
      exact ⟨(t s).visits ++ front, v, by rw [hvisits, List.append_assoc], hsite⟩

theorem Tracks.map (h : Tracks fs parts x t) (f : α → β) :
    Tracks fs parts (x >>= fun a => pure (f a)) (t >>= fun a => pure (f a)) := by
  have hbind := h.bind fun a => @tracks_pure _ _ fs (f a)
  rwa [List.append_nil] at hbind

/-- A part is left with its own calls only. -/
theorem tracks_leave (hown : ∀ s, Visit.CallsOwn fs ⟨site, part, x.run.calls fs s⟩) :
    Tracks fs [(site, part)] x (.leave fs site part x) := by
  intro s
  refine ⟨?_, rfl, List.append_nil _, List.Sublist.refl _, ?_, ?_⟩
  · change ((x.run.run fs s).result.mapError _).mapError _ = _
    cases (x.run.run fs s).result <;> rfl
  · intro v hv
    obtain rfl := List.mem_singleton.mp hv
    exact hown s
  · intro site' fault heq
    refine ⟨[], _, rfl, ?_⟩
    change (x.run.run fs s).result.mapError _ = _ at heq
    cases hresult : (x.run.run fs s).result with
    | ok a =>
      rw [hresult] at heq
      cases heq
    | error fault' =>
      rw [hresult] at heq
      exact congrArg Prod.fst (Except.error.inj heq)

/-- What is looked at on the way through a part calls nothing. -/
theorem Tracks.after_check {r : Except EvalError α} (h : ∀ a, Tracks fs parts (f a) (g a))
    (hpart : (site, part) ∈ parts) :
    Tracks fs parts (Evaluation.ofOperation r >>= f) (.check site part r >>= g) := by
  cases r with
  | ok a => exact h a
  | error e =>
    intro s
    refine ⟨rfl, rfl, rfl, List.singleton_sublist.mpr hpart, ?_, ?_⟩
    · intro v hv
      obtain rfl := List.mem_singleton.mp hv
      exact .inl rfl
    · intro site' fault heq
      exact ⟨[], _, rfl, congrArg Prod.fst (Except.error.inj heq)⟩

theorem tracks_leave_ofResult (r : Except Fault α) : Tracks fs [(site, part)]
    (Evaluation.ofResult r) (.leave fs site part (Evaluation.ofResult r)) :=
  tracks_leave fun _ => .inl rfl

/-- A part is left with what has come of the last of its own parts. -/
theorem Tracks.leave (h : Tracks fs parts x t) :
    Tracks fs (parts ++ [(site, part)]) x (t >>= fun a => .leave fs site part (pure a)) := by
  have hleave : ∀ a : α, Tracks fs [(site, part)] (pure a) (.leave fs site part (pure a)) :=
    fun a => tracks_leave_ofResult (.ok a)
  have hbind := h.bind hleave
  rwa [bind_pure] at hbind

end Tracking

/-! ### Expressions -/

namespace Evaluator

open FormulaEngine.Expr

variable {σ : Type} {ev : Evaluator} {fs : Functions σ} {mode : Mode} {here : Site} {k : Nat}
  {function : String} {args : List Expr} {vs : List Value}

theorem contains_of_convention? {convention : Convention}
    (h : fs.convention? function = some convention) : fs.contains function := by
  have hsome := Option.isSome_of_eq_some h
  rwa [Functions.convention?, Option.isSome_map] at hsome

theorem callsOwn_invoke (hev : ev.convention? = fs.convention?) (s : σ) :
    Visit.CallsOwn fs ⟨here, .call function args, (ev.invoke function vs).run.calls fs s⟩ := by
  rw [invoke, hev]
  cases hconvention : fs.convention? function with
  | none => exact .inl rfl
  | some convention =>
    cases convention with
    | synchronous =>
      exact .inr ⟨function, args, vs, rfl, rfl, contains_of_convention? hconvention⟩
    | asynchronous => exact .inl rfl

theorem callsOwn_invokeAwaited (hev : ev.convention? = fs.convention?) (s : σ) : Visit.CallsOwn fs
    ⟨here, .call function args, (ev.invokeAwaited function vs).run.calls fs s⟩ := by
  rw [invokeAwaited, hev]
  cases hconvention : fs.convention? function with
  | none => exact .inl rfl
  | some convention =>
    cases convention with
    | synchronous =>
      exact .inr ⟨function, args, vs, rfl, rfl, contains_of_convention? hconvention⟩
    | asynchronous =>
      exact .inr ⟨function, args, vs, rfl, (Evaluation.runAlike_awaitCall hconvention s).2,
        contains_of_convention? hconvention⟩

/-- Wherever an expression stands, its evaluation follows its postorder. -/
def InPostorder (ev : Evaluator) (fs : Functions σ) (mode : Mode) (e : Expr) : Prop :=
  ∀ here, Tracks fs (postorder here e) (ev.eval mode e) (ev.evalAt fs mode here e)

theorem tracks_evalList {items : List Expr} (h : ∀ e ∈ items, ev.InPostorder fs mode e) :
    Tracks fs (postorderFrom here k items) (ev.evalList mode items)
      (ev.evalListAt fs mode here k items) := by
  induction items generalizing k with
  | nil => exact tracks_pure []
  | cons e rest ih =>
    rw [evalList, evalListAt, postorderFrom]
    refine (h e List.mem_cons_self _).bind fun v => ?_
    exact (ih fun e he => h e (List.mem_cons_of_mem _ he)).map (v :: ·)

theorem tracks_evalFields {fields : List (String × Expr)}
    (h : ∀ field ∈ fields, ev.InPostorder fs mode field.2) :
    Tracks fs (postorderFrom here k (fields.map (·.2))) (ev.evalFields mode fields)
      (ev.evalFieldsAt fs mode here k fields) := by
  induction fields generalizing k with
  | nil => exact tracks_pure []
  | cons field rest ih =>
    obtain ⟨name, e⟩ := field
    rw [evalFields, evalFieldsAt, List.map_cons, postorderFrom]
    refine (h (name, e) List.mem_cons_self _).bind fun v => ?_
    exact (ih fun field hfield => h field (List.mem_cons_of_mem _ hfield)).map ((name, v) :: ·)

/-- Patterns and values alternate. The value behind the pattern that matches is the only one that is
evaluated. -/
theorem tracks_evalCases {cases : List (Expr × Expr)} {subject : Value}
    (h : ∀ c ∈ cases, ev.InPostorder fs mode c.1 ∧ ev.InPostorder fs mode c.2) :
    Tracks fs (postorderFrom here k (cases.flatMap fun c => [c.1, c.2]))
      (ev.evalCases mode subject cases) (ev.evalCasesAt fs mode here k subject cases) := by
  induction cases generalizing k with
  | nil => exact tracks_pure none
  | cons c rest ih =>
    obtain ⟨pattern, value⟩ := c
    obtain ⟨hpattern, hvalue⟩ := h (pattern, value) List.mem_cons_self
    rw [evalCases, evalCasesAt, List.flatMap_cons, List.cons_append, List.singleton_append,
      postorderFrom, postorderFrom]
    refine (hpattern _).bind fun v => ?_
    by_cases heq : (v == subject) = true
    · rw [if_pos heq, if_pos heq]
      exact ((hvalue _).map some).mono (List.sublist_append_left _ _)
    · rw [if_neg heq, if_neg heq]
      exact (ih fun c hc => h c (List.mem_cons_of_mem _ hc)).mono (List.sublist_append_right _ _)

theorem tracks_evalFallback {fallback : Option Expr} {whole : Expr} {subject : Value}
    (h : ∀ e ∈ fallback, ev.InPostorder fs mode e) :
    Tracks fs (postorderFrom here k fallback.toList ++ [(here, whole)])
      (ev.evalFallback mode subject fallback)
      (ev.evalFallbackAt fs mode here k whole subject fallback) := by
  cases fallback with
  | none =>
    rw [evalFallback, evalFallbackAt]
    exact tracks_leave fun _ => .inl rfl
  | some e =>
    rw [evalFallback, evalFallbackAt, Option.toList_some, postorderFrom, postorderFrom,
      List.append_nil]
    exact (h e rfl _).leave

theorem inPostorder_binary {op : BinaryOp} {lhs rhs : Expr} (hlhs : ev.InPostorder fs mode lhs)
    (hrhs : ev.InPostorder fs mode rhs) : ev.InPostorder fs mode (.binary op lhs rhs) := by
  intro here
  rw [postorder_eq, eval, evalAt]
  simp only [children, postorderFrom, List.append_nil, List.append_assoc]
  refine (hlhs _).bind fun v => ?_
  by_cases hlazy : op.isLazy
  · rw [if_pos hlazy, if_pos hlazy]
    refine .after_check (fun a => ?_) (by simp)
    by_cases hdecides : op.decides a
    · rw [if_pos hdecides, if_pos hdecides]
      exact (tracks_leave_ofResult (.ok _)).mono (List.sublist_append_right _ _)
    · rw [if_neg hdecides, if_neg hdecides]
      refine (hrhs _).bind fun w => tracks_leave fun s => .inl ?_
      cases w.truth op.symbol <;> rfl
  · rw [if_neg hlazy, if_neg hlazy]
    exact (hrhs _).bind fun w => tracks_leave_ofResult _

theorem inPostorder_conditional {condition consequent alternative : Expr}
    (hcondition : ev.InPostorder fs mode condition)
    (hconsequent : ev.InPostorder fs mode consequent)
    (halternative : ev.InPostorder fs mode alternative) :
    ev.InPostorder fs mode (.conditional condition consequent alternative) := by
  intro here
  rw [postorder_eq, eval, evalAt]
  simp only [children, postorderFrom, List.append_nil, List.append_assoc]
  refine (hcondition _).bind fun v => .after_check (fun b => ?_) (by simp)
  rw [← List.append_assoc]
  cases b with
  | true => exact ((hconsequent _).mono (List.sublist_append_left _ _)).leave
  | false => exact ((halternative _).mono (List.sublist_append_right _ _)).leave

theorem inPostorder_switch {subject : Expr} {cases : List (Expr × Expr)} {fallback : Option Expr}
    (hsubject : ev.InPostorder fs mode subject)
    (hcases : ∀ c ∈ cases, ev.InPostorder fs mode c.1 ∧ ev.InPostorder fs mode c.2)
    (hfallback : ∀ e ∈ fallback, ev.InPostorder fs mode e) :
    ev.InPostorder fs mode (.switch subject cases fallback) := by
  intro here
  have hlength : (cases.flatMap fun c => [c.1, c.2]).length = 2 * cases.length := by
    simp [Nat.mul_comm]
  rw [postorder_eq, eval, evalAt]
  simp only [children, List.cons_append, postorderFrom, postorderFrom_append, hlength,
    List.append_assoc]
  refine (hsubject _).bind fun v => (tracks_evalCases hcases).bind fun found => ?_
  cases found with
  | some w => exact (tracks_leave_ofResult (.ok w)).mono (List.sublist_append_right _ _)
  | none => exact tracks_evalFallback hfallback

/-- A call that is awaited is made, and left, before the `await` is. -/
theorem inPostorder_await_call (hev : ev.convention? = fs.convention?)
    (hargs : ∀ arg ∈ args, ev.InPostorder fs .asynchronous arg) :
    ev.InPostorder fs .asynchronous (.await (.call function args)) := by
  intro here
  rw [postorder_eq, eval, evalAt]
  simp only [children, postorderFrom, List.append_nil, postorder_eq, List.append_assoc]
  exact (tracks_evalList hargs).bind fun vs => (tracks_leave (callsOwn_invokeAwaited hev)).leave

/-- What a default covers is evaluated first, but a path is only looked up. -/
theorem inPostorder_default {target fallback : Expr} (htarget : ev.InPostorder fs mode target)
    (hfallback : ev.InPostorder fs mode fallback) :
    ev.InPostorder fs mode (.default target fallback) := by
  intro here
  have hrest : ∀ found : Option Value, Tracks fs
      (postorder (here ++ [1]) fallback ++ [(here, .default target fallback)])
      (match found with
        | some v => if v.isNull then ev.eval mode fallback else pure v
        | none => ev.eval mode fallback)
      (match found with
        | some v =>
          if v.isNull then ev.evalAt fs mode (here ++ [1]) fallback >>= fun w =>
            .leave fs here (.default target fallback) (pure w)
          else .leave fs here (.default target fallback) (pure v)
        | none => ev.evalAt fs mode (here ++ [1]) fallback >>= fun w =>
            .leave fs here (.default target fallback) (pure w)) := by
    intro found
    cases found with
    | none => exact (hfallback _).leave
    | some v =>
      change Tracks fs _ (if v.isNull then _ else _) (if v.isNull then _ else _)
      by_cases hnull : v.isNull
      · rw [if_pos hnull, if_pos hnull]
        exact (hfallback _).leave
      · rw [if_neg hnull, if_neg hnull]
        exact (tracks_leave_ofResult (.ok v)).mono (List.sublist_append_right _ _)
  rw [postorder_eq, eval, evalAt]
  simp only [children, postorderFrom, List.append_nil, List.append_assoc]
  cases target.path? with
  | some path =>
    have hmem : (here ++ [0], target) ∈ postorder (here ++ [0]) target :=
      mem_postorder_iff.mpr ⟨[], (List.append_nil _).symm, rfl⟩
    exact ((tracks_leave_ofResult _).mono (List.singleton_sublist.mpr hmem)).bind hrest
  | none =>
    have hfound := (htarget (here ++ [0])).map some
    simp only [← map_eq_pure_bind] at hfound
    exact hfound.bind hrest

/-- Every evaluation follows the postorder of its expression. -/
theorem inPostorder (hev : ev.convention? = fs.convention?) (e : Expr) :
    ev.InPostorder fs mode e := by
  induction e using induction_parts with
  | h e ih =>
    have hpart : ∀ part ∈ e.operands, ev.InPostorder fs mode part := by
      intro part hmem
      obtain ⟨child, hchild, hcontains⟩ := exists_child_of_mem_operands hmem
      exact ih child hchild part hcontains
    cases e with
    | literal v =>
      intro here
      rw [postorder_eq, eval, evalAt]
      exact tracks_leave_ofResult (.ok v)
    | ident name =>
      intro here
      rw [postorder_eq, eval, evalAt]
      exact tracks_leave_ofResult _
    | member target name =>
      intro here
      rw [postorder_eq, eval, evalAt]
      simp only [children, postorderFrom, List.append_nil]
      exact (hpart target (by simp [operands, children]) _).bind fun v => tracks_leave_ofResult _
    | unary op operand =>
      intro here
      rw [postorder_eq, eval, evalAt]
      simp only [children, postorderFrom, List.append_nil]
      exact (hpart operand (by simp [operands, children]) _).bind fun v => tracks_leave_ofResult _
    | binary op lhs rhs =>
      exact inPostorder_binary (hpart lhs (by simp [operands, children]))
        (hpart rhs (by simp [operands, children]))
    | conditional condition consequent alternative =>
      exact inPostorder_conditional (hpart condition (by simp [operands, children]))
        (hpart consequent (by simp [operands, children]))
        (hpart alternative (by simp [operands, children]))
    | switch subject cases fallback =>
      refine inPostorder_switch (hpart subject (by simp [operands, children]))
        (fun c hc => ?_) (fun e he => hpart e (List.mem_append_right _ (Option.mem_toList.mpr he)))
      exact ⟨hpart c.1 (mem_children_switch hc).1, hpart c.2 (mem_children_switch hc).2⟩
    | list items =>
      intro here
      rw [postorder_eq, eval, evalAt]
      exact (tracks_evalList hpart).bind fun vs => tracks_leave_ofResult (.ok _)
    | object fields =>
      intro here
      rw [postorder_eq, eval, evalAt]
      exact (tracks_evalFields fun field hfield => hpart field.2 (List.mem_map_of_mem hfield)).bind
        fun entries => tracks_leave_ofResult (.ok _)
    | call function args =>
      intro here
      rw [postorder_eq, eval, evalAt]
      exact (tracks_evalList hpart).bind fun vs => tracks_leave (callsOwn_invoke hev)
    | await operand =>
      cases mode with
      | synchronous =>
        intro here
        rw [postorder_eq, eval, evalAt]
        exact (tracks_leave_ofResult _).mono (List.sublist_append_right _ _)
      | asynchronous =>
        cases operand with
        | call function args => exact inPostorder_await_call hev hpart
        | _ =>
          intro here
          rw [postorder_eq, eval, evalAt]
          · exact (tracks_leave_ofResult _).mono (List.sublist_append_right _ _)
          all_goals simp
    | default target fallback =>
      exact inPostorder_default (hpart target (by simp [operands, children]))
        (hpart fallback (by simp [operands, children]))

end Evaluator

/-! ### Calls -/

section Calls

variable {σ α : Type} {fs : Functions σ} {parts : List (Expr.Site × Expr)} {x : Evaluation α}
  {s : σ} {trail : Trail σ α}

theorem Visit.CallsOwn.sublist {v : Visit} (h : v.CallsOwn fs) :
    (v.calls.map fun call => (v.site, call.1)).Sublist (Expr.callAt? v.node).toList := by
  obtain hcalls | ⟨function, args, vs, hpart, hcalls, -⟩ := h
  · rw [hcalls]
    exact List.nil_sublist _
  · have hcall : Expr.callAt? v.node = some (v.site, function) :=
      Expr.callAt?_eq_some_iff.mpr ⟨args, Prod.ext rfl hpart⟩
    rw [hcalls, hcall]
    exact List.Sublist.refl _

theorem Trail.Follows.callSites_sublist (h : trail.Follows fs parts x s) :
    trail.callSites.Sublist (parts.filterMap Expr.callAt?) := by
  refine List.Sublist.trans ?_ (h.order.filterMap Expr.callAt?)
  have hown := h.own
  rw [callSites, List.filterMap_map, List.filterMap_eq_flatMap_toList]
  generalize trail.visits = visits at hown
  induction visits with
  | nil => exact .slnil
  | cons v rest ih =>
    rw [List.flatMap_cons, List.flatMap_cons]
    exact (hown v List.mem_cons_self).sublist.append
      (ih fun w hw => hown w (List.mem_cons_of_mem v hw))

theorem Trail.Follows.map_callSites (h : trail.Follows fs parts x s) :
    trail.callSites.map Prod.snd = (x.run.calls fs s).map Prod.fst := by
  rw [← h.calls, callSites, List.map_flatMap, List.map_flatMap]
  simp only [List.map_map, Function.comp_def]

end Calls

namespace Compilation

/-- An evaluation goes from left to right and makes each call at most once. What it calls, it calls
at calls in the expression, all at different places and in postorder, and where a fault is raised is
the last place that it comes to. An evaluation that may suspend does all this as well if it leaves
what awaits nothing to the synchronous one. -/
theorem calls_follow_postorder {σ : Type} (c : Compilation) (fs : Functions σ) (slots : Slots)
    (module : Option ModuleId) (e : Expr) (host : σ) :
    let ev := c.evaluator fs slots module
    (∀ mode,
      let trail := ev.evalAt fs mode [] e host
      trail.Follows fs (Expr.postorder [] e) (ev.eval mode e) host ∧
        trail.callSites.Sublist e.callSites ∧
        (trail.callSites.map Prod.fst).Nodup ∧
        trail.callSites.map Prod.snd = ((ev.eval mode e).run.calls fs host).map Prod.fst) ∧
      ev.evalAsync e = ev.eval .asynchronous e := by
  intro ev
  refine ⟨fun mode => ?_, Evaluator.evalAsync_eq e⟩
  have hfollows : (ev.evalAt fs mode [] e host).Follows fs (Expr.postorder [] e) (ev.eval mode e)
      host := @Evaluator.inPostorder _ ev fs mode rfl e [] host
  have hsublist := hfollows.callSites_sublist
  exact ⟨hfollows, hsublist, Expr.nodup_callSites.sublist (hsublist.map Prod.fst),
    hfollows.map_callSites⟩

/-- A conjunction that is decided by its first operand is left without a visit to the second one. -/
example {σ : Type} (ev : Evaluator) (fs : Functions σ) (host : σ) :
    let e := Expr.binary .and (.literal (.bool false)) (.call "fetch" [])
    (ev.evalAt fs .synchronous [] e host).visits.map Visit.node =
      [([0], .literal (.bool false)), ([], e)] := rfl

end Compilation

end FormulaEngine
