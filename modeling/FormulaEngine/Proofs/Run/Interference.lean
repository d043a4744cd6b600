import FormulaEngine.Proofs.Run.Solution

/-!
# Interference

Two runs of a program may differ in their arguments and in what the host answers. The difference
begins in declarations that read such an argument or call such a function, and goes on from there
along the graph. Every other declaration has one outcome in both runs, whatever fails or panics
elsewhere.
-/

namespace FormulaEngine.Compilation

open Relation

variable {σ τ : Type} {c : Compilation} {fs : Functions σ} {fs' : Functions τ}
  {arguments arguments' : List (String × Value)} {s s' : Slots} {d e : Declaration} {id v : DeclId}

/-- A declaration is an argument, and two lists give it different values. A value that is missing is
null. -/
def ArgumentDiffers (c : Compilation) (arguments arguments' : List (String × Value)) (id : DeclId) :
    Prop :=
  ∃ e, c.program.declaration? id = some e ∧ e.kind = .argument ∧
    (Fields.get? arguments e.name).getD .null ≠ (Fields.get? arguments' e.name).getD .null

/-- Two runs differ in a declaration itself: it names or imports an argument that differs, or calls
a function to which the hosts do not answer alike. -/
inductive Differs (c : Compilation) (fs : Functions σ) (fs' : Functions τ)
    (arguments arguments' : List (String × Value)) (d : Declaration) : Prop where
  | name {expr : Expr} {exported : Bool} {name : String} {id : DeclId}
      (hkind : d.kind = .formula expr exported) (hname : expr.Contains (.ident name))
      (hid : c.scopes.resolve d.module name = some id)
      (hdiffers : c.ArgumentDiffers arguments arguments' id)
  | argument {name : String} {id : DeclId} (hkind : d.kind = .imported [name] .argument)
      (hid : c.scopes.program.local? name = some id)
      (hdiffers : c.ArgumentDiffers arguments arguments' id)
  | call {expr : Expr} {exported : Bool} {function : String} {args : List Expr}
      (hkind : d.kind = .formula expr exported) (hcall : expr.Contains (.call function args))
      (hdiffers : ¬fs.AnswerAlike fs' function)

/-- A declaration in which two runs differ, or one that such a declaration leads to. -/
def IsAffected (c : Compilation) (fs : Functions σ) (fs' : Functions τ)
    (arguments arguments' : List (String × Value)) (v : DeclId) : Prop :=
  ∃ u d, c.program.declaration? u = some d ∧ c.Differs fs fs' arguments arguments' d ∧
    ReflTransGen (fun u v => (u, v) ∈ c.graph.edges) u v

theorem Valid.isAffected_of_dependsOn (h : c.Valid) {u : DeclId} (hdep : c.program.DependsOn v u)
    (hu : c.IsAffected fs fs' arguments arguments' u) :
    c.IsAffected fs fs' arguments arguments' v := by
  obtain ⟨w, d, hd, hdiffers, hpath⟩ := hu
  exact ⟨w, d, hd, hdiffers, hpath.tail (h.mem_edges_iff.mpr hdep)⟩

/-! ### What is read -/

theorem eq_given_of_not_argumentDiffers (he : c.program.declaration? id = some e)
    (hsame : ¬c.ArgumentDiffers arguments arguments' id) :
    given arguments e = given arguments' e := by
  unfold given
  split
  case h_1 hkind =>
    by_cases hvalue : (Fields.get? arguments e.name).getD .null =
        (Fields.get? arguments' e.name).getD .null
    · rw [hvalue]
    · exact absurd ⟨e, he, hkind, hvalue⟩ hsame
  all_goals rfl

/-- A declaration in which two runs do not differ reads no argument that does. -/
theorem Valid.not_argumentDiffers_of_reads (h : c.Valid) (hvertex : d.isVertex)
    (hsame : ¬c.Differs fs fs' arguments arguments' d)
    (hreads : (c.evaluator fs s d.module).Reads d id) :
    ¬c.ArgumentDiffers arguments arguments' id := by
  intro hdiffers
  have hargument : ∀ e, c.program.declaration? id = some e → e.kind = .argument := by
    obtain ⟨e, he, hkind, -⟩ := hdiffers
    rintro e' he'
    obtain rfl : e = e' := Option.some.inj (he.symm.trans he')
    exact hkind
  cases hreads with
  | own hglobal => exact absurd hvertex (by simp [hglobal])
  | name hkind hname hid => exact hsame (.name hkind hname hid hdiffers)
  | formula hkind hid =>
    obtain ⟨_, _, e, -, -, he, -, -, hformula⟩ :=
      (Evaluator.findFormula?_eq_some_iff h.wellFormed).mp hid
    simp [Declaration.isFormula, hargument e he] at hformula
  | exports hkind hm hid =>
    obtain ⟨hm, -⟩ := h.wellFormed.moduleNamed?_eq_some_iff.mp hm
    obtain ⟨e, he, -, hexported⟩ := (Program.mem_exportedFormulas_iff h.wellFormed hm).mp hid
    simp [Declaration.isExported, hargument e he] at hexported
  | argument hkind hid =>
    obtain ⟨hlocal, -⟩ := Evaluator.findGlobal?_eq_some_iff.mp hid
    exact hsame (.argument hkind hlocal hdiffers)
  | constant hkind hid =>
    obtain ⟨-, e, he, hfits⟩ := Evaluator.findGlobal?_eq_some_iff.mp hid
    simp [hargument e he] at hfits

/-- Two solutions agree on what they do not affect. -/
theorem Solves.get?_eq_of_not_isAffected (h : c.Valid) (hs : c.Solves fs arguments s)
    (hs' : c.Solves fs' arguments' s') (host : σ) (host' : τ)
    (hv : ∃ d, c.program.declaration? v = some d ∧ d.isVertex)
    (hclear : ¬c.IsAffected fs fs' arguments arguments' v) : s'.get? v = s.get? v := by
  refine @Valid.induction_dependsOn c h
    (fun v => ¬c.IsAffected fs fs' arguments arguments' v → s'.get? v = s.get? v)
    (fun d hd hvertex ih hclear => ?_) v hv hclear
  have hsame : ¬c.Differs fs fs' arguments arguments' d := fun hdiffers =>
    hclear ⟨d.id, d, hd, hdiffers, .refl⟩
  -- In what `d` reads both runs see the same, so only the answers to its calls could differ.
  have hreads : ∀ id, (c.evaluator fs s d.module).Reads d id → s'.get? id = s.get? id := by
    intro id hreads
    rcases hreads.dependsOn_or_global h.wellFormed h.scopes_eq rfl hd hvertex with
      hdep | ⟨e, he, hglobal⟩
    · exact ih id hdep fun hu => hclear (h.isAffected_of_dependsOn hdep hu)
    · rw [hs.global he hglobal, hs'.global he hglobal]
      exact (eq_given_of_not_argumentDiffers he
        (h.not_argumentDiffers_of_reads hvertex hsame hreads)).symm
  have hresult : ((c.routine fs' .asynchronous s' d).run fs' host').result =
      ((c.routine fs .asynchronous s d).run fs host).result := by
    have hends : (c.routine fs .asynchronous s' d).Ends fs
        ((c.routine fs .asynchronous s d).run fs host).result := by
      rw [routine_congr hreads]
      exact Routine.ends_run _ host
    refine (eq_of_ends_routine (fun expr exported function args hkind hcall => ?_) hends
      (Routine.ends_run _ host')).symm
    by_contra hdiffers
    exact hsame (.call hkind hcall hdiffers)
  rw [hs.vertex d.id d hd hvertex host, hs'.vertex d.id d hd hvertex host', hresult]

/-- A difference between two runs stays in the declarations that are affected by it: under a profile
that contains failures every other vertex has the same outcome in both, be it a value, a failure or
the cause of a skip. -/
theorem outcome_eq_of_not_isAffected {settings : Settings} {source : ProgramSource}
    (h : compile settings source = .ok c) (hcontains : c.profile.containsFailures)
    (hfs : fs.IsSteady) (hfs' : fs'.IsSteady) (arguments arguments' : List (String × Value))
    (host : σ) (host' : τ) (hv : v ∈ c.graph.vertices)
    (hclear : ¬c.IsAffected fs fs' arguments arguments' v) :
    ∃ o, (c.runPlan fs arguments host).slots.get? v = some o ∧
      (c.runPlan fs' arguments' host').slots.get? v = some o := by
  have hvalid := valid_of_compile h
  have hfast : c.failFast = false := by simp [failFast, hcontains]
  have hs := hvalid.solves_runPlan hfast hfs arguments host
  have hs' := hvalid.solves_runPlan hfast hfs' arguments' host'
  have hvertex := hvalid.mem_vertices_iff.mp hv
  obtain ⟨d, hd, hd'⟩ := hvertex
  have ho := hs.vertex v d hd hd' host
  have heq := hs.get?_eq_of_not_isAffected hvalid hs' host host' ⟨d, hd, hd'⟩ hclear
  exact ⟨_, ho, heq.trans ho⟩

/-- Nothing leads to the import of an argument, so only the argument affects it. -/
theorem Valid.exists_argumentDiffers_of_isAffected (h : c.Valid) {path : List String}
    (hd : c.program.declaration? v = some d) (hkind : d.kind = .imported path .argument)
    (haffected : c.IsAffected fs fs' arguments arguments' v) :
    ∃ id, c.ArgumentDiffers arguments arguments' id := by
  obtain ⟨u, e, he, hdiffers, hpath⟩ := haffected
  rcases hpath.cases_tail with heq | ⟨w, -, hedge⟩
  · obtain rfl : d = e := Option.some.inj (hd.symm.trans (heq ▸ he))
    cases hdiffers with
    | name hkind' | call hkind' => cases hkind.symm.trans hkind'
    | argument _ _ hargument => exact ⟨_, hargument⟩
  · cases h.mem_edges_iff.mp hedge with
    | name hd' hkind' | formula hd' hkind' | exports hd' hkind' =>
      obtain rfl := Option.some.inj (hd.symm.trans hd')
      cases hkind.symm.trans hkind'

/-- Without its host function the awaited call in the checkout fails, and the import that it reads
is as before. -/
theorem exists_unaffected_of_checkout :
    ∃ c u v, compile {} .checkout = .ok c ∧ v ∈ c.graph.vertices ∧
      c.IsAffected .echo (.empty : Functions Unit) [] [] u ∧
      ¬c.IsAffected .echo (.empty : Functions Unit) [] [] v ∧
      ∃ o, (c.runPlan .echo [] ()).slots.get? v = some o ∧
        (c.runPlan (.empty : Functions Unit) [] ()).slots.get? v = some o := by
  obtain ⟨c, hc, hprofile⟩ := exists_checkout
  have hvalid := valid_of_compile hc
  have hcontains : c.profile.containsFailures := by rw [hprofile]; rfl
  have hitem : c.program.declaration? 2 =
      some ⟨2, some 0, "item", .imported ["order"] .argument⟩ := by
    rw [program_of_compile hc]
    rfl
  have hlive : c.program.declaration? 3 =
      some ⟨3, some 0, "live", .formula (.awaitCall "fetch" [.ident "item"]) true⟩ := by
    rw [program_of_compile hc]
    rfl
  have hfetch : ¬Functions.echo.AnswerAlike (.empty : Functions Unit) "fetch" := fun halike =>
    absurd halike.convention (by decide)
  have hcall : Expr.call "fetch" [.ident "item"] ∈
      (Expr.awaitCall "fetch" [.ident "item"]).children := List.mem_singleton_self _
  have haffected : c.IsAffected .echo (.empty : Functions Unit) [] [] 3 :=
    ⟨3, _, hlive, .call rfl (.step hcall (.refl _)) hfetch, .refl⟩
  have hclear : ¬c.IsAffected .echo (.empty : Functions Unit) [] [] 2 := by
    intro haffected
    obtain ⟨id, _, -, -, hne⟩ := hvalid.exists_argumentDiffers_of_isAffected hitem rfl haffected
    exact hne rfl
  have hvertex : 2 ∈ c.graph.vertices := hvalid.mem_vertices_iff.mpr ⟨_, hitem, rfl⟩
  exact ⟨c, 3, 2, hc, hvertex, haffected, hclear,
    outcome_eq_of_not_isAffected hc hcontains Functions.isSteady_echo Functions.isSteady_empty [] []
      () () hvertex hclear⟩

end FormulaEngine.Compilation
