import FormulaEngine.Proofs.Eval.Endings
import FormulaEngine.Proofs.Eval.Frame
import FormulaEngine.Proofs.Run.Moments
import FormulaEngine.Proofs.Run.Waves

/-!
# Settling step by step

The asynchronous steps of a group are evaluated on the slots before the group and settled one after
the other. None of them reads what another one settles, so each comes to the same on the slots just
before it is settled. Seen so, a run settles one step at a time, and what is kept by one step that
is settled is kept by the run.
-/

namespace FormulaEngine.Compilation

variable {σ : Type} {c : Compilation} {fs : Functions σ} {arguments : List (String × Value)}
  {settled wave : List (StepId × Declaration)} {pr : Progress σ} {s s' : Slots} {d : Declaration}
  {mode : Mode} {x : StepId × Declaration} {r : Except Fault Value}

theorem routine_congr (hreads : ∀ id, (c.evaluator fs s d.module).Reads d id →
    s'.get? id = s.get? id) : c.routine fs mode s' d = c.routine fs mode s d := by
  have hrun : ((c.evaluator fs s d.module).onSlots s').run mode d =
      (c.evaluator fs s d.module).run mode d := Evaluator.run_onSlots hreads
  exact congrArg ExceptT.run hrun

/-- An evaluation looks at globals and at what its declaration depends on. -/
theorem Valid.routine_congr (h : c.Valid) (hd : c.program.declaration? d.id = some d)
    (hvertex : d.isVertex)
    (hglobal : ∀ id e, c.program.declaration? id = some e → e.isVertex = false →
      s'.get? id = s.get? id)
    (hdeps : ∀ u, c.program.DependsOn d.id u → s'.get? u = s.get? u) :
    c.routine fs mode s' d = c.routine fs mode s d := by
  apply Compilation.routine_congr
  intro id hreads
  rcases hreads.dependsOn_or_global h.wellFormed h.scopes_eq rfl hd hvertex with
    hdep | ⟨e, he, hnot⟩
  · exact hdeps id hdep
  · exact hglobal id e he hnot

theorem Valid.not_mem_idsOf_of_isWave_singleton (h : c.Valid) (hwave : c.IsWave settled [x]) :
    x.2.id ∉ idsOf settled := by
  have hsplit : [x] = [] ++ x :: [] := rfl
  simpa using h.not_mem_idsOf_of_isWave hwave hsplit

theorem routine_synchronous (hasync : d.isAsync = false) :
    c.routine fs .synchronous s d = c.routine fs .asynchronous s d :=
  congrArg ExceptT.run (Evaluator.run_synchronous hasync)

/-! ### What is filled -/

/-- The slots of globals and of what was settled are filled, and no others. Globals have values, and
so has everything as long as a run goes on that ends with its first failure. -/
structure IsFilled (c : Compilation) (settled : List (StepId × Declaration)) (pr : Progress σ) :
    Prop where
  global : ∀ id e, c.program.declaration? id = some e → e.isVertex = false →
    ∃ v, pr.slots.get? id = some (.value v)
  done : ∀ u ∈ idsOf settled, ∃ o, pr.slots.get? u = some o ∧
    (c.failFast → pr.stopped = false → o.isValue)
  only : ∀ u o, pr.slots.get? u = some o →
    u ∈ idsOf settled ∨ ∃ e, c.program.declaration? u = some e ∧ e.isVertex = false

theorem isFilled_start (host : σ) : c.IsFilled [] (c.start arguments host) where
  global id e he hglobal := by
    obtain ⟨o, ho⟩ := Option.isSome_iff_exists.mp (isSome_given_iff.mpr hglobal)
    obtain ⟨v, rfl⟩ := isValue_of_given ho
    exact ⟨v, get?_seed.trans (by rw [he]; exact ho)⟩
  done u hu := absurd hu List.not_mem_nil
  only u o hu := by
    obtain ⟨e, he, ho⟩ := Option.bind_eq_some_iff.mp (get?_seed.symm.trans hu)
    exact .inr ⟨e, he, isSome_given_iff.mp (Option.isSome_of_eq_some ho)⟩

theorem IsFilled.get?_eq_none (hpr : c.IsFilled settled pr)
    (hd : c.program.declaration? d.id = some d) (hvertex : d.isVertex)
    (hnew : d.id ∉ idsOf settled) : pr.slots.get? d.id = none := by
  refine Option.eq_none_iff_forall_ne_some.mpr fun o ho => ?_
  rcases hpr.only d.id o ho with hmem | ⟨e, he, hglobal⟩
  · exact hnew hmem
  · obtain rfl : d = e := Option.some.inj (hd.symm.trans he)
    exact absurd hvertex (by simp [hglobal])

theorem IsFilled.settle (hpr : c.IsFilled settled pr) (hempty : pr.slots.get? x.2.id = none) :
    c.IsFilled (settled ++ [x]) (pr.settle c.failFast x.1 x.2.id r) := by
  refine ⟨fun id e he hglobal => ?_, fun u hu => ?_, fun u o hu => ?_⟩
  · obtain ⟨v, hv⟩ := hpr.global id e he hglobal
    exact ⟨v, Slots.get?_insert_of_some hempty hv⟩
  · rw [idsOf_append, List.mem_append] at hu
    rcases hu with hu | hu
    · obtain ⟨o, ho, hvalue⟩ := hpr.done u hu
      refine ⟨o, Slots.get?_insert_of_some hempty ho, fun hfast hrunning => hvalue hfast ?_⟩
      exact (Bool.or_eq_false_iff.mp hrunning).1
    · obtain rfl := List.mem_singleton.mp hu
      refine ⟨_, Slots.get?_insert_self _ _ _, fun hfast hrunning => ?_⟩
      simpa [hfast] using (Bool.or_eq_false_iff.mp hrunning).2
  · rcases Slots.get?_insert_eq_some hu with ⟨rfl, -⟩ | ⟨-, hu⟩
    · exact .inl (by simp [idsOf])
    · refine (hpr.only u o hu).imp_left fun hmem => ?_
      rw [idsOf_append]
      exact List.mem_append_left _ hmem

/-! ### One step -/

/-- The next step on the schedule can come to a result on the slots, where its own is empty and all
that it looks at are filled. Those hold values if the run ends with the first failure. -/
structure ComesTo (c : Compilation) (fs : Functions σ) (settled : List (StepId × Declaration))
    (s : Slots) (x : StepId × Declaration) (r : Except Fault Value) : Prop where
  wave : c.IsWave settled [x]
  ends : (c.routine fs .asynchronous s x.2).Ends fs r
  empty : s.get? x.2.id = none
  global : ∀ id e, c.program.declaration? id = some e → e.isVertex = false →
    ∃ v, s.get? id = some (.value v)
  reads : ∀ u, c.program.DependsOn x.2.id u → ∃ o, s.get? u = some o ∧ (c.failFast → o.isValue)

theorem ComesTo.declaration? (h : c.Valid) (hx : c.ComesTo fs settled s x r) :
    c.program.declaration? x.2.id = some x.2 ∧ x.2.isVertex :=
  h.declaration?_of_isWave hx.wave (List.mem_singleton_self x)

theorem ComesTo.not_mem (h : c.Valid) (hx : c.ComesTo fs settled s x r) :
    x.2.id ∉ idsOf settled :=
  h.not_mem_idsOf_of_isWave_singleton hx.wave

/-- The steps of a wave that are settled ahead of another one make no difference to it. -/
theorem Valid.comesTo_of_isWave (h : c.Valid) (hwave : c.IsWave settled wave)
    (hrunning : pr.stopped = false) (hfilled : c.IsFilled settled pr)
    {before after : List (StepId × Declaration)} (hsplit : wave = before ++ x :: after)
    {pr' : Progress σ} (hfilled' : c.IsFilled (settled ++ before) pr')
    (hkept : ∀ u o, pr.slots.get? u = some o → pr'.slots.get? u = some o)
    (hends : (c.routine fs .asynchronous pr.slots x.2).Ends fs r) :
    c.ComesTo fs (settled ++ before) pr'.slots x r := by
  have hx : x ∈ wave := by rw [hsplit]; simp
  have hd := h.declaration?_of_isWave hwave hx
  have hreads : ∀ u, c.program.DependsOn x.2.id u → ∃ o, pr.slots.get? u = some o ∧
      (c.failFast → o.isValue) := by
    intro u hdep
    obtain ⟨o, ho, hvalue⟩ := hfilled.done u (hwave.closed x hx u hdep)
    exact ⟨o, ho, fun hfast => hvalue hfast hrunning⟩
  have hroutine : c.routine fs .asynchronous pr'.slots x.2 =
      c.routine fs .asynchronous pr.slots x.2 := by
    apply h.routine_congr hd.1 hd.2
    · intro id e he hglobal
      obtain ⟨v, hv⟩ := hfilled.global id e he hglobal
      rw [hv, hkept id _ hv]
    · intro u hdep
      obtain ⟨o, ho, -⟩ := hreads u hdep
      rw [ho, hkept u o ho]
  refine ⟨⟨?_, fun y hy u hdep => ?_⟩, hroutine ▸ hends,
    hfilled'.get?_eq_none hd.1 hd.2 (h.not_mem_idsOf_of_isWave hwave hsplit), hfilled'.global,
    fun u hdep => ?_⟩
  · refine List.IsPrefix.trans ?_ hwave.next
    rw [hsplit, List.append_assoc]
    exact ⟨after, by simp⟩
  · obtain rfl := List.mem_singleton.mp hy
    rw [idsOf_append]
    exact List.mem_append_left _ (hwave.closed _ hx u hdep)
  · obtain ⟨o, ho, hvalue⟩ := hreads u hdep
    exact ⟨o, hkept u o ho, hvalue⟩

/-- An entry of a journal that settles nothing: a mark, a panic, or that a step is started whose
turn it is. -/
inductive IsQuiet (c : Compilation) (settled : List (StepId × Declaration)) : Entry → Prop where
  | mark {e : Entry} (h : e.IsMark) : IsQuiet c settled e
  | panicked (panic : Panic) : IsQuiet c settled (.panicked panic)
  | started {wave : List (StepId × Declaration)} {x : StepId × Declaration}
      (hwave : c.IsWave settled wave) (hx : x ∈ wave) : IsQuiet c settled (.stepStarted x.1 x.2.id)

theorem IsQuiet.ne_stepSettled {e : Entry} (h : c.IsQuiet settled e) (step : StepId) (id : DeclId)
    (o : Outcome) : e ≠ .stepSettled step id o := by
  rintro rfl
  cases h with
  | mark h => cases h

/-- What is true of the steps that were settled and of the progress stays true with each entry that
settles nothing, and with each step that is settled. -/
structure KeepsEach (c : Compilation) (fs : Functions σ)
    (Inv : List (StepId × Declaration) → Progress σ → Prop) : Prop where
  note : ∀ {settled pr e}, c.IsQuiet settled e → Inv settled pr → Inv settled (pr.note [e])
  host : ∀ {settled pr} (host : σ), Inv settled pr → Inv settled { pr with host := host }
  settle : ∀ {settled pr x r}, c.ComesTo fs settled pr.slots x r → Inv settled pr →
    Inv (settled ++ [x]) (pr.settle c.failFast x.1 x.2.id r)

namespace KeepsEach

variable {Inv : List (StepId × Declaration) → Progress σ → Prop}

theorem noteAll (hInv : c.KeepsEach fs Inv) {entries : List Entry}
    (hquiet : ∀ e ∈ entries, c.IsQuiet settled e) (hpr : Inv settled pr) :
    Inv settled (pr.note entries) := by
  induction entries generalizing pr with
  | nil => simpa [Progress.note] using hpr
  | cons e rest ih =>
    have hrest := ih (fun e he => hquiet e (List.mem_cons_of_mem _ he))
      (hInv.note (hquiet e List.mem_cons_self) hpr)
    simpa [Progress.note] using hrest

theorem afterRan (hInv : c.KeepsEach fs Inv) {α : Type} (ran : Ran σ α) (hpr : Inv settled pr) :
    Inv settled (pr.afterRan ran) := by
  refine hInv.noteAll (fun e he => ?_) (hInv.host ran.host hpr)
  obtain ⟨panic, -, rfl⟩ := List.mem_map.mp he
  exact .panicked panic

theorem runStep (h : c.Valid) (hInv : c.KeepsEach fs Inv) {step : StepId}
    (hwave : c.IsWave settled [(step, d)]) (hasync : d.isAsync = false)
    (hrunning : pr.stopped = false) (hfilled : c.IsFilled settled pr) (hpr : Inv settled pr) :
    Inv (settled ++ [(step, d)]) (c.runStep fs step d pr) ∧
      c.IsFilled (settled ++ [(step, d)]) (c.runStep fs step d pr) := by
  have hends : (c.routine fs .asynchronous pr.slots d).Ends fs
      ((c.routine fs .synchronous pr.slots d).run fs pr.host).result := by
    rw [← routine_synchronous hasync]
    exact Routine.ends_run _ _
  have hsettled : c.IsFilled (settled ++ []) pr := by rwa [List.append_nil]
  have hsplit : [(step, d)] = [] ++ (step, d) :: [] := rfl
  have hcomes := h.comesTo_of_isWave hwave hrunning hfilled hsplit hsettled (fun _ _ hu => hu) hends
  rw [List.append_nil] at hcomes
  have hstarted := hInv.note (.started hwave List.mem_cons_self) hpr
  have hran : c.IsFilled settled ((pr.note [.stepStarted step d.id]).afterRan
      ((c.routine fs .synchronous pr.slots d).run fs pr.host)) :=
    ⟨hfilled.global, hfilled.done, hfilled.only⟩
  exact ⟨hInv.settle hcomes (hInv.afterRan _ hstarted), hran.settle hcomes.empty⟩

theorem runAsynchronous (h : c.Valid) (hInv : c.KeepsEach fs Inv)
    (hwave : c.IsWave settled wave) (hrunning : pr.stopped = false)
    (hfilled : c.IsFilled settled pr) (hpr : Inv settled pr) :
    Inv (settled ++ wave) (c.runAsynchronous fs wave pr) ∧
      c.IsFilled (settled ++ wave) (c.runAsynchronous fs wave pr) := by
  -- The slots from before the wave, on which all its results were found, stay as they were.
  let Inv' := fun ran (pr' : Progress σ) => (Inv (settled ++ ran) pr' ∧
    c.IsFilled (settled ++ ran) pr') ∧
    ∀ u o, pr.slots.get? u = some o → pr'.slots.get? u = some o
  have hall : Inv' wave (c.runAsynchronous fs wave pr) := by
    refine settleAll_induction (fun before x after r pr' hsplit hends hpr' => ?_)
      (Routine.forall₂_run_joinAll wave (fun x => c.routine fs .asynchronous pr.slots x.2)
        pr.host) ?_
    · obtain ⟨⟨hpr', hfilled'⟩, hkept⟩ := hpr'
      have hcomes := h.comesTo_of_isWave hwave hrunning hfilled hsplit hfilled' hkept hends
      refine ⟨?_, fun u o hu => Slots.get?_insert_of_some hcomes.empty (hkept u o hu)⟩
      rw [← List.append_assoc]
      exact ⟨hInv.settle hcomes hpr', hfilled'.settle hcomes.empty⟩
    · have hstarted : Inv settled (pr.note (wave.map fun x => .stepStarted x.1 x.2.id)) := by
        refine hInv.noteAll (fun e he => ?_) hpr
        obtain ⟨x, hx, rfl⟩ := List.mem_map.mp he
        exact .started hwave hx
      refine ⟨?_, fun u o hu => hu⟩
      rw [List.append_nil]
      exact ⟨hInv.afterRan _ hstarted, hfilled.global, hfilled.done, hfilled.only⟩
  exact hall.1

theorem and {Inv' : List (StepId × Declaration) → Progress σ → Prop} (hInv : c.KeepsEach fs Inv)
    (hInv' : c.KeepsEach fs Inv') :
    c.KeepsEach fs (fun settled pr => Inv settled pr ∧ Inv' settled pr) where
  note hquiet hpr := ⟨hInv.note hquiet hpr.1, hInv'.note hquiet hpr.2⟩
  host host hpr := ⟨hInv.host host hpr.1, hInv'.host host hpr.2⟩
  settle hx hpr := ⟨hInv.settle hx hpr.1, hInv'.settle hx hpr.2⟩

theorem keeps (h : c.Valid) (hInv : c.KeepsEach fs Inv) :
    c.Keeps fs (fun settled pr => Inv settled pr ∧ c.IsFilled settled pr) where
  mark hmark hpr := ⟨hInv.note (.mark hmark) hpr.1, hpr.2.global, hpr.2.done, hpr.2.only⟩
  step hwave hasync hrunning hpr := hInv.runStep h hwave hasync hrunning hpr.2 hpr.1
  together hwave hrunning hpr := hInv.runAsynchronous h hwave hrunning hpr.2 hpr.1

/-- At the end of a run everything on the schedule is settled, unless the run has stopped. -/
theorem runPlan (h : c.Valid) (hInv : c.KeepsEach fs Inv) {host : σ}
    (hstart : Inv [] (c.start arguments host)) :
    ∃ settled, settled <+: c.schedule ∧ Inv settled (c.runPlan fs arguments host) ∧
      c.IsFilled settled (c.runPlan fs arguments host) ∧
      ((c.runPlan fs arguments host).stopped = false → settled = c.schedule) := by
  obtain ⟨settled, hbegins, ⟨hend, hfilled⟩, hall⟩ :=
    (hInv.keeps h).runPlan h ⟨hstart, isFilled_start host⟩
  exact ⟨settled, hbegins, hend, hfilled, hall⟩

end KeepsEach

end FormulaEngine.Compilation
