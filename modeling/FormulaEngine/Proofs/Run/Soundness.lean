import FormulaEngine.Proofs.Eval.Faults
import FormulaEngine.Proofs.Run.Settling

/-!
# Runs without internal errors

Whenever a step starts, all slots that it can look at are filled, and it is evaluated in a mode in
which it can be. So no step of a run ever ends in an internal error, whatever the host does.
-/

namespace FormulaEngine.Compilation

variable {σ : Type} {c : Compilation} {fs : Functions σ} {arguments : List (String × Value)}
  {settled wave : List (StepId × Declaration)} {pr : Progress σ} {s : Slots}

/-- An entry may stand in a journal, given the slots: a step starts only if it can run, and is
settled without an internal error. -/
def IsSoundEntry (c : Compilation) (fs : Functions σ) (s : Slots) : Entry → Prop
  | .stepStarted step id => ∃ d, c.program.declaration? id = some d ∧ ∃ group ∈ c.plan.groups,
    step ∈ group.synchronous ∧ (c.evaluator fs s d.module).CanRun .synchronous d ∨
      step ∈ group.asynchronous ∧ (c.evaluator fs s d.module).CanRun .asynchronous d
  | .stepSettled _ _ o => ¬o.IsInternal
  | _ => True

/-- The slots of globals and of what was settled are filled, and none with an internal error. -/
structure HasSoundSlots (c : Compilation) (settled : List (StepId × Declaration)) (s : Slots) :
    Prop where
  filled : ∀ id d, c.program.declaration? id = some d →
    d.isVertex = false ∨ id ∈ idsOf settled → ∃ o, s.get? id = some o
  sound : ∀ id o, s.get? id = some o → ¬o.IsInternal

/-- The slots are what the journal tells, and nothing in it goes wrong. -/
structure IsSoundProgress (c : Compilation) (fs : Functions σ) (arguments : List (String × Value))
    (settled : List (StepId × Declaration)) (pr : Progress σ) : Prop where
  slots : c.HasSoundSlots settled pr.slots
  replay : pr.slots = (c.seed arguments).replay pr.journal
  moments : AllMoments (fun before => c.IsSoundEntry fs ((c.seed arguments).replay before))
    pr.journal

/-! ### Single steps -/

/-- A step of a wave can run, in any mode that suits it. -/
theorem Valid.canRun (h : c.Valid) (hwave : c.IsWave settled wave) (hs : c.HasSoundSlots settled s)
    {x : StepId × Declaration} (hx : x ∈ wave) {mode : Mode}
    (hmode : x.2.isAsync → mode = .asynchronous) :
    (c.evaluator fs s x.2.module).CanRun mode x.2 := by
  obtain ⟨hd, hvertex⟩ := h.declaration?_of_isWave hwave hx
  refine ⟨fun id hreads => ?_, fun expr exported hkind operand hoperand => ⟨hmode ?_, ?_⟩,
    fun path kind hkind => h.path_length hd hkind⟩
  · have hfilled : ∃ o, s.get? id = some o := by
      rcases hreads.dependsOn_or_global h.wellFormed h.scopes_eq rfl hd hvertex with
        hdep | ⟨e, he, hglobal⟩
      · obtain ⟨e, he, -⟩ := hdep.right_isVertex h.wellFormed
        exact hs.filled id e he (.inr (hwave.closed x hx id hdep))
      · exact hs.filled id e he (.inl hglobal)
    obtain ⟨o, ho⟩ := hfilled
    exact ⟨o, ho, hs.sound id o ho⟩
  · have hasync : expr.isAsync := Expr.isAsync_iff.mpr ⟨operand, hoperand⟩
    simp [Declaration.isAsync, Declaration.expr?, hkind, hasync]
  · exact h.isCall_of_await hd hkind hoperand

theorem Valid.isSoundEntry_stepStarted (h : c.Valid) (hwave : c.IsWave settled wave)
    (hs : c.HasSoundSlots settled s) {x : StepId × Declaration} (hx : x ∈ wave) :
    c.IsSoundEntry fs s (.stepStarted x.1 x.2.id) := by
  obtain ⟨hd, -⟩ := h.declaration?_of_isWave hwave hx
  obtain ⟨hstep, hid, -⟩ := h.mem_scheduled_iff.mp (hwave.mem_schedule hx)
  obtain ⟨group, hgroup, hmem⟩ := List.mem_flatMap.mp hstep
  refine ⟨x.2, hd, group, hgroup, ?_⟩
  rcases List.mem_append.mp hmem with hmem | hmem
  · have hasync := h.isAsync_eq_false hgroup (h.mem_scheduled_iff.mpr ⟨hmem, hid, hd⟩)
    exact .inl ⟨hmem, h.canRun hwave hs hx fun h => absurd h (by simp [hasync])⟩
  · exact .inr ⟨hmem, h.canRun hwave hs hx fun _ => rfl⟩

/-! ### What a run keeps -/

namespace IsSoundProgress

/-- Entries that settle nothing leave the slots as they are. -/
theorem append (hpr : c.IsSoundProgress fs arguments settled pr) {pr' : Progress σ}
    {entries : List Entry} (hslots : pr'.slots = pr.slots)
    (hjournal : pr'.journal = pr.journal ++ entries)
    (hquiet : ∀ e ∈ entries, ∀ step id o, e ≠ .stepSettled step id o)
    (hentries : ∀ e ∈ entries, c.IsSoundEntry fs pr.slots e) :
    c.IsSoundProgress fs arguments settled pr' where
  slots := hslots ▸ hpr.slots
  replay := by
    rw [hslots, hjournal, Slots.replay_append, ← hpr.replay, Slots.replay_of_forall hquiet]
  moments := by
    rw [hjournal]
    refine hpr.moments.append fun before e after hsplit => ?_
    have hbefore : pr.slots.replay before = pr.slots :=
      Slots.replay_of_forall fun e he => hquiet e (by rw [hsplit]; simp [he])
    change c.IsSoundEntry fs ((c.seed arguments).replay (pr.journal ++ before)) e
    rw [Slots.replay_append, ← hpr.replay, hbefore]
    exact hentries e (by rw [hsplit]; simp)

theorem settle (hpr : c.IsSoundProgress fs arguments settled pr) {x : StepId × Declaration}
    {r : Except Fault Value} (hr : ∀ fault, r = .error fault → ¬fault.IsInternal) :
    c.IsSoundProgress fs arguments (settled ++ [x]) (pr.settle c.failFast x.1 x.2.id r) := by
  have ho : ¬(Outcome.settle x.2.id r).IsInternal := fun hinternal => by
    obtain ⟨fault, hfault, hinternal⟩ := Outcome.isInternal_settle_iff.mp hinternal
    exact hr fault hfault hinternal
  refine ⟨⟨fun id d hd hid => ?_, fun id o hget => ?_⟩, ?_, ?_⟩
  · by_cases heq : id = x.2.id
    · subst heq
      exact ⟨_, Slots.get?_insert_self _ _ _⟩
    · rw [Progress.settle, Slots.get?_insert_of_ne _ heq]
      refine hpr.slots.filled id d hd (hid.imp_right fun hmem => ?_)
      simpa [idsOf, heq] using hmem
  · by_cases heq : id = x.2.id
    · subst heq
      rw [Progress.settle, Slots.get?_insert_self] at hget
      exact Option.some.inj hget ▸ ho
    · rw [Progress.settle, Slots.get?_insert_of_ne _ heq] at hget
      exact hpr.slots.sound id o hget
  · rw [Progress.settle, Slots.replay_append, ← hpr.replay]
    rfl
  · refine hpr.moments.append (AllMoments.of_forall fun before e he => ?_)
    obtain rfl := List.mem_singleton.mp he
    exact ho

end IsSoundProgress

theorem Valid.keeps_isSoundProgress (h : c.Valid) (fs : Functions σ)
    (arguments : List (String × Value)) :
    c.KeepsEach fs (fun settled pr => c.IsSoundProgress fs arguments settled pr) where
  note hquiet hpr := by
    refine hpr.append rfl rfl (fun e he => ?_) fun e he => ?_
    all_goals obtain rfl := List.mem_singleton.mp he
    · exact hquiet.ne_stepSettled
    · cases hquiet with
      | mark hmark => cases hmark <;> trivial
      | panicked panic => trivial
      | started hwave hx => exact h.isSoundEntry_stepStarted hwave hpr.slots hx
  host _ hpr := ⟨hpr.slots, hpr.replay, hpr.moments⟩
  settle hx hpr := hpr.settle fun fault hfault =>
    (h.canRun hx.wave hpr.slots List.mem_cons_self fun _ => rfl).isSound fault (hfault ▸ hx.ends)

theorem isSoundProgress_start (host : σ) :
    c.IsSoundProgress fs arguments [] (c.start arguments host) := by
  refine ⟨⟨fun id d hd hid => ?_, fun id o ho => ?_⟩, ?_, ?_⟩
  · have hglobal : d.isVertex = false := hid.resolve_right List.not_mem_nil
    obtain ⟨o, ho⟩ : ∃ o, given arguments d = some o :=
      Option.isSome_iff_exists.mp (isSome_given_iff.mpr hglobal)
    refine ⟨o, ?_⟩
    change (c.seed arguments).get? id = some o
    rw [get?_seed, hd]
    exact ho
  · obtain ⟨v, rfl⟩ := exists_value_of_get?_seed ho
    exact fun hinternal => hinternal
  · refine (Slots.replay_of_forall fun e he step id o heq => ?_).symm
    obtain ⟨name, rfl⟩ := exists_ignoredArgument_of_mem_start he
    exact absurd heq (by simp)
  · refine AllMoments.of_forall fun before e he => ?_
    obtain ⟨name, rfl⟩ := exists_ignoredArgument_of_mem_start he
    trivial

/-- A run of whatever compiles never goes wrong: a step starts only when all slots that it can look
at are filled, no synchronous step waits for anything, only calls are awaited and every import has
a path of the length of its kind; and no step is settled with an internal error. -/
theorem never_internal {settings : Settings} {source : ProgramSource}
    (h : compile settings source = .ok c) (fs : Functions σ) (arguments : List (String × Value))
    (host : σ) :
    (∀ before e after, (c.runPlan fs arguments host).journal = before ++ e :: after →
      c.IsSoundEntry fs ((c.seed arguments).replay before) e) ∧
    (c.runPlan fs arguments host).slots =
      (c.seed arguments).replay (c.runPlan fs arguments host).journal ∧
    ∀ id o, (c.runPlan fs arguments host).slots.get? id = some o → ¬o.IsInternal := by
  have hvalid := valid_of_compile h
  obtain ⟨settled, -, hend, -⟩ := (hvalid.keeps_isSoundProgress fs arguments).runPlan hvalid
    (isSoundProgress_start host)
  exact ⟨hend.moments, hend.replay, hend.slots.sound⟩

theorem exists_sound_run_of_checkout :
    ∃ c, compile {} .checkout = .ok c ∧ ∀ id o,
      (c.runPlan (.empty : Functions Unit) [] ()).slots.get? id = some o → ¬o.IsInternal := by
  obtain ⟨c, hc, -⟩ := exists_checkout
  exact ⟨c, hc, (never_internal hc .empty [] ()).2.2⟩

end FormulaEngine.Compilation
