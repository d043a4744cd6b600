import FormulaEngine.Proofs.Eval.Interleaving
import FormulaEngine.Proofs.Run.Grouping
import FormulaEngine.Proofs.Run.Settling

/-!
# The order in which answers arrive

The asynchronous steps of a group start on the same slots, none of them reads the slot of another
one, and they are settled in their order after all have ended. So it cannot be seen from a run in
which order the answers to their calls arrived.
-/

namespace FormulaEngine.Compilation

variable {σ : Type} {c : Compilation} {fs : Functions σ} {pr pr' pr'' : Progress σ} {s : Slots}
  {settled wave steps : List (StepId × Declaration)} {x : StepId × Declaration} {mode : Mode}

/-! ### Steps of one wave -/

theorem Valid.not_mem_idsOf_of_dependsOn (h : c.Valid) (hwave : c.IsWave settled wave)
    (hx : x ∈ wave) {u : DeclId} (hdep : c.program.DependsOn x.2.id u) : u ∉ idsOf wave := by
  intro hu
  obtain ⟨y, hy, rfl⟩ := List.mem_map.mp hu
  obtain ⟨before, after, hsplit⟩ := List.append_of_mem hy
  apply h.not_mem_idsOf_of_isWave hwave hsplit
  rw [idsOf_append]
  exact List.mem_append_left _ (hwave.closed x hx y.2.id hdep)

/-- The slots of a wave make no difference to its steps. -/
theorem Valid.routine_congr_of_isWave (h : c.Valid) (hwave : c.IsWave settled wave)
    (hx : x ∈ wave) (hothers : ∀ id ∉ idsOf wave, s.get? id = pr.slots.get? id) :
    c.routine fs mode s x.2 = c.routine fs mode pr.slots x.2 := by
  obtain ⟨hd, hvertex⟩ := h.declaration?_of_isWave hwave hx
  apply h.routine_congr hd hvertex
  · intro id e he hglobal
    apply hothers
    intro hmem
    obtain ⟨y, hy, rfl⟩ := List.mem_map.mp hmem
    obtain ⟨hd', hvertex'⟩ := h.declaration?_of_isWave hwave hy
    obtain rfl : y.2 = e := Option.some.inj (hd'.symm.trans he)
    exact absurd hvertex' (by simp [hglobal])
  · intro u hdep
    exact hothers u (h.not_mem_idsOf_of_dependsOn hwave hx hdep)

/-! ### Groups -/

/-- The evaluations of asynchronous steps as they start, all of them on the slots as they are. -/
def takeOff (c : Compilation) (fs : Functions σ) (steps : List (StepId × Declaration))
    (pr : Progress σ) : Flight σ (Except Fault Value) :=
  ⟨steps.map fun x => c.routine fs .asynchronous pr.slots x.2, pr.host, []⟩

/-- Settles asynchronous steps in their order, with the results that they have come to. -/
def land (c : Compilation) (steps : List (StepId × Declaration))
    (ran : Ran σ (List (Except Fault Value))) (pr : Progress σ) : Progress σ :=
  c.settleAll steps ran.result
    ((pr.note (steps.map fun x => .stepStarted x.1 x.2.id)).afterRan ran)

/-- Asynchronous steps are started together, go on in some order, and are settled after all have
ended. -/
inductive Interleaves (c : Compilation) (fs : Functions σ)
    (steps : List (StepId × Declaration)) (pr : Progress σ) : Progress σ → Prop where
  | intro {fl : Flight σ (Except Fault Value)} {results : List (Except Fault Value)}
      (hflight : Relation.ReflTransGen (Flight.Step fs) (c.takeOff fs steps pr) fl)
      (hlanded : fl.HasLanded results) :
    Interleaves c fs steps pr (c.land steps ⟨results, fl.host, fl.panics⟩ pr)

/-- What asynchronous steps come to if they take turns. -/
def resultsOf (c : Compilation) (fs : Functions σ) (steps : List (StepId × Declaration))
    (pr : Progress σ) : List (Except Fault Value) :=
  ((Routine.joinAll (c.takeOff fs steps pr).routines).run fs pr.host).result

theorem results_eq_of_landed (hfs : fs.IsSteady) {fl : Flight σ (Except Fault Value)}
    {results : List (Except Fault Value)}
    (hflight : Relation.ReflTransGen (Flight.Step fs) (c.takeOff fs steps pr) fl)
    (hlanded : fl.HasLanded results) : results = c.resultsOf fs steps pr := by
  have hends := Flight.forall₂_ends_of_landed hflight hlanded
  exact eq_of_forall₂_ends hfs (List.forall₂_map_left_iff.mp hends)
    (Routine.forall₂_run_joinAll steps _ pr.host)

theorem agree_land (h : pr.Agree c.program fs pr') (steps : List (StepId × Declaration))
    {ran ran' : Ran σ (List (Except Fault Value))} (hresult : ran.result = ran'.result)
    (hhost : fs.IsSteady ∨ ran.host = ran'.host) :
    (c.land steps ran pr).Agree c.program fs (c.land steps ran' pr') := by
  have hstarted := h.note (steps.map fun x => .stepStarted x.1 x.2.id)
  exact agree_settleAll (hstarted.afterRan hhost) steps hresult

theorem agree_of_interleaves (hfs : fs.IsSteady) (h : pr.Agree c.program fs pr')
    (hrun : c.Interleaves fs steps pr pr'') :
    pr''.Agree c.program fs (c.runAsynchronous fs steps pr') := by
  obtain @⟨fl, results, hflight, hlanded⟩ := hrun
  have hresults := results_eq_of_landed hfs hflight hlanded
  have hland : (c.land steps ⟨results, fl.host, fl.panics⟩ pr).Agree c.program fs
      (c.runAsynchronous fs steps pr) :=
    agree_land (.refl pr) steps hresults (.inl hfs)
  exact hland.trans (agree_runAsynchronous h steps)

theorem exists_interleaves (c : Compilation) (fs : Functions σ)
    (steps : List (StepId × Declaration)) (pr : Progress σ) :
    ∃ pr', c.Interleaves fs steps pr pr' := by
  obtain ⟨fl, results, hflight, hlanded⟩ := Flight.exists_landing (c.takeOff fs steps pr)
  exact ⟨_, hflight, hlanded⟩

/-! ### Runs -/

/-- A run of a group, with its asynchronous steps in some order. -/
inductive RunsGroup (c : Compilation) (fs : Functions σ) (index : Nat) (group : StepGroup)
    (pr : Progress σ) : Progress σ → Prop where
  | stopped {pr' : Progress σ}
      (hsynchronous : c.runSynchronous fs (c.scheduled group.synchronous)
        (pr.note [.groupStarted index group]) = pr')
      (hstopped : pr'.stopped) :
    RunsGroup c fs index group pr (pr'.note [.groupCompleted index])
  | running {pr' pr'' : Progress σ}
      (hsynchronous : c.runSynchronous fs (c.scheduled group.synchronous)
        (pr.note [.groupStarted index group]) = pr')
      (hrunning : pr'.stopped = false)
      (hasynchronous : c.Interleaves fs (c.scheduled group.asynchronous) pr' pr'') :
    RunsGroup c fs index group pr (pr''.note [.groupCompleted index])

/-- A run of groups, each with its asynchronous steps in some order. -/
inductive RunsGroups (c : Compilation) (fs : Functions σ) :
    Nat → List StepGroup → Progress σ → Progress σ → Prop where
  | nil (index : Nat) (pr : Progress σ) : RunsGroups c fs index [] pr pr
  | stopped {index : Nat} {group : StepGroup} {rest : List StepGroup} {pr pr' : Progress σ}
      (hgroup : c.RunsGroup fs index group pr pr') (hstopped : pr'.stopped) :
    RunsGroups c fs index (group :: rest) pr (pr'.note [.stopped index])
  | running {index : Nat} {group : StepGroup} {rest : List StepGroup} {pr pr' pr'' : Progress σ}
      (hgroup : c.RunsGroup fs index group pr pr') (hrunning : pr'.stopped = false)
      (hrest : RunsGroups c fs (index + 1) rest pr' pr'') :
    RunsGroups c fs index (group :: rest) pr pr''

/-- A run of the plan, in which answers arrive in some order. -/
def Runs (c : Compilation) (fs : Functions σ) (arguments : List (String × Value)) (host : σ) :
    Progress σ → Prop :=
  c.RunsGroups fs 0 c.plan.groups (c.start arguments host)

theorem agree_of_runsGroup (hfs : fs.IsSteady) {index : Nat} {group : StepGroup}
    (h : pr.Agree c.program fs pr') (hrun : c.RunsGroup fs index group pr pr'') :
    pr''.Agree c.program fs (c.runGroup fs index group pr') := by
  have hsynchronous : (c.runSynchronous fs (c.scheduled group.synchronous)
      (pr.note [.groupStarted index group])).Agree c.program fs
        (c.runSynchronous fs (c.scheduled group.synchronous)
          (pr'.note [.groupStarted index group])) := by
    rw [runSynchronous_eq, runSynchronous_eq]
    exact (h.note _).untilStopped fun wave _ _ => agree_runWave wave
  cases hrun with
  | stopped heq hstopped =>
    subst heq
    rw [runGroup_of_stopped (hsynchronous.stopped ▸ hstopped)]
    exact hsynchronous.note _
  | running heq hrunning hasynchronous =>
    subst heq
    rw [runGroup_of_running (hsynchronous.stopped ▸ hrunning)]
    exact (agree_of_interleaves hfs hsynchronous hasynchronous).note _

theorem agree_of_runsGroups (hfs : fs.IsSteady) {index : Nat} {groups : List StepGroup}
    (h : pr.Agree c.program fs pr') (hrun : c.RunsGroups fs index groups pr pr'') :
    pr''.Agree c.program fs (c.runGroups fs index groups pr') := by
  induction hrun generalizing pr' with
  | nil index pr => exact h
  | stopped hgroup hstopped =>
    have hagree := agree_of_runsGroup hfs h hgroup
    rw [runGroups, if_pos (hagree.stopped ▸ hstopped)]
    exact hagree.note _
  | running hgroup hrunning hrest ih =>
    have hagree := agree_of_runsGroup hfs h hgroup
    rw [runGroups, if_neg (by simp [← hagree.stopped, hrunning])]
    exact ih hagree

theorem exists_runsGroups (c : Compilation) (fs : Functions σ) (index : Nat)
    (groups : List StepGroup) (pr : Progress σ) : ∃ pr', c.RunsGroups fs index groups pr pr' := by
  induction groups generalizing index pr with
  | nil => exact ⟨pr, .nil index pr⟩
  | cons group rest ih =>
    have hgroup : ∃ pr', c.RunsGroup fs index group pr pr' := by
      cases hstopped : (c.runSynchronous fs (c.scheduled group.synchronous)
          (pr.note [.groupStarted index group])).stopped with
      | true => exact ⟨_, .stopped rfl hstopped⟩
      | false =>
        obtain ⟨pr', hasynchronous⟩ := exists_interleaves c fs (c.scheduled group.asynchronous) _
        exact ⟨_, .running rfl hstopped hasynchronous⟩
    obtain ⟨pr', hgroup⟩ := hgroup
    cases hstopped : pr'.stopped with
    | true => exact ⟨_, .stopped hgroup hstopped⟩
    | false =>
      obtain ⟨pr'', hrest⟩ := ih (index + 1) pr'
      exact ⟨pr'', .running hgroup hstopped hrest⟩

/-! ### No order can be observed -/

/-- The events of a group of asynchronous steps: each is started, and then what has become of each
is told, in the same order. -/
def eventsOf (c : Compilation) (steps : List (StepId × Declaration))
    (results : List (Except Fault Value)) : List Event :=
  steps.map (fun x => .stepStarted x.1 (c.program.qualifiedName x.2.id)) ++
    (steps.zip results).map fun x =>
      (Outcome.settle x.1.2.id x.2).event x.1.1 (c.program.qualifiedName x.1.2.id)

theorem stepEvents_land (steps : List (StepId × Declaration))
    (ran : Ran σ (List (Except Fault Value))) (pr : Progress σ) :
    c.program.stepEvents (c.land steps ran pr).journal =
      c.program.stepEvents pr.journal ++ c.eventsOf steps ran.result := by
  have hstarted : c.program.stepEvents (steps.map fun x => .stepStarted x.1 x.2.id) =
      steps.map fun x => .stepStarted x.1 (c.program.qualifiedName x.2.id) :=
    Program.stepEvents_map _ (fun _ _ => rfl) fun _ _ => rfl
  have hsettled : c.program.stepEvents (Entry.settled steps ran.result) =
      (steps.zip ran.result).map fun x =>
        (Outcome.settle x.1.2.id x.2).event x.1.1 (c.program.qualifiedName x.1.2.id) := by
    refine Program.stepEvents_map _ (fun _ _ => Entry.event?_stepSettled _ _ _ _) fun x _ => ?_
    cases Outcome.settle x.1.2.id x.2 <;> rfl
  rw [land, journal_settleAll, Program.stepEvents_append, Progress.afterRan,
    Program.stepEvents_append, Program.stepEvents_panicked, Progress.note,
    Program.stepEvents_append, hstarted, hsettled, eventsOf]
  simp

/-- However asynchronous steps go on, none of them looks at the slot of another one, all of them
end, with the results that they have if they take turns, and they are settled in their order. So all
that comes of it is the same. -/
structure IsOrderless (c : Compilation) (fs : Functions σ)
    (steps : List (StepId × Declaration)) (pr : Progress σ) : Prop where
  isolated : ∀ s : Slots, (∀ id ∉ idsOf steps, s.get? id = pr.slots.get? id) → ∀ x ∈ steps,
    c.routine fs .asynchronous s x.2 = c.routine fs .asynchronous pr.slots x.2
  ends : Acc (fun fl' fl => Flight.Step fs fl fl') (c.takeOff fs steps pr)
  results : ∀ fl, Relation.ReflTransGen (Flight.Step fs) (c.takeOff fs steps pr) fl →
    (∀ fl', ¬Flight.Step fs fl fl') → fl.HasLanded (c.resultsOf fs steps pr)
  settled : ∀ pr', c.Interleaves fs steps pr pr' →
    pr'.Agree c.program fs (c.runAsynchronous fs steps pr)
  events : ∀ pr', c.Interleaves fs steps pr pr' →
    c.program.stepEvents pr'.journal =
      c.program.stepEvents pr.journal ++ c.eventsOf steps (c.resultsOf fs steps pr)

theorem Valid.isOrderless (h : c.Valid) (hfs : fs.IsSteady) (hwave : c.IsWave settled wave)
    (pr : Progress σ) : c.IsOrderless fs wave pr where
  isolated s hothers x hx := h.routine_congr_of_isWave hwave hx hothers
  ends := Flight.wellFounded_step.apply _
  results fl hflight hlast := by
    rcases Flight.exists_step_or_landed fl with ⟨fl', hstep⟩ | ⟨results, hlanded⟩
    · exact absurd hstep (hlast fl')
    · obtain rfl := results_eq_of_landed hfs hflight hlanded
      exact hlanded
  settled pr' hrun := agree_of_interleaves hfs (.refl pr) hrun
  events pr' hrun := by
    obtain ⟨hflight, hlanded⟩ := hrun
    rw [stepEvents_land, results_eq_of_landed hfs hflight hlanded]

/-- Against a steady host, it cannot be seen from a run in which order the answers to asynchronous
calls arrived. -/
theorem interleaving_is_unobservable {settings : Settings} {source : ProgramSource}
    (h : compile settings source = .ok c) (hfs : fs.IsSteady) :
    (∀ group ∈ c.plan.groups, ∀ pr, c.IsOrderless fs (c.scheduled group.asynchronous) pr) ∧
      ∀ arguments host, (∃ pr, c.Runs fs arguments host pr) ∧
        ∀ pr, c.Runs fs arguments host pr →
          pr.Agree c.program fs (c.runPlan fs arguments host) ∧
            c.resultOf pr = c.evaluate fs arguments host := by
  have hvalid := valid_of_compile h
  constructor
  · intro group hgroup pr
    obtain ⟨front, back, hgroups⟩ := List.append_of_mem hgroup
    exact hvalid.isOrderless hfs (hvalid.waves_of_group hgroups).2 pr
  · intro arguments host
    refine ⟨exists_runsGroups c fs 0 c.plan.groups _, fun pr hrun => ?_⟩
    have hagree : pr.Agree c.program fs (c.runPlan fs arguments host) :=
      agree_of_runsGroups hfs (.refl _) hrun
    refine ⟨hagree, ?_⟩
    rw [evaluate, resultOf, resultOf, hagree.slots, hagree.recorded]

/-- A source with two formulas that wait at the same time, each for two calls after another. -/
def quotes : ProgramSource :=
  let twice (e : Expr) : Expr := .awaitCall "fetch" [.awaitCall "fetch" [e]]
  ⟨[], [], [⟨"quotes", [],
    [⟨"bid", twice (.literal (.string "bid")), true⟩,
      ⟨"ask", twice (.literal (.string "ask")), true⟩]⟩]⟩

/-- Nothing comes before either formula. -/
theorem layers_quotes : (DependencyGraph.of (Program.ofSource quotes)).layers = .ok [[0, 1]] := by
  have hfound : (DependencyGraph.of (Program.ofSource quotes)).layers =
      .ok [[1, 0].mergeSort] := rfl
  have hsorted : [1, 0].mergeSort = [0, 1] := by simp [List.mergeSort]
  rw [hfound, hsorted]

theorem exists_orderless_of_quotes :
    ∃ c, compile {} quotes = .ok c ∧ Functions.echo.IsSteady ∧
      (∃ group ∈ c.plan.groups, group.asynchronous.length = 2 ∧
        ∀ pr, c.IsOrderless .echo (c.scheduled group.asynchronous) pr) ∧
      ∀ pr, c.Runs .echo [] () pr → c.resultOf pr = c.evaluate .echo [] () := by
  have hcheck : checkAcyclic (Program.ofSource quotes) (.of (Program.ofSource quotes)) =
      .ok () := by decide +kernel
  have hfault : Plan.fault? (Program.ofSource quotes) (.of (Program.ofSource quotes)) [0, 1] =
      none := by decide +kernel
  have hgroups : Plan.groupsOf (Program.ofSource quotes) [[0, 1]] true = [⟨[], [0, 1]⟩] := by
    decide +kernel
  have hplan : Plan.assemble (Program.ofSource quotes) (.of (Program.ofSource quotes)) [[0, 1]]
      true = .ok ⟨_, [⟨[], [0, 1]⟩]⟩ :=
    assemble_eq_ok_iff.mpr ⟨hfault, congrArg (Plan.mk _) hgroups.symm⟩
  have hcompile : compile {} quotes = .ok ⟨_, _, _, _, _, _⟩ :=
    compile_eq_ok_iff.mpr ⟨rfl, rfl, rfl, hcheck, layers_quotes, hplan, rfl⟩
  obtain ⟨horderless, hruns⟩ := interleaving_is_unobservable hcompile Functions.isSteady_echo
  have hgroup := List.mem_singleton_self (⟨[], [0, 1]⟩ : StepGroup)
  refine ⟨_, hcompile, Functions.isSteady_echo, ⟨_, hgroup, rfl, horderless _ hgroup⟩, ?_⟩
  intro pr hrun
  exact ((hruns [] ()).2 pr hrun).2

end FormulaEngine.Compilation
