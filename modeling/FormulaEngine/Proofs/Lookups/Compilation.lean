import FormulaEngine.Proofs.Compilation
import FormulaEngine.Proofs.Lists
import FormulaEngine.Proofs.Lookups.Graph
import FormulaEngine.Proofs.Lookups.Plan
import FormulaEngine.Proofs.Lookups.Program
import FormulaEngine.Proofs.Run.Settling

/-!
# Nothing is looked up in vain

A compilation that looks up what has to be there comes to the same, results and errors alike, as one
that never fails to find it. In the program that it compiles the exports of every module are found,
and after any run at least those slots are filled that were filled before, so that the number of
steps that were evaluated can be told.
-/

namespace FormulaEngine

namespace Lookups

variable {ε σ : Type}

def compile (settings : Settings) (source : ProgramSource) :
    Except (Halt CompileError) Compilation := do
  let program ← certain (Program.lower source)
  let scopes := Scopes.ofProgram program
  let graph ← build program scopes
  checkAcyclic program graph
  let layers ← layersOf graph
  let plan ← assemble program graph layers settings.mergesSynchronousGroups
  .ok ⟨program, scopes, graph, layers, plan, settings.profile⟩

/-- How many steps have been evaluated, as far as the slots that were filled before can be taken
off. -/
def evaluated (c : Compilation) (pr : Progress σ) : Except (Halt ε) Nat :=
  look .evaluated
    (if c.seededCount ≤ pr.slots.filled then some (pr.slots.filled - c.seededCount) else none)

theorem compile_eq (settings : Settings) (source : ProgramSource) :
    compile settings source = certain (Compilation.compile settings source) := by
  unfold compile Compilation.compile
  cases hlower : Program.lower source with
  | error e => rfl
  | ok p =>
    simp only [ok_bind, certain_ok, certain_bind, build_eq (Program.wellFormed_of_lower hlower),
      checkAcyclic_eq, layersOf_eq, assemble_eq]

end Lookups

namespace Compilation

variable {σ : Type} {c : Compilation}

/-- A run, even one that stops, keeps what was filled before it. -/
theorem Valid.seededCount_le_filled (h : c.Valid) (fs : Functions σ)
    (arguments : List (String × Value)) (host : σ) :
    c.seededCount ≤ (c.runPlan fs arguments host).slots.filled := by
  have hkeeps : c.KeepsEach fs fun _ _ => True := ⟨fun _ _ => trivial, fun _ _ => trivial,
    fun _ _ => trivial⟩
  obtain ⟨_, -, -, hfilled, -⟩ := @KeepsEach.runPlan _ c fs arguments _ h hkeeps host trivial
  refine countP_le_countP fun i d hd hmodule => ?_
  have hglobal : d.isVertex = false := by
    rw [Bool.eq_false_iff, ne_eq, h.wellFormed.isVertex_iff hd]
    simpa using hmodule
  obtain ⟨v, hv⟩ := hfilled.global i d hd hglobal
  exact ⟨some (.value v), Option.join_eq_some_iff.mp hv, rfl⟩

/-- Compiling looks nothing up in vain, and neither does a run of what was compiled, whatever the
functions and arguments are and wherever it stops. -/
theorem lookups_never_miss (settings : Settings) (source : ProgramSource) :
    (∀ place, Lookups.compile settings source ≠ .error (.missed place)) ∧
      Lookups.compile settings source = Lookups.certain (compile settings source) ∧
      ∀ c, compile settings source = .ok c →
        (∀ id, Lookups.exportedFormulas c.program id =
          (.ok (c.program.exportedFormulas id) : Except (Lookups.Halt CompileError) _)) ∧
        ∀ (σ : Type) (fs : Functions σ) (arguments : List (String × Value)) (host : σ),
          Lookups.evaluated c (c.runPlan fs arguments host) =
            (.ok ((c.runPlan fs arguments host).slots.filled - c.seededCount) :
              Except (Lookups.Halt CompileError) _) := by
  have hcompile := Lookups.compile_eq settings source
  refine ⟨fun place => ?_, hcompile, fun c hc => ⟨fun id => ?_, fun σ fs arguments host => ?_⟩⟩
  · rw [hcompile]
    exact Lookups.certain_ne_missed _ place
  · exact Lookups.exportedFormulas_eq (valid_of_compile hc).wellFormed id
  · have hle := (valid_of_compile hc).seededCount_le_filled fs arguments host
    exact Lookups.look_of_eq_some (if_pos hle)

/-- Without any function the run of this source stops at its first step. -/
theorem exists_evaluated_of_checkout :
    ∃ c, compile ⟨.minimal, true⟩ .checkout = .ok c ∧
      (c.runPlan (.empty : Functions Unit) [] ()).stopped ∧
      Lookups.evaluated c (c.runPlan (.empty : Functions Unit) [] ()) =
        (.ok ((c.runPlan (.empty : Functions Unit) [] ()).slots.filled - c.seededCount) :
          Except (Lookups.Halt CompileError) _) := by
  have hstopped : (compile ⟨.minimal, true⟩ .checkout).toOption.map
      (fun c => (c.runPlan (.empty : Functions Unit) [] ()).stopped) = some true := by
    decide +kernel
  cases hc : compile ⟨.minimal, true⟩ .checkout with
  | error e => simp [hc, Except.toOption] at hstopped
  | ok c =>
    refine ⟨c, rfl, by simpa [hc, Except.toOption] using hstopped, ?_⟩
    exact ((lookups_never_miss ⟨.minimal, true⟩ .checkout).2.2 c hc).2 Unit .empty [] ()

end Compilation

end FormulaEngine
