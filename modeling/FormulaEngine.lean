import FormulaEngine.Compilation
import FormulaEngine.CompileError
import FormulaEngine.Eval.Error
import FormulaEngine.Eval.Evaluator
import FormulaEngine.Eval.Host
import FormulaEngine.Eval.Operators
import FormulaEngine.Eval.Outcome
import FormulaEngine.Eval.Routine
import FormulaEngine.Expr.Basic
import FormulaEngine.Expr.Json
import FormulaEngine.Expr.Walk
import FormulaEngine.Fields
import FormulaEngine.Graph.Digraph
import FormulaEngine.Graph.Layers
import FormulaEngine.Graph.Search
import FormulaEngine.Json.Basic
import FormulaEngine.Json.Reader
import FormulaEngine.Json.Record
import FormulaEngine.Json.Token
import FormulaEngine.Json.Writer
import FormulaEngine.Log
import FormulaEngine.Number.Decimal
import FormulaEngine.Number.Dyadic
import FormulaEngine.Number.Numeral
import FormulaEngine.Plan.Basic
import FormulaEngine.Plan.Group
import FormulaEngine.Plan.Json
import FormulaEngine.Program.Basic
import FormulaEngine.Program.Dependencies
import FormulaEngine.Program.Lowering
import FormulaEngine.Program.Scope
import FormulaEngine.Proofs.Compilation
import FormulaEngine.Proofs.Eval.Awaiting
import FormulaEngine.Proofs.Eval.Defaults
import FormulaEngine.Proofs.Eval.Delegation
import FormulaEngine.Proofs.Eval.Endings
import FormulaEngine.Proofs.Eval.Faults
import FormulaEngine.Proofs.Eval.Frame
import FormulaEngine.Proofs.Eval.Interleaving
import FormulaEngine.Proofs.Eval.Likeness
import FormulaEngine.Proofs.Eval.Relating
import FormulaEngine.Proofs.Eval.Steadiness
import FormulaEngine.Proofs.Eval.Trails
import FormulaEngine.Proofs.Eval.Twins
import FormulaEngine.Proofs.Expr.Json
import FormulaEngine.Proofs.Expr.Parts
import FormulaEngine.Proofs.Expr.Preorder
import FormulaEngine.Proofs.Expr.Sites
import FormulaEngine.Proofs.Fields
import FormulaEngine.Proofs.Graph.Cycles
import FormulaEngine.Proofs.Graph.DepthFirst
import FormulaEngine.Proofs.Graph.Iteration
import FormulaEngine.Proofs.Graph.Layering
import FormulaEngine.Proofs.Graph.LongestPaths
import FormulaEngine.Proofs.Graph.Order
import FormulaEngine.Proofs.Json.Plain
import FormulaEngine.Proofs.Json.Reading
import FormulaEngine.Proofs.Json.Records
import FormulaEngine.Proofs.Json.Scanning
import FormulaEngine.Proofs.Lists
import FormulaEngine.Proofs.Lookups.Basic
import FormulaEngine.Proofs.Lookups.Compilation
import FormulaEngine.Proofs.Lookups.Graph
import FormulaEngine.Proofs.Lookups.Names
import FormulaEngine.Proofs.Lookups.Program
import FormulaEngine.Proofs.Number.Numerals
import FormulaEngine.Proofs.Plan.Assembly
import FormulaEngine.Proofs.Plan.Boundaries
import FormulaEngine.Proofs.Plan.Composition
import FormulaEngine.Proofs.Plan.Coverage
import FormulaEngine.Proofs.Plan.Merging
import FormulaEngine.Proofs.Plan.Safety
import FormulaEngine.Proofs.Plan.Schedule
import FormulaEngine.Proofs.Program.Additions
import FormulaEngine.Proofs.Program.Cycles
import FormulaEngine.Proofs.Program.Dependencies
import FormulaEngine.Proofs.Program.Descriptions
import FormulaEngine.Proofs.Program.Edges
import FormulaEngine.Proofs.Program.Imports
import FormulaEngine.Proofs.Program.Layers
import FormulaEngine.Proofs.Program.Layout
import FormulaEngine.Proofs.Program.Lowering
import FormulaEngine.Proofs.Program.Naming
import FormulaEngine.Proofs.Program.Offences
import FormulaEngine.Proofs.Program.Parts
import FormulaEngine.Proofs.Program.Rearrangements
import FormulaEngine.Proofs.Run.Arrivals
import FormulaEngine.Proofs.Run.Causes
import FormulaEngine.Proofs.Run.Completions
import FormulaEngine.Proofs.Run.Consulting
import FormulaEngine.Proofs.Run.Cuts
import FormulaEngine.Proofs.Run.Grouping
import FormulaEngine.Proofs.Run.Interference
import FormulaEngine.Proofs.Run.Modularity
import FormulaEngine.Proofs.Run.Moments
import FormulaEngine.Proofs.Run.Order
import FormulaEngine.Proofs.Run.Parts
import FormulaEngine.Proofs.Run.Profiles
import FormulaEngine.Proofs.Run.Rearrangement
import FormulaEngine.Proofs.Run.Recording
import FormulaEngine.Proofs.Run.Reporting
import FormulaEngine.Proofs.Run.Settling
import FormulaEngine.Proofs.Run.Solution
import FormulaEngine.Proofs.Run.Soundness
import FormulaEngine.Proofs.Run.Stopping
import FormulaEngine.Proofs.Run.Telling
import FormulaEngine.Proofs.Run.Traces
import FormulaEngine.Proofs.Run.Waves
import FormulaEngine.Proofs.Source.Json
import FormulaEngine.Proofs.Value.Json
import FormulaEngine.Run.Journal
import FormulaEngine.Run.Orchestration
import FormulaEngine.Run.Result
import FormulaEngine.Settings
import FormulaEngine.Source.Basic
import FormulaEngine.Source.Json
import FormulaEngine.Text.Blank
import FormulaEngine.Text.Invisible
import FormulaEngine.Text.Quoted
import FormulaEngine.Value.Basic
import FormulaEngine.Value.Display
import FormulaEngine.Value.Json
