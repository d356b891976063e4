import Dataflow.Command.Arguments
import Dataflow.Command.Folder
import Dataflow.Command.Invocation
import Dataflow.Command.Run
import Dataflow.Config.Basic
import Dataflow.Config.File
import Dataflow.Decimal.Binary
import Dataflow.Decimal.Notation
import Dataflow.Decimal.Reader
import Dataflow.Decimal.Shortest
import Dataflow.Engine.Local
import Dataflow.Engine.Manual
import Dataflow.Engine.Simulated
import Dataflow.Engine.Table
import Dataflow.Eval.Expr
import Dataflow.Eval.ExprSpec
import Dataflow.Eval.Next
import Dataflow.Eval.Script
import Dataflow.Eval.Stream
import Dataflow.Fault
import Dataflow.Job.Basic
import Dataflow.Job.Graph
import Dataflow.Json.Basic
import Dataflow.Json.Decode
import Dataflow.Json.Printer
import Dataflow.Json.Reader
import Dataflow.Key
import Dataflow.Launch.Basic
import Dataflow.Launch.Control
import Dataflow.Launch.Replay
import Dataflow.Launch.Scene
import Dataflow.Launch.Simulated
import Dataflow.Launch.Supervisor
import Dataflow.Launch.Text
import Dataflow.Logical.Analysis
import Dataflow.Logical.Operator
import Dataflow.Logical.Traversal
import Dataflow.Logical.Types
import Dataflow.Main
import Dataflow.Physical.Builder
import Dataflow.Physical.File
import Dataflow.Physical.Operator
import Dataflow.Physical.Spec
import Dataflow.Plan.Basic
import Dataflow.Plan.Error
import Dataflow.Plan.Order
import Dataflow.Plan.Walker
import Dataflow.Progress.Fraction
import Dataflow.Progress.Tracker
import Dataflow.Proofs.Decimal.Doubles
import Dataflow.Proofs.Decimal.Numerals
import Dataflow.Proofs.Engine.Dependencies
import Dataflow.Proofs.Engine.Lifecycle
import Dataflow.Proofs.Engine.Results
import Dataflow.Proofs.Engine.Scheduling
import Dataflow.Proofs.Engine.Settled
import Dataflow.Proofs.Engine.Steps
import Dataflow.Proofs.Engine.Table
import Dataflow.Proofs.Eval.Denotation
import Dataflow.Proofs.Eval.Exhaustion
import Dataflow.Proofs.Eval.Laziness
import Dataflow.Proofs.Eval.Nesting
import Dataflow.Proofs.Eval.Pipeline
import Dataflow.Proofs.Eval.Transducing
import Dataflow.Proofs.Eval.Typing
import Dataflow.Proofs.Job.Binding
import Dataflow.Proofs.Job.Indexed
import Dataflow.Proofs.Job.Mirror
import Dataflow.Proofs.Json.Layout
import Dataflow.Proofs.Json.Scalars
import Dataflow.Proofs.Launch.Completion
import Dataflow.Proofs.Launch.Consistency
import Dataflow.Proofs.Launch.Faithful
import Dataflow.Proofs.Launch.Growth
import Dataflow.Proofs.Launch.Record
import Dataflow.Proofs.Launch.Release
import Dataflow.Proofs.Launch.Rising
import Dataflow.Proofs.Launch.Simulated
import Dataflow.Proofs.Launch.Watching
import Dataflow.Proofs.Logical.Failures
import Dataflow.Proofs.Logical.Grouping
import Dataflow.Proofs.Logical.Reentrant
import Dataflow.Proofs.Logical.References
import Dataflow.Proofs.Logical.Sights
import Dataflow.Proofs.Logical.Touring
import Dataflow.Proofs.Logical.Visiting
import Dataflow.Proofs.Physical.Construction
import Dataflow.Proofs.Physical.Descriptions
import Dataflow.Proofs.Physical.File
import Dataflow.Proofs.Physical.Wiring
import Dataflow.Proofs.Plan.Acyclic
import Dataflow.Proofs.Plan.Building
import Dataflow.Proofs.Plan.Cycles
import Dataflow.Proofs.Plan.DependencyOrder
import Dataflow.Proofs.Plan.Descent
import Dataflow.Proofs.Plan.Orders
import Dataflow.Proofs.Plan.Recursion
import Dataflow.Proofs.Plan.Tables
import Dataflow.Proofs.Stage.Building
import Dataflow.Proofs.Stage.Compilable
import Dataflow.Proofs.Stage.Compiling
import Dataflow.Proofs.Stage.Links
import Dataflow.Proofs.Stage.Opener
import Dataflow.Proofs.Stage.Ordering
import Dataflow.Proofs.Stage.Partition
import Dataflow.Proofs.Stage.Sorting
import Dataflow.Proofs.Text.Decoding
import Dataflow.Proofs.Value.Casting
import Dataflow.Proofs.Value.Equality
import Dataflow.Stage.Compile
import Dataflow.Stage.Error
import Dataflow.Stage.Graph
import Dataflow.Text.Blank
import Dataflow.Text.Hex
import Dataflow.Text.Quoted
import Dataflow.Text.Utf8
import Dataflow.Text.Visible
import Dataflow.Timer
import Dataflow.Toml.Basic
import Dataflow.Toml.DateTime
import Dataflow.Toml.Decode
import Dataflow.Toml.Document
import Dataflow.Toml.Number
import Dataflow.Toml.Printer
import Dataflow.Toml.Reader
import Dataflow.Toml.Text
import Dataflow.Value.Basic
import Dataflow.Word
