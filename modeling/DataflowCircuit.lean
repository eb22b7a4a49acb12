import DataflowCircuit.Analysis.CopyPlan
import DataflowCircuit.Analysis.Reads
import DataflowCircuit.Analysis.Shape
import DataflowCircuit.Analysis.UseCounts
import DataflowCircuit.Channel
import DataflowCircuit.Compile.Backend
import DataflowCircuit.Compile.Command
import DataflowCircuit.Compile.Options
import DataflowCircuit.Compile.Output
import DataflowCircuit.Compile.Run
import DataflowCircuit.Cost.Basic
import DataflowCircuit.Cost.Estimate
import DataflowCircuit.Cost.Records
import DataflowCircuit.Cost.Statistics
import DataflowCircuit.Cost.Table
import DataflowCircuit.Element
import DataflowCircuit.Emit.Netlist
import DataflowCircuit.Emit.Template
import DataflowCircuit.Error
import DataflowCircuit.Expr
import DataflowCircuit.Files
import DataflowCircuit.FunctionalUnit.Basic
import DataflowCircuit.FunctionalUnit.Builder
import DataflowCircuit.FunctionalUnit.Request
import DataflowCircuit.FunctionalUnit.RequestJson
import DataflowCircuit.FunctionalUnit.Statement
import DataflowCircuit.Json.Basic
import DataflowCircuit.Json.Reader
import DataflowCircuit.Lowering.Cache
import DataflowCircuit.Lowering.Functions
import DataflowCircuit.Lowering.Netlist
import DataflowCircuit.Lowering.Process
import DataflowCircuit.Lowering.Session
import DataflowCircuit.Lowering.Step
import DataflowCircuit.Lowering.Structural
import DataflowCircuit.Main
import DataflowCircuit.NameSupply
import DataflowCircuit.Naming
import DataflowCircuit.Number.Binary64
import DataflowCircuit.Number.Decimal
import DataflowCircuit.Number.Rounding
import DataflowCircuit.Operator
import DataflowCircuit.Process.Arrays
import DataflowCircuit.Process.Basic
import DataflowCircuit.Process.Printer
import DataflowCircuit.Process.Resolve
import DataflowCircuit.Proofs.Basic.Steps
import DataflowCircuit.Proofs.Basic.Traversal
import DataflowCircuit.Proofs.Compile.Concatenation
import DataflowCircuit.Proofs.Compile.Failure
import DataflowCircuit.Proofs.Compile.Files
import DataflowCircuit.Proofs.Compile.Persistence
import DataflowCircuit.Proofs.Compile.Rerun
import DataflowCircuit.Proofs.Cost.Accounting
import DataflowCircuit.Proofs.Cost.CostPorts
import DataflowCircuit.Proofs.Cost.EstimatedOnce
import DataflowCircuit.Proofs.Cost.Estimates
import DataflowCircuit.Proofs.Cost.Pricing
import DataflowCircuit.Proofs.Cost.Records
import DataflowCircuit.Proofs.Cost.Replay
import DataflowCircuit.Proofs.Cost.SharedCosts
import DataflowCircuit.Proofs.Emit.BodyTexts
import DataflowCircuit.Proofs.Emit.Fitting
import DataflowCircuit.Proofs.Emit.Headers
import DataflowCircuit.Proofs.Emit.SharedTemplates
import DataflowCircuit.Proofs.Emit.Signatures
import DataflowCircuit.Proofs.FunctionalUnit.Builder
import DataflowCircuit.Proofs.FunctionalUnit.CastWidths
import DataflowCircuit.Proofs.FunctionalUnit.CostTrees
import DataflowCircuit.Proofs.FunctionalUnit.Degenerate
import DataflowCircuit.Proofs.FunctionalUnit.Evaluation
import DataflowCircuit.Proofs.FunctionalUnit.Members
import DataflowCircuit.Proofs.FunctionalUnit.ReadingOrder
import DataflowCircuit.Proofs.FunctionalUnit.Renaming
import DataflowCircuit.Proofs.FunctionalUnit.Requests
import DataflowCircuit.Proofs.FunctionalUnit.SingleAssignment
import DataflowCircuit.Proofs.FunctionalUnit.SingleUse
import DataflowCircuit.Proofs.FunctionalUnit.Spelling
import DataflowCircuit.Proofs.Lowering.Bodies
import DataflowCircuit.Proofs.Lowering.Closure
import DataflowCircuit.Proofs.Lowering.Components
import DataflowCircuit.Proofs.Lowering.Consistency
import DataflowCircuit.Proofs.Lowering.Cursors
import DataflowCircuit.Proofs.Lowering.Determinism
import DataflowCircuit.Proofs.Lowering.Elements
import DataflowCircuit.Proofs.Lowering.Emission
import DataflowCircuit.Proofs.Lowering.FanOut
import DataflowCircuit.Proofs.Lowering.Noninterference
import DataflowCircuit.Proofs.Lowering.Operations
import DataflowCircuit.Proofs.Lowering.Processes
import DataflowCircuit.Proofs.Lowering.Repetition
import DataflowCircuit.Proofs.Lowering.Safety
import DataflowCircuit.Proofs.Lowering.Trace
import DataflowCircuit.Proofs.Lowering.Walk
import DataflowCircuit.Proofs.Naming.Disambiguation
import DataflowCircuit.Proofs.Naming.FreshNames
import DataflowCircuit.Proofs.Naming.FunctionNames
import DataflowCircuit.Proofs.Naming.KeptNames
import DataflowCircuit.Proofs.Naming.NameSearches
import DataflowCircuit.Proofs.Naming.Names
import DataflowCircuit.Proofs.Naming.Order
import DataflowCircuit.Proofs.Naming.Spellings
import DataflowCircuit.Proofs.Netlist.Component
import DataflowCircuit.Proofs.Netlist.Deduplication
import DataflowCircuit.Proofs.Netlist.Identifiers
import DataflowCircuit.Proofs.Netlist.IntroducedChannels
import DataflowCircuit.Proofs.Netlist.Keys
import DataflowCircuit.Proofs.Netlist.Labels
import DataflowCircuit.Proofs.Netlist.Placements
import DataflowCircuit.Proofs.Netlist.Registration
import DataflowCircuit.Proofs.Netlist.SplitOutputs
import DataflowCircuit.Proofs.Netlist.Wiring
import DataflowCircuit.Proofs.Process.Aliases
import DataflowCircuit.Proofs.Process.Resolved
import DataflowCircuit.Proofs.Process.Scopes
import DataflowCircuit.Proofs.Source.Accepted
import DataflowCircuit.Proofs.Source.Arrays
import DataflowCircuit.Proofs.Source.Declarations
import DataflowCircuit.Proofs.Source.Expressions
import DataflowCircuit.Proofs.Source.Gathering
import DataflowCircuit.Proofs.Source.MinimalText
import DataflowCircuit.Proofs.Source.Precedence
import DataflowCircuit.Proofs.Source.Reading
import DataflowCircuit.Proofs.Source.RoundTrip
import DataflowCircuit.Proofs.Source.Statements
import DataflowCircuit.Proofs.Source.Words
import DataflowCircuit.Scope
import DataflowCircuit.Source.Declaration
import DataflowCircuit.Source.Grammar
import DataflowCircuit.Source.Lexical
import DataflowCircuit.Source.Parser
import DataflowCircuit.Source.Precedence
import DataflowCircuit.Source.Program
import DataflowCircuit.Source.Rule
import DataflowCircuit.Text.Blank
import DataflowCircuit.Text.ControlSequence
import DataflowCircuit.Text.Digits
import DataflowCircuit.Text.Fingerprint
import DataflowCircuit.Text.Utf8
import DataflowCircuit.Width
