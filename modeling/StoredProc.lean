import StoredProc.Cache.Basic
import StoredProc.Cache.Entry
import StoredProc.Cache.File
import StoredProc.Cache.Storage
import StoredProc.Command.Build
import StoredProc.Command.Diagnostic
import StoredProc.Command.Document
import StoredProc.Command.Flags
import StoredProc.Command.Output
import StoredProc.Command.Run
import StoredProc.Command.Subcommand
import StoredProc.Compile.Batch
import StoredProc.Compile.Block
import StoredProc.Compile.Expression
import StoredProc.Compile.Fault
import StoredProc.Compile.Procedure
import StoredProc.Compile.Scope
import StoredProc.Compile.Statement
import StoredProc.Compile.Trace
import StoredProc.Config.Basic
import StoredProc.Config.File
import StoredProc.Config.Search
import StoredProc.DataType.Basic
import StoredProc.DataType.Codec
import StoredProc.Disk.Basic
import StoredProc.Disk.Path
import StoredProc.Disk.Pattern
import StoredProc.Json.Basic
import StoredProc.Json.Indent
import StoredProc.Json.Parser
import StoredProc.Json.Query
import StoredProc.Json.Range
import StoredProc.Log.Event
import StoredProc.Log.Level
import StoredProc.Log.Time
import StoredProc.Machine.Document
import StoredProc.Machine.Instruction
import StoredProc.Machine.Op
import StoredProc.Machine.Operand
import StoredProc.Machine.Program
import StoredProc.Machine.Verify
import StoredProc.Main
import StoredProc.Manifest.Basic
import StoredProc.Manifest.Codec
import StoredProc.Manifest.Shape
import StoredProc.Manifest.Version
import StoredProc.Number.Double
import StoredProc.Number.Integer
import StoredProc.Number.Power
import StoredProc.Number.Reader
import StoredProc.Number.Shortest
import StoredProc.Proofs.Cache.Calls
import StoredProc.Proofs.Cache.Clearing
import StoredProc.Proofs.Cache.Coherence
import StoredProc.Proofs.Cache.Entries
import StoredProc.Proofs.Cache.Transparency
import StoredProc.Proofs.Compile.BranchFlow
import StoredProc.Proofs.Compile.ClosedPrograms
import StoredProc.Proofs.Compile.Elaboration
import StoredProc.Proofs.Compile.ExpressionCode
import StoredProc.Proofs.Compile.FailureOrder
import StoredProc.Proofs.Compile.FaultPlaces
import StoredProc.Proofs.Compile.HeapBalance
import StoredProc.Proofs.Compile.HeapSlots
import StoredProc.Proofs.Compile.InferredTypes
import StoredProc.Proofs.Compile.JumpSkeleton
import StoredProc.Proofs.Compile.Lowering
import StoredProc.Proofs.Compile.NameResolution
import StoredProc.Proofs.Compile.NumberLiterals
import StoredProc.Proofs.Compile.OperandSupply
import StoredProc.Proofs.Compile.Outcome
import StoredProc.Proofs.Compile.Pool
import StoredProc.Proofs.Compile.ReturnFlow
import StoredProc.Proofs.Compile.ReturnPaths
import StoredProc.Proofs.Compile.SlotOrder
import StoredProc.Proofs.Compile.SourceMap
import StoredProc.Proofs.Compile.StoreAppends
import StoredProc.Proofs.Compile.StoreView
import StoredProc.Proofs.Compile.Targets
import StoredProc.Proofs.Compile.TypeSoundness
import StoredProc.Proofs.Compile.Visibility
import StoredProc.Proofs.Compile.WrittenTypes
import StoredProc.Proofs.DataType.Concrete
import StoredProc.Proofs.DataType.Conformance
import StoredProc.Proofs.DataType.Documents
import StoredProc.Proofs.DataType.FieldOrder
import StoredProc.Proofs.DataType.Loosening
import StoredProc.Proofs.DataType.Normal
import StoredProc.Proofs.DataType.Reordering
import StoredProc.Proofs.Json.Blanks
import StoredProc.Proofs.Json.Embedding
import StoredProc.Proofs.Json.Escapes
import StoredProc.Proofs.Json.Integers
import StoredProc.Proofs.Json.LastMember
import StoredProc.Proofs.Json.Members
import StoredProc.Proofs.Json.Numerals
import StoredProc.Proofs.Json.Spelling
import StoredProc.Proofs.Machine.Disassembly
import StoredProc.Proofs.Machine.Execution
import StoredProc.Proofs.Machine.Flow
import StoredProc.Proofs.Machine.Operands
import StoredProc.Proofs.Machine.Payloads
import StoredProc.Proofs.Machine.Verified
import StoredProc.Proofs.Manifest.Acceptance
import StoredProc.Proofs.Manifest.EntityNames
import StoredProc.Proofs.Manifest.Fingerprint
import StoredProc.Proofs.Manifest.Names
import StoredProc.Proofs.Manifest.Registry
import StoredProc.Proofs.Manifest.Reordering
import StoredProc.Proofs.Manifest.Respelling
import StoredProc.Proofs.Number.Layouts
import StoredProc.Proofs.Number.Reading
import StoredProc.Proofs.Number.Rounding
import StoredProc.Proofs.Number.Shortest
import StoredProc.Proofs.Table
import StoredProc.Proofs.Text.InsertionSort
import StoredProc.Proofs.Text.NaturalOrder
import StoredProc.Proofs.Tree.Acceptance
import StoredProc.Proofs.Tree.Declarations
import StoredProc.Proofs.Tree.Documents
import StoredProc.Proofs.Tree.NumberTexts
import StoredProc.Proofs.Tree.Reading
import StoredProc.Proofs.Tree.Respelling
import StoredProc.Proofs.Tree.WellFormed
import StoredProc.Proofs.Watch.Changes
import StoredProc.Registry
import StoredProc.Text.Columns
import StoredProc.Text.Combined
import StoredProc.Text.Distance
import StoredProc.Text.Natural
import StoredProc.Text.Printable
import StoredProc.Text.Quoted
import StoredProc.Text.Separator
import StoredProc.Text.Sha256
import StoredProc.Tree.Basic
import StoredProc.Tree.Codec
import StoredProc.Tree.Declaration
import StoredProc.Tree.Walk
import StoredProc.Watch.Loop
import StoredProc.Watch.Session
import StoredProc.Yaml.Basic
import StoredProc.Yaml.Parser
import StoredProc.Proofs.Compile.RowFunctions
import StoredProc.Proofs.Compile.UpdatePaths
import StoredProc.Proofs.Number.WrittenIntegers
import StoredProc.Proofs.Compile.IntegerLiterals
import StoredProc.Proofs.Tree.Renaming
import StoredProc.Proofs.Compile.RowNames
import StoredProc.Proofs.Compile.RowRenaming
import StoredProc.Proofs.Machine.Verdicts
import StoredProc.Proofs.Manifest.SchemaIndex
import StoredProc.Proofs.Compile.Emission
import StoredProc.Proofs.Compile.Relocation
import StoredProc.Proofs.Machine.ListingLines
import StoredProc.Proofs.Compile.TraceLines
import StoredProc.Proofs.Tree.Places
import StoredProc.Proofs.Tree.Traversal
import StoredProc.Proofs.Command.FlagOrder
import StoredProc.Proofs.Command.Indentation
import StoredProc.Proofs.Command.Settings
import StoredProc.Proofs.Text.EditScripts
import StoredProc.Proofs.Text.Nearest
import StoredProc.Proofs.Compile.ScopeHistory
