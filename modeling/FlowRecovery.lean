import FlowRecovery.Word
import FlowRecovery.AddrSet
import FlowRecovery.AddrMap
import FlowRecovery.Text.Digits
import FlowRecovery.Json
import FlowRecovery.Json.Reader
import FlowRecovery.Json.Record
import FlowRecovery.Text.Blank
import FlowRecovery.Text.Graphic
import FlowRecovery.Text.Lower
import FlowRecovery.Text.Quoted
import FlowRecovery.Operand
import FlowRecovery.Inst
import FlowRecovery.Inst.Describe
import FlowRecovery.Body
import FlowRecovery.Lifted
import FlowRecovery.Fault
import FlowRecovery.Body.Contract
import FlowRecovery.Module
import FlowRecovery.Module.WellFormed
import FlowRecovery.Module.Codec
import FlowRecovery.Lifted.Emit
import FlowRecovery.Block
import FlowRecovery.Block.Classify
import FlowRecovery.Block.JumpTable
import FlowRecovery.Block.Split
import FlowRecovery.Store
import FlowRecovery.Image
import FlowRecovery.Image.Strings
import FlowRecovery.Image.Codec
import FlowRecovery.Exploration
import FlowRecovery.Layout
import FlowRecovery.Assembly
import FlowRecovery.Sweep
import FlowRecovery.Resolution
import FlowRecovery.Resolution.Relocations
import FlowRecovery.Resolution.Calls
import FlowRecovery.Resolution.Passes
import FlowRecovery.Text.Trim
import FlowRecovery.X86.Insn
import FlowRecovery.X86.Lowering
import FlowRecovery.X86.Lifter
import FlowRecovery.Config
import FlowRecovery.Recovery
import FlowRecovery.Binary
import FlowRecovery.Image.Contents
import FlowRecovery.Image.Elf
import FlowRecovery.Image.Elf.Dynamic
import FlowRecovery.Image.Elf.Parse
import FlowRecovery.Image.Elf.Load
import FlowRecovery.Image.Pe
import FlowRecovery.Image.Pe.Parse
import FlowRecovery.Image.Pe.Load
import FlowRecovery.Image.Parse
import FlowRecovery.Digest
import FlowRecovery.Path
import FlowRecovery.Binary64
import FlowRecovery.Binary64.Shortest
import FlowRecovery.Config.Load
import FlowRecovery.History
import FlowRecovery.Host.FileTree
import FlowRecovery.Recovery.File
import FlowRecovery.Report
import FlowRecovery.History.File
import FlowRecovery.Output
import FlowRecovery.Block.Codec
import FlowRecovery.Recovery.Codec
import FlowRecovery.Command
import FlowRecovery.X86.Table
import FlowRecovery.Host.Clock
import FlowRecovery.Main
import FlowRecovery.Proofs.Lists
import FlowRecovery.Proofs.Store.Rounds
import FlowRecovery.Proofs.Store.Disjoint
import FlowRecovery.Proofs.Exploration.Turns
import FlowRecovery.Proofs.Exploration.Closed
import FlowRecovery.Proofs.Exploration.Once
import FlowRecovery.Proofs.Body.Markers
import FlowRecovery.Proofs.Body.Checks
import FlowRecovery.Proofs.Body.Cut
import FlowRecovery.Proofs.Body.Execution
import FlowRecovery.Proofs.Module.Functions
import FlowRecovery.Proofs.X86.Code
import FlowRecovery.Proofs.X86.Trace
import FlowRecovery.Proofs.Exploration.Canonical
import FlowRecovery.Proofs.Assembly.Labels
import FlowRecovery.Proofs.Assembly.Renumbering
import FlowRecovery.Proofs.Assembly.Emission
import FlowRecovery.Proofs.Assembly.Assembled
import FlowRecovery.Proofs.Assembly.Control
import FlowRecovery.Proofs.Body.Accepted
import FlowRecovery.Proofs.Resolution.Rewritten
import FlowRecovery.Proofs.X86.Scoping
import FlowRecovery.Proofs.X86.Units
import FlowRecovery.Proofs.Exploration.Failures
import FlowRecovery.Proofs.Resolution.Refusals
import FlowRecovery.Proofs.Recovery.Failures
import FlowRecovery.Proofs.Exploration.Reach
import FlowRecovery.Proofs.Assembly.Edges
import FlowRecovery.Proofs.Assembly.Paths
import FlowRecovery.Proofs.Assembly.Successors
import FlowRecovery.Proofs.X86.Edges
import FlowRecovery.Proofs.Block.Slices
import FlowRecovery.Proofs.Store.Course
import FlowRecovery.Proofs.Store.Insertion
import FlowRecovery.Proofs.History.Records
import FlowRecovery.Proofs.Json.RoundTrip
import FlowRecovery.Proofs.Module.Text
import FlowRecovery.Proofs.Store.Refusal
import FlowRecovery.Proofs.Block.Division
import FlowRecovery.Proofs.Store.Halting
import FlowRecovery.Proofs.X86.Moving
import FlowRecovery.Proofs.Block.Tails
import FlowRecovery.Proofs.X86.Suffix
import FlowRecovery.Proofs.X86.Splits
import FlowRecovery.Proofs.Resolution.Wrappers
import FlowRecovery.Proofs.Assembly.Content
import FlowRecovery.Proofs.Resolution.Callees
import FlowRecovery.Proofs.Resolution.Calls
import FlowRecovery.Proofs.Resolution.Spans
import FlowRecovery.Proofs.Resolution.Patches
import FlowRecovery.Proofs.Layout.Reachability
import FlowRecovery.Proofs.Block.Marking
import FlowRecovery.Proofs.Image.Sections
import FlowRecovery.Proofs.Image.Strings
import FlowRecovery.Proofs.Assembly.Operands
import FlowRecovery.Proofs.Resolution.Verified
import FlowRecovery.Proofs.Image.Bytes
import FlowRecovery.Proofs.Elf.Placement
import FlowRecovery.Proofs.Elf.Linking
import FlowRecovery.Proofs.Elf.Dynamic
import FlowRecovery.Proofs.Pe.BaseRelocations
import FlowRecovery.Proofs.Store.Arithmetic
import FlowRecovery.Proofs.Image.Coverage
import FlowRecovery.Proofs.Store.Lookups
import FlowRecovery.Proofs.Elf.Layout
import FlowRecovery.Proofs.Body.Positions
import FlowRecovery.Proofs.Module.Contract
