import MatrixProgram.Check
import MatrixProgram.Machine.Call
import MatrixProgram.Program.Builder
import MatrixProgram.Proofs.Program.WellFormed
import MatrixProgram.Proofs.Analysis.Cuts
import MatrixProgram.Proofs.Analysis.Partition
import MatrixProgram.Proofs.Check.Operands
import MatrixProgram.Proofs.Analysis.Columns
import MatrixProgram.Proofs.Analysis.History
import MatrixProgram.Proofs.Check.Discipline
import MatrixProgram.Proofs.Kernel.Copies
import MatrixProgram.Proofs.Machine.Footprint
import MatrixProgram.Proofs.Machine.Commands
import MatrixProgram.Proofs.Machine.Effects
import MatrixProgram.Proofs.Machine.Steps
import MatrixProgram.Proofs.Machine.Lifecycle
import MatrixProgram.Proofs.Machine.Definedness
import MatrixProgram.Proofs.Machine.Calls
import MatrixProgram.Proofs.Kernel.Bounds
import MatrixProgram.Proofs.Machine.Storage
import MatrixProgram.Proofs.Machine.Reachable
import MatrixProgram.Proofs.Kernel.Success
import MatrixProgram.Proofs.Machine.Progress
import MatrixProgram.Proofs.Check.Requests
import MatrixProgram.Proofs.Machine.Forward
import MatrixProgram.Proofs.Machine.Supplies
import MatrixProgram.Proofs.Machine.Writing
import MatrixProgram.Proofs.Machine.Movement
import MatrixProgram.Proofs.Machine.InPlace
import MatrixProgram.Proofs.Check.Exchange
import MatrixProgram.Proofs.Machine.Aside
import MatrixProgram.Proofs.Machine.Exchange
import MatrixProgram.Proofs.Machine.Unchanged
import MatrixProgram.Proofs.Machine.Scatter
import MatrixProgram.Proofs.Machine.Updates
import MatrixProgram.Proofs.Program.Chain
import MatrixProgram.Proofs.Check.Chain
import MatrixProgram.Proofs.Machine.Chain
import MatrixProgram.Proofs.Machine.Paths
import MatrixProgram.Proofs.Machine.RoundTrip
import MatrixProgram.Proofs.Machine.Misuse
import MatrixProgram.Proofs.Machine.Protocol
import MatrixProgram.Proofs.Component.Capabilities
import MatrixProgram.Proofs.Analysis.Loops
import MatrixProgram.Proofs.Analysis.Tiling
import MatrixProgram.Proofs.Analysis.Inversion
import MatrixProgram.Proofs.Check.SelfReference
import MatrixProgram.Proofs.Check.Insertion
import MatrixProgram.Proofs.Machine.Insertion
import MatrixProgram.Proofs.Machine.Noting
import MatrixProgram.Proofs.Machine.Tracing
import MatrixProgram.Proofs.Machine.SupplyOrder
import MatrixProgram.Proofs.Machine.Removal
import MatrixProgram.Proofs.Kernel.Slices
import MatrixProgram.Proofs.Kernel.Sliced
import MatrixProgram.Proofs.Kernel.Changes
import MatrixProgram.Proofs.Kernel.Product
import MatrixProgram.Proofs.Component.Selection
import MatrixProgram.Proofs.Component.Failure
import MatrixProgram.Proofs.Component.Statistics
import MatrixProgram.Proofs.Kernel.Addressing
import MatrixProgram.Proofs.Machine.Frames
import MatrixProgram.Proofs.Program.Appending
import MatrixProgram.Proofs.Printer.Readable
import MatrixProgram.Proofs.Printer.Operands
import MatrixProgram.Proofs.Printer.Statements
import MatrixProgram.Proofs.Machine.Statements
