import CallTree.Amount
import CallTree.Bytes
import CallTree.Call
import CallTree.Checkpoint.Basic
import CallTree.Checkpoint.Journal
import CallTree.Checkpoint.Snapshots
import CallTree.Context.Basic
import CallTree.Context.Finish
import CallTree.CreateAddress
import CallTree.Exec
import CallTree.Fault
import CallTree.Frame
import CallTree.Gas.Meter
import CallTree.Gas.Schedule
import CallTree.Hash.Keccak
import CallTree.Hash.Rlp
import CallTree.Hex
import CallTree.Interpreter.Local
import CallTree.Interpreter.Request
import CallTree.Interpreter.Run
import CallTree.Limits
import CallTree.Limits.Load
import CallTree.Memory
import CallTree.Opcode
import CallTree.Pending
import CallTree.Pile
import CallTree.Pool
import CallTree.Program
import CallTree.RevertReason
import CallTree.Stack
import CallTree.Storage
import CallTree.Toml.Document
import CallTree.Toml.Reader
import CallTree.Toml.Scalar
import CallTree.Toml.Value
import CallTree.Trace
import CallTree.Transaction
import CallTree.Word
import CallTree.Workspace
import CallTree.World
import CallTree.Proofs.Atomicity
import CallTree.Proofs.Calls
import CallTree.Proofs.Cells
import CallTree.Proofs.Commit
import CallTree.Proofs.Conservation
import CallTree.Proofs.Contents
import CallTree.Proofs.Effects
import CallTree.Proofs.Fitting
import CallTree.Proofs.Folding
import CallTree.Proofs.Footprints
import CallTree.Proofs.FrameMoves
import CallTree.Proofs.Isolation
import CallTree.Proofs.LayerMoves
import CallTree.Proofs.Layers
import CallTree.Proofs.Ledger
import CallTree.Proofs.MemoryUndo
import CallTree.Proofs.Moves
import CallTree.Proofs.Nonces
import CallTree.Proofs.Outcomes
import CallTree.Proofs.Overflow
import CallTree.Proofs.Payments
import CallTree.Proofs.ReadOnly
import CallTree.Proofs.Recall
import CallTree.Proofs.Refinement
import CallTree.Proofs.Rollback
import CallTree.Proofs.RootRuns
import CallTree.Proofs.Serving
import CallTree.Proofs.Sizes
import CallTree.Proofs.Slices
import CallTree.Proofs.Slots
import CallTree.Proofs.Termination
import CallTree.Proofs.Triples
import CallTree.Proofs.Views
import CallTree.Proofs.Waiting
import CallTree.Proofs.TopFrame
import CallTree.Proofs.Deployments
import CallTree.Proofs.Survivors
import CallTree.Proofs.Regular
import CallTree.Proofs.Ordered
import CallTree.Proofs.Integrity
import CallTree.Proofs.Boundaries
import CallTree.Proofs.Copies
import CallTree.Proofs.Affording
import CallTree.Proofs.Solvency
import CallTree.Proofs.Endings
import CallTree.Proofs.Unwinding
import CallTree.Proofs.Replies
import CallTree.Proofs.MemoryCopies
import CallTree.Proofs.Workspaces
import CallTree.Proofs.MemoryBounds
import CallTree.Proofs.Exact
import CallTree.Proofs.Operands
import CallTree.Proofs.Refusals
import CallTree.Proofs.Arithmetic
import CallTree.Proofs.Executions
import CallTree.Proofs.MemoryCharges
import CallTree.Proofs.Mutations
import CallTree.Proofs.Listings
import CallTree.Proofs.AnyOrder
import CallTree.Proofs.Metering
import CallTree.Proofs.Destinations
import CallTree.Proofs.BigEndian
import CallTree.Proofs.RevertTexts
import CallTree.Proofs.Encodings
import CallTree.Proofs.CreatePreimages
import CallTree.Proofs.Worlds
import CallTree.Proofs.Calculations
