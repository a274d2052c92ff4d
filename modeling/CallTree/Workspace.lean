import CallTree.Memory
import CallTree.Pending
import CallTree.Stack

/-!
# Workspaces

The four containers a frame works on. A frame that calls another contract gives the callee a
workspace of its own; an internal call works on the workspace of its caller and opens a checkpoint
on each of the four containers, so that it can be undone as a whole.
-/

namespace CallTree

/-- A stack, a memory, a storage and the changes left behind by children. -/
structure Workspace where
  /-- The operands. -/
  stack : Stack := {}
  /-- The memory. -/
  memory : Memory := {}
  /-- The slots of the account that is run. -/
  storage : Storage := {}
  /-- The changes to other accounts. -/
  pending : Pending := {}
deriving Inhabited

/-- The handles of the checkpoints that an internal call has opened. -/
structure Marks where
  /-- On the stack. -/
  stack : Nat
  /-- On the memory. -/
  memory : Nat
  /-- On the storage. -/
  storage : Nat
  /-- On the pending state. -/
  pending : Nat
deriving DecidableEq, Repr, Inhabited

namespace Workspace

/-- Opens a checkpoint on every container. -/
def checkpoint (w : Workspace) : Marks × Workspace :=
  let (onStack, stack) := Checkpointed.checkpoint w.stack
  let (onMemory, memory) := Checkpointed.checkpoint w.memory
  let (onStorage, storage) := Checkpointed.checkpoint w.storage
  let (onPending, pending) := Checkpointed.checkpoint w.pending
  (⟨onStack, onMemory, onStorage, onPending⟩, { stack, memory, storage, pending })

/-- Closes the checkpoints of an internal call, keeping or undoing what it did. -/
def settle (keep : Bool) (marks : Marks) (w : Workspace) : Workspace where
  stack := CallTree.settle keep marks.stack w.stack
  memory := CallTree.settle keep marks.memory w.memory
  storage := CallTree.settle keep marks.storage w.storage
  pending := CallTree.settle keep marks.pending w.pending

end Workspace
end CallTree
