import CallTree.Fault

/-!
# Calls and their results

What a frame is asked to do, what it emits, what it hands back to its caller, and what becomes of
a whole transaction.
-/

namespace CallTree

/-- How a frame came to be. -/
inductive CallKind
  /-- A message to another contract. -/
  | external
  /-- A call within the same code, on the caller's workspace. -/
  | internal
  /-- A message that may only read. -/
  | static
  /-- The deployment of a contract. -/
  | create
deriving DecidableEq, Repr, Inhabited

namespace CallKind

/-- Whether frames of this kind have a workspace of their own. -/
def hasPrivateContainers : CallKind → Bool
  | .internal => false
  | _ => true

/-- The name of a kind. -/
def text : CallKind → String
  | .external => "External"
  | .internal => "Internal"
  | .static => "Static"
  | .create => "Create"

end CallKind

/-- A part of a memory. -/
structure Region where
  /-- Where it starts. -/
  offset : Nat := 0
  /-- How many bytes it has. -/
  size : Nat := 0
deriving DecidableEq, Repr, Inhabited

/-- A request to run a contract. -/
structure CallData where
  /-- The contract that is run. -/
  contract : Address
  /-- Who asks. -/
  caller : Address
  /-- Who sent the transaction. -/
  origin : Address
  /-- The value that goes with the request. -/
  value : Word := 0
  /-- The input. -/
  input : Bytes := ByteArray.empty
  /-- Where in the caller's memory the input comes from. -/
  region : Region := {}
  /-- How the frame comes to be. -/
  kind : CallKind := .external
  /-- Whether the frame may only read. -/
  isStatic : Bool := false
deriving DecidableEq, Inhabited

namespace CallData

/-- A message that opens a transaction. -/
def transaction (origin callee : Address) (value : Word) (input : Bytes) : CallData where
  contract := callee
  caller := origin
  origin := origin
  value := value
  input := input
  region := ⟨0, input.size⟩

/-- A message from one contract to another. -/
def external (origin caller callee : Address) (value : Word) (input : Bytes) : CallData :=
  { transaction origin callee value input with caller := caller }

/-- A read-only message, which carries no value. -/
def static (origin caller callee : Address) (input : Bytes) : CallData :=
  { external origin caller callee 0 input with kind := .static, isStatic := true }

/-- The deployment of a contract at `callee`, which has no input. -/
def create (origin caller callee : Address) (value : Word) : CallData :=
  { external origin caller callee value ByteArray.empty with kind := .create }

end CallData

/-- What all frames of a transaction share. -/
structure Txn where
  /-- The sender. -/
  origin : Address
  /-- The price of gas. -/
  gasPrice : Word
deriving DecidableEq, Inhabited

/-- An entry that a contract has emitted. -/
structure LogEntry where
  /-- The contract. -/
  address : Address
  /-- The indexed words. -/
  topics : List Word
  /-- The other data. -/
  data : Bytes
deriving DecidableEq, Inhabited

/-- The result of a child, kept for its parent until that goes on. The last one put there counts. -/
inductive StagedResult
  /-- There is none. -/
  | empty
  /-- The child returned `data`, meant for the region of the parent's memory. -/
  | returned (region : Region) (data : Bytes)
  /-- The child reverted and left `data`. -/
  | reverted (reason : String) (data : Bytes)
deriving DecidableEq, Inhabited

namespace StagedResult

/-- Whether there is no result. -/
def isEmpty : StagedResult → Bool
  | .empty => true
  | _ => false

/-- The reason of a child that reverted. -/
def reason? : StagedResult → Option String
  | .reverted reason _ => some reason
  | _ => none

/-- Whether the child reverted. -/
def isReverted (r : StagedResult) : Bool :=
  r.reason?.isSome

end StagedResult

/-- Where a frame stands. -/
inductive FrameStatus
  | running
  | haltedSuccess
  | haltedReverted
  | haltedOutOfGas
deriving DecidableEq, Repr, Inhabited

namespace FrameStatus

/-- Whether the frame has halted. -/
def isTerminal : FrameStatus → Bool
  | .running => false
  | _ => true

/-- The name of a status. -/
def text : FrameStatus → String
  | .running => "Running"
  | .haltedSuccess => "HaltedSuccess"
  | .haltedReverted => "HaltedReverted"
  | .haltedOutOfGas => "HaltedOutOfGas"

end FrameStatus

/-- What becomes of a transaction. -/
structure Outcome where
  /-- Whether its changes were committed. -/
  success : Bool := false
  /-- What the root frame returned or left when it reverted. -/
  output : Bytes := ByteArray.empty
  /-- The gas charged, after the refund. -/
  gasUsed : Nat := 0
  /-- The refund paid. -/
  gasRefund : Nat := 0
  /-- What was emitted by the frames whose changes were committed. -/
  logs : Array LogEntry := #[]
  /-- Why it failed. -/
  reason : Option String := none
  /-- The address of a contract deployed by the root. -/
  created : Option Address := none
deriving DecidableEq, Inhabited

/-- The outcome of a transaction that failed without running to its end. -/
def Outcome.failed (cause : Fault) : Outcome :=
  { reason := some cause.revertReason }

end CallTree
