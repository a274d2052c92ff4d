import CallTree.Call
import CallTree.Gas.Meter
import CallTree.Pool
import CallTree.Program
import CallTree.Workspace

/-!
# Frames

A frame is one activation of a contract: what it was asked to do, its program and program counter,
its gas, its verdict, and the handle of the workspace it runs on. Once it has halted its program
counter and its gas are frozen.

The verdict on a frame is one of three: none yet, a success, or a revert with its reason. A frame
that halts without a verdict counts as a success.
-/

namespace CallTree

/-- What is known about the end of a frame. -/
inductive Verdict
  /-- Nothing yet. -/
  | undecided
  /-- It has succeeded. -/
  | succeeded
  /-- It has reverted, because its gas ran out or for another reason. -/
  | reverted (reason : String) (outOfGas : Bool)
deriving DecidableEq, Repr, Inhabited

namespace Verdict

/-- Records a success, which a revert outweighs. -/
def succeed : Verdict → Verdict
  | .undecided => .succeeded
  | v => v

/-- Records a revert, which outweighs a success. -/
def revert (reason : String) : Verdict → Verdict
  | .reverted _ outOfGas => .reverted reason outOfGas
  | _ => .reverted reason false

/-- Withdraws a revert. -/
def clearRevert : Verdict → Verdict
  | .reverted _ _ => .undecided
  | v => v

/-- The reason of a revert. -/
def reason? : Verdict → Option String
  | .reverted reason _ => some reason
  | _ => none

end Verdict

/-- One activation of a contract. -/
structure Frame where
  /-- What the frame was asked to do. -/
  call : CallData
  /-- Whether its output becomes the code of a contract. -/
  creation : Bool
  /-- What it executes. -/
  program : Program
  /-- Where it stands in the program. -/
  pc : Nat
  /-- Its gas. -/
  gas : GasMeter
  /-- Its workspace. -/
  home : Handle
  /-- The checkpoints it has opened, if it is an internal call. -/
  marks : Option Marks := none
  /-- Whether it has not halted yet. -/
  running : Bool := true
  /-- What is known about its end. -/
  verdict : Verdict := .undecided
  /-- Whether it is an internal call that has ended the call around it. -/
  exitsCall : Bool := false
  /-- What it returns. -/
  output : Bytes := ByteArray.empty
  /-- The part of the caller's memory that is meant for the output. -/
  returnRegion : Region := {}
  /-- What it has emitted. -/
  logs : Array LogEntry := #[]
  /-- The result of the child that has just finished. -/
  staged : StagedResult := .empty
  /-- What the last child returned. -/
  lastReturn : Bytes := ByteArray.empty
deriving DecidableEq

namespace Frame

/-- A frame at the start of `code`. -/
def new (code : Bytes) (gas : Nat) (call : CallData) (home : Handle) : Frame where
  call := call
  creation := call.kind == .create
  program := .ofCode code
  pc := 0
  gas := .new gas
  home := home

/-- The frame of an internal call from `parent` to `target`. It has no input, and the sender of
the transaction is taken from the call stack. -/
def internal (parent : Frame) (origin : Address) (target gas : Nat) (marks : Marks) : Frame where
  call :=
    { parent.call with
      origin := origin
      input := ByteArray.empty
      region := {}
      kind := .internal }
  creation := false
  program := parent.program
  pc := target
  gas := .new gas
  home := parent.home.share
  marks := some marks

/-! ## Gas -/

/-- Debits gas. A frame that has halted refuses. -/
@[inline]
def consumeGas (amount : Nat) : Action Frame Unit := fun f =>
  if f.running then
    match GasMeter.consume amount f.gas with
    | .ok () gas => .ok () { f with gas := gas }
    | .error e _ => .error e f
  else
    .error (.fault .frameHalted) f

/-- Credits gas back, unless the frame has halted. -/
def refundGas (amount : Nat) (f : Frame) : Frame :=
  if f.running then { f with gas := f.gas.refund amount } else f

/-- Counts a refund that is paid at the end of the transaction. -/
def recordRefund (amount : Nat) (f : Frame) : Frame :=
  { f with gas := f.gas.addRefund amount }

/-! ## Verdict -/

/-- Stops the frame. -/
def halt (f : Frame) : Frame :=
  { f with running := false }

/-- Records a success. -/
def markSuccess (f : Frame) : Frame :=
  { f with verdict := f.verdict.succeed }

/-- Records a revert or withdraws one. -/
def setReverted (reverted : Bool) (reason : String) (f : Frame) : Frame :=
  { f with verdict := if reverted then f.verdict.revert reason else f.verdict.clearRevert }

/-- Halts the frame because of a fault. All faults but a voluntary revert cost it all its gas. -/
def fail (cause : Fault) (f : Frame) : Frame :=
  if f.running then
    { f with
      gas := if cause.consumesAllGas then f.gas.burn else f.gas
      verdict := .reverted cause.revertReason (cause == .outOfGas)
      running := false }
  else
    f

/-- Where the frame stands. -/
def status (f : Frame) : FrameStatus :=
  if f.running then
    .running
  else
    match f.verdict with
    | .reverted _ true => .haltedOutOfGas
    | .reverted _ false => .haltedReverted
    | _ => .haltedSuccess

/-- Whether the frame has reverted. -/
def isReverted (f : Frame) : Bool :=
  f.verdict.reason?.isSome

/-- Whether the frame has succeeded, or has halted without reverting. -/
def isSuccess (f : Frame) : Bool :=
  match f.verdict with
  | .undecided => !f.running
  | .succeeded => true
  | .reverted _ _ => false

/-- The reason of a revert. -/
def revertReason? (f : Frame) : Option String :=
  f.verdict.reason?

/-- Ends the frame normally. Inside an internal call this ends the call around it too. -/
def stop (f : Frame) : Frame :=
  let f := f.markSuccess
  let f := if f.call.kind = .internal then { f with exitsCall := true } else f
  f.halt

/-! ## Output -/

/-- Sets the output and the part of the caller's memory that is meant for it. -/
def setReturnData (data : Bytes) (region : Region) (f : Frame) : Frame :=
  { f with output := data, returnRegion := region }

/-- Sets the output. -/
def setOutput (data : Bytes) (f : Frame) : Frame :=
  { f with output := data }

/-- Sets what the last child returned. -/
def setLastReturn (data : Bytes) (f : Frame) : Frame :=
  { f with lastReturn := data }

/-- Keeps the result of a child. -/
def stage (result : StagedResult) (f : Frame) : Frame :=
  { f with staged := result }

/-- Takes the result of a child away. -/
def takeStaged (f : Frame) : StagedResult × Frame :=
  (f.staged, { f with staged := .empty })

/-- Emits an entry. -/
def addLog (entry : LogEntry) (f : Frame) : Frame :=
  { f with logs := f.logs.push entry }

/-- Emits several entries. -/
def addLogs (entries : Array LogEntry) (f : Frame) : Frame :=
  { f with logs := f.logs ++ entries }

/-- Takes away all that was emitted. -/
def takeLogs (f : Frame) : Array LogEntry × Frame :=
  (f.logs, { f with logs := #[] })

/-! ## Program counter -/

/-- The byte at the program counter. -/
def currentByte? (f : Frame) : Option UInt8 :=
  f.program.byteAt? f.pc

/-- The instruction at the program counter. -/
def currentOp (f : Frame) : Opcode :=
  f.program.opAt f.pc

/-- Whether the program counter is inside the code. -/
def hasMoreCode (f : Frame) : Bool :=
  f.pc < f.program.code.size

/-- Moves the program counter forward, unless the frame has halted. -/
def advance (count : Nat) (f : Frame) : Frame :=
  if f.running then { f with pc := satAdd f.pc count } else f

/-- Sets the program counter, unless the frame has halted. -/
def setPc (pc : Nat) (f : Frame) : Frame :=
  if f.running then { f with pc := pc } else f

/-- The number in the `size` bytes after the instruction, at most 32 of them. Bytes past the end
of the code are zero. -/
def immediate? (size : Nat) (f : Frame) : Option Word :=
  match min size 32 with
  | 0 => some 0
  | n + 1 =>
    let start := satAdd f.pc 1
    if start + n ≤ maxAmount then
      some (Word.ofBytes (f.program.code.window start (n + 1)))
    else
      none

/-- Whether a jump may go to `dest`. -/
def isValidJump (f : Frame) (dest : Nat) : Bool :=
  f.program.isTarget dest

/-- Replaces the program. -/
def setCode (code : Bytes) (f : Frame) : Frame :=
  { f with program := .ofCode code }

/-- Makes the output of the frame the code of a contract. -/
def enableCreation (f : Frame) : Frame :=
  { f with creation := true }

/-- A one-line description, under a name for the frame. -/
def describe (name : String) (f : Frame) : String :=
  String.intercalate ", "
    ["CallFrame \x7b id: " ++ name,
     "contract: " ++ f.call.contract.shortText,
     "caller: " ++ f.call.caller.shortText,
     "type: " ++ f.call.kind.text,
     "pc: " ++ toString f.pc,
     "gas_remaining: " ++ toString f.gas.remaining,
     "gas_used: " ++ toString f.gas.used,
     "running: " ++ toString f.running,
     "success: " ++ toString f.isSuccess,
     "reverted: " ++ toString f.isReverted,
     "static: " ++ toString f.call.isStatic,
     "creation: " ++ toString f.creation ++ " \x7d"]

end Frame
end CallTree
