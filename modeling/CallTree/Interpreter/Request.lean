import CallTree.Interpreter.Local

/-!
# Instructions that call or create

The part of a call that takes place in the caller: taking the operands, charging for memory and
for the gas that the child gets. The result is a request; opening the child is left to the call
stack.
-/

namespace CallTree

/-- What an instruction asks of the call stack when its own part is done. -/
inductive Request
  /-- Nothing: go on with the next instruction. -/
  | proceed
  /-- Open an internal frame at a jump destination. -/
  | internal (target gas : Nat)
  /-- Open a frame for a message, whose output goes to a region of the caller's memory. -/
  | message (call : CallData) (gas : Nat) (returnRegion : Region)
  /-- Open a frame that deploys a contract, with the gas that it gets. -/
  | create (value : Word) (initCode : Bytes) (gas : Nat)
deriving DecidableEq

/-- What an instruction may know about the call stack. -/
structure Surroundings where
  /-- The bounds in force. -/
  limits : Limits
  /-- The number of frames on the call stack. -/
  depth : Nat
  /-- The sender of the transaction. -/
  origin : Address

namespace Instruction

open Exec

/-- The caller's part of an internal call. -/
def requestInternal (env : Surroundings) : Exec Request := do
  let target ← popAmount
  let requested ← popAmount
  update (Frame.advance 1)
  let f ← frame
  if !f.isValidJump target then
    Action.refuse (.invalidJump target)
  if env.limits.maxCallDepth ≤ env.depth then
    Action.refuse (.callDepthExceeded (env.depth + 1) env.limits.maxCallDepth)
  let gas := min requested f.gas.remaining
  consumeGas gas
  return .internal target gas

/-- The caller's part of a message to another contract. A read-only caller makes every message
read-only and may send no value. At the depth limit the call fails at once. -/
def requestMessage (env : Surroundings) (withValue : Bool) : Exec Request := do
  let requested ← popAmount
  let callee := Address.ofWord (← pop)
  let value ← if withValue then pop else pure 0
  let argsOffset ← popAmount
  let argsSize ← popAmount
  let retOffset ← popAmount
  let retSize ← popAmount
  update (Frame.advance 1)
  if (← frame).call.isStatic ∧ value ≠ 0 then
    Action.refuse .writeInStaticContext
  chargeMemory argsOffset argsSize
  chargeMemory retOffset retSize
  if value ≠ 0 then
    consumeGas Gas.callValue
  update (Frame.setLastReturn ByteArray.empty)
  if env.limits.maxCallDepth ≤ env.depth then
    push 0
    return .proceed
  let gas := Gas.forwarded (← frame).gas.remaining requested
  consumeGas gas
  let childGas := if value = 0 then gas else satAdd gas Gas.callStipend
  let input ← readMemory argsOffset argsSize
  let caller := (← frame).call
  let call :=
    if caller.isStatic || !withValue then
      CallData.static env.origin caller.contract callee input
    else
      CallData.external env.origin caller.contract callee value input
  return .message { call with region := ⟨argsOffset, argsSize⟩ } childGas ⟨retOffset, retSize⟩

/-- The creator's part of a creation. At the depth limit the creation fails at once. -/
def requestCreate (env : Surroundings) : Exec Request := do
  let value ← pop
  let offset ← popAmount
  let size ← popAmount
  update (Frame.advance 1)
  if env.limits.maxInitCodeSize < size then
    Action.refuse (.codeSizeExceeded size env.limits.maxInitCodeSize)
  chargeMemory offset size
  consumeGas (Gas.initCode size)
  update (Frame.setLastReturn ByteArray.empty)
  if env.limits.maxCallDepth ≤ env.depth then
    push 0
    return .proceed
  let initCode ← readMemory offset size
  let remaining := (← frame).gas.remaining
  return .create value initCode (Gas.forwarded remaining remaining)

/-- Executes one instruction, up to what it asks of the call stack. -/
def dispatch (env : Surroundings) : Opcode → Exec Request
  | .callInternal => requestInternal env
  | .call => requestMessage env true
  | .staticCall => requestMessage env false
  | .create => requestCreate env
  | op => do
    executeLocal env.limits op
    return .proceed

/-- The instruction at the program counter of a running frame. Past the end of the code the frame
stops. A byte that names no instruction is refused without charge, and so is a write in a
read-only frame; any other instruction is charged for first. -/
def fetchAndDispatch (env : Surroundings) : Exec Request := do
  match (← frame).currentOp with
  | .undefined =>
    match (← frame).currentByte? with
    | none =>
      update Frame.stop
      return .proceed
    | some byte => Action.refuse (.invalidOpcode byte)
  | op =>
    if (← frame).call.isStatic && op.isStateModifying then
      Action.refuse .writeInStaticContext
    else
      consumeGas (Gas.static op)
      dispatch env op

end Instruction
end CallTree
