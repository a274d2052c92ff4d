import CallTree.Exec
import CallTree.Limits
import CallTree.RevertReason

/-!
# Instructions within a frame

What every instruction does that neither calls nor creates. The program counter moves past the
instruction and its immediate first; operands are then taken in order, the topmost first, and what
has been taken is not put back when a later step is refused.
-/

namespace CallTree.Instruction

open Exec

/-- Replaces two operands by one word. -/
@[inline]
def binary (op : Word → Word → Word) : Exec Unit := do
  let a ← pop
  let b ← pop
  push (op a b)

/-- Copies return data of the last child into memory. A copy that reaches past the end of the data
is refused, even one of size zero. -/
def returnDataCopy : Exec Unit := do
  let dest ← popAmount
  let offset ← popAmount
  let size ← popAmount
  let data := (← frame).lastReturn
  if data.size < offset + size then
    Action.refuse (.returnDataOutOfBounds offset size data.size)
  chargeMemory dest size
  consumeGas (Gas.copy size)
  let _ ← onMemory (Memory.write dest (data.extract offset (offset + size)))

/-- Writes a storage slot. Clearing one earns a refund. -/
def storageStore : Exec Unit := do
  let key ← pop
  let value ← pop
  let current ← onStorage (Action.read (·.load key))
  consumeGas (Gas.storageStore (current == 0) (value == 0))
  if current ≠ 0 ∧ value = 0 then
    update (Frame.recordRefund Gas.storageClearRefund)
  let _ ← onStorage (Action.ofTotal (Storage.store key value))

/-- Emits an entry with the data of a memory region. -/
def log (topics : Nat) : Exec Unit := do
  let offset ← popAmount
  let size ← popAmount
  let words ← popMany topics
  chargeMemory offset size
  let cost ← Action.ofChecked (Gas.logData? size topics)
  consumeGas cost
  let data ← readMemory offset size
  update fun f => f.addLog ⟨f.call.contract, words, data⟩

/-- Takes a region from the stack and reads it, charging for the memory it needs. -/
def popRegion : Exec Bytes := do
  let offset ← popAmount
  let size ← popAmount
  chargeMemory offset size
  readMemory offset size

/-- Reverts with the data of a memory region. -/
def revert : Exec Unit := do
  let data ← popRegion
  let reason := (RevertReason.decode data).getD RevertReason.default
  update fun f => ((f.setOutput data).setReverted true reason).halt

/-- What an instruction does once the program counter has moved past it. `pc` is where it stood
and `immediate` is the number in the bytes after it. -/
def body (limits : Limits) (pc : Nat) (immediate : Word) : Opcode → Exec Unit
  | .stop => update Frame.stop
  | .add => binary Word.add
  | .mul => binary Word.mul
  | .sub => binary Word.sub
  | .lt => binary fun a b => .ofBool (a.toNat < b.toNat)
  | .gt => binary fun a b => .ofBool (b.toNat < a.toNat)
  | .eq => binary fun a b => .ofBool (a == b)
  | .isZero => do
    let a ← pop
    push (.ofBool (a == 0))
  | .caller => do push (← frame).call.caller.toWord
  | .callValue => do push (← frame).call.value
  | .callDataLoad => do
    let offset ← popAmount
    push (Word.ofBytes ((← frame).call.input.window offset 32))
  | .callDataSize => do push (Word.ofNat (← frame).call.input.size)
  | .returnDataSize => do push (Word.ofNat (← frame).lastReturn.size)
  | .returnDataCopy => returnDataCopy
  | .pop => do let _ ← pop
  | .mload => do
    let offset ← popAmount
    chargeMemory offset 32
    let bytes ← readMemory offset 32
    push (Word.ofBytes bytes)
  | .mstore => do
    let offset ← popAmount
    let value ← pop
    chargeMemory offset 32
    let _ ← onMemory (Memory.writeWord offset value)
  | .mstore8 => do
    let offset ← popAmount
    let value ← pop
    chargeMemory offset 1
    let _ ← onMemory (Memory.writeByte offset (UInt8.ofNat value.toNat))
  | .sload => do
    let key ← pop
    let value ← onStorage (Action.read (·.load key))
    push value
  | .sstore => storageStore
  | .jump => do
    let dest ← popAmount
    jump dest
  | .jumpIf => do
    let dest ← popAmount
    let condition ← pop
    if condition ≠ 0 then
      jump dest
  | .pc => push (Word.ofNat pc)
  | .msize => do
    let size ← onMemory (Action.read (·.size))
    push (Word.ofNat size)
  | .gas => do push (Word.ofNat (← frame).gas.remaining)
  | .jumpDest => pure ()
  | .push _ => push immediate
  | .dup n => onStack (Stack.dup n)
  | .swap n => onStack (Stack.swap n)
  | .log topics => log topics
  | .returnInternal => do
    if (← frame).call.kind = .internal then
      update fun f => f.markSuccess.halt
    else
      Action.refuse (.invalidOpcode 0xE4)
  | .ret => do
    let data ← popRegion
    completeReturn limits.maxCodeSize data
  | .revert => revert
  | .invalid => Action.refuse (.invalidOpcode 0xFE)
  | op => Action.refuse (.internal (op.text ++ " dispatched as a frame-local instruction"))

/-- Executes one instruction that neither calls nor creates. -/
def executeLocal (limits : Limits) (op : Opcode) : Exec Unit := do
  let pc := (← frame).pc
  let immediate ← Action.ofChecked ((← frame).immediate? op.immediateSize)
  update (Frame.advance (1 + op.immediateSize))
  body limits pc immediate op

end CallTree.Instruction
