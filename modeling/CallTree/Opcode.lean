/-!
# Instructions

One byte names one instruction. A byte that names none is read as `undefined`, so reading never
fails.
-/

namespace CallTree

/-- The instructions of the machine. -/
inductive Opcode
  | stop
  | add
  | mul
  | sub
  | lt
  | gt
  | eq
  | isZero
  | caller
  | callValue
  | callDataLoad
  | callDataSize
  | returnDataSize
  | returnDataCopy
  | pop
  | mload
  | mstore
  | mstore8
  | sload
  | sstore
  | jump
  | jumpIf
  | pc
  | msize
  | gas
  | jumpDest
  /-- Pushes the `size` bytes that follow. -/
  | push (size : Nat)
  /-- Repeats the operand at `depth`, counted from one. -/
  | dup (depth : Nat)
  /-- Exchanges the top operand with the one `depth` below it. -/
  | swap (depth : Nat)
  /-- Emits an entry with `topics` indexed words. -/
  | log (topics : Nat)
  /-- Calls into the same code at a jump destination. -/
  | callInternal
  /-- Returns from such a call. -/
  | returnInternal
  | create
  | call
  | ret
  | staticCall
  | revert
  | invalid
  /-- No instruction at all. -/
  | undefined
deriving DecidableEq, Repr, Inhabited

namespace Opcode

/-- The instruction that a byte names. -/
def ofByte (byte : UInt8) : Opcode :=
  let n := byte.toNat
  if 0x5F ≤ n ∧ n ≤ 0x7F then .push (n - 0x5F)
  else if 0x80 ≤ n ∧ n ≤ 0x8F then .dup (n - 0x7F)
  else if 0x90 ≤ n ∧ n ≤ 0x9F then .swap (n - 0x8F)
  else if 0xA0 ≤ n ∧ n ≤ 0xA4 then .log (n - 0xA0)
  else
    match n with
    | 0x00 => .stop
    | 0x01 => .add
    | 0x02 => .mul
    | 0x03 => .sub
    | 0x10 => .lt
    | 0x11 => .gt
    | 0x14 => .eq
    | 0x15 => .isZero
    | 0x33 => .caller
    | 0x34 => .callValue
    | 0x35 => .callDataLoad
    | 0x36 => .callDataSize
    | 0x3D => .returnDataSize
    | 0x3E => .returnDataCopy
    | 0x50 => .pop
    | 0x51 => .mload
    | 0x52 => .mstore
    | 0x53 => .mstore8
    | 0x54 => .sload
    | 0x55 => .sstore
    | 0x56 => .jump
    | 0x57 => .jumpIf
    | 0x58 => .pc
    | 0x59 => .msize
    | 0x5A => .gas
    | 0x5B => .jumpDest
    | 0xE3 => .callInternal
    | 0xE4 => .returnInternal
    | 0xF0 => .create
    | 0xF1 => .call
    | 0xF3 => .ret
    | 0xFA => .staticCall
    | 0xFD => .revert
    | 0xFE => .invalid
    | _ => .undefined

/-- How many bytes after the instruction are data and not code. -/
def immediateSize : Opcode → Nat
  | .push size => size
  | _ => 0

/-- Whether the instruction ends the frame that runs it. -/
def isTerminating : Opcode → Bool
  | .stop | .ret | .revert | .invalid | .returnInternal => true
  | _ => false

/-- Whether the instruction opens a child frame. -/
def isCall : Opcode → Bool
  | .callInternal | .call | .staticCall | .create => true
  | _ => false

/-- Whether a read-only frame refuses the instruction outright. A call that carries value is
refused too, but only once its operands are known. -/
def isStateModifying : Opcode → Bool
  | .sstore | .log _ | .create => true
  | _ => false

/-- The name of an instruction, with its payload if it has one. -/
def text : Opcode → String
  | .stop => "Stop"
  | .add => "Add"
  | .mul => "Mul"
  | .sub => "Sub"
  | .lt => "Lt"
  | .gt => "Gt"
  | .eq => "Eq"
  | .isZero => "IsZero"
  | .caller => "Caller"
  | .callValue => "CallValue"
  | .callDataLoad => "CallDataLoad"
  | .callDataSize => "CallDataSize"
  | .returnDataSize => "ReturnDataSize"
  | .returnDataCopy => "ReturnDataCopy"
  | .pop => "Pop"
  | .mload => "MLoad"
  | .mstore => "MStore"
  | .mstore8 => "MStore8"
  | .sload => "SLoad"
  | .sstore => "SStore"
  | .jump => "Jump"
  | .jumpIf => "JumpI"
  | .pc => "Pc"
  | .msize => "MSize"
  | .gas => "Gas"
  | .jumpDest => "JumpDest"
  | .push n => "Push(" ++ toString n ++ ")"
  | .dup n => "Dup(" ++ toString n ++ ")"
  | .swap n => "Swap(" ++ toString n ++ ")"
  | .log n => "Log(" ++ toString n ++ ")"
  | .callInternal => "CallF"
  | .returnInternal => "RetF"
  | .create => "Create"
  | .call => "Call"
  | .ret => "Return"
  | .staticCall => "StaticCall"
  | .revert => "Revert"
  | .invalid => "Invalid"
  | .undefined => "Unknown"

end Opcode
end CallTree
