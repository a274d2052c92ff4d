import CallTree.Word

/-!
# Faults

A `Fault` is a cause for which an operation on a frame, on one of its containers or on the call
stack is refused. Every fault but a voluntary revert costs the frame all its gas.

`Action` is the type of operations that may be refused: the state they reach is kept in either
case. Besides a fault an action can end in `Abort.overflow`, when an intermediate result is no
64-bit amount. No frame survives that and no answer is given, so it is kept apart from the faults.
-/

namespace CallTree

/-- The four containers a frame works on. -/
inductive Container
  | stack
  | memory
  | storage
  | pending
deriving DecidableEq, Repr, Inhabited

namespace Container

/-- The name of a container in messages. -/
def name : Container → String
  | .stack => "Stack"
  | .memory => "Memory"
  | .storage => "Storage"
  | .pending => "PendingState"

end Container

/-- Why an operation is refused. -/
inductive Fault
  /-- A debit exceeds the gas that is left. -/
  | outOfGas
  /-- A push onto a full stack. -/
  | stackOverflow
  /-- An operand that is not there. -/
  | stackUnderflow
  /-- A byte that names no instruction, or one that may not run here. -/
  | invalidOpcode (byte : UInt8)
  /-- A jump to a place that is no jump destination. -/
  | invalidJump (dest : Nat)
  /-- A frame that would run deeper than allowed. -/
  | callDepthExceeded (depth max : Nat)
  /-- A write in a read-only frame. -/
  | writeInStaticContext
  /-- A region that ends beyond the memory limit. -/
  | memoryLimitExceeded (requested max : Nat)
  /-- A copy from beyond the end of the return data. -/
  | returnDataOutOfBounds (offset size available : Nat)
  /-- A voluntary revert. -/
  | reverted (reason : String)
  /-- A debit on a frame that no longer runs. -/
  | frameHalted
  /-- No frame on the call stack. -/
  | noActiveFrame
  /-- A shared container whose owner is gone. -/
  | danglingHandle (container : Container)
  /-- A creation at an address that already has code. -/
  | contractAlreadyExists (address : Address)
  /-- Code larger than allowed. -/
  | codeSizeExceeded (size max : Nat)
  /-- More instructions than allowed. -/
  | stepLimitExceeded (limit : Nat)
  /-- A broken promise between the parts of the machine. -/
  | internal (detail : String)
deriving DecidableEq, Repr, Inhabited

namespace Fault

/-- The text of a fault. -/
def message : Fault → String
  | .outOfGas => "out of gas"
  | .stackOverflow => "stack overflow"
  | .stackUnderflow => "stack underflow"
  | .invalidOpcode byte => "invalid opcode: 0x" ++ Hex.byteUpper byte
  | .invalidJump dest => s!"invalid jump destination: {dest}"
  | .callDepthExceeded depth max => s!"call depth exceeded: {depth} > {max}"
  | .writeInStaticContext => "write operation in static context"
  | .memoryLimitExceeded requested max => s!"memory limit exceeded: {requested} > {max} bytes"
  | .returnDataOutOfBounds offset size available =>
    s!"return data out of bounds: offset {offset}, size {size}, available {available}"
  | .reverted reason => "revert: " ++ reason
  | .frameHalted => "frame is halted"
  | .noActiveFrame => "no active call frame"
  | .danglingHandle container => "dangling shared " ++ container.name ++ " handle"
  | .contractAlreadyExists address => "contract already exists at address: " ++ address.text
  | .codeSizeExceeded size max => s!"code size exceeded: {size} > {max} bytes"
  | .stepLimitExceeded limit => s!"execution step limit exceeded: {limit}"
  | .internal detail => "internal error: " ++ detail

/-- Whether the caller of the frame may go on with what is left of the gas. -/
def isRecoverable : Fault → Bool
  | .reverted _ => true
  | _ => false

/-- Whether the fault costs the frame all its remaining gas. -/
def consumesAllGas (f : Fault) : Bool :=
  !f.isRecoverable

/-- The reason recorded on a frame that halts with the fault. -/
def revertReason : Fault → String
  | .reverted reason => reason
  | f => f.message

end Fault

/-- How an action ends without a result. -/
inductive Abort
  /-- The action was refused. -/
  | fault (cause : Fault)
  /-- An intermediate result is no 64-bit amount. -/
  | overflow
deriving DecidableEq, Repr, Inhabited

/-- An operation on a state that may be refused. The state reached is kept either way. -/
abbrev Action (σ α : Type) := EStateM Abort σ α

namespace Action

/-- Refuses with `cause` and changes nothing. -/
@[inline]
def refuse {σ α : Type} (cause : Fault) : Action σ α :=
  fun s => .error (.fault cause) s

/-- A result computed from a state that it leaves alone. -/
@[inline]
def read {σ α : Type} (f : σ → α) : Action σ α :=
  fun s => .ok (f s) s

/-- An operation that always succeeds. -/
@[inline]
def ofTotal {σ α : Type} (f : σ → α × σ) : Action σ α :=
  fun s =>
    match f s with
    | (a, s) => .ok a s

/-- A result that is computed in 64-bit amounts. -/
@[inline]
def ofChecked {σ α : Type} : Option α → Action σ α
  | some a => fun s => .ok a s
  | none => fun s => .error .overflow s

/-- A result that may be refused and changes nothing. -/
@[inline]
def ofExcept {σ α : Type} : Except Fault α → Action σ α
  | .ok a => fun s => .ok a s
  | .error e => fun s => .error (.fault e) s

end Action
end CallTree
