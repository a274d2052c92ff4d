import CallTree.Frame
import CallTree.Gas.Schedule

/-!
# Working in a frame

An activation is a frame together with the workspace that its handle reaches, if that still
exists. `Exec` is the type of what an instruction does to it. Whatever an instruction has done
before it is refused stays done.

Nothing in this module can reach another frame or another workspace.
-/

namespace CallTree

/-- A frame with the workspace it runs on. -/
structure Activation where
  /-- The frame. -/
  frame : Frame
  /-- Its workspace, unless the owner of that is gone. -/
  space : Option Workspace

/-- What is done in an activation. -/
abbrev Exec (α : Type) := Action Activation α

namespace Exec

variable {α : Type}

/-- The frame as it stands. -/
@[inline]
def frame : Exec Frame :=
  Action.read (·.frame)

/-- Changes the frame. -/
@[inline]
def update (g : Frame → Frame) : Exec Unit := fun a =>
  match a with
  | ⟨frame, space⟩ => .ok () ⟨g frame, space⟩

/-- Runs an action on the frame. -/
@[inline]
def onFrame (act : Action Frame α) : Exec α := fun a =>
  match a with
  | ⟨frame, space⟩ =>
    match act frame with
    | .ok r frame => .ok r ⟨frame, space⟩
    | .error e frame => .error e ⟨frame, space⟩

/-- Runs an action on the stack. -/
@[inline]
def onStack (act : Action Stack α) : Exec α := fun a =>
  match a with
  | ⟨frame, none⟩ => .error (.fault (.danglingHandle .stack)) ⟨frame, none⟩
  | ⟨frame, some ⟨stack, memory, storage, pending⟩⟩ =>
    match act stack with
    | .ok r stack => .ok r ⟨frame, some ⟨stack, memory, storage, pending⟩⟩
    | .error e stack => .error e ⟨frame, some ⟨stack, memory, storage, pending⟩⟩

/-- Runs an action on the memory. -/
@[inline]
def onMemory (act : Action Memory α) : Exec α := fun a =>
  match a with
  | ⟨frame, none⟩ => .error (.fault (.danglingHandle .memory)) ⟨frame, none⟩
  | ⟨frame, some ⟨stack, memory, storage, pending⟩⟩ =>
    match act memory with
    | .ok r memory => .ok r ⟨frame, some ⟨stack, memory, storage, pending⟩⟩
    | .error e memory => .error e ⟨frame, some ⟨stack, memory, storage, pending⟩⟩

/-- Runs an action on the storage. -/
@[inline]
def onStorage (act : Action Storage α) : Exec α := fun a =>
  match a with
  | ⟨frame, none⟩ => .error (.fault (.danglingHandle .storage)) ⟨frame, none⟩
  | ⟨frame, some ⟨stack, memory, storage, pending⟩⟩ =>
    match act storage with
    | .ok r storage => .ok r ⟨frame, some ⟨stack, memory, storage, pending⟩⟩
    | .error e storage => .error e ⟨frame, some ⟨stack, memory, storage, pending⟩⟩

/-- Runs an action on the pending state. -/
@[inline]
def onPending (act : Action Pending α) : Exec α := fun a =>
  match a with
  | ⟨frame, none⟩ => .error (.fault (.danglingHandle .pending)) ⟨frame, none⟩
  | ⟨frame, some ⟨stack, memory, storage, pending⟩⟩ =>
    match act pending with
    | .ok r pending => .ok r ⟨frame, some ⟨stack, memory, storage, pending⟩⟩
    | .error e pending => .error e ⟨frame, some ⟨stack, memory, storage, pending⟩⟩

/-- Debits gas. -/
def consumeGas (amount : Nat) : Exec Unit :=
  onFrame (Frame.consumeGas amount)

/-- Puts a word on the stack. -/
def push (w : Word) : Exec Unit :=
  onStack (Stack.push w)

/-- Takes a word from the stack. -/
def pop : Exec Word :=
  onStack Stack.pop

/-- Takes an offset or a size from the stack. -/
def popAmount : Exec Nat :=
  onStack Stack.popAmount

/-- Takes `n` words from the stack, the topmost first. -/
def popMany : Nat → Exec (List Word)
  | 0 => pure []
  | n + 1 => do
    let w ← pop
    let rest ← popMany n
    return w :: rest

/-- The bytes of a region of the memory. -/
def readMemory (offset size : Nat) : Exec Bytes :=
  onMemory (Action.read (·.read offset size))

/-- Makes sure that a region is inside the memory and charges for the words this adds. -/
def chargeMemory (offset size : Nat) : Exec Unit := do
  if size ≠ 0 then
    let old ← onMemory (Action.read (·.words))
    let _ ← onMemory (Memory.expand offset size)
    let new ← onMemory (Action.read (·.words))
    let cost ← Action.ofChecked (Gas.memoryGrowth? old new)
    consumeGas cost

/-- Goes on at a jump destination. -/
def jump (dest : Nat) : Exec Unit := do
  let f ← frame
  if f.isValidJump dest then
    update (Frame.setPc dest)
  else
    Action.refuse (.invalidJump dest)

/-- Ends the frame normally with an output. If the output becomes the code of a contract, its size
is bounded and its deposit is charged first. -/
def completeReturn (maxCodeSize : Nat) (data : Bytes) : Exec Unit := do
  let f ← frame
  if f.creation then
    if maxCodeSize < data.size then
      Action.refuse (.codeSizeExceeded data.size maxCodeSize)
    let deposit ← Action.ofChecked (Gas.codeDeposit? data.size)
    consumeGas deposit
  update (Frame.setOutput data)
  update Frame.stop

end Exec
end CallTree
