import CallTree.Context.Finish
import CallTree.Interpreter.Request

/-!
# Running a call tree

`step` executes one instruction of the topmost frame. `run` steps until the frame at the bottom
has halted or the budget of instructions is used up. Between two instructions `unwind` finishes
the children that have halted, which costs no step. A fault that an instruction raises halts the
frame that raised it and goes no further.

`run` recurses on the budget that is left and `unwind` on the frames below the topmost, so both
always end.
-/

namespace CallTree

namespace Exec

/-- Copies as much of a child's output as fits into the region that was meant for it. -/
def copyOutput (region : Region) (data : Bytes) : Exec Unit := do
  let _ ← onMemory (Memory.write region.offset (data.takeFirst region.size))

/-- Goes on after a child has finished: its result is taken from where it was staged and becomes
visible to the frame. The revert of an internal call goes on to the frame itself. -/
def resume (limits : Limits) (finished : FinishedCall) : Exec Unit := do
  let staged ← onFrame (Action.ofTotal Frame.takeStaged)
  match finished.kind, staged with
  | _, .empty => Action.refuse (.internal "finished child staged no result")
  | .internal, .reverted reason data =>
    update (Frame.setOutput data)
    Action.refuse (.reverted reason)
  | .internal, .returned _ data =>
    if finished.exitsCall then
      completeReturn limits.maxCodeSize data
  | .create, .returned _ _ => push finished.address.toWord
  | .create, .reverted _ data =>
    update (Frame.setLastReturn data)
    push 0
  | _, .returned region data =>
    copyOutput region data
    update (Frame.setLastReturn data)
    push 1
  | _, .reverted _ data =>
    copyOutput finished.returnRegion data
    update (Frame.setLastReturn data)
    push 0

end Exec

namespace Context

/-- Opens the frame that an instruction has asked for. -/
def serve : Request → Action Context Unit
  | .proceed => pure ()
  | .internal target gas => do
    let child ← prepareInternal target gas
    pushFrame child
  | .message call gas returnRegion => do
    let code ← Action.ofExcept ((← get).codeAt call.contract)
    let child ← prepareExternal code gas call
    pushFrame (child.setReturnData ByteArray.empty returnRegion)
  | .create value initCode gas => do
    let creator := (← Action.ofExcept (← get).top).call.contract
    let address ← Action.ofTotal fun c =>
      let (address, world) := c.world.nextCreateAddress creator
      (address, { c with world := world })
    let existing ← Action.ofExcept ((← get).codeAt address)
    onTop (Exec.consumeGas gas)
    if existing.size ≠ 0 then
      onTop (Exec.push 0)
    else
      let origin := (← get).txn.origin
      let child ← prepareExternal initCode gas (.create origin creator address value)
      pushFrame child

/-- Executes one instruction of the topmost frame. -/
def step (limits : Limits) : Action Context Unit := fun c =>
  let env : Surroundings := ⟨limits, c.depth, c.txn.origin⟩
  match onTop (Instruction.fetchAndDispatch env) c with
  | .ok request c => serve request c
  | .error e c => .error e c

/-- Finishes halted frames, the topmost first, until one is running or none is left to finish
into. The result of a finished frame is taken up by its parent at once; a fault in doing so halts
the parent. The list holds the frames below the topmost, and `size` counts that one too. -/
def unwindFrames (limits : Limits) (top : Frame) :
    (below : List Frame) → (size : Nat) → size = below.length + 1 → Pool Workspace →
      EStateM.Result Abort (Pile Frame × Pool Workspace) Unit
  | [], size, h, pool => .ok () (⟨[top], size, h⟩, pool)
  | parent :: below, size, h, pool =>
    if top.running then
      .ok () (⟨top :: parent :: below, size, h⟩, pool)
    else
      have h : size - 1 = below.length + 1 := by rw [h]; rfl
      match top.finishInto (parent, pool) with
      | .error e (parent, pool) => .error e (⟨parent :: below, size - 1, h⟩, pool)
      | .ok finished s =>
        match (Exec.resume limits finished).inPool s with
        | .ok () (parent, pool) => unwindFrames limits parent below (size - 1) h pool
        | .error (.fault e) (parent, pool) =>
          unwindFrames limits (parent.fail e) below (size - 1) h pool
        | .error .overflow (parent, pool) =>
          .error .overflow (⟨parent :: below, size - 1, h⟩, pool)

/-- Finishes all halted children at the top of the call stack. -/
def unwind (limits : Limits) : Action Context Unit := fun c =>
  match c with
  | ⟨⟨[], size, h⟩, pool, txn, world, own⟩ =>
    .error (.fault .noActiveFrame) ⟨⟨[], size, h⟩, pool, txn, world, own⟩
  | ⟨⟨top :: below, size, h⟩, pool, txn, world, own⟩ =>
    match unwindFrames limits top below size h pool with
    | .ok () (frames, pool) => .ok () ⟨frames, pool, txn, world, own⟩
    | .error e (frames, pool) => .error e ⟨frames, pool, txn, world, own⟩

/-- Whether the topmost frame is running. -/
def isRunning (c : Context) : Bool :=
  match c.frames.toList with
  | [] => false
  | f :: _ => f.running

/-- Executes one instruction; a fault halts the frame that raised it. Only an overflow is an
error. -/
def stepOrFail (limits : Limits) (c : Context) : EStateM.Result Abort Context Unit :=
  match step limits c with
  | .ok () c => .ok () c
  | .error (.fault e) c => .ok () (c.updateTop (Frame.fail e))
  | .error .overflow c => .error .overflow c

end Context

/-- How a run ends. -/
structure RunReport where
  /-- The context it leaves behind. -/
  context : Context
  /-- How many instructions were counted; one that is refused by the budget counts too. -/
  steps : Nat
  /-- Why the run stopped before the frame at the bottom halted, if it did. -/
  stopped : Option Abort := none

namespace Context

/-- What a run finds before its next instruction. -/
inductive Turn
  /-- The topmost frame is running. -/
  | ready (context : Context)
  /-- The frame at the bottom has halted. -/
  | done (context : Context)
  /-- The run cannot go on. -/
  | stopped (cause : Abort) (context : Context)

/-- Finishes the children that have halted, if any, and looks what comes next. -/
def turn (limits : Limits) (c : Context) : Turn :=
  if c.isRunning then
    .ready c
  else
    match unwind limits c with
    | .error e c => .stopped e c
    | .ok () c => if c.isRunning then .ready c else .done c

/-- Runs for at most `budget` instructions, after `steps` instructions have been executed. -/
def runFor (limits : Limits) : (budget steps : Nat) → Context → RunReport
  | 0, steps, c =>
    match c.turn limits with
    | .ready c => ⟨c, steps + 1, some (.fault (.stepLimitExceeded limits.maxExecutionSteps))⟩
    | .done c => ⟨c, steps, none⟩
    | .stopped e c => ⟨c, steps, some e⟩
  | budget + 1, steps, c =>
    match c.turn limits with
    | .ready c =>
      match c.stepOrFail limits with
      | .ok () c => runFor limits budget (steps + 1) c
      | .error e c => ⟨c, steps + 1, some e⟩
    | .done c => ⟨c, steps, none⟩
    | .stopped e c => ⟨c, steps, some e⟩

/-- Runs until the frame at the bottom has halted, within the given limits. -/
def run (limits : Limits) (c : Context) : RunReport :=
  runFor limits limits.maxExecutionSteps 0 c

end Context
end CallTree
