import CallTree.Interpreter.Run

/-!
# Traces

A trace runs a call tree one instruction at a time and notes where it stands after each.
-/

namespace CallTree

/-- Where a call tree stands. -/
structure TraceRow where
  /-- The number of frames. -/
  depth : Nat
  /-- The program counter of the topmost frame. -/
  pc : Nat
  /-- The instruction there. -/
  op : Opcode
  /-- The gas that is left to it. -/
  gas : Nat
  /-- The number of its operands. -/
  stackSize : Nat
  /-- The three topmost operands, the topmost first. -/
  operands : List Word
  /-- The size of its memory. -/
  memorySize : Nat
  /-- The number of bytes that its last child returned. -/
  lastReturnSize : Nat
deriving DecidableEq, Repr, Inhabited

/-- How a trace ends. -/
inductive TraceEnd
  /-- The frame at the bottom has halted. -/
  | done
  /-- There are as many rows as were asked for. -/
  | limit
  /-- The run was stopped. -/
  | stopped (cause : Abort)
deriving DecidableEq, Repr, Inhabited

namespace Context

/-- Where the call tree stands, if there is a frame with a workspace. -/
def traceRow? (c : Context) : Option TraceRow :=
  match c.frames.toList with
  | [] => none
  | f :: _ => (c.pool.get? f.home.cell).map fun w =>
    { depth := c.depth
      pc := f.pc
      op := f.currentOp
      gas := f.gas.remaining
      stackSize := w.stack.size
      operands := w.stack.items.toList.take 3
      memorySize := w.memory.size
      lastReturnSize := f.lastReturn.size }

/-- Runs one instruction at a time, at most `count` of them. -/
def trace (limits : Limits) : (count : Nat) → Context → List TraceRow × TraceEnd × Context
  | 0, c => ([], .limit, c)
  | count + 1, c =>
    let report := c.run { limits with maxExecutionSteps := 1 }
    let c := report.context
    let row := c.traceRow?.toList
    match report.stopped with
    | none => (row, .done, c)
    | some (.fault (.stepLimitExceeded _)) =>
      let (rows, ending, c) := trace limits count c
      (row ++ rows, ending, c)
    | some cause => (row, .stopped cause, c)

end Context
end CallTree
