import CallTree.Exec
import CallTree.Limits
import CallTree.World

/-!
# The call stack

A context holds the frames of one transaction, the pool of their workspaces, and the world they
read from. The world changes only when a root frame succeeds, except that a
creation uses up a nonce at once.

Reading an account looks for the nearest view of it: from the topmost frame down, what children
have left pending, then the storage of a frame that runs the account, and in the end the world.
-/

namespace CallTree

/-- The call stack of a transaction and all it works on. -/
structure Context where
  /-- The frames. -/
  frames : Pile Frame := .empty
  /-- The workspaces of all frames, on the call stack or not. -/
  pool : Pool Workspace := {}
  /-- What all frames share. -/
  txn : Txn
  /-- The committed accounts. -/
  world : World := {}
  /-- The bounds in force. -/
  limits : Limits := {}

namespace Exec

variable {α : Type}

/-- Runs an action in a frame whose workspace is in a pool. -/
@[inline]
def inPool (act : Exec α) : Action (Frame × Pool Workspace) α := fun (frame, pool) =>
  let cell := frame.home.cell
  let space := pool.get? cell
  let pool := pool.free cell
  match act ⟨frame, space⟩ with
  | .ok r a => .ok r (a.frame, a.space.elim pool fun w => pool.set cell w)
  | .error e a => .error e (a.frame, a.space.elim pool fun w => pool.set cell w)

end Exec

namespace Frame

/-- Closes the checkpoints of an internal call, keeping or undoing what it did. Other frames have
opened none. -/
def settleShared (keep : Bool) (f : Frame) : Action (Pool Workspace) Unit :=
  match f.marks with
  | none => pure ()
  | some marks =>
    Pool.modify .stack f.home (Action.ofTotal fun w => ((), w.settle keep marks))

end Frame

/-- The code that the children of the listed frames have deployed at an address, as seen from the
first of them. -/
def pendingCode? (pool : Pool Workspace) (address : Address) :
    List Frame → Except Fault (Option Bytes)
  | [] => .ok none
  | f :: below => do
    let w ← pool.read .pending f.home
    match w.pending.code? address with
    | some code => .ok (some code)
    | none => pendingCode? pool address below

/-- The slots of an account that the listed frames have at hand, as seen from the first of them. -/
def activeStorage? (pool : Pool Workspace) (address : Address) :
    List Frame → Except Fault (Option Slots)
  | [] => .ok none
  | f :: below => do
    let w ← pool.read .pending f.home
    match w.pending.storage? address with
    | some slots => .ok (some slots)
    | none =>
      if f.call.contract = address then
        .ok (some w.storage.slots)
      else
        activeStorage? pool address below

namespace Context

variable {α : Type}

/-- The number of frames. -/
def depth (c : Context) : Nat :=
  c.frames.size

/-- The topmost frame. -/
def top (c : Context) : Except Fault Frame :=
  match c.frames.toList with
  | [] => .error .noActiveFrame
  | f :: _ => .ok f

/-- Runs an action in the topmost frame. -/
@[inline]
def onTop (act : Exec α) : Action Context α := fun c =>
  match c with
  | ⟨⟨[], size, h⟩, pool, txn, world, limits⟩ =>
    .error (.fault .noActiveFrame) ⟨⟨[], size, h⟩, pool, txn, world, limits⟩
  | ⟨⟨f :: below, size, h⟩, pool, txn, world, limits⟩ =>
    match act.inPool (f, pool) with
    | .ok r (f, pool) => .ok r ⟨⟨f :: below, size, h⟩, pool, txn, world, limits⟩
    | .error e (f, pool) => .error e ⟨⟨f :: below, size, h⟩, pool, txn, world, limits⟩

/-- Changes the topmost frame, if there is one. -/
@[inline]
def updateTop (g : Frame → Frame) (c : Context) : Context :=
  match c.frames with
  | ⟨[], _, _⟩ => c
  | ⟨f :: below, size, h⟩ => { c with frames := ⟨g f :: below, size, h⟩ }

/-- Runs an action on the pool. -/
@[inline]
def onPool (act : Action (Pool Workspace) α) : Action Context α := fun c =>
  match act c.pool with
  | .ok r pool => .ok r { c with pool := pool }
  | .error e pool => .error e { c with pool := pool }

/-- What becomes of the workspaces when a frame goes away. -/
def release (f : Frame) (c : Context) : Context :=
  { c with pool := c.pool.release f.home }

/-- The code at an address, including what active frames have deployed. -/
def codeAt (c : Context) (address : Address) : Except Fault Bytes := do
  let found ← pendingCode? c.pool address c.frames.toList
  return found.getD ((c.world.code? address).getD ByteArray.empty)

/-- The slots of an account as the topmost frame sees them. -/
def storageView (c : Context) (address : Address) : Except Fault Slots := do
  let found ← activeStorage? c.pool address c.frames.toList
  return found.getD (c.world.storageOf address)

/-- A new frame with a workspace of its own. -/
def newFrame (limits : Limits) (storage : Storage) (code : Bytes) (gas : Nat) (call : CallData)
    (c : Context) : Frame × Context :=
  let space : Workspace :=
    { stack := .withLimit limits.maxStackSize
      memory := .withLimit limits.maxMemorySize
      storage := storage }
  let (home, pool) := c.pool.alloc space
  (.new code gas call home, { c with pool := pool })

/-- A new frame whose storage starts as the current view of the account it runs. -/
def prepareExternal (code : Bytes) (gas : Nat) (call : CallData) : Action Context Frame :=
  fun c =>
    match c.storageView call.contract with
    | .error e => .error (.fault e) c
    | .ok slots =>
      let (f, c) := c.newFrame c.limits (.ofSlots slots) code gas call
      .ok f c

/-- A new frame for an internal call from the topmost frame, whose workspace it shares. -/
def prepareInternal (target gas : Nat) : Action Context Frame := fun c =>
  match c.top with
  | .error e => .error (.fault e) c
  | .ok parent =>
    match onPool (Pool.modify .stack parent.home (Action.ofTotal Workspace.checkpoint)) c with
    | .error e c => .error e c
    | .ok marks c => .ok (parent.internal c.txn.origin target gas marks) c

/-- Puts a frame on top. A frame that would be too deep goes away, and what an internal call has
opened is undone. -/
def pushFrame (f : Frame) : Action Context Unit := fun c =>
  if c.limits.maxCallDepth < c.depth + 1 then
    match onPool (f.settleShared false) c with
    | .error e c => .error e (c.release f)
    | .ok () c =>
      .error (.fault (.callDepthExceeded (c.depth + 1) c.limits.maxCallDepth)) (c.release f)
  else
    .ok () { c with frames := c.frames.push f }

/-- Takes the topmost frame off, without any effect on the frame below. -/
def popFrame (c : Context) : Option Frame × Context :=
  match c.frames.toList with
  | [] => (none, c)
  | f :: _ => (some f, { c with frames := c.frames.drop 1 })

end Context
end CallTree
