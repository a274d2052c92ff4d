import CallTree.Context.Basic

/-!
# Finishing a child

When a frame has halted it is taken off and its parent learns the result. A success hands over
what the child has emitted and earned; a message or a creation also hands over its storage, what
its own children have left pending, and the code it deploys. A revert hands over nothing, and an
internal call is undone. In both cases the gas that is left goes back to the parent.
-/

namespace CallTree

/-- What is told about a frame that has finished. -/
structure FinishedCall where
  /-- How it came to be. -/
  kind : CallKind
  /-- The contract it ran, or the one it was to deploy. -/
  address : Address
  /-- Whether it succeeded. -/
  success : Bool
  /-- Whether it was an internal call that has ended the call around it. -/
  exitsCall : Bool
  /-- The part of the parent's memory that is meant for its output. -/
  returnRegion : Region
deriving DecidableEq, Inhabited

namespace Exec

/-- Takes over a child's view of an account: into the storage if the frame runs the account, else
into what is pending. -/
def foldStorage (address : Address) (slots : Slots) : Exec Unit := do
  if (← frame).call.contract = address then
    onStorage (Action.ofTotal fun s => ((), s.mergeFrom (.ofSlots slots)))
  else
    onPending (Action.ofTotal fun p => ((), p.setStorage address slots))

/-- Takes over the views of several accounts, one after another. -/
def foldStorages : List (Address × Slots) → Exec Unit
  | [] => pure ()
  | (address, slots) :: rest => do
    foldStorage address slots
    foldStorages rest

/-- Takes over what a successful child has changed: its own slots, the slots of other accounts, and
the codes deployed below it and by itself, in the order in which they are listed. -/
def foldChanges (child : Frame) (slots : Slots) (storages : List (Address × Slots))
    (codes : List (Address × Bytes)) : Exec Unit := do
  foldStorage child.call.contract slots
  foldStorages storages
  onPending (Action.ofTotal fun p =>
    let p := p.setCodes codes
    ((), if child.creation then p.setCode child.call.contract child.output else p))

/-- Takes over all that a successful child has changed in its workspace. -/
def foldChild (child : Frame) (space : Workspace) : Exec Unit :=
  foldChanges child space.storage.slots space.pending.accounts.storage.toList
    space.pending.accounts.code.toList

end Exec

namespace Frame

/-- What the parent of a finished child records about it. -/
def learn (child parent : Frame) : Frame :=
  let parent :=
    if child.isSuccess then
      ((parent.addLogs child.logs).recordRefund child.gas.refunds).stage
        (.returned child.returnRegion child.output)
    else
      parent.stage (.reverted (child.revertReason?.getD "") child.output)
  parent.refundGas child.gas.remaining

/-- The summary of a finished frame. -/
def finished (child : Frame) : FinishedCall where
  kind := child.call.kind
  address := child.call.contract
  success := child.isSuccess
  exitsCall := child.exitsCall
  returnRegion := child.returnRegion

/-- Lets the effects of a halted child on its workspace reach the parent, or undoes them. -/
def handOver (child : Frame) : Action (Frame × Pool Workspace) Unit := fun (parent, pool) =>
  if child.call.kind = .internal then
    match child.settleShared child.isSuccess pool with
    | .ok () pool => .ok () (parent, pool)
    | .error e pool => .error e (parent, pool)
  else if child.isSuccess then
    match pool.read .storage child.home with
    | .error e => .error (.fault e) (parent, pool)
    | .ok space => (Exec.foldChild child space).inPool (parent, pool)
  else
    .ok () (parent, pool)

/-- Finishes a halted child: its effects reach the parent, the parent learns the result, and the
child's workspace goes away. -/
def finishInto (child : Frame) : Action (Frame × Pool Workspace) FinishedCall := fun s =>
  match child.handOver s with
  | .error e (parent, pool) => .error e (parent, pool.release child.home)
  | .ok () (parent, pool) =>
    .ok child.finished (child.learn parent, pool.release child.home)

end Frame

namespace Context

/-- Takes the topmost frame off and lets its parent learn the result. It must have halted. -/
def finishChild : Action Context FinishedCall := fun c =>
  match c.frames with
  | ⟨child :: parent :: below, size, h⟩ =>
    if child.running then
      .error (.fault (.internal "cannot finish a running frame")) c
    else
      let rest (parent : Frame) : Pile Frame :=
        ⟨parent :: below, size - 1, by rw [h]; rfl⟩
      match child.finishInto (parent, c.pool) with
      | .ok r (parent, pool) => .ok r { c with frames := rest parent, pool := pool }
      | .error e (parent, pool) => .error e { c with frames := rest parent, pool := pool }
  | _ => .error (.fault .noActiveFrame) c

end Context
end CallTree
