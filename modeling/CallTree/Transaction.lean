import CallTree.Interpreter.Run

/-!
# Transactions

`execute` runs a root frame and every call it makes to the end. It never fails: whatever goes
wrong becomes a failed outcome. Only a success is committed to the world.
-/

namespace CallTree

/-- The world after a successful root frame: its own slots, the slots of other accounts and the
codes are taken over in the order in which they are listed. -/
def World.commit (w : World) (root : Frame) (slots : Slots) (storages : List (Address × Slots))
    (codes : List (Address × Bytes)) : World :=
  let w := ((w.setStorage root.call.contract slots).setStorages storages).setCodes codes
  if root.creation then w.setCode root.call.contract root.output else w

namespace Context

/-- Takes all frames off the call stack; their workspaces go away. -/
def clear (c : Context) : Context :=
  c.frames.toList.foldl (fun c f => c.release f) { c with frames := .empty }

/-- Commits what a successful root frame has changed. -/
def commitRoot (root : Frame) : Action Context Unit := fun c =>
  match onPool (Pool.modify .storage root.home (Action.ofTotal fun w =>
      ((w.storage.slots, w.pending.accounts), { w with pending := {} }))) c with
  | .error e c => .error e c
  | .ok (slots, accounts) c =>
    .ok () { c with
      world := c.world.commit root slots accounts.storage.toList accounts.code.toList }

/-- The outcome of a root frame that has halted. A success is committed, and the refund for
cleared slots is paid. -/
def conclude (root : Frame) (c : Context) : Option (Outcome × Context) :=
  let outcome : Outcome :=
    { success := root.isSuccess
      output := root.output
      gasUsed := root.gas.used
      reason := root.revertReason? }
  if !root.isSuccess then
    some (outcome, c)
  else
    match commitRoot root c with
    | .error (.fault e) c => some (.failed e, c)
    | .error .overflow _ => none
    | .ok () c => do
      let refund := Gas.refundPaid root.gas.used root.gas.refunds c.limits.maxRefundQuotient
      let used ← sub? root.gas.used refund
      return ({ outcome with
        gasUsed := used
        gasRefund := refund
        logs := root.logs
        created := if root.creation then some root.call.contract else none }, c)

/-- Takes off all frames but the one at the bottom, which fails. -/
def abandon (cause : Fault) (c : Context) : Context :=
  let c := c.frames.toList.dropLast.foldl (fun c f => c.release f)
    { c with frames := c.frames.keep 1 }
  c.updateTop (Frame.fail cause)

/-- Runs the root frame, which is alone on the call stack, and takes it off when it has halted. -/
def runRoot (c : Context) : Option (Option Frame × Context) :=
  let report := c.run c.limits
  match report.stopped with
  | none => some report.context.popFrame
  | some (.fault e) => some (report.context.abandon e).popFrame
  | some .overflow => none

/-- Runs `root` and every call it makes to the end. What was on the call stack before goes away.
A creation at an address that has code fails at once; a root with a storage of its own starts from
the committed slots. The result is `none` only when an intermediate result is no 64-bit amount. -/
def execute (root : Frame) (c : Context) : Option (Outcome × Context) :=
  let c := c.clear
  let address := root.call.contract
  if root.creation && c.world.hasCode address then
    some (.failed (.contractAlreadyExists address), c.release root)
  else
    let c :=
      if root.home.isOwned then
        let seeded := Storage.ofSlots (c.world.storageOf address)
        match c.pool.get? root.home.cell with
        | some w => { c with pool := c.pool.set root.home.cell { w with storage := seeded } }
        | none => c
      else
        c
    match pushFrame root c with
    | .error (.fault e) c => some (.failed e, c)
    | .error .overflow _ => none
    | .ok () c =>
      match runRoot c with
      | none => none
      | some (none, c) => some (.failed .noActiveFrame, c.clear)
      | some (some root, c) =>
        (conclude root c.clear).map fun (outcome, c) => (outcome, c.release root)

end Context
end CallTree
