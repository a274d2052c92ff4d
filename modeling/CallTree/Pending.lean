import CallTree.Checkpoint.Snapshots
import CallTree.Storage

/-!
# Pending state

What successful children have left behind for accounts that the frame itself does not run: slots
and deployed code. It is folded into the parent when the frame succeeds and reaches the world only
when the root does. Values are kept as they are given, zeros included.
-/

namespace CallTree

/-- Slots and code by account. -/
structure Accounts where
  /-- The full set of slots of each account that has changed. -/
  storage : FinMap Address Slots := ∅
  /-- The code deployed so far. -/
  code : FinMap Address Bytes := ∅
deriving Inhabited

/-- Changes to accounts that are not committed yet. -/
structure Pending where
  /-- The changes. -/
  accounts : Accounts := {}
  /-- The changes at each open checkpoint, the newest on top. -/
  copies : Pile Accounts := .empty
deriving Inhabited

namespace Pending

/-- The slots of an account, if there is a change to it. -/
def storage? (p : Pending) (address : Address) : Option Slots :=
  p.accounts.storage[address]?

/-- Replaces the slots of an account. -/
def setStorage (address : Address) (slots : Slots) (p : Pending) : Pending :=
  { p with accounts.storage := p.accounts.storage.insert address slots }

/-- The code deployed at an address, if any was. -/
def code? (p : Pending) (address : Address) : Option Bytes :=
  p.accounts.code[address]?

/-- Deploys code at an address. -/
def setCode (address : Address) (code : Bytes) (p : Pending) : Pending :=
  { p with accounts.code := p.accounts.code.insert address code }

/-- Deploys the listed codes one after another. -/
def setCodes (entries : List (Address × Bytes)) (p : Pending) : Pending :=
  entries.foldl (fun p e => p.setCode e.1 e.2) p

/-- Whether nothing is pending. -/
def isEmpty (p : Pending) : Bool :=
  p.accounts.storage.isEmpty && p.accounts.code.isEmpty

instance : Checkpointed Pending where
  checkpoint p := (p.copies.size, { p with copies := p.copies.push p.accounts })
  revertTo handle p :=
    let (accounts, copies) := Snapshots.revertTo p.accounts p.copies handle
    { accounts, copies }
  commit handle p := { p with copies := p.copies.keep handle }

end Pending
end CallTree
