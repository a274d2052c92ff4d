import CallTree.CreateAddress
import CallTree.Storage

/-!
# The world

The committed accounts: their slots, their code, and how many contracts each of them has created.
-/

namespace CallTree

/-- The committed accounts. -/
structure World where
  /-- The slots of each account. -/
  storage : FinMap Address Slots := ∅
  /-- The code of each account. -/
  code : FinMap Address Bytes := ∅
  /-- How many contracts each account has created. -/
  nonces : FinMap Address Nat := ∅
  /-- The digest that the addresses of new contracts are taken from. -/
  digest : Bytes → Bytes := Keccak.digest

instance : Inhabited World :=
  ⟨{}⟩

namespace World

/-- Deploys code at an address. -/
def setCode (address : Address) (code : Bytes) (w : World) : World :=
  { w with code := w.code.insert address code }

/-- Deploys the listed codes one after another. -/
def setCodes (entries : List (Address × Bytes)) (w : World) : World :=
  entries.foldl (fun w e => w.setCode e.1 e.2) w

/-- The code at an address, if any was ever deployed there. -/
def code? (w : World) (address : Address) : Option Bytes :=
  w.code[address]?

/-- Whether there is code at an address that is not empty. -/
def hasCode (w : World) (address : Address) : Bool :=
  match w.code? address with
  | some code => code.size != 0
  | none => false

/-- All slots of an account. -/
def storageOf (w : World) (address : Address) : Slots :=
  w.storage[address]?.getD ∅

/-- The value of one slot. -/
def load (w : World) (address : Address) (key : Word) : Word :=
  (w.storageOf address).load key

/-- Writes one slot; zero removes it. -/
def store (address : Address) (key value : Word) (w : World) : World :=
  { w with storage := w.storage.insert address ((w.storageOf address).store key value) }

/-- Replaces all slots of an account; zeros are left out. -/
def setStorage (address : Address) (slots : Slots) (w : World) : World :=
  { w with storage := w.storage.insert address slots.nonzero }

/-- Replaces the slots of the listed accounts one after another. -/
def setStorages (entries : List (Address × Slots)) (w : World) : World :=
  entries.foldl (fun w e => w.setStorage e.1 e.2) w

/-- How many contracts an account has created. -/
def nonce (w : World) (creator : Address) : Nat :=
  w.nonces[creator]?.getD 0

/-- The address of the next contract that `creator` makes; it is used up by asking. -/
def nextCreateAddress (creator : Address) (w : World) : Address × World :=
  let nonce := w.nonce creator
  (addressBy w.digest creator nonce, { w with nonces := w.nonces.insert creator (nonce + 1) })

end World
end CallTree
