import CallTree.Hash.Keccak
import CallTree.Hash.Rlp
import CallTree.Word

/-!
# Addresses of created contracts

The address of a contract is determined by its creator and by how many contracts that creator has
made before: the last 20 bytes of the digest of the encoded pair.
-/

namespace CallTree

/-- The encoding of a creator and a nonce that is hashed into an address. -/
def createPreimage (creator : Address) (nonce : Nat) : List UInt8 :=
  Rlp.list [Rlp.string creator.toBytes.data.toList, Rlp.number nonce]

/-- The address of the contract that `creator` makes with its nonce at `nonce`, by a given digest. -/
def addressBy (digest : Bytes → Bytes) (creator : Address) (nonce : Nat) : Address :=
  BitVec.ofNat 160 (digest ⟨(createPreimage creator nonce).toArray⟩).toNat

/-- The address of the contract that `creator` makes with its nonce at `nonce`. -/
def createAddress : Address → Nat → Address :=
  addressBy Keccak.digest

end CallTree
