import CallTree.Hex

/-!
# Words and addresses

A word is 256 bits wide: it is what the operand stack holds, and both the key and the value of a
storage slot. An address is the low 160 bits of a word.
-/

namespace CallTree

/-- An operand, a storage key or a stored value. -/
abbrev Word := BitVec 256

/-- The name of an account. -/
abbrev Address := BitVec 160

namespace Word

/-- How many words there are. -/
def modulus : Nat :=
  0x10000000000000000000000000000000000000000000000000000000000000000

/-- The word of a number, of which the low 256 bits count. A number in range is taken as it is. -/
def ofNat (n : Nat) : Word :=
  if h : n < modulus then BitVec.ofNatLT n h else BitVec.ofNat 256 n

/-- The sum of two words. -/
def add (a b : Word) : Word :=
  ofNat (a.toNat + b.toNat)

/-- The product of two words. -/
def mul (a b : Word) : Word :=
  ofNat (a.toNat * b.toNat)

/-- The difference of two words. -/
def sub (a b : Word) : Word :=
  if b.toNat ≤ a.toNat then ofNat (a.toNat - b.toNat) else a - b

/-- The word that 32 bytes spell; of a longer string the last 32 bytes count. -/
def ofBytes (b : Bytes) : Word :=
  ofNat b.toNat

/-- The 32 bytes of a word. -/
def toBytes (w : Word) : Bytes :=
  Bytes.ofNat 32 w.toNat

/-- One for a condition that holds, zero for one that does not. -/
def ofBool (b : Bool) : Word :=
  if b then 1 else 0

/-- A word as an amount. Whatever does not fit becomes the largest amount. -/
def toAmount (w : Word) : Nat :=
  min w.toNat maxAmount

/-- The text of a word. -/
def text (w : Word) : String :=
  "0x" ++ Hex.number w.toNat

/-- The text of a word in its role as a storage key. -/
def keyText (w : Word) : String :=
  "StorageKey(" ++ toString w.toNat ++ ")"

/-- Reads the text of a word. -/
def ofText? (s : String) : Option Word :=
  (Hex.number? s).map ofNat

/-- Only the low bits of a number count. -/
@[simp]
theorem ofNat_eq (n : Nat) : ofNat n = BitVec.ofNat 256 n := by
  unfold ofNat
  split
  · rename_i h
    exact BitVec.eq_of_toNat_eq (Nat.mod_eq_of_lt h).symm
  · rfl

/-- Words add up as bit vectors do. -/
@[simp]
theorem add_eq (a b : Word) : add a b = a + b := by
  rw [add, ofNat_eq]
  rfl

/-- Words are multiplied as bit vectors are. -/
@[simp]
theorem mul_eq (a b : Word) : mul a b = a * b := by
  rw [mul, ofNat_eq]
  rfl

/-- Words are subtracted as bit vectors are. -/
@[simp]
theorem sub_eq (a b : Word) : sub a b = a - b := by
  unfold sub
  split
  · rename_i h
    apply BitVec.eq_of_toNat_eq
    rw [ofNat_eq, BitVec.toNat_ofNat, BitVec.toNat_sub_of_le h, Nat.mod_eq_of_lt]
    exact Nat.lt_of_le_of_lt (Nat.sub_le _ _) a.isLt
  · rfl

end Word

namespace Address

/-- The low 20 bytes of a word. -/
def ofWord (w : Word) : Address :=
  w.setWidth 160

/-- The word whose low 20 bytes are the address. -/
def toWord (a : Address) : Word :=
  a.setWidth 256

/-- The address whose last byte is `n`. -/
def ofLow (n : UInt8) : Address :=
  BitVec.ofNat 160 n.toNat

/-- The 20 bytes of an address. -/
def toBytes (a : Address) : Bytes :=
  Bytes.ofNat 20 a.toNat

/-- Reads an address from a string of exactly 20 bytes. -/
def ofBytes? (b : Bytes) : Option Address :=
  if b.size = 20 then some (BitVec.ofNat 160 b.toNat) else none

/-- The full text of an address. -/
def text (a : Address) : String :=
  "0x" ++ Hex.encode a.toBytes

/-- The abbreviated text of an address: its first four and its last two bytes. -/
def shortText (a : Address) : String :=
  "0x" ++ Hex.encode (a.toBytes.extract 0 4) ++ "..." ++ Hex.encode (a.toBytes.extract 18 20)

/-- Reads the full text of an address. -/
def ofText? (s : String) : Option Address :=
  match s.toList with
  | '0' :: 'x' :: digits => (Hex.decodeOnto ByteArray.empty digits).bind ofBytes?
  | _ => none

end Address

/-- The text of a byte string: up to eight bytes in full, of a longer one the first four and the
length. -/
def Bytes.text (b : Bytes) : String :=
  if b.size ≤ 8 then
    "0x" ++ Hex.encode b
  else
    "0x" ++ Hex.encode (b.takeFirst 4) ++ "..(" ++ toString b.size ++ " bytes)"

end CallTree
