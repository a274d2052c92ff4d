import CallTree.Amount

/-!
# Byte strings

Code, call input, return data and memory are byte strings. A read may reach past the end of one:
the missing bytes are zero. Numbers are written with the most significant byte first.
-/

namespace CallTree

/-- Code, call input, return data or the contents of a memory. -/
abbrev Bytes := ByteArray

/-- The comparison of byte strings by their bytes is equality. -/
instance : LawfulBEq Bytes where
  eq_of_beq {a b} h := by
    obtain ⟨a⟩ := a
    obtain ⟨b⟩ := b
    change (a == b) = true at h
    simpa using h
  rfl {a} := by
    obtain ⟨a⟩ := a
    change (a == a) = true
    simp

/-- Byte strings are compared by their bytes. -/
instance (priority := 2000) : DecidableEq Bytes := fun a b =>
  if h : (a == b) = true then .isTrue (eq_of_beq h) else .isFalse fun e => h (by simp [e])

namespace Bytes

/-- Appends `n` zero bytes. -/
def extendZeros : Nat → Bytes → Bytes
  | 0, b => b
  | n + 1, b => extendZeros n (b.push 0)

/-- A string of `n` zero bytes. -/
def zeros (n : Nat) : Bytes :=
  extendZeros n ByteArray.empty

/-- The `size` bytes from `offset` on; past the end they are zero. -/
def window (b : Bytes) (offset size : Nat) : Bytes :=
  if offset < b.size then
    let part := b.extract offset (min b.size (offset + size))
    extendZeros (size - part.size) part
  else
    zeros size

/-- Overwrites the bytes from `offset` on with `part`. -/
def splice (b : Bytes) (offset : Nat) (part : Bytes) : Bytes :=
  ByteArray.copySlice part 0 b offset part.size

/-- The first `n` bytes, or all of them when there are fewer. -/
def takeFirst (b : Bytes) (n : Nat) : Bytes :=
  if b.size ≤ n then b else b.extract 0 n

/-- The number that the first `n` bytes spell, most significant byte first. -/
def toNatUpTo (b : Bytes) : Nat → Nat
  | 0 => 0
  | n + 1 => toNatUpTo b n * 256 + (if h : n < b.size then b[n].toNat else 0)

/-- The number that the bytes spell, most significant byte first. -/
def toNat (b : Bytes) : Nat :=
  b.toNatUpTo b.size

/-- The last `width` base-256 digits of a number, most significant first. -/
def ofNat : (width : Nat) → Nat → Bytes
  | 0, _ => ByteArray.empty
  | width + 1, n => (ofNat width (n / 256)).push (UInt8.ofNat n)

/-- How many of the first `n` bytes are left when the zeros at their end are dropped. -/
def significant (b : Bytes) : Nat → Nat
  | 0 => 0
  | n + 1 =>
    if h : n < b.size then
      if b[n] = 0 then significant b n else n + 1
    else
      significant b n

/-- The bytes without the zeros at their end. -/
def dropTrailingZeros (b : Bytes) : Bytes :=
  b.takeFirst (b.significant b.size)

/-- Zero padding adds exactly the bytes asked for. -/
@[simp]
theorem size_extendZeros (n : Nat) (b : Bytes) : (extendZeros n b).size = b.size + n := by
  induction n generalizing b with
  | zero => rfl
  | succ n ih => simp [extendZeros, ih, ByteArray.size_push]; omega

/-- A window has the size asked for, wherever it lies. -/
@[simp]
theorem size_window (b : Bytes) (offset size : Nat) : (b.window offset size).size = size := by
  unfold window
  split
  · simp only [size_extendZeros, ByteArray.size_extract]
    omega
  · simp [zeros]

end Bytes
end CallTree
