import CallTree.Bytes

/-!
# Keccak-256

The sponge with 1088 bits of rate and the padding that starts with a one bit. Its state is five
by five lanes of 64 bits, where lane `(x, y)` has the index `x + 5 * y`.
-/

namespace CallTree.Keccak

/-- The state of the sponge. -/
abbrev Lanes := Vector UInt64 25

/-- Rotation towards the high bits. -/
def rotate (v : UInt64) (n : UInt64) : UInt64 :=
  if n = 0 then v else (v <<< n) ||| (v >>> (64 - n))

/-- By how much each lane is rotated. -/
def offsets : Vector UInt64 25 :=
  #v[0, 1, 62, 28, 27,
     36, 44, 6, 55, 20,
     3, 10, 43, 25, 39,
     41, 45, 15, 21, 8,
     18, 2, 61, 56, 14]

/-- What is mixed into the first lane at the end of each round. -/
def roundConstants : List UInt64 :=
  [0x0000000000000001, 0x0000000000008082, 0x800000000000808A, 0x8000000080008000,
   0x000000000000808B, 0x0000000080000001, 0x8000000080008081, 0x8000000000008009,
   0x000000000000008A, 0x0000000000000088, 0x0000000080008009, 0x000000008000000A,
   0x000000008000808B, 0x800000000000008B, 0x8000000000008089, 0x8000000000008003,
   0x8000000000008002, 0x8000000000000080, 0x000000000000800A, 0x800000008000000A,
   0x8000000080008081, 0x8000000000008080, 0x0000000080000001, 0x8000000080008008]

/-- Adds to every lane the parity of two neighbouring columns. -/
def theta (a : Lanes) : Lanes :=
  let parity : Vector UInt64 5 := Vector.ofFn fun x =>
    a[x.val] ^^^ a[x.val + 5] ^^^ a[x.val + 10] ^^^ a[x.val + 15] ^^^ a[x.val + 20]
  let mixed : Vector UInt64 5 := Vector.ofFn fun x =>
    parity[(x.val + 4) % 5] ^^^ rotate parity[(x.val + 1) % 5] 1
  Vector.ofFn fun i => a[i] ^^^ mixed[i.val % 5]

/-- Rotates every lane and moves it to its new place. -/
def rhoPi (a : Lanes) : Lanes :=
  Vector.ofFn fun i =>
    let y := i.val % 5
    let x := (i.val % 5 + 3 * (i.val / 5)) % 5
    rotate a[x + 5 * y] offsets[x + 5 * y]

/-- Combines every lane with the next two of its row. -/
def chi (a : Lanes) : Lanes :=
  Vector.ofFn fun i =>
    let x := i.val % 5
    let row := 5 * (i.val / 5)
    a[i] ^^^ (~~~ a[row + (x + 1) % 5] &&& a[row + (x + 2) % 5])

/-- One round. -/
def round (a : Lanes) (constant : UInt64) : Lanes :=
  let b := chi (rhoPi (theta a))
  b.set 0 (b[0] ^^^ constant)

/-- The permutation of 24 rounds. -/
def permute (a : Lanes) : Lanes :=
  roundConstants.foldl round a

/-- The number of bytes taken in between two permutations. -/
def rate : Nat := 136

/-- The lane that eight bytes spell, least significant byte first. -/
def laneAt (b : Bytes) (offset : Nat) : UInt64 :=
  (List.range 8).foldr (fun i v =>
    (v <<< 8) ||| (if h : offset + i < b.size then b[offset + i].toUInt64 else 0)) 0

/-- Mixes one block of `rate` bytes into the state. -/
def absorb (a : Lanes) (block : Bytes) : Lanes :=
  permute (Vector.ofFn fun i =>
    if i.val < 17 then a[i] ^^^ laneAt block (8 * i.val) else a[i])

/-- The message with its padding: a one bit, zeros, and a one bit that ends the last block. -/
def pad (message : Bytes) : Bytes :=
  let free := rate - message.size % rate
  if free = 1 then
    message.push 0x81
  else
    (Bytes.extendZeros (free - 2) (message.push 0x01)).push 0x80

/-- The eight bytes of a lane, least significant first. -/
def laneBytes (v : UInt64) : List UInt8 :=
  (List.range 8).map fun i => (v >>> (8 * i.toUInt64)).toUInt8

/-- The 32 bytes of the digest. -/
def digest (message : Bytes) : Bytes :=
  let padded := pad message
  let state := (List.range (padded.size / rate)).foldl
    (fun a i => absorb a (padded.extract (rate * i) (rate * (i + 1)))) (Vector.replicate 25 0)
  ⟨(((List.range 4).flatMap fun i => laneBytes (state[i]?.getD 0))).toArray⟩

end CallTree.Keccak
