import CallTree.Bytes
import CallTree.Opcode
import Std.Data.ExtTreeSet

/-!
# Programs

A program is code together with the set of its jump destinations. The destinations are found by
one walk from the first byte that steps over immediates, so a destination byte inside the data of
a push is not one of them. `Program` carries the equation between the two, hence a stored set can
never disagree with its code.
-/

namespace CallTree

/-- The jump destinations among the bytes from `offset` on, of which the first `skip` are data of
an instruction before them. -/
def scanDestinations (offset skip : Nat) : List UInt8 → List Nat
  | [] => []
  | b :: rest =>
    match skip with
    | 0 =>
      let op := Opcode.ofByte b
      let later := scanDestinations (offset + 1) op.immediateSize rest
      if op = .jumpDest then offset :: later else later
    | skip + 1 => scanDestinations (offset + 1) skip rest

/-- The offsets of all jump destinations, in ascending order. -/
def jumpDestinations (code : Bytes) : List Nat :=
  scanDestinations 0 0 code.data.toList

/-- The offsets at which an instruction starts, walking from the first byte. The last one may lie
past the end of the code. -/
inductive Boundary (code : Bytes) : Nat → Prop
  /-- The first byte starts an instruction. -/
  | start : Boundary code 0
  /-- After an instruction and its immediate the next one starts. -/
  | next {i : Nat} (hi : i < code.size) (h : Boundary code i) :
      Boundary code (i + 1 + (Opcode.ofByte code[i]).immediateSize)

/-- Code with the set of its jump destinations. -/
structure Program where
  /-- The bytes that are executed. -/
  code : Bytes
  /-- The offsets a jump may go to. -/
  targets : Std.ExtTreeSet Nat
  /-- The set is the one that the code determines. -/
  targets_eq : targets = Std.ExtTreeSet.ofList (jumpDestinations code)
deriving DecidableEq

namespace Program

/-- The program of a code. -/
def ofCode (code : Bytes) : Program :=
  ⟨code, Std.ExtTreeSet.ofList (jumpDestinations code), rfl⟩

instance : Inhabited Program :=
  ⟨ofCode ByteArray.empty⟩

/-- The byte at `pc`, if `pc` is inside the code. -/
def byteAt? (p : Program) (pc : Nat) : Option UInt8 :=
  if h : pc < p.code.size then some p.code[pc] else none

/-- The instruction at `pc`; outside the code it is undefined. -/
def opAt (p : Program) (pc : Nat) : Opcode :=
  if h : pc < p.code.size then Opcode.ofByte p.code[pc] else .undefined

/-- Whether `dest` is a jump destination. -/
def isTarget (p : Program) (dest : Nat) : Bool :=
  p.targets.contains dest

/-- A jump is valid exactly to the destinations that the walk over the code finds. -/
theorem isTarget_iff (p : Program) (dest : Nat) :
    p.isTarget dest = true ↔ dest ∈ jumpDestinations p.code := by
  rw [isTarget, p.targets_eq, Std.ExtTreeSet.contains_ofList]
  simp

end Program
end CallTree
