import CallTree.Checkpoint.Snapshots
import CallTree.Fault

/-!
# The operand stack

A bounded stack of words. Checkpoints keep copies of the whole pile, which cost nothing since they
share its items.
-/

namespace CallTree

/-- An operand stack. -/
structure Stack where
  /-- How many items it may hold. -/
  limit : Nat := 1024
  /-- The items. -/
  items : Pile Word := .empty
  /-- The items at each open checkpoint, the newest on top. -/
  copies : Pile (Pile Word) := .empty
deriving DecidableEq, Repr, Inhabited

namespace Stack

/-- The number of items a stack may hold unless told otherwise. -/
def defaultLimit : Nat := 1024

/-- An empty stack of at most `limit` items. -/
def withLimit (limit : Nat) : Stack :=
  { limit := limit }

/-- The number of items. -/
def size (s : Stack) : Nat :=
  s.items.size

/-- Puts a word on top. -/
@[inline]
def push (w : Word) : Action Stack Unit := fun s =>
  if s.limit ≤ s.size then
    .error (.fault .stackOverflow) s
  else
    .ok () { s with items := s.items.push w }

/-- Takes the topmost word. -/
@[inline]
def pop : Action Stack Word := fun s =>
  match s.items.toList with
  | [] => .error (.fault .stackUnderflow) s
  | w :: _ => .ok w { s with items := s.items.drop 1 }

/-- Takes the topmost word as an offset or a size. -/
@[inline]
def popAmount : Action Stack Nat := fun s =>
  match pop s with
  | .ok w s => .ok w.toAmount s
  | .error e s => .error e s

/-- The word with `depth` items above it. -/
def peekAt (s : Stack) (depth : Nat) : Except Fault Word :=
  match s.items.get? depth with
  | some w => .ok w
  | none => .error .stackUnderflow

/-- The topmost word. -/
def peek (s : Stack) : Except Fault Word :=
  s.peekAt 0

/-- Exchanges the topmost word with the one `n` below it, where `n` is not zero. -/
def swap (n : Nat) : Action Stack Unit := fun s =>
  match n, s.items with
  | m + 1, ⟨top :: rest, size, h⟩ =>
    match rest[m]? with
    | some deep =>
      .ok () { s with items := ⟨deep :: rest.set m top, size, by simpa using h⟩ }
    | none => .error (.fault .stackUnderflow) s
  | _, _ => .error (.fault .stackUnderflow) s

/-- Repeats the `n`-th word from the top, counted from one. -/
def dup (n : Nat) : Action Stack Unit := fun s =>
  match n with
  | 0 => .error (.fault .stackUnderflow) s
  | m + 1 =>
    match s.items.get? m with
    | some w => push w s
    | none => .error (.fault .stackUnderflow) s

instance : Checkpointed Stack where
  checkpoint s := (s.copies.size, { s with copies := s.copies.push s.items })
  revertTo handle s :=
    let (items, copies) := Snapshots.revertTo s.items s.copies handle
    { s with items, copies }
  commit handle s := { s with copies := s.copies.keep handle }

end Stack
end CallTree
