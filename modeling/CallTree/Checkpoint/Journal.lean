import CallTree.Checkpoint.Basic
import CallTree.Pile

/-!
# Undo journals

A journal records what to undo instead of copying the contents. Its entries form a pile, the
newest on top. Each open checkpoint is a mark: what the container looked like in outline when it
was opened, and how many entries there were. The entries above a mark undo the changes made since.

Closing a checkpoint without undoing removes its mark only; the entries stay for the checkpoints
opened before it, which may still be reverted. Nothing is recorded while no checkpoint is open.
-/

namespace CallTree

/-- An open checkpoint. -/
structure Mark (τ : Type) where
  /-- What was noted about the container. -/
  note : τ
  /-- How many entries there were. -/
  position : Nat
deriving DecidableEq, Repr

/-- The entries that undo changes, and the open checkpoints. -/
structure Journal (τ ε : Type) where
  /-- What undoes the changes, the newest on top. -/
  entries : Pile ε := .empty
  /-- The open checkpoints, the newest on top. -/
  marks : Pile (Mark τ) := .empty
deriving DecidableEq, Repr

namespace Journal

variable {τ ε : Type}

instance : Inhabited (Journal τ ε) :=
  ⟨{}⟩

/-- The number of open checkpoints, which is the handle of the next one. -/
def depth (j : Journal τ ε) : Nat :=
  j.marks.size

/-- Opens a checkpoint. -/
def openWith (note : τ) (j : Journal τ ε) : Journal τ ε :=
  { j with marks := j.marks.push ⟨note, j.entries.size⟩ }

/-- Records an entry, if a checkpoint is open. -/
def record (entry : ε) (j : Journal τ ε) : Journal τ ε :=
  if j.marks.isEmpty then j else { j with entries := j.entries.push entry }

/-- The mark of a handle, if its checkpoint is open. -/
def mark? (j : Journal τ ε) (handle : Nat) : Option (Mark τ) :=
  j.marks.fromBottom? handle

/-- The entries recorded above a mark, the newest first. -/
def since (j : Journal τ ε) (mark : Mark τ) : List ε :=
  j.entries.toList.take (j.entries.size - mark.position)

/-- Closes the checkpoint of a handle and all later ones and forgets what was recorded since. -/
def forgetFrom (j : Journal τ ε) (handle : Nat) (mark : Mark τ) : Journal τ ε :=
  ⟨j.entries.keep mark.position, j.marks.keep handle⟩

/-- Closes the checkpoint of a handle and all later ones. With the last of them all entries go. -/
def commitFrom (j : Journal τ ε) (handle : Nat) : Journal τ ε :=
  let marks := j.marks.keep handle
  if marks.isEmpty then {} else { j with marks := marks }

end Journal
end CallTree
