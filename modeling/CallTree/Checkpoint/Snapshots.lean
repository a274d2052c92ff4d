import CallTree.Checkpoint.Basic
import CallTree.Pile

/-!
# Full copies

The simplest way to undo: each open checkpoint keeps a copy of the whole contents. The copies form
a pile, and the handle of a checkpoint is the number of its copy from the bottom.
-/

namespace CallTree.Snapshots

variable {α : Type}

/-- Contents and copies after undoing everything since a handle. -/
def revertTo (contents : α) (copies : Pile α) (handle : Nat) : α × Pile α :=
  match copies.fromBottom? handle with
  | some copy => (copy, copies.keep handle)
  | none => (contents, copies)

end CallTree.Snapshots
