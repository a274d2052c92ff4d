/-!
# Checkpoints

A container that several frames share can be rolled back. Opening a checkpoint yields a handle:
the number of checkpoints that were open before. Reverting to a handle undoes everything since
that checkpoint was opened and closes it together with all opened after it; committing keeps
everything and closes the same ones. A handle whose checkpoint is no longer open is ignored.
-/

namespace CallTree

/-- Containers that can be rolled back to a checkpoint. -/
class Checkpointed (σ : Type) where
  /-- Opens a checkpoint. -/
  checkpoint : σ → Nat × σ
  /-- Undoes every change since the checkpoint and closes it. -/
  revertTo : Nat → σ → σ
  /-- Keeps every change since the checkpoint and closes it. -/
  commit : Nat → σ → σ

/-- Closes a checkpoint, keeping or undoing the changes since. -/
def settle {σ : Type} [Checkpointed σ] (keep : Bool) (handle : Nat) (s : σ) : σ :=
  if keep then Checkpointed.commit handle s else Checkpointed.revertTo handle s

end CallTree
