import CallTree.Workspace
import CallTree.Proofs.MemoryUndo
import CallTree.Proofs.Slots

/-!
# Workspaces as contents with copies

What a frame can see of its workspace are the contents of the four containers. An internal call
opens a checkpoint on each of them, so a workspace has a past: the contents at each open
checkpoint. `Workspace.Recalls` ties the two together. `Recalls.checkpoint` and `Recalls.settle`
say that opening and closing checkpoints acts on the past like pushing and popping copies of
everything, although only two of the containers keep copies.
-/

namespace CallTree

/-- What the four containers of a workspace hold. -/
@[ext]
structure Contents where
  /-- The operands. -/
  operands : Pile Word
  /-- The bytes of the memory. -/
  bytes : Bytes
  /-- The slots of the account that is run. -/
  slots : Slots
  /-- The changes to other accounts. -/
  accounts : Accounts

namespace Marks

/-- The handles of an internal call that has `n` others before it on the same workspace. -/
def level (n : Nat) : Marks :=
  ⟨n, n, n, n⟩

end Marks

namespace Stack

/-- The items at each open checkpoint, the newest first. -/
def Recalls (s : Stack) (copies : List (Pile Word)) : Prop :=
  s.copies.toList = copies

/-- Opening a checkpoint yields the number of those open and adds the items to the copies. -/
theorem Recalls.checkpoint {s : Stack} {copies : List (Pile Word)} (h : s.Recalls copies) :
    (Checkpointed.checkpoint s).1 = copies.length ∧
      (Checkpointed.checkpoint s).2.items = s.items ∧
      (Checkpointed.checkpoint s).2.Recalls (s.items :: copies) := by
  refine ⟨?_, rfl, ?_⟩
  · rw [← h]
    exact s.copies.size_eq
  · show s.items :: s.copies.toList = s.items :: copies
    rw [h]

end Stack

namespace Pending

/-- The accounts at each open checkpoint, the newest first. -/
def Recalls (p : Pending) (copies : List Accounts) : Prop :=
  p.copies.toList = copies

/-- Opening a checkpoint yields the number of those open and adds the accounts to the copies. -/
theorem Recalls.checkpoint {p : Pending} {copies : List Accounts} (h : p.Recalls copies) :
    (Checkpointed.checkpoint p).1 = copies.length ∧
      (Checkpointed.checkpoint p).2.accounts = p.accounts ∧
      (Checkpointed.checkpoint p).2.Recalls (p.accounts :: copies) := by
  refine ⟨?_, rfl, ?_⟩
  · rw [← h]
    exact p.copies.size_eq
  · show p.accounts :: p.copies.toList = p.accounts :: copies
    rw [h]

end Pending

/-! ## Full copies -/

/-- Reverting to the newest of some copies. -/
theorem Snapshots.revert_newest {α : Type} (contents copy : α) {copies : Pile α} {older : List α}
    (h : copies.toList = copy :: older) :
    (revertTo contents copies older.length).1 = copy ∧
      (revertTo contents copies older.length).2.toList = older := by
  obtain ⟨_, size, hsize⟩ := copies
  cases h
  cases hsize
  simp [revertTo, Pile.fromBottom?, Pile.keep]

/-- Keeping all copies but the newest. -/
theorem Pile.keep_tail {α : Type} {p : Pile α} {a : α} {below : List α}
    (h : p.toList = a :: below) :
    (p.keep below.length).toList = below := by
  obtain ⟨_, size, hsize⟩ := p
  cases h
  cases hsize
  simp [Pile.keep]

/-- Closing the newest checkpoint of a stack. -/
theorem Stack.Recalls.settle {s : Stack} {copy : Pile Word} {copies : List (Pile Word)}
    (h : s.Recalls (copy :: copies)) (keep : Bool) :
    (settle keep copies.length s).items = (if keep then s.items else copy) ∧
      (settle keep copies.length s).Recalls copies := by
  cases keep with
  | true => exact ⟨rfl, Pile.keep_tail h⟩
  | false => exact Snapshots.revert_newest s.items copy h

/-- The limit of a stack is settled when it is made. -/
theorem Stack.limit_settle (keep : Bool) (handle : Nat) (s : Stack) :
    (settle keep handle s).limit = s.limit := by
  cases keep <;> rfl

/-- Closing the newest checkpoint of a pending state. -/
theorem Pending.Recalls.settle {p : Pending} {copy : Accounts} {copies : List Accounts}
    (h : p.Recalls (copy :: copies)) (keep : Bool) :
    (settle keep copies.length p).accounts = (if keep then p.accounts else copy) ∧
      (settle keep copies.length p).Recalls copies := by
  cases keep with
  | true => exact ⟨rfl, Pile.keep_tail h⟩
  | false => exact Snapshots.revert_newest p.accounts copy h

namespace Workspace

/-- What the containers hold. -/
def contents (w : Workspace) : Contents :=
  ⟨w.stack.items, w.memory.data, w.storage.slots, w.pending.accounts⟩

/-- The contents at each open checkpoint, the newest first. Every container has as many open as
there are copies, and can be brought back to each. -/
structure Recalls (w : Workspace) (copies : List Contents) : Prop where
  stack : w.stack.Recalls (copies.map (·.operands))
  memory : w.memory.Recalls (copies.map (·.bytes))
  storage : w.storage.Recalls (copies.map (·.slots))
  pending : w.pending.Recalls (copies.map (·.accounts))

/-- Opening a checkpoint on every container adds the contents to the copies. -/
theorem Recalls.checkpoint {w : Workspace} {copies : List Contents} (h : w.Recalls copies) :
    w.checkpoint.1 = Marks.level copies.length ∧ w.checkpoint.2.contents = w.contents ∧
      w.checkpoint.2.Recalls (w.contents :: copies) := by
  obtain ⟨hstack, _, hstack'⟩ := h.stack.checkpoint
  obtain ⟨hmemory, _, hmemory'⟩ := h.memory.checkpoint
  obtain ⟨hstorage, _, hstorage'⟩ := h.storage.checkpoint
  obtain ⟨hpending, _, hpending'⟩ := h.pending.checkpoint
  rw [List.length_map] at hstack hmemory hstorage hpending
  refine ⟨?_, rfl, hstack', hmemory', hstorage', hpending'⟩
  rw [Marks.level, ← hstack]
  simp only [Workspace.checkpoint, hstack, hmemory, hstorage, hpending]

/-- Closing the newest checkpoints keeps the contents or brings their copy back, and leaves the
older copies. -/
theorem Recalls.settle {w : Workspace} {copy : Contents} {copies : List Contents}
    (h : w.Recalls (copy :: copies)) (keep : Bool) :
    (w.settle keep (Marks.level copies.length)).contents = (if keep then w.contents else copy) ∧
      (w.settle keep (Marks.level copies.length)).Recalls copies := by
  obtain ⟨hstack, hstack'⟩ := Stack.Recalls.settle h.stack keep
  obtain ⟨hmemory, hmemory'⟩ := Memory.Recalls.settle h.memory keep
  obtain ⟨hstorage, hstorage'⟩ := Storage.Recalls.settle h.storage keep
  obtain ⟨hpending, hpending'⟩ := Pending.Recalls.settle h.pending keep
  rw [List.length_map] at hstack hstack' hmemory hmemory' hstorage hstorage' hpending hpending'
  refine ⟨?_, hstack', hmemory', hstorage', hpending'⟩
  have hall : (w.settle keep (Marks.level copies.length)).contents =
      ⟨_, _, _, _⟩ := congr (congr (congr (congrArg Contents.mk hstack) hmemory) hstorage) hpending
  rw [hall]
  cases keep <;> rfl

end Workspace
end CallTree
