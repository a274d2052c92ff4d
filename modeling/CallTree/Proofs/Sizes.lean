import Mathlib.Algebra.Group.Nat.Defs
import CallTree.Proofs.Triples

/-!
# Sizes

All numbers of a run are amounts as long as no memory may grow beyond `largestMemory` bytes and no
code has more than `largestCode`. This module says so of costs and of containers: growing and writing
a memory never overflows (`Memory.expand_sized`, `Memory.write_sized`), and the bounds survive that
checkpoints are opened and closed.
-/

namespace CallTree

/-- The largest memory whose cost is an amount, with every intermediate result: one word less than
`2 ^ 32` words. -/
def largestMemory : Nat :=
  2 ^ 37 - 32

/-- More bytes than a machine can address are in no code. -/
def largestCode : Nat :=
  2 ^ 63 - 1

/-! ## Costs -/

namespace Gas

/-- The cost of a memory of less than `2 ^ 32` words is an amount. -/
theorem memory_fits {words : Nat} (h : words < 2 ^ 32) :
    memory? words = some (words * words / 512 + 3 * words) := by
  have hsquare : words * words ≤ (2 ^ 32 - 1) * (2 ^ 32 - 1) :=
    Nat.mul_le_mul (by omega) (by omega)
  have hfit : ∀ n, n ≤ maxAmount → fit? n = some n := fun n hn => fit?_eq_some_iff.2 ⟨hn, rfl⟩
  unfold maxAmount at hfit
  simp only [memory?, hfit (words * words) (by omega), hfit (3 * words) (by omega),
    hfit (words * words / 512 + 3 * words) (by omega), Option.bind_eq_bind, Option.bind_some]

/-- A larger memory costs more, so the cost of its growth is an amount. -/
theorem memory_growth_fits (old : Nat) {new : Nat} (h : new < 2 ^ 32) :
    ∃ cost, memoryGrowth? old new = some cost := by
  unfold memoryGrowth?
  split
  · exact ⟨0, rfl⟩
  · rename_i hlt
    have hsquare : old * old / 512 ≤ new * new / 512 :=
      Nat.div_le_div_right (Nat.mul_le_mul (by omega) (by omega))
    have hle : old * old / 512 + 3 * old ≤ new * new / 512 + 3 * new := by omega
    rw [memory_fits h, memory_fits (by omega)]
    exact ⟨_, if_pos hle⟩

/-- The cost of logging from a memory is an amount. -/
theorem log_data_fits {size topics : Nat} (hsize : size ≤ largestMemory) (htopics : topics ≤ 4) :
    ∃ cost, logData? size topics = some cost := by
  have hfit : ∀ n, n ≤ maxAmount → fit? n = some n := fun n hn => fit?_eq_some_iff.2 ⟨hn, rfl⟩
  unfold maxAmount at hfit
  unfold largestMemory at hsize
  refine ⟨375 * topics + 8 * size, ?_⟩
  simp only [logData?, logTopic, logByte, hfit (375 * topics) (by omega), hfit (8 * size) (by omega),
    hfit (375 * topics + 8 * size) (by omega), Option.bind_eq_bind, Option.bind_some]

/-- The cost of deploying code from a memory is an amount. -/
theorem code_deposit_fits {size : Nat} (hsize : size ≤ largestMemory) :
    ∃ cost, codeDeposit? size = some cost := by
  unfold largestMemory at hsize
  exact ⟨_, fit?_eq_some_iff.2 ⟨by unfold codeDepositByte maxAmount; omega, rfl⟩⟩

end Gas

/-! ## Containers -/

/-- What a refused action leaves behind: no overflow, and a state with `S`. -/
def Refused {σ : Type} (S : σ → Prop) (e : Abort) (s : σ) : Prop :=
  e ≠ .overflow ∧ S s

/-- The memory is within the bounds, and so are the lengths noted at its open checkpoints. -/
structure Memory.Sized (m : Memory) : Prop where
  limit : m.limit ≤ largestMemory
  size : m.data.size ≤ largestMemory
  notes : ∀ mark ∈ m.journal.marks.toList, mark.note ≤ largestMemory

/-- No code is larger than code can be. -/
def Accounts.Sized (accounts : Accounts) : Prop :=
  ∀ (a : Address) (code : Bytes), accounts.code[a]? = some code → code.size ≤ largestCode

/-- The same of all pending code, now or at an open checkpoint. -/
structure Pending.Sized (p : Pending) : Prop where
  accounts : p.accounts.Sized
  copies : ∀ copy ∈ p.copies.toList, copy.Sized

structure Workspace.Sized (w : Workspace) : Prop where
  memory : w.memory.Sized
  pending : w.pending.Sized

/-- The bytes of a result that a child has left. -/
def StagedResult.data : StagedResult → Bytes
  | .empty => ByteArray.empty
  | .returned _ data => data
  | .reverted _ data => data

/-- The program of the frame is no larger than code can be, and results come from a memory. -/
structure Frame.Sized (f : Frame) : Prop where
  code : f.program.code.size ≤ largestCode
  output : f.output.size ≤ largestMemory
  staged : f.staged.data.size ≤ largestMemory

structure Activation.Sized (x : Activation) : Prop where
  frame : x.frame.Sized
  space : ∀ w, x.space = some w → w.Sized

namespace Pile

variable {α : Type} {p : Pile α} {a : α} {n : Nat}

/-- What is found by counting from the bottom is in the pile. -/
theorem mem_from_bottom (h : p.fromBottom? n = some a) : a ∈ p.toList := by
  unfold fromBottom? at h
  split at h
  · exact List.mem_of_getElem? h
  · cases h

/-- What is kept was in the pile. -/
theorem mem_of_keep (h : a ∈ (p.keep n).toList) : a ∈ p.toList :=
  List.mem_of_mem_drop h

end Pile

namespace Memory

open CallTree.Action (Triple)

/-- A memory has less than `2 ^ 32` words. -/
theorem Sized.words_lt {m : Memory} (h : m.Sized) : m.words < 2 ^ 32 := by
  have hsize := h.size
  unfold largestMemory at hsize
  unfold words wordsFor Memory.size
  omega

/-- Growing a memory never overflows, and a region that lies inside it is no larger. -/
theorem expand_sized (offset size : Nat) :
    Triple Sized (expand offset size) (fun _ m => size ≤ largestMemory ∧ m.Sized)
      (Refused Sized) := by
  intro m hm
  have hlimit := hm.limit
  have hinside := hm.size
  unfold expand
  by_cases hzero : size = 0
  · rw [if_pos hzero]
    exact ⟨hzero ▸ Nat.zero_le _, hm⟩
  rw [if_neg hzero]
  by_cases hfar : maxAmount < offset + size
  · rw [if_pos hfar]
    exact ⟨by simp, hm⟩
  rw [if_neg hfar]
  by_cases hwithin : offset + size ≤ m.size
  · rw [if_pos hwithin]
    exact ⟨Nat.le_trans (Nat.le_trans (Nat.le_add_left _ _) hwithin) hinside, hm⟩
  rw [if_neg hwithin]
  by_cases hbeyond : m.limit < offset + size
  · rw [if_pos hbeyond]
    exact ⟨by simp, hm⟩
  rw [if_neg hbeyond]
  -- The limit is a whole number of words, so the region ends inside it even when it is rounded up.
  have hwords : wordsFor (offset + size) * 32 ≤ largestMemory := by
    unfold largestMemory at hlimit ⊢
    unfold wordsFor
    omega
  have hfit : fit? (wordsFor (offset + size) * 32) = some (wordsFor (offset + size) * 32) :=
    fit?_eq_some_iff.2 ⟨Nat.le_trans hwords (by decide), rfl⟩
  simp only [hfit]
  refine ⟨by omega, hlimit, ?_, hm.notes⟩
  rw [Bytes.size_extendZeros]
  omega

/-- Neither does writing. -/
theorem write_sized (offset : Nat) (part : Bytes) :
    Triple Sized (write offset part) (fun _ => Sized) (Refused Sized) := by
  intro m hm
  unfold write
  by_cases hempty : part.size = 0
  · rw [if_pos hempty]
    exact hm
  rw [if_neg hempty]
  have hgrows := expand_sized offset part.size m hm
  cases hexpand : expand offset part.size m with
  | error e m' =>
      rw [hexpand] at hgrows
      exact hgrows
  | ok added m' =>
      rw [hexpand] at hgrows
      obtain ⟨_, _, hinside⟩ := expand_cases hexpand
      obtain ⟨_, hlimit, hsize, hnotes⟩ := hgrows
      refine ⟨hlimit, ?_, ?_⟩
      · show (m'.data.splice offset part).size ≤ largestMemory
        rw [Bytes.size_splice (hinside hempty).1]
        exact hsize
      · intro mark hmark
        refine hnotes mark ?_
        simp only [Journal.record] at hmark
        split at hmark
        · exact hmark
        · exact hmark

/-- Opening a checkpoint notes the length. -/
theorem Sized.checkpoint {m : Memory} (h : m.Sized) : (Checkpointed.checkpoint m).2.Sized :=
  ⟨h.limit, h.size, List.forall_mem_cons.2 ⟨h.size, h.notes⟩⟩

/-- Closing a checkpoint cuts the bytes to a length that was noted, or keeps them. -/
theorem Sized.settle {m : Memory} (h : m.Sized) (keep : Bool) (handle : Nat) :
    (CallTree.settle keep handle m).Sized := by
  have hkeep : ∀ mark ∈ (m.journal.marks.keep handle).toList, mark.note ≤ largestMemory :=
    fun mark hmark => h.notes mark (Pile.mem_of_keep hmark)
  cases keep with
  | true =>
      refine ⟨h.limit, h.size, ?_⟩
      show ∀ mark ∈ (m.journal.commitFrom handle).marks.toList, mark.note ≤ largestMemory
      simp only [Journal.commitFrom]
      split
      · simp [Pile.empty]
      · exact hkeep
  | false =>
      obtain ⟨limit, data, journal⟩ := m
      simp only [CallTree.settle, Bool.false_eq_true, if_false, Checkpointed.revertTo]
      cases hmark : journal.mark? handle with
      | none => exact h
      | some mark =>
          refine ⟨h.limit, ?_, hkeep⟩
          show ByteArray.size (Bytes.takeFirst _ mark.note) ≤ largestMemory
          rw [Bytes.size_take_first]
          exact Nat.le_trans (Nat.min_le_left _ _) (h.notes mark (Pile.mem_from_bottom hmark))

end Memory

namespace Pending.Sized

variable {p : Pending}

theorem set_storage (h : p.Sized) (address : Address) (slots : Slots) :
    (p.setStorage address slots).Sized :=
  ⟨h.accounts, h.copies⟩

theorem set_code (h : p.Sized) (address : Address) {code : Bytes}
    (hcode : code.size ≤ largestCode) : (p.setCode address code).Sized := by
  refine ⟨fun a found hfound => ?_, h.copies⟩
  rw [setCode, Std.ExtTreeMap.getElem?_insert] at hfound
  split at hfound
  · cases hfound
    exact hcode
  · exact h.accounts a found hfound

theorem set_codes (h : p.Sized) {entries : List (Address × Bytes)}
    (hcodes : ∀ e ∈ entries, e.2.size ≤ largestCode) : (p.setCodes entries).Sized := by
  refine List.foldlRecOn entries _ (motive := Pending.Sized) h ?_
  intro q hq entry hentry
  exact hq.set_code entry.1 (hcodes entry hentry)

theorem checkpoint (h : p.Sized) : (Checkpointed.checkpoint p).2.Sized :=
  ⟨h.accounts, List.forall_mem_cons.2 ⟨h.accounts, h.copies⟩⟩

/-- Closing a checkpoint brings a copy back, or keeps the codes. -/
theorem settle (h : p.Sized) (keep : Bool) (handle : Nat) :
    (CallTree.settle keep handle p).Sized := by
  have hkeep : ∀ copy ∈ (p.copies.keep handle).toList, copy.Sized :=
    fun copy hcopy => h.copies copy (Pile.mem_of_keep hcopy)
  cases keep with
  | true => exact ⟨h.accounts, hkeep⟩
  | false =>
      show Pending.Sized ⟨(Snapshots.revertTo p.accounts p.copies handle).1,
        (Snapshots.revertTo p.accounts p.copies handle).2⟩
      unfold Snapshots.revertTo
      cases hcopy : p.copies.fromBottom? handle with
      | none => exact h
      | some copy => exact ⟨h.copies copy (Pile.mem_from_bottom hcopy), hkeep⟩

end Pending.Sized

namespace Workspace.Sized

variable {w : Workspace}

theorem checkpoint (h : w.Sized) : w.checkpoint.2.Sized :=
  ⟨h.memory.checkpoint, h.pending.checkpoint⟩

theorem settle (h : w.Sized) (keep : Bool) (marks : Marks) : (w.settle keep marks).Sized :=
  ⟨h.memory.settle keep marks.memory, h.pending.settle keep marks.pending⟩

end Workspace.Sized

end CallTree
