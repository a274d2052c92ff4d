import CallTree.Memory
import CallTree.Proofs.Recall

/-!
# The memory journal

Growth of a memory is not recorded, only the length is noted at each checkpoint; what a write
replaces is recorded. `Memory.Recalls` says that this is enough to bring the bytes and the length
at each open checkpoint back. Growing (`Recalls.expand`) and writing (`Recalls.write`) keep it.
-/

namespace CallTree

namespace Bytes

/-- A byte after a part was written: inside the part it is the written one. -/
theorem get_splice {b part : Bytes} {offset : Nat} (h : offset + part.size ≤ b.size) (i : Nat) :
    (b.splice offset part).data[i]? =
      if offset ≤ i ∧ i < offset + part.size then part.data[i - offset]? else b.data[i]? := by
  have hsize : b.data.size = b.size := rfl
  have hpart : part.data.size = part.size := rfl
  simp only [splice, ByteArray.copySlice, Array.getElem?_append, Array.getElem?_extract,
    Array.size_append, Array.size_extract]
  grind

/-- Writing inside the bytes keeps their number. -/
theorem size_splice {b part : Bytes} {offset : Nat} (h : offset + part.size ≤ b.size) :
    (b.splice offset part).size = b.size := by
  have hsize : b.data.size = b.size := rfl
  have hpart : part.data.size = part.size := rfl
  show (b.splice offset part).data.size = b.size
  simp only [splice, ByteArray.copySlice, Array.size_append, Array.size_extract]
  omega

/-- Byte strings are equal when they have the same bytes. -/
theorem ext_get {a b : Bytes} (h : ∀ i : Nat, a.data[i]? = b.data[i]?) : a = b :=
  ByteArray.ext (Array.ext_getElem? h)

/-- Writing a part and then what stood there before restores the bytes. -/
theorem splice_splice_extract {b part : Bytes} {offset : Nat} (h : offset + part.size ≤ b.size) :
    (b.splice offset part).splice offset (b.extract offset (offset + part.size)) = b := by
  have hold : (b.extract offset (offset + part.size)).size = part.size := by
    rw [ByteArray.size_extract]
    omega
  have hfits : offset + (b.extract offset (offset + part.size)).size ≤
      (b.splice offset part).size := by
    rw [hold, size_splice h]
    exact h
  apply ext_get
  intro i
  rw [get_splice hfits, get_splice h, hold, ByteArray.data_extract, Array.getElem?_extract]
  have hsize : b.data.size = b.size := rfl
  by_cases hi : offset ≤ i ∧ i < offset + part.size
  · rw [if_pos hi, if_pos (by omega)]
    congr 1
    omega
  · rw [if_neg hi, if_neg hi]

/-- The second bytes begin with the first. -/
def Begins (s t : Bytes) : Prop :=
  s.size ≤ t.size ∧ ∀ i < s.size, t.data[i]? = s.data[i]?

/-- Zeros are added at the end. -/
theorem begins_extend_zeros (n : Nat) (b : Bytes) : Begins b (b.extendZeros n) := by
  induction n generalizing b with
  | zero => exact ⟨Nat.le_refl _, fun _ _ => rfl⟩
  | succ n ih =>
      obtain ⟨hsize, hget⟩ := ih (b.push 0)
      rw [ByteArray.size_push] at hsize hget
      refine ⟨by simp [extendZeros]; omega, fun i hi => ?_⟩
      show (extendZeros n (b.push 0)).data[i]? = b.data[i]?
      rw [hget i (by omega)]
      exact Array.getElem?_push_lt hi |>.trans (Array.getElem?_eq_getElem hi).symm

/-- A byte after zeros were added. -/
theorem get_extend_zeros (n : Nat) (b : Bytes) (i : Nat) :
    (b.extendZeros n).data[i]? =
      if i < b.size then b.data[i]? else if i < b.size + n then some 0 else none := by
  induction n generalizing b with
  | zero =>
      have hsize : b.data.size = b.size := rfl
      show b.data[i]? = _
      grind
  | succ n ih =>
      have hsize : b.data.size = b.size := rfl
      have hpush : (b.push 0).data[i]? = if i = b.size then some 0 else b.data[i]? :=
        Array.getElem?_push
      rw [extendZeros, ih, ByteArray.size_push, hpush]
      grind

/-- A byte of a window: past the end it is zero. -/
theorem get_window (b : Bytes) (offset size i : Nat) :
    (b.window offset size).data[i]? =
      if i < size then some (b.data[offset + i]?.getD 0) else none := by
  have hsize : b.data.size = b.size := rfl
  unfold window
  split
  · rw [get_extend_zeros, ByteArray.size_extract, ByteArray.data_extract, Array.getElem?_extract]
    grind
  · rw [zeros, get_extend_zeros]
    have hpast : b.data[offset + i]? = none := Array.getElem?_eq_none (by omega)
    simp [hpast]

/-- Zeros at the end cannot be told from the end in a window. -/
theorem window_extend_zeros (n : Nat) (b : Bytes) (offset size : Nat) :
    (b.extendZeros n).window offset size = b.window offset size := by
  apply ext_get
  intro i
  rw [get_window, get_window, get_extend_zeros]
  have hsize : b.data.size = b.size := rfl
  by_cases hi : offset + i < b.size
  · rw [if_pos hi]
  · have hpast : b.data[offset + i]? = none := Array.getElem?_eq_none (by omega)
    have hzero : (if offset + i < b.size + n then some (0 : UInt8) else none).getD 0 = 0 := by
      split <;> rfl
    rw [if_neg hi, hpast, hzero]
    rfl

/-- A byte of the first `n`. -/
theorem get_take_first (b : Bytes) (n i : Nat) :
    (b.takeFirst n).data[i]? = if i < n then b.data[i]? else none := by
  have hsize : b.data.size = b.size := rfl
  unfold takeFirst
  split
  · split
    · rfl
    · exact Array.getElem?_eq_none (by omega)
  · rw [ByteArray.data_extract, Array.getElem?_extract]
    grind

/-- How many bytes the first `n` are. -/
theorem size_take_first (b : Bytes) (n : Nat) : (b.takeFirst n).size = min n b.size := by
  unfold takeFirst
  split
  · omega
  · rw [ByteArray.size_extract]
    omega

end Bytes

namespace Memory

/-- Bytes are taken back by writing what stood there, and the length by cutting. -/
def rewind : Rewind Bytes Nat Overwrite where
  undo := undo
  cut n b := b.takeFirst n
  Fits e b := e.offset + e.previous.size ≤ b.size
  Covers b n := n ≤ b.size
  Begins := Bytes.Begins
  fits_undo h := by rw [undo, Bytes.size_splice h]
  covers_undo h := by rw [undo, Bytes.size_splice h]
  fits_of_begins h hfits := Nat.le_trans hfits h.1
  covers_of_begins h hcovers := Nat.le_trans hcovers h.1
  begins_cut n b := by
    have hsize := Bytes.size_take_first b n
    refine ⟨by omega, fun i hi => ?_⟩
    rw [Bytes.get_take_first, if_pos (by omega)]
  begins_undo := by
    intro e s t h hfits
    have hfits' : e.offset + e.previous.size ≤ t.size := Nat.le_trans hfits h.1
    refine ⟨?_, fun i hi => ?_⟩
    · rw [undo, undo, Bytes.size_splice hfits, Bytes.size_splice hfits']
      exact h.1
    · rw [undo, Bytes.size_splice hfits] at hi
      rw [undo, undo, Bytes.get_splice hfits, Bytes.get_splice hfits', h.2 i hi]
  cut_of_begins := by
    intro s t n h hcovers
    apply Bytes.ext_get
    intro i
    rw [Bytes.get_take_first, Bytes.get_take_first]
    split
    · exact h.2 i (by omega)
    · rfl

/-- The memory can be brought back to the bytes at each open checkpoint, the newest first. -/
def Recalls (m : Memory) (copies : List Bytes) : Prop :=
  m.journal.Recalls rewind m.data copies

/-- A new memory has no copies. -/
theorem recalls_with_limit (limit : Nat) : (withLimit limit).Recalls [] :=
  Journal.Recalls.init _

/-- A memory that was grown for a region begins with the old bytes, and the region lies inside and
ends at an amount. -/
theorem expand_cases {m m' : Memory} {offset size added : Nat}
    (h : expand offset size m = .ok added m') :
    ∃ n, m' = { m with data := m.data.extendZeros n } ∧
      (size ≠ 0 → offset + size ≤ m'.data.size ∧ offset + size ≤ maxAmount) := by
  unfold Memory.expand at h
  split at h
  · cases h
    exact ⟨0, rfl, fun hsize => absurd ‹size = 0› hsize⟩
  · split at h
    · cases h
    · have hend : offset + size ≤ maxAmount := Nat.le_of_not_lt ‹_›
      split at h
      · cases h
        exact ⟨0, rfl, fun _ => ⟨‹offset + size ≤ m.size›, hend⟩⟩
      · split at h
        · cases h
        · cases hfit : fit? (wordsFor (offset + size) * 32) with
          | none => simp [hfit] at h
          | some newSize =>
              simp only [hfit] at h
              cases h
              refine ⟨_, rfl, fun _ => ⟨?_, hend⟩⟩
              obtain ⟨_, rfl⟩ := fit?_eq_some_iff.1 hfit
              rw [Bytes.size_extendZeros, wordsFor]
              omega

/-- Growth can be undone. -/
theorem Recalls.expand {m m' : Memory} {copies : List Bytes} {offset size added : Nat}
    (h : m.Recalls copies) (hexpand : expand offset size m = .ok added m') :
    m'.Recalls copies := by
  obtain ⟨n, rfl, _⟩ := expand_cases hexpand
  exact Journal.Recalls.grow h (Bytes.begins_extend_zeros _ _)

/-- Writes can be undone. -/
theorem Recalls.write {m m' : Memory} {copies : List Bytes} {offset added : Nat} {part : Bytes}
    (h : m.Recalls copies) (hwrite : write offset part m = .ok added m') : m'.Recalls copies := by
  unfold Memory.write at hwrite
  split at hwrite
  · cases hwrite
    exact h
  · rename_i hpart
    cases hexpand : Memory.expand offset part.size m with
    | error e n => simp [hexpand] at hwrite
    | ok count grown =>
        simp only [hexpand] at hwrite
        cases hwrite
        obtain ⟨_, _, hinside⟩ := expand_cases hexpand
        have hinside := (hinside hpart).1
        have hold : (grown.data.extract offset (offset + part.size)).size = part.size := by
          rw [ByteArray.size_extract]
          omega
        refine Journal.Recalls.record (r := rewind) ?_ ?_
        · show offset + (grown.data.extract offset (offset + part.size)).size ≤
            (grown.data.splice offset part).size
          rw [hold, Bytes.size_splice hinside]
          exact hinside
        · show grown.journal.Recalls rewind ((grown.data.splice offset part).splice offset
            (grown.data.extract offset (offset + part.size))) copies
          rw [Bytes.splice_splice_extract hinside]
          exact h.expand hexpand

/-- Opening a checkpoint yields the number of those open and adds the bytes to the copies. -/
theorem Recalls.checkpoint {m : Memory} {copies : List Bytes} (h : m.Recalls copies) :
    (Checkpointed.checkpoint m).1 = copies.length ∧
      (Checkpointed.checkpoint m).2.data = m.data ∧
      (Checkpointed.checkpoint m).2.Recalls (m.data :: copies) := by
  refine ⟨h.depth_eq, rfl, Journal.Recalls.openWith h (Nat.le_refl m.data.size) ?_⟩
  show m.data.takeFirst m.data.size = m.data
  exact if_pos (Nat.le_refl _)

/-- Closing the newest checkpoint keeps the bytes or brings its copy back, and leaves the older
copies. -/
theorem Recalls.settle {m : Memory} {copy : Bytes} {copies : List Bytes}
    (h : m.Recalls (copy :: copies)) (keep : Bool) :
    (settle keep copies.length m).data = (if keep then m.data else copy) ∧
      (settle keep copies.length m).Recalls copies := by
  cases keep with
  | true => exact ⟨rfl, Journal.Recalls.commit h⟩
  | false =>
      obtain ⟨mark, hmark, hcopy, hrest⟩ := Journal.Recalls.rewind h
      have hrevert : CallTree.settle false copies.length m =
          ⟨m.limit, copy, m.journal.forgetFrom copies.length mark⟩ := by
        rw [← hcopy]
        simp only [CallTree.settle, Checkpointed.revertTo, hmark]
        rfl
      rw [hrevert]
      exact ⟨rfl, hrest⟩

end Memory
end CallTree
