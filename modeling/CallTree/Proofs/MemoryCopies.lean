import CallTree.Proofs.Copies
import CallTree.Proofs.Effects
import CallTree.Proofs.MemoryUndo
import Mathlib.Algebra.Group.Nat.Defs

/-!
# Memory and full copies

A memory with its undo journal does what a plain machine does that keeps the bytes in a list and
copies all of them at each checkpoint. The two are compared over any sequence of operations, with
any offsets, sizes and handles (`run_refines_bytes`).

As for a storage, both are images of a third machine, whose contents are the edits themselves. Every
copying machine forgets what is reverted, so the edits that this one holds are the history that
survives. They determine the length (`extent`) and each byte (`lastWritten`) without any memory.
-/

namespace CallTree

namespace Bytes

/-- The byte at a place. Past the end it is zero. -/
def byteAt (b : Bytes) (i : Nat) : UInt8 :=
  b.data[i]?.getD 0

/-- A window shows the bytes at its places. -/
theorem window_eq_map (b : Bytes) (offset size : Nat) :
    b.window offset size = ((List.range' offset size).map b.byteAt).toByteArray := by
  apply ext_get
  intro i
  rw [get_window, List.data_toByteArray]
  simp only [List.getElem?_toArray, List.getElem?_map]
  by_cases hi : i < size
  · rw [if_pos hi, List.getElem?_range' hi]
    simp [byteAt]
  · rw [if_neg hi, List.getElem?_eq_none (by simpa using hi)]
    rfl

/-- Zeros that are added follow the bytes. -/
theorem extend_zeros_eq (n : Nat) (b : Bytes) :
    b.extendZeros n = (b.data.toList ++ List.replicate n 0).toByteArray := by
  apply ext_get
  intro i
  have hsize : b.data.size = b.size := rfl
  rw [get_extend_zeros, List.data_toByteArray]
  simp only [List.getElem?_toArray, List.getElem?_append, List.getElem?_replicate,
    Array.length_toList, Array.getElem?_toList]
  grind

/-- A part that is written stands between the bytes before it and after it. -/
theorem splice_eq {b part : Bytes} {offset : Nat} (h : offset + part.size ≤ b.size) :
    b.splice offset part = (b.data.toList.take offset ++ part.data.toList ++
      b.data.toList.drop (offset + part.data.toList.length)).toByteArray := by
  apply ext_get
  intro i
  have hsize : b.data.size = b.size := rfl
  have hpart : part.data.size = part.size := rfl
  rw [get_splice h, List.data_toByteArray]
  simp only [List.getElem?_toArray, List.getElem?_append, List.getElem?_take, List.getElem?_drop,
    List.length_append, List.length_take, Array.length_toList, Array.getElem?_toList]
  grind

end Bytes

namespace Memory

/-! ## Edits -/

/-- A change to the bytes of a memory. -/
inductive Edit where
  /-- Makes sure that a region is inside the memory. -/
  | expand (offset size : Nat)
  /-- Writes a byte. -/
  | writeByte (offset : Nat) (value : UInt8)
  /-- Writes the bytes of a word. -/
  | writeWord (offset : Nat) (value : Word)
  /-- Writes bytes. -/
  | write (offset : Nat) (part : Bytes)

namespace Edit

/-- Where the region of an edit starts. -/
def offset : Edit → Nat
  | expand offset _ | writeByte offset _ | writeWord offset _ | write offset _ => offset

/-- The bytes that an edit writes. -/
def part : Edit → List UInt8
  | expand _ _ => []
  | writeByte _ value => [value]
  | writeWord _ value => value.toBytes.data.toList
  | write _ part => part.data.toList

/-- How many bytes the region of an edit has. -/
def size : Edit → Nat
  | expand _ size => size
  | e => e.part.length

/-- Where the region of an edit ends. An empty region lies nowhere. -/
def reach (e : Edit) : Nat :=
  if e.size = 0 then 0 else e.offset + e.size

/-- What a memory does with an edit. The result is the number of words added. -/
def act : Edit → Action Memory Nat
  | expand offset size => Memory.expand offset size
  | writeByte offset value => Memory.writeByte offset value
  | writeWord offset value => Memory.writeWord offset value
  | write offset part => Memory.write offset part

/-- The bytes after an edit: zeros are added up to the end of the last word of its region, and then
its part overwrites what stands there. -/
def place (e : Edit) (bytes : List UInt8) : List UInt8 :=
  let grown := bytes.rightpad (wordsFor e.reach * 32) 0
  grown.take e.offset ++ e.part ++ grown.drop (e.offset + e.part.length)

/-- What an edit makes of a byte list. One that ends beyond both the length and the limit is
refused. -/
def apply (limit : Nat) (e : Edit) (bytes : List UInt8) : List UInt8 :=
  if e.reach ≤ max bytes.length limit then e.place bytes else bytes

end Edit

/-! ## Histories -/

/-- The length to which edits bring a memory, the newest edit first. -/
def extent : List Edit → Nat
  | [] => 0
  | e :: older => max (extent older) (wordsFor e.reach * 32)

/-- The byte that was written last at a place, the newest edit first. At first all bytes are
zero. -/
def lastWritten : List Edit → Nat → UInt8
  | [], _ => 0
  | e :: older, i =>
    if e.offset ≤ i ∧ i < e.offset + e.part.length then
      e.part[i - e.offset]?.getD 0
    else
      lastWritten older i

/-- The bytes to which edits lead. -/
def replay (history : List Edit) : List UInt8 :=
  history.foldr Edit.place []

/-- Adds an edit to a history, unless it is refused. -/
def Edit.record (limit : Nat) (e : Edit) (history : List Edit) : List Edit :=
  if e.reach ≤ max (extent history) limit then e :: history else history

namespace Edit

/-- What is written fills the region. -/
theorem size_eq_of_part {e : Edit} (h : e.part ≠ []) : e.size = e.part.length := by
  cases e with
  | expand offset size => exact absurd rfl h
  | writeByte offset value => rfl
  | writeWord offset value => rfl
  | write offset part => rfl

/-- Where the region ends when something is written. -/
theorem reach_eq_of_part {e : Edit} (h : e.part ≠ []) : e.reach = e.offset + e.part.length := by
  have hpos : 0 < e.part.length := List.length_pos_iff.2 h
  rw [reach, size_eq_of_part h, if_neg (Nat.ne_of_gt hpos)]

/-- Whole words cover what they were counted for. -/
theorem le_words (size : Nat) : size ≤ wordsFor size * 32 := by
  unfold wordsFor
  omega

/-- An edit that writes nothing leaves the bytes as they are, up to zeros at the end. -/
theorem place_of_nil {e : Edit} (h : e.part = []) (bytes : List UInt8) :
    e.place bytes = bytes.rightpad (wordsFor e.reach * 32) 0 := by
  simp only [place, h, List.append_nil, List.length_nil, Nat.add_zero]
  exact List.take_append_drop _ _

/-- The length after an edit. -/
theorem length_place (e : Edit) (bytes : List UInt8) :
    (e.place bytes).length = max bytes.length (wordsFor e.reach * 32) := by
  by_cases hpart : e.part = []
  · rw [place_of_nil hpart, List.length_rightpad, Nat.max_comm]
  · have hend := reach_eq_of_part hpart
    have hwords := le_words e.reach
    simp only [place, List.length_append, List.length_take, List.length_drop, List.length_rightpad]
    omega

/-- The bytes after an edit: inside its part the written ones, elsewhere the old ones. -/
theorem getD_place (e : Edit) (bytes : List UInt8) (i : Nat) :
    (e.place bytes)[i]?.getD 0 =
      if e.offset ≤ i ∧ i < e.offset + e.part.length then e.part[i - e.offset]?.getD 0
      else bytes[i]?.getD 0 := by
  have hgrown : ∀ n i : Nat, (bytes.rightpad n 0)[i]?.getD 0 = bytes[i]?.getD 0 := by
    intro n i
    simp only [List.rightpad, List.getElem?_append, List.getElem?_replicate]
    grind
  by_cases hpart : e.part = []
  · rw [place_of_nil hpart, hgrown, if_neg (by simp [hpart])]
  · have hend := reach_eq_of_part hpart
    have hwords := le_words e.reach
    have hlength : e.offset + e.part.length ≤
        (bytes.rightpad (wordsFor e.reach * 32) 0).length := by
      rw [List.length_rightpad]
      omega
    rw [← hgrown (wordsFor e.reach * 32)]
    simp only [place, List.getElem?_append, List.getElem?_take, List.getElem?_drop,
      List.length_append, List.length_take]
    grind

end Edit

/-- A history leads to as many bytes as its extent says. -/
theorem length_replay (history : List Edit) : (replay history).length = extent history := by
  induction history with
  | nil => rfl
  | cons e older ih =>
      show (e.place (replay older)).length = _
      rw [Edit.length_place, ih]
      rfl

/-- A history leads to the bytes written last. -/
theorem getD_replay (history : List Edit) (i : Nat) :
    (replay history)[i]?.getD 0 = lastWritten history i := by
  induction history with
  | nil => rfl
  | cons e older ih =>
      show (e.place (replay older))[i]?.getD 0 = _
      rw [Edit.getD_place, ih]
      rfl

/-- Lengths are whole words. -/
theorem extent_mod (history : List Edit) : extent history % 32 = 0 := by
  induction history with
  | nil => rfl
  | cons e older ih =>
      show max (extent older) (wordsFor e.reach * 32) % 32 = 0
      omega

/-- Recording an edit, seen through the bytes that the histories lead to. -/
theorem replay_record (limit : Nat) (e : Edit) (history : List Edit) :
    replay (e.record limit history) = e.apply limit (replay history) := by
  unfold Edit.record Edit.apply
  rw [length_replay]
  split
  · rfl
  · rfl

/-- Recorded edits do not lead beyond the last word that the limit touches. -/
theorem extent_record_le {limit : Nat} (e : Edit) {history : List Edit}
    (h : extent history ≤ wordsFor limit * 32) :
    extent (e.record limit history) ≤ wordsFor limit * 32 := by
  unfold Edit.record
  split
  · have haligned := extent_mod history
    show max (extent history) (wordsFor e.reach * 32) ≤ _
    unfold wordsFor at h ⊢
    omega
  · exact h

/-! ## Edits of a memory -/

/-- A memory of whole words, within what a machine can hold. -/
structure WholeWords (m : Memory) : Prop where
  aligned : m.size % 32 = 0
  size_le : m.size ≤ 2 ^ 63
  limit_lt : m.limit < 2 ^ 63

/-- A memory that was grown to the end of the word in which `reach` bytes end. -/
def grown (m : Memory) (reach : Nat) : Memory :=
  { m with data := m.data.extendZeros (wordsFor reach * 32 - m.size) }

/-- The length of a memory that was grown. -/
theorem size_grown (m : Memory) (reach : Nat) :
    (m.grown reach).size = max m.size (wordsFor reach * 32) := by
  show (m.data.extendZeros (wordsFor reach * 32 - m.size)).size = _
  rw [Bytes.size_extendZeros]
  show m.size + (wordsFor reach * 32 - m.size) = _
  omega

/-- Growth adds the words that are missing. -/
theorem words_grown (m : Memory) (reach : Nat) :
    (m.grown reach).words = max m.words (wordsFor reach) := by
  simp only [words, size_grown, wordsFor]
  omega

theorem words_added (m : Memory) (reach : Nat) :
    (m.grown reach).words - m.words = wordsFor reach - m.words := by
  rw [words_grown]
  omega

/-- How a memory grows. It refuses what ends beyond both its length and its limit. -/
theorem expand_eq {m : Memory} (h : m.WholeWords) (offset size : Nat) {reach : Nat}
    (hreach : (Edit.expand offset size).reach = reach) :
    expand offset size m =
      if reach ≤ max m.size m.limit then
        .ok ((m.grown reach).words - m.words) (m.grown reach)
      else
        .error (.fault (.memoryLimitExceeded (min reach maxAmount) m.limit)) m := by
  obtain ⟨haligned, hsize, hlimit⟩ := h
  unfold expand
  by_cases hempty : size = 0
  · obtain rfl : 0 = reach := (if_pos hempty).symm.trans hreach
    rw [if_pos hempty, if_pos (Nat.zero_le _), words_added]
    simp [grown, wordsFor, Bytes.extendZeros]
  obtain rfl : offset + size = reach := (if_neg hempty).symm.trans hreach
  have hmax : maxAmount = 2 ^ 64 - 1 := rfl
  rw [if_neg hempty]
  by_cases hover : maxAmount < offset + size
  · rw [if_pos hover, if_neg (by omega), Nat.min_eq_right (Nat.le_of_lt hover)]
  rw [if_neg hover]
  by_cases hinside : offset + size ≤ m.size
  · have hnone : wordsFor (offset + size) * 32 - m.size = 0 := by
      unfold wordsFor
      omega
    have hwords : wordsFor (offset + size) - m.words = 0 := by
      unfold words wordsFor
      omega
    rw [if_pos hinside, if_pos (by omega), words_added, hwords, grown, hnone]
    rfl
  rw [if_neg hinside]
  by_cases hbeyond : m.limit < offset + size
  · rw [if_pos hbeyond, if_neg (by omega), Nat.min_eq_left (by omega)]
  · have hfit : fit? (wordsFor (offset + size) * 32) = some (wordsFor (offset + size) * 32) := by
      refine fit?_eq_some_iff.2 ⟨?_, rfl⟩
      unfold wordsFor
      omega
    rw [if_neg hbeyond, if_pos (by omega), words_added]
    simp only [hfit]
    rfl

/-- What a memory answers to an edit: it does it, as on a byte list, or it refuses it and nothing
changes. -/
structure Answers (m : Memory) (e : Edit) : Prop where
  accepted : e.reach ≤ max m.size m.limit → ∃ m', e.act m = .ok (m'.words - m.words) m' ∧
    m'.limit = m.limit ∧ m'.data = (e.place m.data.data.toList).toByteArray
  refused : max m.size m.limit < e.reach →
    e.act m = .error (.fault (.memoryLimitExceeded (min e.reach maxAmount) m.limit)) m

/-- Growing answers so. -/
theorem answers_expand {m : Memory} (h : m.WholeWords) (offset size : Nat) :
    m.Answers (.expand offset size) where
  accepted haccepted := by
    have hexpand := expand_eq h offset size rfl
    rw [if_pos haccepted] at hexpand
    refine ⟨m.grown _, hexpand, rfl, ?_⟩
    rw [Edit.place_of_nil rfl, grown, Bytes.extend_zeros_eq]
    rfl
  refused hrefused := by
    have hexpand := expand_eq h offset size rfl
    rwa [if_neg (Nat.not_le.2 hrefused)] at hexpand

/-- Writing nothing leaves the bytes as they are. -/
theorem place_write_empty {part : Bytes} (h : part.size = 0) (offset : Nat) (b : Bytes) :
    ((Edit.write offset part).place b.data.toList).toByteArray = b := by
  have hnil : (Edit.write offset part).part = [] := List.length_eq_zero_iff.1 h
  have hreach : (Edit.write offset part).reach = 0 := if_pos h
  rw [Edit.place_of_nil hnil, hreach]
  apply ByteArray.ext
  simp [List.rightpad, wordsFor, List.data_toByteArray]

/-- Writing into a memory that was grown for it. -/
theorem place_write {part : Bytes} (h : part.size ≠ 0) (offset : Nat) (b : Bytes) :
    ((Edit.write offset part).place b.data.toList).toByteArray =
      (b.extendZeros (wordsFor (offset + part.size) * 32 - b.size)).splice offset part := by
  have hreach : (Edit.write offset part).reach = offset + part.size := if_neg h
  have hwords := Edit.le_words (offset + part.size)
  rw [Bytes.splice_eq (by rw [Bytes.size_extendZeros]; omega), Bytes.extend_zeros_eq,
    List.data_toByteArray]
  show (Edit.place _ _).toByteArray = _
  unfold Edit.place
  rw [hreach]
  rfl

/-- A write puts its part into the memory that was grown for it. -/
theorem write_of_expand {m grown : Memory} {offset added : Nat} {part : Bytes} (h : part.size ≠ 0)
    (hexpand : expand offset part.size m = .ok added grown) :
    write offset part m = .ok added ⟨grown.limit, grown.data.splice offset part,
      grown.journal.record ⟨offset, grown.data.extract offset (offset + part.size)⟩⟩ := by
  rw [write, if_neg h, hexpand]

/-- Writing nothing is always accepted. -/
theorem answers_write_empty (m : Memory) (offset : Nat) {part : Bytes} (h : part.size = 0) :
    m.Answers (.write offset part) where
  accepted _ := by
    have hnone : write offset part m = .ok (m.words - m.words) m := by
      rw [write, if_pos h, Nat.sub_self]
    exact ⟨m, hnone, rfl, (place_write_empty h offset m.data).symm⟩
  refused hrefused := by
    have hreach : (Edit.write offset part).reach = 0 := if_pos h
    omega

/-- Writing answers so. -/
theorem answers_write {m : Memory} (h : m.WholeWords) (offset : Nat) (part : Bytes) :
    m.Answers (.write offset part) := by
  by_cases hempty : part.size = 0
  · exact answers_write_empty m offset hempty
  have hend : (Edit.expand offset part.size).reach = offset + part.size := if_neg hempty
  have hexpand := expand_eq h offset part.size hend
  have hreach : (Edit.write offset part).reach = offset + part.size := if_neg hempty
  constructor
  case accepted =>
    intro haccepted
    rw [hreach] at haccepted
    rw [if_pos haccepted] at hexpand
    have hgrown : offset + part.size ≤ (m.grown (offset + part.size)).size := by
      have hwords := Edit.le_words (offset + part.size)
      rw [size_grown]
      omega
    have hwrite := write_of_expand hempty hexpand
    have hwords : (m.grown (offset + part.size)).words =
        wordsFor ((m.grown (offset + part.size)).data.splice offset part).size := by
      rw [Bytes.size_splice hgrown]
      rfl
    rw [hwords] at hwrite
    exact ⟨⟨m.limit, _, _⟩, hwrite, rfl, (place_write hempty offset m.data).symm⟩
  case refused =>
    intro hrefused
    rw [hreach] at hrefused ⊢
    rw [if_neg (Nat.not_le.2 hrefused)] at hexpand
    show write offset part m = _
    rw [write, if_neg hempty, hexpand]

/-- Edits that do the same with the same region and part are answered alike. -/
theorem Answers.of_same {m : Memory} {e e' : Edit} (h : m.Answers e) (hact : e'.act = e.act)
    (hoffset : e'.offset = e.offset) (hsize : e'.size = e.size) (hpart : e'.part = e.part) :
    m.Answers e' := by
  have hreach : e'.reach = e.reach := by rw [Edit.reach, Edit.reach, hoffset, hsize]
  have hplace : e'.place = e.place := by
    funext bytes
    simp only [Edit.place, hreach, hoffset, hpart]
  refine ⟨?_, ?_⟩
  · rw [hact, hreach, hplace]
    exact h.accepted
  · rw [hact, hreach]
    exact h.refused

/-- Every edit is answered so. -/
theorem answers {m : Memory} (h : m.WholeWords) (e : Edit) : m.Answers e := by
  cases e with
  | expand offset size => exact answers_expand h offset size
  | writeByte offset value => exact (answers_write h offset ⟨#[value]⟩).of_same rfl rfl rfl rfl
  | writeWord offset value => exact (answers_write h offset value.toBytes).of_same rfl rfl rfl rfl
  | write offset part => exact answers_write h offset part

/-- What is done leaves the bytes that it does not write. -/
theorem Answers.outside {m m' : Memory} {e : Edit} {added : Nat} (h : m.Answers e)
    (hdone : e.act m = .ok added m') {i : Nat}
    (hi : ¬ (e.offset ≤ i ∧ i < e.offset + e.part.length)) :
    m'.data.byteAt i = m.data.byteAt i := by
  rcases Nat.lt_or_ge (max m.size m.limit) e.reach with hrefused | haccepted
  · rw [h.refused hrefused] at hdone
    cases hdone
  · obtain ⟨done, hact, _, hdata⟩ := h.accepted haccepted
    obtain rfl : m' = done := (EStateM.Result.ok.inj (hdone.symm.trans hact)).2
    have hplace := Edit.getD_place e m.data.data.toList i
    rw [if_neg hi] at hplace
    rw [hdata]
    simpa [Bytes.byteAt, List.data_toByteArray] using hplace

/-- An edit grows a memory or writes to it. -/
theorem Edit.act_eq (e : Edit) :
    (∃ offset size, e.act = Memory.expand offset size) ∨
      ∃ offset part, e.act = Memory.write offset part := by
  cases e with
  | expand offset size => exact .inl ⟨offset, size, rfl⟩
  | writeByte offset value => exact .inr ⟨offset, ⟨#[value]⟩, rfl⟩
  | writeWord offset value => exact .inr ⟨offset, value.toBytes, rfl⟩
  | write offset part => exact .inr ⟨offset, part, rfl⟩

/-- What is refused changes nothing. -/
theorem act_refused {m m' : Memory} {e : Edit} {cause : Abort} (h : e.act m = .error cause m') :
    m' = m := by
  obtain ⟨offset, size, hact⟩ | ⟨offset, part, hact⟩ := e.act_eq
  · rw [hact] at h
    exact Exec.Within.expand_error h
  · rw [hact] at h
    exact Exec.Within.write_error h

/-- Edits can be undone. -/
theorem Recalls.act {m m' : Memory} {copies : List Bytes} {e : Edit} {added : Nat}
    (h : m.Recalls copies) (hdone : e.act m = .ok added m') : m'.Recalls copies := by
  obtain ⟨offset, size, hact⟩ | ⟨offset, part, hact⟩ := e.act_eq
  · rw [hact] at hdone
    exact h.expand hdone
  · rw [hact] at hdone
    exact h.write hdone

/-! ## Operations on a memory -/

/-- An operation on a memory. -/
inductive Operation where
  /-- Changes the bytes. -/
  | edit (e : Edit)
  /-- Opens a checkpoint. -/
  | checkpoint
  /-- Undoes everything since the checkpoint of a handle. -/
  | revertTo (handle : Nat)
  /-- Closes the checkpoint of a handle. -/
  | commit (handle : Nat)

namespace Operation

variable {σ : Type} [Checkpointed σ]

/-- What an operation makes of a container, given what an edit does. -/
def perform (change : Edit → σ → σ) : Operation → σ → σ
  | edit e, s => change e s
  | checkpoint, s => (Checkpointed.checkpoint s).2
  | revertTo handle, s => Checkpointed.revertTo handle s
  | commit handle, s => Checkpointed.commit handle s

/-- What operations make of a container, one after another. -/
def run (change : Edit → σ → σ) (ops : List Operation) (s : σ) : σ :=
  ops.foldl (fun s op => op.perform change s) s

end Operation

/-- What an edit makes of a memory. -/
def edit (e : Edit) : Memory → Memory :=
  e.act.after

/-- The bytes to which a history leads, as a memory holds them. -/
def replayed (history : List Edit) : Bytes :=
  (replay history).toByteArray

/-- A memory that stands where a machine of histories stands: it has the bytes to which the history
leads, and its journal leads back to those of the copies. No history goes beyond the last word that
the limit touches. -/
structure Follows (limit : Nat) (m : Memory) (c : Copied (List Edit)) : Prop where
  limit_eq : m.limit = limit
  data_eq : m.data = replayed c.contents
  recalls : m.Recalls (c.copies.map replayed).toList
  bounded : c.All fun history => extent history ≤ wordsFor limit * 32

/-- At the start there are no copies. -/
theorem follows_with_limit (limit : Nat) : (withLimit limit).Follows limit ⟨[], .empty⟩ where
  limit_eq := rfl
  data_eq := rfl
  recalls := recalls_with_limit limit
  bounded := ⟨Nat.zero_le _, by intro copy hcopy; exact nomatch hcopy⟩

namespace Follows

variable {limit : Nat} {m : Memory} {c : Copied (List Edit)}

/-- The length is the extent of the history. -/
theorem size_eq (h : m.Follows limit c) : m.size = extent c.contents := by
  rw [Memory.size, h.data_eq, replayed, List.size_toByteArray, length_replay]

/-- A memory that follows a history has whole words. -/
theorem whole_words (h : m.Follows limit c) (hlimit : limit < 2 ^ 63) : m.WholeWords where
  aligned := h.size_eq ▸ extent_mod c.contents
  size_le := by
    have hbounded : extent c.contents ≤ wordsFor limit * 32 := h.bounded.1
    rw [h.size_eq]
    unfold wordsFor at hbounded
    omega
  limit_lt := h.limit_eq ▸ hlimit

/-- Edits have the same effect on a memory and on a history. -/
theorem edit (h : m.Follows limit c) (hlimit : limit < 2 ^ 63) (e : Edit) :
    (m.edit e).Follows limit (c.modify (Edit.record limit) e) := by
  have hbounded := h.bounded.edited (extent_record_le e)
  have hanswers := answers (h.whole_words hlimit) e
  rw [Memory.edit]
  rcases Nat.lt_or_ge (max m.size m.limit) e.reach with hrefused | haccepted
  · have hsame : e.record limit c.contents = c.contents := by
      rw [h.size_eq, h.limit_eq] at hrefused
      exact if_neg (Nat.not_le.2 hrefused)
    rw [Action.after_error (hanswers.refused hrefused)]
    exact ⟨h.limit_eq, h.data_eq.trans (congrArg replayed hsame.symm), h.recalls, hbounded⟩
  · obtain ⟨m', hact, hlimit', hdata⟩ := hanswers.accepted haccepted
    rw [h.size_eq, h.limit_eq] at haccepted
    have hreplay : replayed (e.record limit c.contents) = m'.data := by
      rw [hdata, h.data_eq, replayed, replay_record, Edit.apply, length_replay, if_pos haccepted,
        replayed, List.data_toByteArray]
    rw [Action.after_ok hact]
    exact ⟨hlimit'.trans h.limit_eq, hreplay.symm, h.recalls.act hact, hbounded⟩

/-- Each operation keeps a memory in step with a machine of histories. -/
theorem perform (h : m.Follows limit c) (hlimit : limit < 2 ^ 63) (op : Operation) :
    (op.perform Memory.edit m).Follows limit (op.perform (Copied.modify (Edit.record limit)) c) := by
  cases op with
  | edit e => exact h.edit hlimit e
  | checkpoint =>
      obtain ⟨_, _, hrecalls⟩ := h.recalls.checkpoint
      rw [h.data_eq] at hrecalls
      exact ⟨h.limit_eq, h.data_eq, hrecalls, h.bounded.checkpoint⟩
  | commit handle =>
      refine ⟨h.limit_eq, h.data_eq, ?_, h.bounded.commit handle⟩
      show Memory.Recalls _ ((c.copies.keep handle).map replayed).toList
      rw [Pile.map_keep]
      exact Journal.Recalls.commit_from h.recalls handle
  | revertTo handle =>
      have hbounded := h.bounded.revert_to handle
      show (Checkpointed.revertTo handle m).Follows limit (Checkpointed.revertTo handle c)
      by_cases hopen : handle < c.copies.size
      · obtain ⟨mark, copy, hmark, hcopy, hback, hrest⟩ := Journal.Recalls.rewind_to h.recalls hopen
        have hrevert : Checkpointed.revertTo handle m =
            ⟨m.limit, copy, m.journal.forgetFrom handle mark⟩ := by
          rw [← hback]
          simp only [Checkpointed.revertTo, hmark]
          rfl
        rw [Pile.from_bottom_map] at hcopy
        obtain ⟨history, hhistory, rfl⟩ := Option.map_eq_some_iff.1 hcopy
        rw [hrevert]
        rw [Copied.revert_of_lt hhistory] at hbounded ⊢
        refine ⟨h.limit_eq, rfl, ?_, hbounded⟩
        show Journal.Recalls _ _ _ ((c.copies.keep handle).map replayed).toList
        rw [Pile.map_keep]
        exact hrest
      · have hclosed : m.journal.mark? handle = none := by
          refine Pile.from_bottom_of_le ?_
          have hdepth : m.journal.marks.size = _ := h.recalls.depth_eq
          rw [hdepth, ← (c.copies.map replayed).size_eq]
          exact Nat.not_lt.1 hopen
        have hrevert : Checkpointed.revertTo handle m = m := by
          simp only [Checkpointed.revertTo, hclosed]
        rw [hrevert, Copied.revert_of_le (Pile.from_bottom_of_le (Nat.not_lt.1 hopen))]
        exact h

/-- Operations keep a memory in step with a machine of histories. -/
theorem run (h : m.Follows limit c) (hlimit : limit < 2 ^ 63) (ops : List Operation) :
    (Operation.run Memory.edit ops m).Follows limit
      (Operation.run (Copied.modify (Edit.record limit)) ops c) := by
  induction ops generalizing m c with
  | nil => exact h
  | cons op ops ih => exact ih (h.perform hlimit op)

end Follows

/-- Putting back what stood inside the bytes keeps their number. -/
theorem size_foldl_undo {entries : List Overwrite} {b : Bytes}
    (h : ∀ entry ∈ entries, entry.offset + entry.previous.size ≤ b.size) :
    (entries.foldl undo b).size = b.size := by
  induction entries generalizing b with
  | nil => rfl
  | cons first entries ih =>
      have hsize : (undo b first).size = b.size := Bytes.size_splice (h first List.mem_cons_self)
      rw [List.foldl_cons, ih fun entry hentry => ?_, hsize]
      rw [hsize]
      exact h entry (List.mem_cons_of_mem _ hentry)

/-- Whatever is reverted, each entry is put back inside the bytes as they are by then. -/
theorem Recalls.undo_inside {m : Memory} {copies : List Bytes} (h : m.Recalls copies)
    {mark : Mark Nat} {before after : List Overwrite} {entry : Overwrite}
    (hsince : m.journal.since mark = before ++ entry :: after) :
    entry.offset + entry.previous.size ≤ (before.foldl undo m.data).size := by
  have hfits : ∀ e ∈ before ++ entry :: after, e.offset + e.previous.size ≤ m.data.size := by
    intro e he
    rw [← hsince] at he
    exact Rewind.Recalls.fits h e (List.mem_of_mem_take he)
  rw [size_foldl_undo fun e he => hfits e (List.mem_append_left _ he)]
  exact hfits entry (by simp)

/-- Machines of byte lists and of histories stay in correspondence. -/
theorem replay_run (limit : Nat) (ops : List Operation) (c : Copied (List Edit)) :
    (Operation.run (Copied.modify (Edit.record limit)) ops c).map replay =
      Operation.run (Copied.modify (Edit.apply limit)) ops (c.map replay) := by
  induction ops generalizing c with
  | nil => rfl
  | cons op ops ih =>
      refine (ih _).trans (congrArg (Operation.run (Copied.modify (Edit.apply limit)) ops) ?_)
      cases op with
      | edit e => exact Copied.map_modify (replay_record limit e c.contents)
      | checkpoint => rfl
      | commit handle => exact Copied.map_commit replay handle c
      | revertTo handle => exact Copied.map_revert_to replay handle c

/-- A memory refines full copies of a byte list. After any operations, with any offsets, sizes and
handles, it has the bytes and the length of a machine that copies the list at each checkpoint, and
the next checkpoint gets the number of the next copy; its length is a number of whole words. A read
finds in each place the byte written last on the history that survives, and zero where none was
written. Each edit is accepted or refused as on the list; what is accepted leaves all bytes outside
of its part, and what is refused changes nothing. When a checkpoint is reverted, each entry is put
back inside the bytes as they are by then. -/
theorem run_refines_bytes {limit : Nat} (hlimit : limit < 2 ^ 63) (ops : List Operation) :
    let m := Operation.run edit ops (withLimit limit)
    let copied := Operation.run (Copied.modify (Edit.apply limit)) ops ⟨[], .empty⟩
    let history := Operation.run (Copied.modify (Edit.record limit)) ops ⟨[], .empty⟩
    m.limit = limit ∧ m.data = copied.contents.toByteArray ∧ m.size = copied.contents.length ∧
      (Checkpointed.checkpoint m).1 = copied.copies.size ∧ m.size % 32 = 0 ∧
      (∀ offset size, m.read offset size =
        ((List.range' offset size).map (lastWritten history.contents)).toByteArray) ∧
      (∀ e : Edit, m.Answers e) ∧
      (∀ (e : Edit) added m', e.act m = .ok added m' →
        ∀ i, ¬ (e.offset ≤ i ∧ i < e.offset + e.part.length) →
          m'.data.byteAt i = m.data.byteAt i) ∧
      (∀ (e : Edit) cause m', e.act m = .error cause m' → m' = m) ∧
      ∀ handle mark before entry after, m.journal.mark? handle = some mark →
        m.journal.since mark = before ++ entry :: after →
          entry.offset + entry.previous.size ≤ (before.foldl undo m.data).size := by
  intro m copied history
  have hfollows : m.Follows limit history := (follows_with_limit limit).run hlimit ops
  have hwhole := hfollows.whole_words hlimit
  have hcopied : history.map replay = copied := replay_run limit ops ⟨[], .empty⟩
  have hcontents : replay history.contents = copied.contents := congrArg Copied.contents hcopied
  refine ⟨hfollows.limit_eq, ?_, ?_, ?_, hwhole.aligned, ?_, answers hwhole, ?_, ?_, ?_⟩
  · rw [hfollows.data_eq, replayed, hcontents]
  · rw [hfollows.size_eq, ← hcontents, length_replay]
  · have hdepth := hfollows.recalls.checkpoint.1
    rw [← (history.copies.map replayed).size_eq] at hdepth
    rw [hdepth, ← hcopied]
    rfl
  · intro offset size
    rw [Memory.read, Bytes.window_eq_map, hfollows.data_eq]
    congr 2
    funext i
    rw [← getD_replay]
    simp [Bytes.byteAt, replayed, List.data_toByteArray]
  · intro e added m' hdone i hi
    exact (answers hwhole e).outside hdone hi
  · intro e cause m' hrefused
    exact act_refused hrefused
  · intro handle mark before entry after _ hsince
    exact hfollows.recalls.undo_inside hsince

/-- A byte that was overwritten after a checkpoint is back once that is reverted. -/
theorem run_refines_bytes_reverted :
    let ops : List Operation := [.edit (.writeByte 3 7), .checkpoint, .edit (.writeByte 3 9),
      .edit (.expand 40 1), .revertTo 0]
    64 < 2 ^ 63 ∧ (Operation.run edit ops (withLimit 64)).size = 32 ∧
      (Operation.run edit ops (withLimit 64)).read 3 1 = [7].toByteArray := by
  intro ops
  have hlimit : 64 < 2 ^ 63 := by decide
  obtain ⟨_, _, hsize, _, _, hread, _⟩ := run_refines_bytes hlimit ops
  exact ⟨hlimit, hsize, hread 3 1⟩

end Memory
end CallTree
