import CallTree.Proofs.CreatePreimages
import CallTree.Proofs.Destinations
import CallTree.Proofs.MemoryCopies
import CallTree.Proofs.RevertTexts
import CallTree.Proofs.Slices

/-!
# Where amounts are calculated

What is calculated is listed by the state that a calculation starts from (`Context.Calculates`), and many
entries carry a condition, for instance that there is as much gas as is taken away. Such a condition is
not assumed of the program: a definition that gets as far as the calculation has made sure of it before.
For each of these definitions it is shown here where it stops short, and that otherwise the calculation
is a listed one and its result is what the definition goes on with.
The instructions of a run and the nonces are counted without a check; there the budget of the run is what
bounds them (`Context.Advances.calculates`).

Operands are counted from the bottom here, as a machine stores them.
-/

namespace CallTree

/-! ## Byte strings -/

namespace Bytes

/-- A window that starts inside a string shows what there is of it, and then zeros. -/
theorem window_of_lt {b : Bytes} {offset : Nat} (h : offset < b.size) (size : Nat) :
    b.window offset size = b.extract offset (offset + min (b.size - offset) size) ++
      zeros (size - min (b.size - offset) size) := by
  have hend : min b.size (offset + size) = offset + min (b.size - offset) size := by omega
  have hpart : (b.extract offset (offset + min (b.size - offset) size)).size =
      min (b.size - offset) size := by
    rw [ByteArray.size_extract]
    omega
  rw [window, if_pos h]
  dsimp only
  rw [hend, hpart, extend_zeros_eq_append]

/-- Zeros in front of a string do not change its number. -/
theorem to_nat_zeros_append (n : Nat) (b : Bytes) : (zeros n ++ b).toNat = b.toNat := by
  have hzeros : (zeros n).data.toList = List.replicate n 0 := by
    rw [zeros, extend_zeros_eq, List.data_toByteArray]
    rfl
  rw [to_nat_eq, to_nat_eq, ByteArray.data_append, Array.toList_append, hzeros, big_endian_zeros]

end Bytes

/-! ## Memories -/

namespace Memory

variable {m m' : Memory}

/-- A read stops at once past the last byte. Otherwise it calculates how many bytes there are and where
they end, and takes them from there. -/
theorem read_cases (m : Memory) (offset size : Nat) :
    m.size ≤ offset ∧ m.read offset size = Bytes.zeros size ∨
      m.Calculates (.difference m.size offset) ∧
        m.Calculates (.sum offset (min (m.size - offset) size)) ∧
        m.read offset size = m.data.extract offset (offset + min (m.size - offset) size) ++
          Bytes.zeros (size - min (m.size - offset) size) := by
  by_cases h : offset < m.size
  · exact .inr ⟨.readRest h, .readEnd size h, Bytes.window_of_lt h size⟩
  · exact .inl ⟨Nat.le_of_not_lt h, if_neg h⟩

/-- A memory that is grown is grown past its last byte, by the words that are calculated. -/
theorem expand_calculates {offset size added : Nat} (h : expand offset size m = .ok added m') :
    added = 0 ∧ m' = m ∨
      m.Calculates (.difference (wordsFor (offset + size)) m.words) ∧
        added = wordsFor (offset + size) - m.words := by
  unfold expand at h
  split at h
  · cases h
    exact .inl ⟨rfl, rfl⟩
  · split at h
    · cases h
    · split at h
      · cases h
        exact .inl ⟨rfl, rfl⟩
      · rename_i hbeyond
        split at h
        · cases h
        · cases hfit : fit? (wordsFor (offset + size) * 32) with
          | none => simp [hfit] at h
          | some newSize =>
              simp only [hfit] at h
              cases h
              exact .inr ⟨.wordsAdded (Nat.lt_of_not_le hbeyond), rfl⟩

/-- A write of some bytes calculates where they end, in the memory that was grown for them. -/
theorem write_calculates {offset added : Nat} {part : Bytes} (hpart : part.size ≠ 0)
    (h : write offset part m = .ok added m') : ∃ grown, expand offset part.size m = .ok added grown ∧
      m.Calculates (.sum offset part.size) ∧ offset + part.size ≤ grown.size ∧
      m'.data = grown.data.splice offset part := by
  cases hexpand : expand offset part.size m with
  | error e grown =>
      rw [write, if_neg hpart, hexpand] at h
      cases h
  | ok count grown =>
      obtain ⟨n, hgrown, hinside⟩ := expand_cases hexpand
      rw [write_of_expand hpart hexpand] at h
      cases h
      exact ⟨grown, rfl, .writeEnd hpart hexpand, (hinside hpart).1, rfl⟩

/-- What is put back was written at a place that is calculated. -/
theorem undo_calculates {mark : Mark Nat} {entry : Overwrite} (h : entry ∈ m.journal.since mark) :
    m.Calculates (.sum entry.offset entry.previous.size) :=
  .undoEnd (List.mem_of_mem_take h)

end Memory

/-! ## Operands -/

/-- An item of a pile, counted from the bottom. -/
theorem Pile.from_bottom_sub {α : Type} {p : Pile α} {n : Nat} (h : n < p.size) :
    p.fromBottom? (p.size - (n + 1)) = p.get? n := by
  have hplace : p.size - 1 - (p.size - (n + 1)) = n := by omega
  rw [fromBottom?, if_pos (by omega), hplace, get?]

/-- What an exchange does to a stack, counted from the top. -/
theorem Stack.swap_inv {n : Nat} {s s' : Stack} (h : swap n s = .ok () s') :
    n < s.size ∧ s'.size = s.size ∧ s'.items.get? 0 = s.items.get? n ∧
      s'.items.get? n = s.items.get? 0 ∧
      ∀ i, i ≠ 0 → i ≠ n → s'.items.get? i = s.items.get? i := by
  obtain ⟨limit, ⟨items, size, hsize⟩, copies⟩ := s
  cases n with
  | zero => cases h
  | succ n =>
      cases items with
      | nil => cases h
      | cons top rest =>
          cases hdeep : rest[n]? with
          | none => simp [swap, hdeep] at h
          | some deep =>
              simp only [swap, hdeep] at h
              cases h
              obtain ⟨hn, -⟩ := List.getElem?_eq_some_iff.1 hdeep
              have hlt : n + 1 < size := by rw [hsize, List.length_cons]; omega
              refine ⟨hlt, rfl, hdeep.symm, ?_, fun i hfirst hother => ?_⟩
              · exact List.getElem?_set_self hn
              · cases i with
                | zero => exact absurd rfl hfirst
                | succ i => exact List.getElem?_set_ne fun he => hother (congrArg (· + 1) he.symm)

namespace Workspace

variable {w : Workspace} {n : Nat} {s : Stack}

/-- A word that is repeated is the one at the place that is calculated, whether or not there is room
for another. -/
theorem dup_calculates (h : Stack.dup n w.stack ≠ .error (.fault .stackUnderflow) w.stack) :
    w.Calculates (.difference w.stack.size n) ∧
      ∃ word, w.stack.items.fromBottom? (w.stack.size - n) = some word ∧
        Stack.dup n w.stack = Stack.push word w.stack := by
  cases n with
  | zero => exact absurd rfl h
  | succ n =>
      cases hget : w.stack.items.get? n with
      | none => exact absurd (by simp [Stack.dup, hget]) h
      | some word =>
          obtain ⟨hn, -⟩ := List.getElem?_eq_some_iff.1 hget
          have hlt : n < w.stack.items.size := w.stack.items.size_eq ▸ hn
          exact ⟨.operand hlt, word, (Pile.from_bottom_sub hlt).trans hget, by simp [Stack.dup, hget]⟩

/-- Two words that are exchanged are the ones at the places that are calculated, and all others stay. -/
theorem swap_calculates (h : Stack.swap n w.stack = .ok () s) :
    w.Calculates (.difference w.stack.size 1) ∧ w.Calculates (.difference w.stack.size (n + 1)) ∧
      s.items.fromBottom? (w.stack.size - 1) = w.stack.items.fromBottom? (w.stack.size - (n + 1)) ∧
      s.items.fromBottom? (w.stack.size - (n + 1)) = w.stack.items.fromBottom? (w.stack.size - 1) ∧
      ∀ place, place ≠ w.stack.size - 1 → place ≠ w.stack.size - (n + 1) →
        s.items.fromBottom? place = w.stack.items.fromBottom? place := by
  obtain ⟨hn, hsize, htop, hdeep, hothers⟩ := Stack.swap_inv h
  have hpos : 0 < w.stack.size := Nat.zero_lt_of_lt hn
  have hafter : ∀ i < w.stack.size,
      s.items.fromBottom? (w.stack.size - (i + 1)) = s.items.get? i := by
    intro i hi
    rw [← hsize] at hi ⊢
    exact Pile.from_bottom_sub hi
  refine ⟨.operand hpos, .operand hn, ?_, ?_, fun place hlast hplace => ?_⟩
  · exact (hafter 0 hpos).trans (htop.trans (Pile.from_bottom_sub hn).symm)
  · exact (hafter n hn).trans (hdeep.trans (Pile.from_bottom_sub hpos).symm)
  · by_cases hlt : place < w.stack.size
    · have hi : w.stack.size - 1 - place < w.stack.size := by omega
      have hback : place = w.stack.size - (w.stack.size - 1 - place + 1) := by omega
      have hsame := hothers (w.stack.size - 1 - place) (by omega) (by omega)
      rw [hback, hafter _ hi, hsame]
      exact (Pile.from_bottom_sub hi).symm
    · have hbeyond : ¬place < s.size := by
        rw [hsize]
        exact hlt
      exact (if_neg hbeyond).trans (if_neg hlt).symm

end Workspace

/-! ## Frames -/

namespace Frame

variable {f g : Frame}

/-- A debit that is not refused takes away what is there. -/
theorem consume_gas_calculates {amount : Nat} (h : consumeGas amount f = .ok () g) :
    f.Calculates (.difference f.gas.remaining amount) ∧
      g.gas.remaining = f.gas.remaining - amount := by
  unfold consumeGas GasMeter.consume at h
  by_cases hrunning : f.running = true
  · by_cases hpoor : f.gas.remaining < amount
    · simp [hrunning, hpoor] at h
    · simp only [hrunning, hpoor, if_true, if_false] at h
      cases h
      exact ⟨.debit (Nat.le_of_not_lt hpoor), rfl⟩
  · simp [hrunning] at h

/-- A word that is loaded from past the input is zero. Otherwise it is calculated how many bytes there are
and where they end, and they are taken from there. -/
theorem input_cases (f : Frame) (offset : Nat) :
    f.call.input.size ≤ offset ∧ f.call.input.window offset 32 = Bytes.zeros 32 ∨
      f.Calculates (.difference f.call.input.size offset) ∧
        f.Calculates (.sum offset (min (f.call.input.size - offset) 32)) ∧
        f.call.input.window offset 32 =
          f.call.input.extract offset (offset + min (f.call.input.size - offset) 32) ++
            Bytes.zeros (32 - min (f.call.input.size - offset) 32) := by
  by_cases h : offset < f.call.input.size
  · exact .inr ⟨.inputRest h, .inputEnd h, Bytes.window_of_lt h 32⟩
  · exact .inl ⟨Nat.le_of_not_lt h, if_neg h⟩

/-- An immediate fills a word from the byte on that is calculated; there are zeros before it. -/
theorem immediate_calculates {size : Nat} {word : Word} (h : f.immediate? size = some word) :
    f.Calculates (.difference 32 (min size 32)) ∧ word = Word.ofBytes
      (Bytes.zeros (32 - min size 32) ++ f.program.code.window (satAdd f.pc 1) (min size 32)) := by
  refine ⟨.padding size, ?_⟩
  rw [Word.ofBytes, Bytes.to_nat_zeros_append]
  unfold immediate? at h
  cases hsize : min size 32 with
  | zero =>
      rw [hsize] at h
      cases h
      have hnone : f.program.code.window (satAdd f.pc 1) 0 = ByteArray.empty :=
        ByteArray.size_eq_zero_iff.1 (Bytes.size_window _ _ _)
      rw [hnone]
      rfl
  | succ n =>
      rw [hsize] at h
      dsimp only at h
      split at h
      · cases h
        rfl
      · cases h

/-- The walk over the code goes on at the place that is calculated. -/
theorem walk_calculates {walk next : Walk} (h : walk.round? f.program.code = some next) :
    ∃ hi : walk.offset < f.program.code.size,
      f.Calculates
        (.sum walk.offset (1 + (Opcode.ofByte f.program.code[walk.offset]).immediateSize)) ∧
      next.offset =
        walk.offset + (1 + (Opcode.ofByte f.program.code[walk.offset]).immediateSize) := by
  unfold Walk.round? at h
  split at h
  · rename_i hi
    cases h
    exact ⟨hi, .walk hi, Nat.add_assoc _ _ _⟩
  · cases h

end Frame

/-! ## Runs -/

/-- Only instructions begin creations. -/
theorem length_creators_le (limits : Limits) (states : List RunState) :
    (creators limits states).length ≤ instructions states := by
  induction states with
  | nil => exact Nat.le_refl _
  | cons s states ih =>
      rw [creators, List.filterMap_cons, instructions, List.countP_cons]
      by_cases hexecutes : s.executes = true
      · rw [if_pos hexecutes]
        split
        · exact Nat.le_succ_of_le ih
        · exact Nat.succ_le_succ ih
      · have hnone : s.creator? limits = none := if_neg hexecutes
        rw [if_neg hexecutes, hnone]
        exact ih

namespace Context

variable {limits : Limits} {c c' : Context} {n : Nat}

/-- A nonce that does not stand for itself is written from the byte on that is calculated. -/
theorem nonce_field_calculates (c : Context) {creator : Address}
    (h : 127 < c.world.nonce creator) : ∃ start, c.Calculates (.difference 8 start) ∧
      nonceField (c.world.nonce creator) = UInt8.ofNat (0x80 + (8 - start)) ::
        (Bytes.ofNat 8 (c.world.nonce creator)).data.toList.drop start := by
  refine ⟨_, .nonceBytes creator, ?_⟩
  rw [nonceField, if_neg (by omega), if_neg (by omega)]

/-- After any number of instructions a run counts them, and adds one for the next. That is no more than
the budget allows, and no nonce has been raised more often. -/
theorem Advances.calculates (h : Advances limits n c c') (hn : n ≤ limits.maxExecutionSteps) :
    c.run limits = runFor limits (limits.maxExecutionSteps - n) n c' ∧
      (limits.maxExecutionSteps < maxAmount → c'.Calculates (.sum n 1)) ∧
      ∀ a, c.world.nonce a + limits.maxExecutionSteps < maxAmount →
        c'.Calculates (.sum (c'.world.nonce a) 1) := by
  refine ⟨?_, fun hmax => .steps (Nat.lt_of_le_of_lt hn hmax), fun a hmax => .nonce ?_⟩
  · have hrun := h.run_for_add (limits.maxExecutionSteps - n) 0
    rwa [Nat.add_sub_cancel' hn, Nat.zero_add] at hrun
  · obtain ⟨states, htrail, hcount⟩ := h.trail
    have hnonce : c'.world.nonce a = c.world.nonce a + (creators limits states).count a :=
      htrail.nonce a
    have hcreators := length_creators_le limits states
    have hle := List.count_le_length (a := a) (l := creators limits states)
    omega

end Context
end CallTree
