import CallTree.Proofs.Boundaries

/-!
# Jump destinations

A byte of a code that reads as a jump destination may be data of a push, and what looks like that push may
be data itself. So whether the byte counts depends on the whole code before it. The boundaries of a code
say which bytes start an instruction. They leave nothing out: every byte is at a boundary or in the data
of the instruction at one (`Boundary.covers`).

The walk over the code visits the boundaries in order (`destinations_from_of_lt`), hence finds exactly the
destinations among them (`jump_destinations_exact`). Read as a loop that moves an offset forward, it
ends after as many rounds as the code has bytes, or fewer (`Walk.ends`).
-/

namespace CallTree

namespace Opcode

/-- Only the pushes have data, and their bytes count how much. -/
theorem immediate_size_eq (byte : UInt8) : (ofByte byte).immediateSize =
    if 0x5F ≤ byte.toNat ∧ byte.toNat ≤ 0x7F then byte.toNat - 0x5F else 0 := by
  unfold ofByte
  dsimp only
  split
  · rfl
  · repeat' split
    all_goals rfl

/-- One byte names the jump destination. -/
theorem of_byte_eq_jump_dest {byte : UInt8} : ofByte byte = .jumpDest ↔ byte = 0x5B := by
  refine ⟨fun h => ?_, fun h => h ▸ rfl⟩
  refine UInt8.toNat_inj.1 ?_
  unfold ofByte at h
  dsimp only at h
  repeat' split at h
  all_goals cases h
  -- Only the branch of the jump destination is left.
  assumption

end Opcode

/-! ## Every byte belongs to an instruction -/

/-- A byte of the code is the first of an instruction or lies in its data. -/
theorem Boundary.covers {code : Bytes} {i : Nat} (h : i < code.size) :
    ∃ (j : Nat) (hj : j < code.size), Boundary code j ∧ j ≤ i ∧
      i ≤ j + (Opcode.ofByte code[j]).immediateSize := by
  induction i with
  | zero => exact ⟨0, h, .start, Nat.le_refl _, Nat.zero_le _⟩
  | succ i ih =>
      obtain ⟨j, hj, hstart, hle, hdata⟩ := ih (Nat.lt_of_succ_lt h)
      by_cases hinside : i + 1 ≤ j + (Opcode.ofByte code[j]).immediateSize
      · exact ⟨j, hj, hstart, Nat.le_succ_of_le hle, hinside⟩
      · -- The data ended with the byte before.
        have hnext : j + 1 + (Opcode.ofByte code[j]).immediateSize = i + 1 := by omega
        exact ⟨i + 1, h, hnext ▸ .next hj hstart, Nat.le_refl _, Nat.le_add_right _ _⟩

/-- The boundaries inside the code are the bytes that are no data. -/
theorem Boundary.iff_not_inside {code : Bytes} {i : Nat} (h : i < code.size) :
    Boundary code i ↔ ∀ (j : Nat) (hj : j < code.size), Boundary code j →
      ¬(j < i ∧ i ≤ j + (Opcode.ofByte code[j]).immediateSize) := by
  refine ⟨fun hi j hj hstart => hstart.not_inside hj hi, fun houtside => ?_⟩
  obtain ⟨j, hj, hstart, hle, hdata⟩ := covers h
  obtain rfl | hlt := Nat.eq_or_lt_of_le hle
  · exact hstart
  · exact absurd ⟨hlt, hdata⟩ (houtside j hj hstart)

/-! ## What the walk finds -/

/-- The jump destinations from an offset on at which an instruction starts. -/
def destinationsFrom (code : Bytes) (offset : Nat) : List Nat :=
  scanDestinations offset 0 (code.data.toList.drop offset)

/-- Data is passed over. -/
theorem scan_skip (offset skip : Nat) (bytes : List UInt8) :
    scanDestinations offset skip bytes = scanDestinations (offset + skip) 0 (bytes.drop skip) := by
  induction skip generalizing offset bytes with
  | zero => rfl
  | succ skip ih =>
      cases bytes with
      | nil => rfl
      | cons byte rest =>
          rw [scanDestinations, ih, List.drop_succ_cons]
          congr 1
          omega

variable {code : Bytes} {i dest : Nat}

theorem destinations_from_past (h : code.size ≤ i) : destinationsFrom code i = [] := by
  rw [destinationsFrom, List.drop_eq_nil_of_le h]
  rfl

/-- The walk goes on behind the instruction and its data. -/
theorem destinations_from_of_lt (h : i < code.size) :
    destinationsFrom code i =
      (if code[i] = 0x5B then [i] else []) ++
        destinationsFrom code (i + 1 + (Opcode.ofByte code[i]).immediateSize) := by
  have hbytes : code.data.toList.drop i = code[i] :: code.data.toList.drop (i + 1) :=
    List.drop_eq_getElem_cons (l := code.data.toList) h
  have hlater : scanDestinations (i + 1) (Opcode.ofByte code[i]).immediateSize
      (code.data.toList.drop (i + 1)) =
        destinationsFrom code (i + 1 + (Opcode.ofByte code[i]).immediateSize) := by
    rw [scan_skip, List.drop_drop, destinationsFrom]
  rw [destinationsFrom, hbytes, scanDestinations, hlater]
  by_cases hdest : code[i] = 0x5B
  · rw [if_pos (Opcode.of_byte_eq_jump_dest.2 hdest), if_pos hdest, List.singleton_append]
  · rw [if_neg (mt Opcode.of_byte_eq_jump_dest.1 hdest), if_neg hdest, List.nil_append]

/-- What is found from a boundary on is found from the first byte on. -/
theorem Boundary.destinations_from (h : Boundary code i) (hdest : dest ∈ destinationsFrom code i) :
    dest ∈ jumpDestinations code := by
  induction h with
  | start => exact hdest
  | next hi _ ih =>
      refine ih ?_
      rw [destinations_from_of_lt hi]
      exact List.mem_append_right _ hdest

/-- What is found at an offset is a jump destination of the code. -/
theorem byte_of_destination {i : Nat} (h : dest ∈ destinationsFrom code i) :
    i ≤ dest ∧ ∃ hdest : dest < code.size, code[dest] = 0x5B := by
  by_cases hi : i < code.size
  · rw [destinations_from_of_lt hi, List.mem_append] at h
    obtain hhere | hlater := h
    · split at hhere
      · obtain rfl := List.mem_singleton.1 hhere
        exact ⟨Nat.le_refl _, hi, ‹_›⟩
      · cases hhere
    · have hrest := byte_of_destination hlater
      exact ⟨by omega, hrest.2⟩
  · rw [destinations_from_past (Nat.le_of_not_lt hi)] at h
    cases h
termination_by code.size - i

/-- The destinations are found in ascending order, each of them once. -/
theorem pairwise_destinations_from (code : Bytes) (i : Nat) :
    (destinationsFrom code i).Pairwise (· < ·) := by
  by_cases hi : i < code.size
  · rw [destinations_from_of_lt hi]
    refine List.pairwise_append.2 ⟨?_, pairwise_destinations_from code _, ?_⟩
    · split
      · exact List.pairwise_singleton _ _
      · exact .nil
    · intro here hhere later hlater
      have hle := (byte_of_destination hlater).1
      split at hhere
      · obtain rfl := List.mem_singleton.1 hhere
        omega
      · cases hhere
  · rw [destinations_from_past (Nat.le_of_not_lt hi)]
    exact .nil
termination_by code.size - i

/-! ## The walk as a loop -/

/-- The walk between two rounds. -/
structure Walk where
  /-- Where the next instruction starts. -/
  offset : Nat := 0
  /-- The destinations so far. -/
  found : List Nat := []

namespace Walk

/-- One round, or `none` when the code has ended. -/
def round? (code : Bytes) (w : Walk) : Option Walk :=
  if h : w.offset < code.size then
    let op := Opcode.ofByte code[w.offset]
    some ⟨w.offset + 1 + op.immediateSize,
      if op = .jumpDest then w.found ++ [w.offset] else w.found⟩
  else
    none

/-- A number of rounds. -/
def rounds? (code : Bytes) : Nat → Walk → Option Walk
  | 0, w => some w
  | n + 1, w => (w.round? code).bind (rounds? code n)

/-- A round takes one destination over to those found, if it meets one. -/
theorem round_eq {w : Walk} (h : w.offset < code.size) : ∃ next, w.round? code = some next ∧
    w.offset < next.offset ∧
    next.found ++ destinationsFrom code next.offset = w.found ++ destinationsFrom code w.offset := by
  refine ⟨_, dif_pos h, by dsimp only; omega, ?_⟩
  rw [destinations_from_of_lt h, ← List.append_assoc]
  congr 1
  by_cases hdest : code[w.offset] = 0x5B
  · rw [if_pos (Opcode.of_byte_eq_jump_dest.2 hdest), if_pos hdest]
  · rw [if_neg (mt Opcode.of_byte_eq_jump_dest.1 hdest), if_neg hdest, List.append_nil]

/-- The walk ends, with all destinations, before it has made as many rounds as there are bytes left. -/
theorem ends (code : Bytes) (w : Walk) : ∃ n ≤ code.size - w.offset, ∃ last,
    rounds? code n w = some last ∧ last.round? code = none ∧
      last.found = w.found ++ destinationsFrom code w.offset := by
  by_cases h : w.offset < code.size
  · obtain ⟨next, hround, hlt, hfound⟩ := round_eq h
    obtain ⟨n, hn, last, hrounds, hend, hlast⟩ := ends code next
    refine ⟨n + 1, by omega, last, ?_, hend, hlast.trans hfound⟩
    rw [rounds?, hround]
    exact hrounds
  · refine ⟨0, Nat.zero_le _, w, rfl, dif_neg h, ?_⟩
    rw [destinations_from_past (Nat.le_of_not_lt h), List.append_nil]
termination_by code.size - w.offset

end Walk

/-- The jump destinations of any code are the destination bytes at its boundaries, or, what is the same,
those that lie in no data of an instruction at a boundary; the data of an instruction is what follows a
push. Each is found once, in ascending order, by a loop that ends after at most as many rounds as there
are bytes. -/
theorem jump_destinations_exact (code : Bytes) :
    (∀ byte : UInt8, (Opcode.ofByte byte).immediateSize =
      if 0x5F ≤ byte.toNat ∧ byte.toNat ≤ 0x7F then byte.toNat - 0x5F else 0) ∧
    (∀ i, i ∈ jumpDestinations code ↔
      ∃ hi : i < code.size, code[i] = 0x5B ∧ Boundary code i) ∧
    (∀ i, i ∈ jumpDestinations code ↔ ∃ hi : i < code.size, code[i] = 0x5B ∧
      ∀ (j : Nat) (hj : j < code.size), Boundary code j →
        ¬(j < i ∧ i ≤ j + (Opcode.ofByte code[j]).immediateSize)) ∧
    (jumpDestinations code).Pairwise (· < ·) ∧
    ∃ n ≤ code.size, ∃ last, Walk.rounds? code n {} = some last ∧ last.round? code = none ∧
      last.found = jumpDestinations code := by
  have hmem : ∀ i, i ∈ jumpDestinations code ↔
      ∃ hi : i < code.size, code[i] = 0x5B ∧ Boundary code i := by
    intro i
    refine ⟨fun h => ?_, fun ⟨hi, hbyte, hstart⟩ => hstart.destinations_from ?_⟩
    · obtain ⟨-, hi, hbyte⟩ := byte_of_destination (i := 0) h
      exact ⟨hi, hbyte, boundary_of_scan rfl .start h⟩
    · rw [destinations_from_of_lt hi, if_pos hbyte]
      exact List.mem_append_left _ (List.mem_singleton_self i)
  refine ⟨Opcode.immediate_size_eq, hmem, fun i => (hmem i).trans ?_,
    pairwise_destinations_from code 0, Walk.ends code {}⟩
  exact exists_congr fun hi => and_congr_right fun _ => Boundary.iff_not_inside hi

/-- A push as the data of a push pushes nothing, and the last push may lack some of its data. -/
example : jumpDestinations ⟨#[0x61, 0x60, 0x5B, 0x5B, 0x7F, 0x5B]⟩ = [3] := by
  decide

end CallTree
