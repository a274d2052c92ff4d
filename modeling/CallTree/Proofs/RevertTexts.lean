import CallTree.Proofs.BigEndian
import CallTree.RevertReason

/-!
# Texts of reverts

The payload of a revert comes from the code that reverts, so it may be any bytes, and the length in it
any word. `RevertReason.decode_eq_some_iff` says for every payload whether it has a text and which: the
length counts in full, and the text has to lie inside the payload. Written payloads have this form,
whatever follows them (`RevertReason.decode_encode`).

A machine has to narrow the length to an amount before it can add to it or read up to it. The comparison
with the size comes first, and it is enough: no payload makes a step of the decoding fail
(`RevertReason.steps_eq`).
-/

namespace CallTree

namespace Bytes

/-- The bytes between two offsets, or `none` when they are not all there. -/
def slice? (b : Bytes) (start stop : Nat) : Option Bytes :=
  if start ≤ stop ∧ stop ≤ b.size then some (b.extract start stop) else none

theorem slice_eq {b : Bytes} {start stop : Nat} (hstart : start ≤ stop) (hstop : stop ≤ b.size) :
    b.slice? start stop = some (b.extract start stop) :=
  if_pos ⟨hstart, hstop⟩

/-- Zeros are added to the last of two strings. -/
theorem extend_zeros_of_append (n : Nat) (a b : Bytes) :
    extendZeros n (a ++ b) = a ++ extendZeros n b := by
  induction n generalizing b with
  | zero => rfl
  | succ n ih =>
      have hpush : (a ++ b).push 0 = a ++ b.push 0 := ByteArray.ext (by simp [Array.push_append])
      rw [extendZeros, hpush, ih, extendZeros]

/-- Zeros that are added follow the bytes. -/
theorem extend_zeros_eq_append (n : Nat) (b : Bytes) : extendZeros n b = b ++ zeros n := by
  have happend := extend_zeros_of_append n b ByteArray.empty
  rwa [ByteArray.append_empty] at happend

/-- The bytes between others. -/
theorem extract_middle {a b c : Bytes} {start stop : Nat} (hstart : start = a.size)
    (hstop : stop = a.size + b.size) : (a ++ (b ++ c)).extract start stop = b := by
  subst hstart hstop
  have hdrop := ByteArray.extract_append_size_add (a := a) (b := b ++ c) (i := 0) (j := b.size)
  exact hdrop.trans (ByteArray.extract_append_eq_left rfl)

/-- Bytes are the text of a string exactly if they are the bytes of that string. -/
theorem from_utf8_eq_some_iff {b : Bytes} {text : String} :
    String.fromUTF8? b = some text ↔ b = text.toUTF8 := by
  unfold String.fromUTF8?
  refine ⟨fun h => ?_, fun h => ?_⟩
  · split at h
    · rw [← Option.some.inj h]
      rfl
    · cases h
  · subst h
    exact dif_pos text.isValidUTF8

end Bytes

namespace RevertReason

/-- The length that a payload gives for its text. -/
def lengthWord (data : Bytes) : Nat :=
  bigEndian (data.extract 36 textStart).data.toList

/-- The payloads that have a text are those of at least 68 bytes that start with the selector and give a
length that ends inside them, to bytes that are the text in UTF-8. -/
theorem decode_eq_some_iff {data : Bytes} {text : String} :
    decode data = some text ↔
      textStart ≤ data.size ∧ data.extract 0 4 = selector ∧
      textStart + lengthWord data ≤ data.size ∧
      data.extract textStart (textStart + lengthWord data) = text.toUTF8 := by
  unfold decode
  rw [Bytes.to_nat_eq, ← lengthWord]
  dsimp only
  by_cases hsize : data.size < textStart
  · rw [if_pos hsize]
    exact ⟨fun h => (nomatch h), fun h => absurd h.1 (Nat.not_le.2 hsize)⟩
  by_cases hselector : data.extract 0 4 = selector
  · by_cases hend : data.size < textStart + lengthWord data
    · rw [if_neg hsize, if_neg (not_not_intro hselector), if_pos hend]
      exact ⟨fun h => (nomatch h), fun h => absurd h.2.2.1 (Nat.not_le.2 hend)⟩
    · rw [if_neg hsize, if_neg (not_not_intro hselector), if_neg hend, Bytes.from_utf8_eq_some_iff]
      exact ⟨fun h => ⟨Nat.le_of_not_lt hsize, hselector, Nat.le_of_not_lt hend, h⟩,
        fun h => h.2.2.2⟩
  · rw [if_neg hsize, if_pos hselector]
    exact ⟨fun h => (nomatch h), fun h => absurd h.2.1 hselector⟩

/-! ## Written payloads -/

/-- What is written is the selector and the offset word, the length, the text, and what follows that. -/
theorem encode_append (text : String) (trailing : Bytes) : ∃ rest : Bytes,
    encode text ++ trailing = selector ++ Bytes.ofNat 32 32 ++
      (Bytes.ofNat 32 text.toUTF8.size ++ (text.toUTF8 ++ rest)) := by
  refine ⟨Bytes.zeros (wordsFor text.toUTF8.size * 32 - text.toUTF8.size) ++ trailing, ?_⟩
  unfold encode
  dsimp only
  rw [Bytes.extend_zeros_eq_append]
  simp only [ByteArray.append_assoc]

/-- A text is read back from its payload, whatever follows it. -/
theorem decode_encode {text : String} (h : text.toUTF8.size < 2 ^ 256) (trailing : Bytes) :
    decode (encode text ++ trailing) = some text := by
  obtain ⟨rest, hdata⟩ := encode_append text trailing
  have hhead : (selector ++ Bytes.ofNat 32 32).size = 36 := by
    rw [ByteArray.size_append, Bytes.size_of_nat]
    rfl
  have hword : (Bytes.ofNat 32 text.toUTF8.size).size = 32 := Bytes.size_of_nat 32 _
  have hselector : (encode text ++ trailing).extract 0 4 = selector := by
    rw [hdata, ByteArray.append_assoc]
    exact ByteArray.extract_append_eq_left rfl
  have hlength : lengthWord (encode text ++ trailing) = text.toUTF8.size := by
    rw [lengthWord, hdata, Bytes.extract_middle hhead.symm (by rw [hhead, hword]; rfl),
      Bytes.big_endian_of_nat]
    exact Nat.mod_eq_of_lt h
  have hsize : (encode text ++ trailing).size = textStart + (text.toUTF8.size + rest.size) := by
    rw [hdata, ByteArray.size_append, hhead, ByteArray.size_append, hword, ByteArray.size_append]
    unfold textStart
    omega
  have htext : (encode text ++ trailing).extract textStart (textStart + text.toUTF8.size) =
      text.toUTF8 := by
    have hstart : textStart = (selector ++ Bytes.ofNat 32 32 ++
        Bytes.ofNat 32 text.toUTF8.size).size := by
      rw [ByteArray.size_append, hhead, hword]
      rfl
    rw [hdata, ← ByteArray.append_assoc]
    exact Bytes.extract_middle hstart (congrArg (· + _) hstart)
  rw [decode_eq_some_iff, hlength, hsize]
  exact ⟨by omega, hselector, by omega, htext⟩

/-! ## Decoding in machine steps -/

/-- The text of a payload, in the steps of a machine: `none` stands for a step that cannot be carried
out, since it would read past the end, narrow a number that is no amount, or add up to none. -/
def decodeSteps? (data : Bytes) : Option (Option String) := do
  if data.size < textStart then
    return none
  let mark ← data.slice? 0 4
  if mark ≠ selector then
    return none
  let word ← data.slice? 36 textStart
  let length := Word.ofBytes word
  if Word.ofNat data.size < length then
    return none
  let narrowed ← fit? length.toNat
  let stop ← fit? (textStart + narrowed)
  if data.size < stop then
    return none
  let text ← data.slice? textStart stop
  return String.fromUTF8? text

/-- The word in a payload is its length. -/
theorem to_nat_length_word (data : Bytes) :
    (Word.ofBytes (data.extract 36 textStart)).toNat = lengthWord data := by
  have hlt := big_endian_lt (data.extract 36 textStart).data.toList
  have hcount : (data.extract 36 textStart).data.toList.length ≤ 32 := by
    show (data.extract 36 textStart).size ≤ 32
    rw [ByteArray.size_extract]
    unfold textStart
    omega
  have hpow := Nat.pow_le_pow_right (show 0 < 256 by decide) hcount
  rw [Word.ofBytes, Word.ofNat_eq, Bytes.to_nat_eq, BitVec.toNat_ofNat]
  exact Nat.mod_eq_of_lt (Nat.lt_of_lt_of_le hlt hpow)

/-- The comparison of words is one of the numbers. -/
theorem size_lt_word_iff {data : Bytes} (h : data.size < 2 ^ 256) :
    Word.ofNat data.size < Word.ofBytes (data.extract 36 textStart) ↔
      data.size < lengthWord data := by
  rw [BitVec.lt_def, to_nat_length_word, Word.ofNat_eq, BitVec.toNat_ofNat, Nat.mod_eq_of_lt h]

/-- Every step can be carried out, as long as the end of a text after the data would be an amount. -/
theorem steps_eq {data : Bytes} (h : textStart + data.size ≤ maxAmount) :
    decodeSteps? data = some (decode data) := by
  have hfits : data.size < 2 ^ 256 := by
    unfold maxAmount at h
    omega
  unfold decodeSteps? decode
  rw [Bytes.to_nat_eq, ← lengthWord]
  dsimp only
  by_cases hsize : data.size < textStart
  · rw [if_pos hsize, if_pos hsize]
    rfl
  have hle : textStart ≤ data.size := Nat.le_of_not_lt hsize
  rw [if_neg hsize, if_neg hsize, Bytes.slice_eq (Nat.zero_le _) (Nat.le_trans (by decide) hle),
    Bytes.slice_eq (by decide) hle]
  by_cases hselector : data.extract 0 4 = selector
  · have hs : ¬data.extract 0 4 ≠ selector := not_not_intro hselector
    rw [if_neg hs]
    simp only [Option.bind_eq_bind, Option.bind_some, if_neg hs, size_lt_word_iff hfits,
      to_nat_length_word]
    by_cases hlong : data.size < lengthWord data
    · rw [if_pos hlong, if_pos (Nat.lt_of_lt_of_le hlong (Nat.le_add_left _ _))]
      rfl
    · have hshort : lengthWord data ≤ data.size := Nat.le_of_not_lt hlong
      have hstop : fit? (textStart + lengthWord data) = some (textStart + lengthWord data) :=
        fit?_eq_some_iff.2 ⟨by omega, rfl⟩
      have hnarrow : fit? (lengthWord data) = some (lengthWord data) :=
        fit?_eq_some_iff.2 ⟨by omega, rfl⟩
      rw [if_neg hlong, hnarrow, Option.bind_some, hstop, Option.bind_some]
      by_cases hend : data.size < textStart + lengthWord data
      · rw [if_pos hend, if_pos hend]
        rfl
      · rw [if_neg hend, if_neg hend,
          Bytes.slice_eq (Nat.le_add_right _ _) (Nat.le_of_not_lt hend)]
        rfl
  · simp [hselector]

/-- Decoding is the inverse of encoding and safe on all payloads. The payload of a text gives that text,
whatever bytes follow; here a text is one whose length is a word. Any payload has a text exactly if it has
at least 68 bytes, starts with the selector, gives a length that, counted in full, ends inside the
payload, and the bytes of that length are the text in UTF-8. In a machine no step of this reads outside the
payload, cuts the length short or overflows. -/
theorem decode_exact :
    (∀ (text : String) (trailing : Bytes), text.toUTF8.size < 2 ^ 256 →
      decode (encode text ++ trailing) = some text) ∧
    (∀ (data : Bytes) (text : String), decode data = some text ↔
      textStart ≤ data.size ∧ data.extract 0 4 = selector ∧
      textStart + lengthWord data ≤ data.size ∧
      data.extract textStart (textStart + lengthWord data) = text.toUTF8) ∧
    ∀ data : Bytes, textStart + data.size ≤ maxAmount → decodeSteps? data = some (decode data) :=
  ⟨fun _ trailing h => decode_encode h trailing, fun _ _ => decode_eq_some_iff, fun _ => steps_eq⟩

/-- A text with bytes behind it is decoded. A length that would be right if only its low 64 bits counted is
not: the same payload has no text then. -/
theorem decode_exact_long_length :
    let head := selector ++ Bytes.ofNat 32 32
    let trailing : Bytes := ⟨#[0xFF, 0x00]⟩
    decode (encode "reason" ++ trailing) = some "reason" ∧
      decodeSteps? (encode "reason" ++ trailing) = some (some "reason") ∧
      decodeSteps? (head ++ Bytes.ofNat 32 (2 ^ 64 + 6) ++ "reason".toUTF8) = some none := by
  intro head trailing
  obtain ⟨hencoded, -, hsteps⟩ := decode_exact
  have htext := hencoded "reason" trailing (by decide +kernel)
  refine ⟨htext, ?_, ?_⟩
  · rw [hsteps _ (by decide +kernel), htext]
  · rw [hsteps _ (by decide +kernel)]
    decide +kernel

end RevertReason
end CallTree
