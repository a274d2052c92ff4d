import CallTree.Word
import Mathlib.Data.Nat.Digits.Defs

/-!
# Numbers in bytes

A string of bytes is read as the digits of a number in base 256, the most significant first
(`bigEndian`). What reads numbers and what writes them is related to this once, so that nothing else has
to look at how bytes are put together.
-/

namespace CallTree

/-- The number that bytes spell, most significant byte first. -/
def bigEndian (bytes : List UInt8) : Nat :=
  Nat.ofDigits 256 (bytes.reverse.map UInt8.toNat)

/-- Another byte behind the others. -/
theorem big_endian_append (bytes : List UInt8) (b : UInt8) :
    bigEndian (bytes ++ [b]) = bigEndian bytes * 256 + b.toNat := by
  rw [bigEndian, List.reverse_append, List.reverse_singleton, List.singleton_append, List.map_cons,
    Nat.ofDigits_cons, bigEndian]
  omega

/-- A byte is a digit. -/
theorem digit_lt (bytes : List UInt8) : ∀ digit ∈ bytes.reverse.map UInt8.toNat, digit < 256 := by
  intro digit hdigit
  obtain ⟨b, -, rfl⟩ := List.mem_map.1 hdigit
  exact b.toNat_lt

/-- So many bytes spell no larger number. -/
theorem big_endian_lt (bytes : List UInt8) : bigEndian bytes < 256 ^ bytes.length := by
  have hlt := Nat.ofDigits_lt_base_pow_length (by decide) (digit_lt bytes)
  rwa [List.length_map, List.length_reverse] at hlt

/-- Zeros in front do not count. -/
theorem big_endian_zeros (n : Nat) (bytes : List UInt8) :
    bigEndian (List.replicate n 0 ++ bytes) = bigEndian bytes := by
  rw [bigEndian, List.reverse_append, List.reverse_replicate, List.map_append, List.map_replicate]
  exact Nat.ofDigits_append_replicate_zero _

/-- Strings of one length that spell the same number are the same. -/
theorem big_endian_inj {bytes other : List UInt8} (hlength : bytes.length = other.length)
    (h : bigEndian bytes = bigEndian other) : bytes = other := by
  have hdigits : bytes.reverse.map UInt8.toNat = other.reverse.map UInt8.toNat :=
    Nat.ofDigits_inj_of_len_eq (by decide) (by simpa using hlength) (digit_lt bytes)
      (digit_lt other) h
  exact List.reverse_inj.1 (List.map_inj_right (fun _ _ => UInt8.toNat_inj.1) |>.1 hdigits)

namespace Bytes

/-- The first bytes of a string, read as a number. -/
theorem to_nat_up_to_eq (b : Bytes) {n : Nat} (hn : n ≤ b.size) :
    b.toNatUpTo n = bigEndian (b.data.toList.take n) := by
  induction n with
  | zero => rfl
  | succ n ih =>
      have hlt : n < b.size := hn
      have hbyte : b[n] = b.data.toList[n] := rfl
      rw [toNatUpTo, dif_pos hlt, ih (Nat.le_of_succ_le hn), hbyte, ← big_endian_append,
        List.take_append_getElem]

/-- A whole string, read as a number. -/
theorem to_nat_eq (b : Bytes) : b.toNat = bigEndian b.data.toList := by
  rw [toNat, to_nat_up_to_eq b (Nat.le_refl _)]
  exact congrArg bigEndian (List.take_length)

/-- As many bytes as digits are written. -/
theorem size_of_nat (width n : Nat) : (ofNat width n).size = width := by
  induction width generalizing n with
  | zero => rfl
  | succ width ih => rw [ofNat, ByteArray.size_push, ih]

/-- A number is written digit by digit. -/
theorem to_list_of_nat (width n : Nat) : (ofNat (width + 1) n).data.toList =
    (ofNat width (n / 256)).data.toList ++ [UInt8.ofNat n] := by
  rw [ofNat, ByteArray.data_push, Array.toList_push]

/-- What is written of a number are its low digits. -/
theorem big_endian_of_nat (width n : Nat) :
    bigEndian (ofNat width n).data.toList = n % 256 ^ width := by
  induction width generalizing n with
  | zero => rw [Nat.pow_zero, Nat.mod_one]; rfl
  | succ width ih =>
      have hpow : 256 ^ (width + 1) = 256 * 256 ^ width := Nat.pow_succ'
      rw [to_list_of_nat, big_endian_append, ih, UInt8.toNat_ofNat', hpow, Nat.mod_mul]
      omega

/-- A number that is written in enough bytes is read back. -/
theorem to_nat_of_nat {width n : Nat} (h : n < 256 ^ width) : (ofNat width n).toNat = n := by
  rw [to_nat_eq, big_endian_of_nat, Nat.mod_eq_of_lt h]

/-- A string is written back from the number that it spells. -/
theorem of_nat_to_nat (b : Bytes) : ofNat b.size b.toNat = b := by
  have hlt : b.toNat < 256 ^ b.size := by
    rw [to_nat_eq]
    exact big_endian_lt b.data.toList
  refine ByteArray.ext (Array.toList_inj.1 (big_endian_inj (size_of_nat b.size b.toNat) ?_))
  rw [big_endian_of_nat, Nat.mod_eq_of_lt hlt, to_nat_eq]

end Bytes

namespace Address

/-- An address is read from its 20 bytes and from no others. -/
theorem of_bytes_eq_some_iff {b : Bytes} {a : Address} : ofBytes? b = some a ↔ b = a.toBytes := by
  unfold ofBytes?
  refine ⟨fun h => ?_, fun h => ?_⟩
  · split at h
    · rename_i hsize
      obtain rfl := Option.some.inj h
      have hlt : b.toNat < 2 ^ 160 := by
        have hdigits := big_endian_lt b.data.toList
        rw [← Bytes.to_nat_eq, show b.data.toList.length = 20 from hsize] at hdigits
        exact Nat.lt_of_lt_of_le hdigits (by decide)
      rw [toBytes, BitVec.toNat_ofNat, Nat.mod_eq_of_lt hlt, ← hsize, Bytes.of_nat_to_nat]
    · cases h
  · rw [h, toBytes, if_pos (Bytes.size_of_nat 20 a.toNat), Bytes.to_nat_of_nat a.isLt,
      BitVec.ofNat_toNat, BitVec.setWidth_eq]

end Address
end CallTree
