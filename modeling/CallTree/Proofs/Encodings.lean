import CallTree.Hash.Rlp
import CallTree.Proofs.BigEndian

/-!
# Reading encoded items

An encoded string or list can be read back, and in one way only. The reader takes strings and lists of any
size and depth. It refuses what no encoder writes: a header where a byte would stand for itself, a
long header for a short length, a length with leading zeros, bytes that are missing and bytes that are left
over. So it accepts the encoding of an item and nothing else for it (`Rlp.decode_eq_some_iff`), which is
what makes the encoding canonical.

Reading is strict at each level: the digits of a length, the header, and the piece that it announces each
come with a lemma for either direction, and the two inductions over all pieces only put these together.
-/

namespace CallTree.Rlp

/-! ## Digits -/

/-- The digits of a number are those in base 256, in the order in which numbers are written. -/
theorem digits_eq (n : Nat) : digits n = (Nat.digits 256 n).reverse.map UInt8.ofNat := by
  fun_induction digits n with
  | case1 => rfl
  | case2 n hn ih =>
      have hlast : UInt8.ofNat (n % 256) = UInt8.ofNat n := UInt8.toNat_inj.1 (by simp)
      rw [Nat.digits_eq_cons_digits_div (by decide) hn, List.reverse_cons, List.map_append,
        List.map_singleton, ← ih, hlast]

/-- The digits of a number spell it. -/
theorem big_endian_digits (n : Nat) : bigEndian (digits n) = n := by
  fun_induction digits n with
  | case1 => rfl
  | case2 n hn ih =>
      rw [big_endian_append, ih, UInt8.toNat_ofNat']
      omega

/-- Digits that do not start with a zero are those of the number that they spell. -/
theorem digits_big_endian {bytes : List UInt8} (h : bytes.head? ≠ some 0) :
    digits (bigEndian bytes) = bytes := by
  have hlast : ∀ hne : bytes.reverse.map UInt8.toNat ≠ [],
      (bytes.reverse.map UInt8.toNat).getLast hne ≠ 0 := by
    intro hne
    cases bytes with
    | nil => exact absurd rfl hne
    | cons b bytes =>
        have hb : b ≠ 0 := fun hzero => h (congrArg some hzero)
        simpa using fun hzero => hb (UInt8.toNat_inj.1 hzero)
  have hback : UInt8.ofNat ∘ UInt8.toNat = id := funext fun b => UInt8.ofNat_toNat
  rw [digits_eq, bigEndian, Nat.digits_ofDigits 256 (by decide) _ (digit_lt bytes) hlast,
    ← List.map_reverse, List.reverse_reverse, List.map_map, hback, List.map_id]

/-- Only zero has no digits. -/
theorem digits_ne_nil {n : Nat} (h : n ≠ 0) : digits n ≠ [] := by
  intro hnil
  have hvalue := big_endian_digits n
  rw [hnil] at hvalue
  exact h hvalue.symm

/-- The digits of a number do not start with a zero. -/
theorem head_digits (n : Nat) : (digits n).head? ≠ some 0 := by
  fun_induction digits n with
  | case1 => exact fun h => nomatch h
  | case2 n hn ih =>
      cases hrest : digits (n / 256) with
      | cons b rest =>
          rw [hrest] at ih
          exact ih
      | nil =>
          -- A number of one digit is that digit.
          have hsmall : n / 256 = 0 := not_imp_comm.1 digits_ne_nil (not_not_intro hrest)
          intro hzero
          have hlow := congrArg UInt8.toNat (Option.some.inj hzero)
          rw [UInt8.toNat_ofNat'] at hlow
          have hnone : n = 0 := by
            have hdvd : n % 2 ^ 8 = 0 := hlow
            omega
          exact hn hnone

/-- A number has no more digits than the power of 256 that exceeds it. -/
theorem length_digits_le {n k : Nat} (h : n < 256 ^ k) : (digits n).length ≤ k := by
  induction k generalizing n with
  | zero =>
      obtain rfl : n = 0 := by simpa using h
      simp [digits]
  | succ k ih =>
      rw [digits]
      split
      · exact Nat.zero_le _
      · have hquotient : n / 256 < 256 ^ k := by
          rw [Nat.pow_succ] at h
          omega
        simpa using ih hquotient

/-! ## Items -/

/-- What is encoded: strings of bytes, and lists of items. -/
inductive Item
  | string (content : List UInt8)
  | list (items : List Item)

mutual

/-- The encoding of an item. -/
def Item.encode : Item → List UInt8
  | .string content => string content
  | .list items => header 0xC0 (encodeAll items).length ++ encodeAll items

/-- The encodings of several items, one after another. -/
def encodeAll : List Item → List UInt8
  | [] => []
  | item :: items => item.encode ++ encodeAll items

end

/-! ## Headers -/

/-- Reads the length whose header has put `n` into its first byte, in which numbers up to 55 are the
length itself. -/
def readLength? (n : Nat) (bytes : List UInt8) : Option (Nat × List UInt8) :=
  if n ≤ 55 then
    some (n, bytes)
  else
    let ds := bytes.take (n - 55)
    if ds.length = n - 55 ∧ ds.head? ≠ some 0 ∧ 55 < bigEndian ds then
      some (bigEndian ds, bytes.drop (n - 55))
    else
      none

/-- The length in a header is read back. -/
theorem read_length_header (mark : Nat) {length : Nat} (h : length < 256 ^ 8) :
    ∃ n ≤ 63, ∃ ds, header mark length = UInt8.ofNat (mark + n) :: ds ∧
      ∀ rest, readLength? n (ds ++ rest) = some (length, rest) := by
  unfold header readLength?
  by_cases hshort : length ≤ 55
  · refine ⟨length, by omega, [], if_pos hshort, fun rest => ?_⟩
    rw [if_pos hshort]
    rfl
  · have hcount := length_digits_le h
    have hpos : 0 < (digits length).length := List.length_pos_iff.2 (digits_ne_nil (by omega))
    refine ⟨55 + (digits length).length, by omega, digits length, ?_, fun rest => ?_⟩
    · rw [if_neg hshort, ← Nat.add_assoc]
    · have hdigits : 55 + (digits length).length - 55 = (digits length).length := by omega
      rw [if_neg (by omega), hdigits]
      dsimp only
      rw [List.take_left, List.drop_left, big_endian_digits,
        if_pos ⟨rfl, head_digits length, by omega⟩]

/-- A header from which a length is read is the one of that length. -/
theorem header_of_read_length (mark : Nat) {n length : Nat} {bytes rest : List UInt8}
    (h : readLength? n bytes = some (length, rest)) :
    header mark length ++ rest = UInt8.ofNat (mark + n) :: bytes := by
  unfold readLength? at h
  split at h
  · obtain ⟨rfl, rfl⟩ := Prod.mk.inj (Option.some.inj h)
    rw [header, if_pos ‹_›]
    rfl
  · dsimp only at h
    split at h
    · rename_i hlong hds
      obtain ⟨hcount, hhead, hvalue⟩ := hds
      obtain ⟨rfl, rfl⟩ := Prod.mk.inj (Option.some.inj h)
      have hmark : mark + 55 + (n - 55) = mark + n := by omega
      rw [header, if_neg (Nat.not_le.2 hvalue)]
      dsimp only
      rw [digits_big_endian hhead, hcount, hmark, List.cons_append, List.take_append_drop]
    · cases h

/-- Reads the content that such a header announces. -/
def readContent? (n : Nat) (bytes : List UInt8) : Option (List UInt8 × List UInt8) :=
  (readLength? n bytes).bind fun (length, rest) =>
    if length ≤ rest.length then some (rest.take length, rest.drop length) else none

theorem read_content_header (mark : Nat) {content : List UInt8} (h : content.length < 256 ^ 8) :
    ∃ n ≤ 63, ∃ ds, header mark content.length = UInt8.ofNat (mark + n) :: ds ∧
      ∀ rest, readContent? n (ds ++ (content ++ rest)) = some (content, rest) := by
  obtain ⟨n, hn, ds, hheader, hread⟩ := read_length_header mark h
  refine ⟨n, hn, ds, hheader, fun rest => ?_⟩
  rw [readContent?, hread, Option.bind_some]
  dsimp only
  rw [if_pos (by simp), List.take_left, List.drop_left]

theorem header_of_read_content (mark : Nat) {n : Nat} {bytes content rest : List UInt8}
    (h : readContent? n bytes = some (content, rest)) :
    header mark content.length ++ (content ++ rest) = UInt8.ofNat (mark + n) :: bytes := by
  obtain ⟨⟨length, behind⟩, hlength, hcontent⟩ := Option.bind_eq_some_iff.1 h
  dsimp only at hcontent
  split at hcontent
  · rename_i hle
    obtain ⟨rfl, rfl⟩ := Prod.mk.inj (Option.some.inj hcontent)
    rw [List.length_take, Nat.min_eq_left hle, List.take_append_drop]
    exact header_of_read_length mark hlength
  · cases hcontent

/-! ## Pieces -/

/-- What one header announces: a string, or the encodings of the items of a list. -/
inductive Piece
  | string (content : List UInt8)
  | list (content : List UInt8)

namespace Piece

/-- The bytes between the header and what follows. -/
def content : Piece → List UInt8
  | .string content => content
  | .list content => content

/-- The piece with its header. -/
def encode : Piece → List UInt8
  | .string content => Rlp.string content
  | .list content => header 0xC0 content.length ++ content

end Piece

/-- The string is one byte that stands for itself. -/
def Bare (content : List UInt8) : Prop :=
  content.length = 1 ∧ ∀ b ∈ content, b < 0x80

instance (content : List UInt8) : Decidable (Bare content) :=
  inferInstanceAs (Decidable (_ ∧ _))

theorem bare_singleton {b : UInt8} : Bare [b] ↔ b < 0x80 := by
  simp [Bare]

theorem Bare.eq_singleton {content : List UInt8} (h : Bare content) :
    ∃ b < 0x80, content = [b] := by
  obtain ⟨b, rfl⟩ := List.length_eq_one_iff.1 h.1
  exact ⟨b, bare_singleton.1 h, rfl⟩

/-- A byte that stands for itself is a small number. -/
theorem Bare.big_endian_le {content : List UInt8} (h : Bare content) :
    bigEndian content ≤ 127 := by
  obtain ⟨b, hb, rfl⟩ := h.eq_singleton
  have hlt : b.toNat < 128 := hb
  have hvalue : bigEndian [b] = 0 * 256 + b.toNat := big_endian_append [] b
  omega

/-- Reads a piece. -/
def readPiece? : List UInt8 → Option (Piece × List UInt8)
  | [] => none
  | b :: rest =>
    if b < 0x80 then
      some (.string [b], rest)
    else if b < 0xC0 then
      (readContent? (b.toNat - 0x80) rest).bind fun (content, rest) =>
        if Bare content then none else some (.string content, rest)
    else
      (readContent? (b.toNat - 0xC0) rest).map fun (content, rest) => (.list content, rest)

theorem string_of_bare {content : List UInt8} (h : Bare content) : string content = content := by
  obtain ⟨b, hb, rfl⟩ := h.eq_singleton
  exact if_pos hb

theorem string_of_not_bare {content : List UInt8} (h : ¬Bare content) :
    string content = header 0x80 content.length ++ content := by
  match content with
  | [] => rfl
  | [b] => exact if_neg (mt bare_singleton.2 h)
  | _ :: _ :: _ => rfl

/-- The first byte tells a byte that stands for itself, a string and a list apart. -/
theorem first_byte_cases (b : UInt8) :
    b < 0x80 ∨ (∃ n ≤ 63, b = UInt8.ofNat (0x80 + n)) ∨ ∃ n ≤ 63, b = UInt8.ofNat (0xC0 + n) := by
  have hlt := b.toNat_lt
  by_cases hbare : b < 0x80
  · exact .inl hbare
  rw [UInt8.lt_iff_toNat_lt, Nat.not_lt] at hbare
  have hle : 0x80 ≤ b.toNat := hbare
  by_cases hstring : b.toNat < 0xC0
  · refine .inr (.inl ⟨b.toNat - 0x80, by omega, ?_⟩)
    rw [Nat.add_sub_cancel' hle, UInt8.ofNat_toNat]
  · refine .inr (.inr ⟨b.toNat - 0xC0, by omega, ?_⟩)
    rw [Nat.add_sub_cancel' (Nat.le_of_not_lt hstring), UInt8.ofNat_toNat]

theorem read_piece_bare {b : UInt8} (h : b < 0x80) (rest : List UInt8) :
    readPiece? (b :: rest) = some (.string [b], rest) :=
  if_pos h

/-- Behind such a byte comes a string. -/
theorem read_piece_string {n : Nat} (hn : n ≤ 63) (bytes : List UInt8) :
    readPiece? (UInt8.ofNat (0x80 + n) :: bytes) = (readContent? n bytes).bind fun (content, rest) =>
      if Bare content then none else some (.string content, rest) := by
  have hbyte : (UInt8.ofNat (0x80 + n)).toNat = 0x80 + n := by
    rw [UInt8.toNat_ofNat']
    omega
  have hfrom : ¬UInt8.ofNat (0x80 + n) < 0x80 := by
    rw [UInt8.lt_iff_toNat_lt, hbyte]
    exact Nat.not_lt.2 (Nat.le_add_right _ _)
  have hto : UInt8.ofNat (0x80 + n) < 0xC0 := by
    rw [UInt8.lt_iff_toNat_lt, hbyte]
    show 0x80 + n < 0xC0
    omega
  rw [readPiece?, if_neg hfrom, if_pos hto, hbyte, Nat.add_sub_cancel_left]

/-- Behind such a byte comes a list. -/
theorem read_piece_list {n : Nat} (hn : n ≤ 63) (bytes : List UInt8) :
    readPiece? (UInt8.ofNat (0xC0 + n) :: bytes) =
      (readContent? n bytes).map fun (content, rest) => (.list content, rest) := by
  have hbyte : (UInt8.ofNat (0xC0 + n)).toNat = 0xC0 + n := by
    rw [UInt8.toNat_ofNat']
    omega
  have hbeyond : ∀ bound : UInt8, bound.toNat ≤ 0xC0 → ¬UInt8.ofNat (0xC0 + n) < bound := by
    intro bound hbound
    rw [UInt8.lt_iff_toNat_lt, hbyte]
    omega
  rw [readPiece?, if_neg (hbeyond 0x80 (by decide)), if_neg (hbeyond 0xC0 (by decide)), hbyte,
    Nat.add_sub_cancel_left]

/-- A piece is read back. -/
theorem read_piece_encode {piece : Piece} (h : piece.content.length < 256 ^ 8)
    (rest : List UInt8) : readPiece? (piece.encode ++ rest) = some (piece, rest) := by
  cases piece with
  | string content =>
      by_cases hbare : Bare content
      · obtain ⟨b, hb, rfl⟩ := hbare.eq_singleton
        rw [Piece.encode, string_of_bare hbare]
        exact read_piece_bare hb rest
      · obtain ⟨n, hn, ds, hheader, hread⟩ := @read_content_header 0x80 content h
        rw [Piece.encode, string_of_not_bare hbare, List.append_assoc, hheader, List.cons_append,
          read_piece_string hn, hread, Option.bind_some]
        exact if_neg hbare
  | list content =>
      obtain ⟨n, hn, ds, hheader, hread⟩ := @read_content_header 0xC0 content h
      rw [Piece.encode, List.append_assoc, hheader, List.cons_append, read_piece_list hn, hread,
        Option.map_some]

/-- What is read as a piece is its encoding. -/
theorem encode_of_read_piece {bytes rest : List UInt8} {piece : Piece}
    (h : readPiece? bytes = some (piece, rest)) : bytes = piece.encode ++ rest := by
  cases bytes with
  | nil => cases h
  | cons b bytes =>
      obtain hb | ⟨n, hn, rfl⟩ | ⟨n, hn, rfl⟩ := first_byte_cases b
      · rw [read_piece_bare hb] at h
        obtain ⟨rfl, rfl⟩ := Prod.mk.inj (Option.some.inj h)
        rw [Piece.encode, string_of_bare (bare_singleton.2 hb), List.singleton_append]
      · rw [read_piece_string hn] at h
        obtain ⟨⟨content, behind⟩, hread, hpiece⟩ := Option.bind_eq_some_iff.1 h
        dsimp only at hpiece
        split at hpiece
        · cases hpiece
        · rename_i hbare
          obtain ⟨rfl, rfl⟩ := Prod.mk.inj (Option.some.inj hpiece)
          rw [Piece.encode, string_of_not_bare hbare, List.append_assoc]
          exact (header_of_read_content 0x80 hread).symm
      · rw [read_piece_list hn] at h
        obtain ⟨⟨content, behind⟩, hread, hpiece⟩ := Option.map_eq_some_iff.1 h
        obtain ⟨rfl, rfl⟩ := Prod.mk.inj hpiece
        rw [Piece.encode, List.append_assoc]
        exact (header_of_read_content 0xC0 hread).symm

theorem header_length_pos (mark length : Nat) : 0 < (header mark length).length := by
  unfold header
  split <;> exact Nat.succ_pos _

theorem string_length_pos (content : List UInt8) : 0 < (string content).length := by
  by_cases hbare : Bare content
  · rw [string_of_bare hbare, hbare.1]
    exact Nat.one_pos
  · rw [string_of_not_bare hbare, List.length_append]
    exact Nat.add_pos_left (header_length_pos _ _) _

/-- A header only adds to the content. -/
theorem length_content_le (piece : Piece) : piece.content.length ≤ piece.encode.length := by
  cases piece with
  | string content =>
      by_cases hbare : Bare content
      · rw [Piece.encode, string_of_bare hbare, Piece.content]
      · rw [Piece.encode, string_of_not_bare hbare, List.length_append]
        exact Nat.le_add_left _ _
  | list content =>
      rw [Piece.encode, List.length_append]
      exact Nat.le_add_left _ _

/-- A piece has a first byte, and that of a list is not part of its content. -/
theorem read_piece_shorter {bytes rest : List UInt8} {piece : Piece}
    (h : readPiece? bytes = some (piece, rest)) : rest.length < bytes.length ∧
      ∀ content, piece = .list content → content.length < bytes.length := by
  rw [encode_of_read_piece h, List.length_append]
  cases piece with
  | string content =>
      have hpos : 0 < (Piece.string content).encode.length := string_length_pos content
      exact ⟨by omega, fun _ hlist => nomatch hlist⟩
  | list content =>
      have hlength : (Piece.list content).encode.length =
          (header 0xC0 content.length).length + content.length := List.length_append
      have hpos := header_length_pos 0xC0 content.length
      refine ⟨by omega, fun other hlist => ?_⟩
      obtain rfl := Piece.list.inj hlist
      omega

/-! ## All items -/

/-- Reads encodings that follow each other up to the end. -/
def readAll? (bytes : List UInt8) : Option (List Item) :=
  if bytes = [] then
    some []
  else
    match _h : readPiece? bytes with
    | none => none
    | some (.string content, rest) => (readAll? rest).map (.string content :: ·)
    | some (.list content, rest) =>
      (readAll? content).bind fun items => (readAll? rest).map (.list items :: ·)
termination_by bytes.length
decreasing_by
  · exact (read_piece_shorter ‹_›).1
  · exact (read_piece_shorter ‹_›).2 content rfl
  · exact (read_piece_shorter ‹_›).1

theorem read_all_string {bytes content rest : List UInt8}
    (h : readPiece? bytes = some (.string content, rest)) :
    readAll? bytes = (readAll? rest).map (.string content :: ·) := by
  have hne : bytes ≠ [] := fun hnil => by rw [hnil] at h; cases h
  rw [readAll?, if_neg hne]
  split <;> simp_all

theorem read_all_list {bytes content rest : List UInt8}
    (h : readPiece? bytes = some (.list content, rest)) :
    readAll? bytes =
      (readAll? content).bind fun items => (readAll? rest).map (.list items :: ·) := by
  have hne : bytes ≠ [] := fun hnil => by rw [hnil] at h; cases h
  rw [readAll?, if_neg hne]
  split <;> simp_all

theorem encode_string (content : List UInt8) :
    (Item.string content).encode = (Piece.string content).encode := by
  rw [Item.encode, Piece.encode]

theorem encode_list (items : List Item) :
    (Item.list items).encode = (Piece.list (encodeAll items)).encode := by
  rw [Item.encode, Piece.encode]

/-- Items are read back, as long as every length fits in eight bytes. -/
theorem read_all_encode (items : List Item) (h : (encodeAll items).length < 256 ^ 8) :
    readAll? (encodeAll items) = some items := by
  match items with
  | [] => rw [encodeAll, readAll?, if_pos rfl]
  | .string content :: items =>
      rw [encodeAll, encode_string, List.length_append] at h
      have hlength := length_content_le (.string content)
      have hpiece := read_piece_encode (Nat.lt_of_le_of_lt hlength (by omega)) (encodeAll items)
      rw [encodeAll, encode_string, read_all_string hpiece, read_all_encode items (by omega),
        Option.map_some]
  | .list inner :: items =>
      rw [encodeAll, encode_list, List.length_append] at h
      have hlength := length_content_le (.list (encodeAll inner))
      have hpiece := read_piece_encode (Nat.lt_of_le_of_lt hlength (by omega)) (encodeAll items)
      have hinner : (encodeAll inner).length < 256 ^ 8 := Nat.lt_of_le_of_lt hlength (by omega)
      rw [encodeAll, encode_list, read_all_list hpiece, read_all_encode inner hinner,
        read_all_encode items (by omega), Option.bind_some, Option.map_some]

/-- Bytes that are read as items are their encodings. -/
theorem encode_of_read_all {bytes : List UInt8} {items : List Item}
    (h : readAll? bytes = some items) : bytes = encodeAll items := by
  fun_induction readAll? bytes generalizing items with
  | case1 =>
      obtain rfl := Option.some.inj h
      rw [encodeAll]
  | case2 => cases h
  | case3 bytes _ content rest hpiece ih =>
      obtain ⟨more, hrest, rfl⟩ := Option.map_eq_some_iff.1 h
      rw [encodeAll, encode_string, ← ih hrest]
      exact encode_of_read_piece hpiece
  | case4 bytes _ content rest hpiece ihContent ihRest =>
      obtain ⟨inner, hinner, hmore⟩ := Option.bind_eq_some_iff.1 h
      obtain ⟨more, hrest, rfl⟩ := Option.map_eq_some_iff.1 hmore
      rw [encodeAll, encode_list, ← ihContent hinner, ← ihRest hrest]
      exact encode_of_read_piece hpiece

/-- Reads the encoding of one item. -/
def decode? (bytes : List UInt8) : Option Item :=
  match readAll? bytes with
  | some [item] => some item
  | _ => none

/-- Bytes that are read as an item are its encoding. -/
theorem encode_of_decode {bytes : List UInt8} {item : Item} (h : decode? bytes = some item) :
    bytes = item.encode := by
  unfold decode? at h
  split at h
  · rename_i hall
    obtain rfl := Option.some.inj h
    rw [encode_of_read_all hall, encodeAll, encodeAll, List.append_nil]
  · cases h

/-- An item is read from its encoding and from no other bytes. -/
theorem decode_eq_some_iff {bytes : List UInt8} {item : Item}
    (h : item.encode.length < 256 ^ 8) : decode? bytes = some item ↔ bytes = item.encode := by
  refine ⟨encode_of_decode, fun hbytes => ?_⟩
  have hone : encodeAll [item] = item.encode := by
    rw [encodeAll, encodeAll, List.append_nil]
  rw [decode?, hbytes, ← hone, read_all_encode [item] (hone ▸ h)]

end CallTree.Rlp
