import CallTree.Proofs.Arithmetic
import CallTree.Proofs.Nonces
import Mathlib.Data.List.Nodup

/-!
# What is hashed into addresses

The address of a created contract is taken from a digest, so two of them differ, up to collisions, if the
strings that are hashed do. Such a string is the encoding of a pair, a creator and a nonce, and the pair
can be read back from it (`read_creation_eq_some_iff`). Byte by byte, it is put together from a nonce in
one of three forms (`nonceField`). A world never uses a pair twice, whatever else is done to
it, as long as no nonce leaves its range (`World.nodup_creations`).
-/

namespace CallTree

/-! ## The string of a pair -/

/-- The bytes of a nonce. Zero is an empty string, a small nonce one byte that stands for itself, and any
other a string of its bytes from the first that is not zero. -/
def nonceField (nonce : Nat) : List UInt8 :=
  if nonce = 0 then
    [0x80]
  else if nonce ≤ 127 then
    [UInt8.ofNat nonce]
  else
    let bytes := (Bytes.ofNat 8 nonce).data.toList
    let start := (bytes.findIdx? (· != 0)).getD 7
    UInt8.ofNat (0x80 + (8 - start)) :: bytes.drop start

/-- The bytes of a creator and a nonce. -/
def createContent (creator : Address) (nonce : Nat) : List UInt8 :=
  UInt8.ofNat (0x80 + 20) :: (creator.toBytes.data.toList ++ nonceField nonce)

/-- A creator and a nonce as a list of two strings. The digits of the nonce are those in base 256. -/
def creationItem (creator : Address) (nonce : Nat) : Rlp.Item :=
  .list [.string creator.toBytes.data.toList,
    .string ((Nat.digits 256 nonce).reverse.map UInt8.ofNat)]

/-- A number in enough bytes is its digits behind zeros. -/
theorem Bytes.to_list_of_nat_eq {width n : Nat} (h : n < 256 ^ width) :
    (ofNat width n).data.toList =
      List.replicate (width - (Rlp.digits n).length) 0 ++ Rlp.digits n := by
  have hlength := Rlp.length_digits_le h
  refine big_endian_inj ?_ ?_
  · rw [List.length_append, List.length_replicate, Nat.sub_add_cancel hlength]
    exact size_of_nat width n
  · rw [big_endian_of_nat, Nat.mod_eq_of_lt h, big_endian_zeros, Rlp.big_endian_digits]

/-- The first byte that is not zero is found behind the zeros. -/
theorem find_digit {ds : List UInt8} (hne : ds ≠ []) (hhead : ds.head? ≠ some 0) (n : Nat) :
    (List.replicate n 0 ++ ds).findIdx? (· != 0) = some n := by
  cases ds with
  | nil => exact absurd rfl hne
  | cons b ds =>
      have hb : b ≠ 0 := fun hzero => hhead (congrArg some hzero)
      simp [List.findIdx?_cons, hb]

/-- The three forms of a nonce are the encoding of a number. -/
theorem nonce_field_eq {nonce : Nat} (h : nonce ≤ maxAmount) :
    nonceField nonce = Rlp.number nonce := by
  have hlt : nonce < 256 ^ 8 := by
    unfold maxAmount at h
    omega
  unfold nonceField
  by_cases hzero : nonce = 0
  · rw [if_pos hzero, hzero, Rlp.number, Rlp.digits, if_pos rfl]
    rfl
  rw [if_neg hzero]
  by_cases hsmall : nonce ≤ 127
  · have hdigits : Rlp.digits nonce = [UInt8.ofNat nonce] := by
      have hquotient : nonce / 256 = 0 := by omega
      rw [Rlp.digits, if_neg hzero, hquotient, Rlp.digits, if_pos rfl, List.nil_append]
    have hbare : Rlp.Bare [UInt8.ofNat nonce] := by
      rw [Rlp.bare_singleton, UInt8.lt_iff_toNat_lt, UInt8.toNat_ofNat']
      show nonce % 256 < 128
      omega
    rw [if_pos hsmall, Rlp.number, hdigits, Rlp.string_of_bare hbare]
  · have hlength := Rlp.length_digits_le hlt
    have hbare : ¬Rlp.Bare (Rlp.digits nonce) := fun hbare =>
      hsmall (Rlp.big_endian_digits nonce ▸ hbare.big_endian_le)
    have hmark : 8 - (8 - (Rlp.digits nonce).length) = (Rlp.digits nonce).length :=
      Nat.sub_sub_self hlength
    rw [if_neg hsmall, Bytes.to_list_of_nat_eq hlt]
    dsimp only
    rw [find_digit (Rlp.digits_ne_nil hzero) (Rlp.head_digits nonce), Option.getD_some, hmark, Rlp.number,
      Rlp.string_of_not_bare hbare, Rlp.header, if_pos (by omega), List.singleton_append,
      List.drop_left' List.length_replicate]

/-- The content that is hashed is the two strings of the pair. -/
theorem create_content_eq {creator : Address} {nonce : Nat} (h : nonce ≤ maxAmount) :
    createContent creator nonce =
      Rlp.string creator.toBytes.data.toList ++ Rlp.number nonce := by
  have hlength : creator.toBytes.data.toList.length = 20 := Bytes.size_of_nat 20 creator.toNat
  have hbare : ¬Rlp.Bare creator.toBytes.data.toList := by
    intro hbare
    have hone := hbare.1
    omega
  rw [createContent, nonce_field_eq h, Rlp.string_of_not_bare hbare, Rlp.header, hlength,
    if_pos (by decide), List.singleton_append, List.cons_append]

/-- The content fits behind a header of one byte. -/
theorem length_create_content {creator : Address} {nonce : Nat} (h : nonce ≤ maxAmount) :
    (createContent creator nonce).length ≤ 55 := by
  rw [create_content_eq h]
  exact Nat.le_trans (Rlp.length_preimage_le creator h) (by decide)

/-- Byte by byte, what is hashed is the content behind its length. -/
theorem create_preimage_eq {creator : Address} {nonce : Nat} (h : nonce ≤ maxAmount) :
    createPreimage creator nonce =
      UInt8.ofNat (0xC0 + (createContent creator nonce).length) :: createContent creator nonce := by
  have hcontent : [Rlp.string creator.toBytes.data.toList, Rlp.number nonce].flatten =
      createContent creator nonce := by
    rw [create_content_eq h]
    simp
  rw [createPreimage, Rlp.list, hcontent, Rlp.header, if_pos (length_create_content h)]
  rfl

/-- As an item, it is the encoding of the pair. -/
theorem encode_creation_item (creator : Address) (nonce : Nat) :
    (creationItem creator nonce).encode = createPreimage creator nonce := by
  have hcontent : Rlp.encodeAll [.string creator.toBytes.data.toList,
      .string ((Nat.digits 256 nonce).reverse.map UInt8.ofNat)] =
        [Rlp.string creator.toBytes.data.toList, Rlp.number nonce].flatten := by
    simp [Rlp.encodeAll, Rlp.Item.encode, Rlp.number, Rlp.digits_eq]
  rw [creationItem, Rlp.Item.encode, hcontent]
  rfl

/-! ## Reading a pair back -/

/-- Reads a creator and a nonce. A nonce with leading zeros is refused. -/
def readCreation? (bytes : List UInt8) : Option (Address × Nat) :=
  match Rlp.decode? bytes with
  | some (.list [.string creator, .string nonce]) =>
    if nonce.head? = some 0 then none
    else (Address.ofBytes? ⟨creator.toArray⟩).map (·, bigEndian nonce)
  | _ => none

theorem decode_create_preimage {creator : Address} {nonce : Nat} (h : nonce ≤ maxAmount)
    {bytes : List UInt8} : Rlp.decode? bytes = some (creationItem creator nonce) ↔
      bytes = createPreimage creator nonce := by
  have hlength : (creationItem creator nonce).encode.length < 256 ^ 8 := by
    have hcontent := @length_create_content creator nonce h
    rw [encode_creation_item, create_preimage_eq h, List.length_cons]
    omega
  rw [Rlp.decode_eq_some_iff hlength, encode_creation_item]

/-- A pair is read from the string that is hashed for it and from no other bytes. -/
theorem read_creation_eq_some_iff {creator : Address} {nonce : Nat} (h : nonce ≤ maxAmount)
    {bytes : List UInt8} : readCreation? bytes = some (creator, nonce) ↔
      bytes = createPreimage creator nonce := by
  unfold readCreation?
  refine ⟨fun hread => ?_, fun hbytes => ?_⟩
  · split at hread
    · rename_i a n hdecode
      split at hread
      · cases hread
      · rename_i hhead
        obtain ⟨a', haddress, hpair⟩ := Option.map_eq_some_iff.1 hread
        obtain ⟨rfl, rfl⟩ := Prod.mk.inj hpair
        have hcreator : a = a'.toBytes.data.toList := by
          rw [← Address.of_bytes_eq_some_iff.1 haddress]
        rw [Rlp.encode_of_decode hdecode, ← encode_creation_item, creationItem, ← Rlp.digits_eq,
          Rlp.digits_big_endian hhead, hcreator]
    · cases hread
  · rw [(decode_create_preimage h).2 hbytes, creationItem, ← Rlp.digits_eq]
    dsimp only
    rw [if_neg (Rlp.head_digits nonce), Rlp.big_endian_digits, Array.toArray_toList,
      Address.of_bytes_eq_some_iff.2 rfl, Option.map_some]

/-- Different pairs have different strings. -/
theorem create_preimage_inj {creator other : Address} {nonce nonce' : Nat}
    (h : nonce ≤ maxAmount) (h' : nonce' ≤ maxAmount)
    (heq : createPreimage creator nonce = createPreimage other nonce') :
    creator = other ∧ nonce = nonce' := by
  have hread := (read_creation_eq_some_iff h).2 heq.symm
  rw [(read_creation_eq_some_iff h').2 rfl] at hread
  obtain ⟨hcreator, hnonce⟩ := Prod.mk.inj (Option.some.inj hread)
  exact ⟨hcreator.symm, hnonce.symm⟩

/-! ## Creations in a world -/

/-- One change of a world from outside. -/
inductive WorldEdit
  /-- Asks for the address of the next contract that `creator` makes. -/
  | create (creator : Address)
  | deploy (address : Address) (code : Bytes)
  | store (address : Address) (key value : Word)
  | setStorage (address : Address) (slots : Slots)

/-- Who creates by the change. -/
def WorldEdit.creator? : WorldEdit → Option Address
  | .create creator => some creator
  | _ => none

/-- Who creates by several changes, in order. -/
def WorldEdit.creators (edits : List WorldEdit) : List Address :=
  edits.flatMap (·.creator?.toList)

namespace World

/-- The world after a change. -/
def edit (w : World) : WorldEdit → World
  | .create creator => (w.nextCreateAddress creator).2
  | .deploy address code => w.setCode address code
  | .store address key value => w.store address key value
  | .setStorage address slots => w.setStorage address slots

/-- The creators and nonces that are hashed by several changes. -/
def creations (w : World) : List WorldEdit → List (Address × Nat)
  | [] => []
  | e :: edits =>
    (e.creator?.toList.map fun creator => (creator, w.nonce creator)) ++ (w.edit e).creations edits

/-- The addresses that several changes give out. -/
def created (w : World) : List WorldEdit → List Address
  | [] => []
  | e :: edits =>
    (e.creator?.toList.map fun creator => (w.nextCreateAddress creator).1) ++
      (w.edit e).created edits

/-- A change uses up the nonce of the one who creates by it. -/
theorem nonce_edit (w : World) (e : WorldEdit) (a : Address) :
    (w.edit e).nonce a = w.nonce a + e.creator?.toList.count a := by
  cases e with
  | create creator => exact w.nonce_use_up (some creator) a
  | _ => rfl

theorem digest_edit (w : World) (e : WorldEdit) : (w.edit e).digest = w.digest := by
  cases e <;> rfl

/-- Each address is taken from the digest of the string of its creation. -/
theorem created_eq (w : World) (edits : List WorldEdit) : w.created edits =
    (w.creations edits).map fun p => addressBy w.digest p.1 p.2 := by
  induction edits generalizing w with
  | nil => rfl
  | cons e edits ih =>
      rw [created, creations, ih, digest_edit, List.map_append, List.map_map]
      rfl

/-- The nonces that are hashed lie between the one before the changes and the one after them. -/
theorem nonce_of_creation {w : World} {edits : List WorldEdit} {a : Address} {nonce : Nat}
    (h : (a, nonce) ∈ w.creations edits) :
    w.nonce a ≤ nonce ∧ nonce < w.nonce a + (WorldEdit.creators edits).count a := by
  induction edits generalizing w with
  | nil => cases h
  | cons e edits ih =>
      have hcount : (WorldEdit.creators (e :: edits)).count a =
          e.creator?.toList.count a + (WorldEdit.creators edits).count a := List.count_append
      rw [creations, List.mem_append] at h
      obtain hhere | hlater := h
      · obtain ⟨creator, hcreator, hpair⟩ := List.mem_map.1 hhere
        obtain ⟨rfl, rfl⟩ := Prod.mk.inj hpair
        have hpos := List.count_pos_iff.2 hcreator
        omega
      · have hbounds := ih hlater
        rw [nonce_edit] at hbounds
        omega

/-- No pair is hashed twice. -/
theorem nodup_creations (w : World) (edits : List WorldEdit) : (w.creations edits).Nodup := by
  induction edits generalizing w with
  | nil => exact .nil
  | cons e edits ih =>
      have hhere : (e.creator?.toList.map fun creator => (creator, w.nonce creator)).Nodup := by
        cases e.creator? with
        | none => exact .nil
        | some creator => exact List.nodup_singleton _
      refine List.nodup_append.2 ⟨hhere, ih (w.edit e), fun p hp q hq heq => ?_⟩
      obtain ⟨creator, hcreator, rfl⟩ := List.mem_map.1 hp
      -- The nonce that is used up is below all that come later.
      have hlater := (nonce_of_creation (heq ▸ hq)).1
      have hpos := List.count_pos_iff.2 hcreator
      rw [nonce_edit] at hlater
      omega

/-- No string is hashed twice, as long as the nonces are amounts. -/
theorem nodup_preimages {w : World} {edits : List WorldEdit}
    (h : ∀ a, w.nonce a + (WorldEdit.creators edits).count a ≤ maxAmount) :
    ((w.creations edits).map fun p => createPreimage p.1 p.2).Nodup := by
  have hrange : ∀ p ∈ w.creations edits, p.2 ≤ maxAmount := fun p hp =>
    Nat.le_trans (Nat.le_of_lt (nonce_of_creation hp).2) (h p.1)
  refine (List.nodup_map_iff_inj_on (w.nodup_creations edits)).2 fun p hp q hq heq => ?_
  obtain ⟨hcreator, hnonce⟩ := create_preimage_inj (hrange p hp) (hrange q hq) heq
  exact Prod.ext hcreator hnonce

end World

/-- What is hashed into addresses is canonical. For any creator and any nonce it is the encoding of the
two as a list of two strings, the nonce with its base-256 digits and none in front; byte by byte it is the
content, with the nonce in one of three forms, behind one byte for its length, which is not above 55. It
is the only string from which the pair is read, so different pairs have different strings. However often
and for whatever creators a world is asked for addresses, among any other changes to it, no string is
hashed twice as long as the nonces are amounts; in a new world, as long as there are fewer creations than
amounts. The addresses are these strings' digests, whatever the digest is. -/
theorem create_preimages_canonical :
    (∀ creator nonce, nonce ≤ maxAmount →
      createPreimage creator nonce = (creationItem creator nonce).encode ∧
      (∀ bytes, Rlp.decode? bytes = some (creationItem creator nonce) ↔
        bytes = createPreimage creator nonce) ∧
      (∀ bytes, readCreation? bytes = some (creator, nonce) ↔
        bytes = createPreimage creator nonce) ∧
      createPreimage creator nonce =
        UInt8.ofNat (0xC0 + (createContent creator nonce).length) :: createContent creator nonce ∧
      (createContent creator nonce).length ≤ 55) ∧
    (∀ creator nonce other nonce', nonce ≤ maxAmount → nonce' ≤ maxAmount →
      createPreimage creator nonce = createPreimage other nonce' →
        creator = other ∧ nonce = nonce') ∧
    (∀ (w : World) (edits : List WorldEdit),
      (∀ a, w.nonce a + (WorldEdit.creators edits).count a ≤ maxAmount) →
        ((w.creations edits).map fun p => createPreimage p.1 p.2).Nodup) ∧
    (∀ (w : World) (edits : List WorldEdit),
      w.nonces = ∅ → (WorldEdit.creators edits).length ≤ maxAmount →
        ((w.creations edits).map fun p => createPreimage p.1 p.2).Nodup) ∧
    ∀ (w : World) (edits : List WorldEdit), w.created edits =
      ((w.creations edits).map fun p => createPreimage p.1 p.2).map fun bytes =>
        BitVec.ofNat 160 (w.digest ⟨bytes.toArray⟩).toNat := by
  refine ⟨fun creator nonce h => ?_, fun _ _ _ _ h h' => create_preimage_inj h h',
    fun w edits => World.nodup_preimages, fun w edits hnew hlength => ?_, fun w edits => ?_⟩
  · exact ⟨(encode_creation_item creator nonce).symm, fun _ => decode_create_preimage h,
      fun _ => read_creation_eq_some_iff h, create_preimage_eq h, length_create_content h⟩
  · refine World.nodup_preimages fun a => ?_
    have hzero : w.nonce a = 0 := by simp [World.nonce, hnew]
    rw [hzero, Nat.zero_add]
    exact Nat.le_trans List.count_le_length hlength
  · rw [w.created_eq, List.map_map]
    rfl

/-- The nonces on either side of a change of form, and three creations in a new world, two of them by one
creator. -/
theorem create_preimages_boundary :
    let creator : Address := 0x6ac7ea33f8831ea9dcc53393aaa88b25a785dbf0
    let edits : List WorldEdit := [.create creator, .store 1 2 3, .create 7, .create creator]
    (createPreimage creator 127).drop 22 = [0x7F] ∧
      (createPreimage creator 128).drop 22 = [0x81, 0x80] ∧
      (createPreimage creator maxAmount).head? = some 0xDE ∧
      readCreation? (createPreimage creator 128) = some (creator, 128) ∧
      (World.creations {} edits) = [(creator, 0), (7, 0), (creator, 1)] ∧
      ((World.creations {} edits).map fun p => createPreimage p.1 p.2).Nodup := by
  intro creator edits
  obtain ⟨hcanonical, -, -, hnew, -⟩ := create_preimages_canonical
  obtain ⟨-, -, -, hbare, -⟩ := hcanonical creator 127 (by decide)
  obtain ⟨-, -, hread, hshort, -⟩ := hcanonical creator 128 (by decide)
  obtain ⟨-, -, -, hlong, -⟩ := hcanonical creator maxAmount (by decide)
  refine ⟨?_, ?_, ?_, (hread _).2 rfl, by decide +kernel, hnew {} edits rfl (by decide)⟩
  · rw [hbare]
    decide +kernel
  · rw [hshort]
    decide +kernel
  · rw [hlong]
    decide +kernel

end CallTree
