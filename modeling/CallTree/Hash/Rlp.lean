import CallTree.Bytes

/-!
# Length-prefixed encoding

Strings of bytes and lists of encoded items, each behind a header that gives its length. A string
of one byte below `0x80` is its own encoding.
-/

namespace CallTree.Rlp

/-- The base-256 digits of a number, most significant first and without leading zeros. -/
def digits (n : Nat) : List UInt8 :=
  if n = 0 then [] else digits (n / 256) ++ [UInt8.ofNat n]
termination_by n
decreasing_by omega

/-- The header of `length` bytes of content. Up to 55 bytes the length is added to `mark`;
beyond that the header holds the length's own digits. -/
def header (mark length : Nat) : List UInt8 :=
  if length ≤ 55 then
    [UInt8.ofNat (mark + length)]
  else
    let ds := digits length
    UInt8.ofNat (mark + 55 + ds.length) :: ds

/-- The encoding of a string of bytes. -/
def string (content : List UInt8) : List UInt8 :=
  match content with
  | [b] => if b < 0x80 then [b] else header 0x80 1 ++ [b]
  | _ => header 0x80 content.length ++ content

/-- The encoding of a number: the string of its digits, so zero is the empty string. -/
def number (n : Nat) : List UInt8 :=
  string (digits n)

/-- The encoding of a list whose items are already encoded. -/
def list (items : List (List UInt8)) : List UInt8 :=
  header 0xC0 items.flatten.length ++ items.flatten

end CallTree.Rlp
