import CallTree.Bytes

/-!
# Revert reasons

A frame that reverts may leave a payload that spells out why: a selector of four bytes, an offset
word, a length word and the text in UTF-8. Whatever does not have this form has no reason.
-/

namespace CallTree.RevertReason

/-- The four bytes that mark a payload with a text. -/
def selector : Bytes :=
  ⟨#[0x08, 0xc3, 0x79, 0xa0]⟩

/-- Where the text of a payload starts. -/
def textStart : Nat := 68

/-- The text that a payload spells. The offset word is not looked at. -/
def decode (data : Bytes) : Option String :=
  if data.size < textStart then none
  else if data.extract 0 4 ≠ selector then none
  else
    let length := Bytes.toNat (data.extract 36 textStart)
    if data.size < textStart + length then none
    else String.fromUTF8? (data.extract textStart (textStart + length))

/-- The payload of a text: what `decode` undoes. -/
def encode (text : String) : Bytes :=
  let bytes := text.toUTF8
  let padding := wordsFor bytes.size * 32 - bytes.size
  selector ++ Bytes.ofNat 32 32 ++ Bytes.ofNat 32 bytes.size ++ Bytes.extendZeros padding bytes

/-- The reason of a revert whose payload has no text. -/
def default : String := "execution reverted"

end CallTree.RevertReason
