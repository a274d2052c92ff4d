import CallTree.Bytes

/-!
# Hexadecimal text

Bytes are written as two lower-case digits each, numbers with as many digits as they need.
-/

namespace CallTree.Hex

/-- The two digits of one byte. -/
def byte (x : UInt8) : String :=
  String.ofList [Nat.digitChar (x.toNat / 16), Nat.digitChar (x.toNat % 16)]

/-- The two digits of one byte, in upper case. -/
def byteUpper (x : UInt8) : String :=
  (byte x).toUpper

/-- All bytes, two digits each. -/
def encode (b : Bytes) : String :=
  b.foldl (fun s x =>
    (s.push (Nat.digitChar (x.toNat / 16))).push (Nat.digitChar (x.toNat % 16))) ""

/-- A number without leading zeros; zero is a single digit. -/
def number (n : Nat) : String :=
  String.ofList (Nat.toDigits 16 n)

/-- The value of one digit of either case. -/
def digit? (c : Char) : Option Nat :=
  if '0' ≤ c ∧ c ≤ '9' then some (c.toNat - 48)
  else if 'a' ≤ c ∧ c ≤ 'f' then some (c.toNat - 87)
  else if 'A' ≤ c ∧ c ≤ 'F' then some (c.toNat - 55)
  else none

/-- Reads digits in pairs onto `acc`; refuses an odd digit at the end. -/
def decodeOnto (acc : Bytes) : List Char → Option Bytes
  | [] => some acc
  | [_] => none
  | hi :: lo :: rest =>
    match digit? hi, digit? lo with
    | some h, some l => decodeOnto (acc.push (UInt8.ofNat (16 * h + l))) rest
    | _, _ => none

/-- The bytes that a hexadecimal text spells. -/
def decode? (s : String) : Option Bytes :=
  decodeOnto ByteArray.empty s.toList

/-- Reads digits onto the number `acc`. -/
def numberOnto (acc : Nat) : List Char → Option Nat
  | [] => some acc
  | c :: rest => (digit? c).bind fun d => numberOnto (16 * acc + d) rest

/-- The number after a `0x` mark. -/
def number? (s : String) : Option Nat :=
  match s.toList with
  | '0' :: 'x' :: c :: rest => numberOnto 0 (c :: rest)
  | _ => none

end CallTree.Hex
