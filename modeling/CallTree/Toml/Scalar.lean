import CallTree.Toml.Reader
import CallTree.Toml.Value

/-!
# Strings, numbers, dates and truth values

The values of a document that hold no others, and the keys.
-/

namespace CallTree.Toml

open Reader

/-! ## Characters -/

/-- The double quotation mark. -/
def quoteMark : Char := '\x22'

/-- The single quotation mark. -/
def tickMark : Char := '\x27'

/-- The mark that starts an escape. -/
def escapeMark : Char := '\x5c'

/-- A blank within a line. -/
def isBlank (c : Char) : Bool :=
  c == ' ' || c == '\t'

/-- A character that may stand in a comment: all but control characters. -/
def isPlain (c : Char) : Bool :=
  c == '\t' || (0x20 ≤ c.toNat && c.toNat ≤ 0x7E) || 0x80 ≤ c.toNat

/-- A decimal digit. -/
def isDecimal (c : Char) : Bool :=
  '0' ≤ c && c ≤ '9'

/-- A hexadecimal digit. -/
def isHex (c : Char) : Bool :=
  isDecimal c || ('a' ≤ c && c ≤ 'f') || ('A' ≤ c && c ≤ 'F')

/-- An octal digit. -/
def isOctal (c : Char) : Bool :=
  '0' ≤ c && c ≤ '7'

/-- A binary digit. -/
def isBinary (c : Char) : Bool :=
  c == '0' || c == '1'

/-- The value of a digit in any base up to 16. -/
def digitValue (c : Char) : Nat :=
  if isDecimal c then c.toNat - 48
  else if 'a' ≤ c then c.toNat - 87
  else c.toNat - 55

/-- The number that digits spell. -/
def digitsValue (base : Nat) (ds : List Char) : Nat :=
  ds.foldl (fun n c => n * base + digitValue c) 0

/-- Blanks, if any. -/
def blanks : Reader Unit := do
  let _ ← takeWhile isBlank

/-- The end of a line, in either of its two spellings. -/
def lineBreak : Reader Unit :=
  char '\n' <|> chars ['\r', '\n']

/-! ## Strings -/

/-- The character with a given code, which must be a Unicode scalar value. -/
def scalarValue (n : Nat) : Reader Char :=
  if n.isValidChar then pure (Char.ofNat n) else failure

/-- What an escape stands for. -/
def escape : Reader Char := do
  char escapeMark
  let c ← satisfy fun _ => true
  match c with
  | 'b' => pure '\x08'
  | 't' => pure '\t'
  | 'n' => pure '\n'
  | 'f' => pure '\x0c'
  | 'r' => pure '\r'
  | 'u' => do
    let ds ← exactly 4 (satisfy isHex)
    scalarValue (digitsValue 16 ds)
  | 'U' => do
    let ds ← exactly 8 (satisfy isHex)
    scalarValue (digitsValue 16 ds)
  | c => if c == quoteMark || c == escapeMark then pure c else failure

/-- A character of a quoted string that stands for itself. -/
def basicPlain : Reader Char :=
  satisfy fun c => isPlain c && c != quoteMark && c != escapeMark

/-- A string on one line, with escapes. -/
def basicString : Reader String := do
  char quoteMark
  let cs ← many (basicPlain <|> escape)
  char quoteMark
  return String.ofList cs

/-- A string on one line, without escapes. -/
def literalString : Reader String := do
  char tickMark
  let cs ← takeWhile fun c => isPlain c && c != tickMark
  char tickMark
  return String.ofList cs

/-- One or two quotation marks inside a string that three of them end. -/
def innerMarks (mark : Char) : Reader (List Char) :=
  guarded (takeWhile1 (· == mark)) (·.length < 3)

/-- The three marks that end such a string, after up to two more that belong to it. -/
def closingMarks (mark : Char) : Reader (List Char) := fun s =>
  let run := min 5 (s.toList.takeWhile (· == mark)).length
  if run < 3 then none else some (List.replicate (run - 3) mark, s.drop run)

/-- A line break inside a string. -/
def innerBreak : Reader (List Char) := do
  lineBreak
  return ['\n']

/-- An escape at the end of a line, which stands for nothing together with all blanks and line
breaks after it. -/
def escapedBreak : Reader (List Char) := do
  char escapeMark
  blanks
  lineBreak
  let _ ← many (lineBreak <|> do let _ ← satisfy isBlank)
  return []

/-- A string over several lines, with escapes. -/
def multilineBasic : Reader String := do
  chars [quoteMark, quoteMark, quoteMark]
  let _ ← optional lineBreak
  let parts ← many
    ((do return [← basicPlain]) <|> innerBreak <|> escapedBreak <|> (do return [← escape]) <|>
      innerMarks quoteMark)
  let inner ← closingMarks quoteMark
  return String.ofList (parts.flatten ++ inner)

/-- A string over several lines, without escapes. -/
def multilineLiteral : Reader String := do
  chars [tickMark, tickMark, tickMark]
  let _ ← optional lineBreak
  let parts ← many
    (takeWhile1 (fun c => isPlain c && c != tickMark) <|> innerBreak <|> innerMarks tickMark)
  let inner ← closingMarks tickMark
  return String.ofList (parts.flatten ++ inner)

/-- A string in any of its four forms. -/
def anyString : Reader Value := do
  return .string (← multilineBasic <|> basicString <|> multilineLiteral <|> literalString)

/-! ## Numbers -/

/-- Digits that may be divided by single underscores. -/
def dividedDigits (p : Char → Bool) : Reader (List Char) := do
  let first ← satisfy p
  let rest ← many (satisfy p <|> do char '_'; satisfy p)
  return first :: rest

/-- A sign, if there is one. -/
def sign : Reader (List Char) := do
  return (← optional (satisfy fun c => c == '+' || c == '-')).toList

/-- Decimal digits without leading zeros. -/
def decimalDigits : Reader (List Char) := do
  let first ← satisfy isDecimal
  if first = '0' then
    return [first]
  else
    let rest ← many (satisfy isDecimal <|> do char '_'; satisfy isDecimal)
    return first :: rest

/-- A number that a 64-bit signed integer can hold. -/
def bounded (i : Int) : Reader Value :=
  if -0x8000000000000000 ≤ i ∧ i ≤ 0x7FFFFFFFFFFFFFFF then pure (.integer i) else failure

/-- An integer in hexadecimal, octal, binary or decimal notation. Only the last takes a sign. -/
def integer : Reader Value :=
  (do
    chars ['0', 'x']
    let ds ← dividedDigits isHex
    bounded (digitsValue 16 ds)) <|>
  (do
    chars ['0', 'o']
    let ds ← dividedDigits isOctal
    bounded (digitsValue 8 ds)) <|>
  (do
    chars ['0', 'b']
    let ds ← dividedDigits isBinary
    bounded (digitsValue 2 ds)) <|>
  (do
    let mark ← sign
    let ds ← decimalDigits
    let n : Int := digitsValue 10 ds
    bounded (if mark = ['-'] then -n else n))

/-- The exponent of a number, with its sign. -/
def exponent : Reader Int := do
  let _ ← satisfy fun c => c == 'e' || c == 'E'
  let mark ← sign
  let ds ← dividedDigits isDecimal
  let n : Int := digitsValue 10 ds
  return if mark = ['-'] then -n else n

/-- Whether `digits` times ten to the power `scale` is too large for a 64-bit floating-point
number, that is, at least halfway from the largest of them to the next power of two. -/
def tooLarge (digits : Nat) (scale : Int) : Bool :=
  let magnitude : Int := (Nat.toDigits 10 digits).length + scale
  if digits = 0 ∨ magnitude < 300 then false
  else if 320 < magnitude then true
  else
    let bound := Nat.pow 2 1024 - Nat.pow 2 970
    if 0 ≤ scale then bound ≤ digits * Nat.pow 10 scale.toNat
    else bound * Nat.pow 10 (-scale).toNat ≤ digits

/-- A number with a fraction, an exponent, or both. A positive one must not be too large. -/
def fractional : Reader Value := do
  let mark ← sign
  let whole ← decimalDigits
  let fraction ← optional (do char '.'; dividedDigits isDecimal)
  let scale ← optional exponent
  if fraction.isNone && scale.isNone then
    failure
  let fraction := fraction.getD []
  let scale := scale.getD 0
  if mark ≠ ['-'] ∧ tooLarge (digitsValue 10 (whole ++ fraction)) (scale - fraction.length) then
    failure
  return .float (String.ofList (mark ++ whole ++ ['.'] ++ fraction ++ ['e']) ++ toString scale)

/-- Infinity and not-a-number. -/
def specialFloat : Reader Value := do
  let mark ← sign
  let name ← (do chars ['i', 'n', 'f']; pure "inf") <|> (do chars ['n', 'a', 'n']; pure "nan")
  return .float (String.ofList mark ++ name)

/-! ## Dates and times -/

/-- A number of exactly `width` digits between two bounds. -/
def fixedNumber (width low high : Nat) : Reader Nat :=
  guarded (do return digitsValue 10 (← exactly width (satisfy isDecimal)))
    fun n => low ≤ n && n ≤ high

/-- The number of days of a month. -/
def daysIn (year month : Nat) : Nat :=
  if month = 2 then
    if year % 4 = 0 ∧ (year % 100 ≠ 0 ∨ year % 400 = 0) then 29 else 28
  else if month ∈ [4, 6, 9, 11] then 30
  else 31

/-- A date of the calendar. -/
def date : Reader String := do
  let year ← fixedNumber 4 0 9999
  char '-'
  let month ← fixedNumber 2 1 12
  char '-'
  let day ← fixedNumber 2 1 (daysIn year month)
  return s!"{year}-{month}-{day}"

/-- A time of the day. The second may be a leap second. -/
def timeOfDay : Reader String := do
  let hour ← fixedNumber 2 0 23
  char ':'
  let minute ← fixedNumber 2 0 59
  char ':'
  let second ← fixedNumber 2 0 60
  let fraction ← optional (do char '.'; takeWhile1 isDecimal)
  return s!"{hour}:{minute}:{second}." ++ String.ofList (fraction.getD [])

/-- The distance of a local time from universal time. -/
def timeOffset : Reader String :=
  (do
    let _ ← satisfy fun c => c == 'Z' || c == 'z'
    return "Z") <|>
  (do
    let mark ← satisfy fun c => c == '+' || c == '-'
    let hour ← fixedNumber 2 0 23
    char ':'
    let minute ← fixedNumber 2 0 59
    return String.ofList [mark] ++ s!"{hour}:{minute}")

/-- A date, a time, or both. -/
def moment : Reader Value :=
  (do
    let day ← date
    let time ← optional (do
      let _ ← satisfy fun c => c == 'T' || c == 't' || c == ' '
      let time ← timeOfDay
      let offset ← optional timeOffset
      return time ++ offset.getD "")
    return .moment (day ++ "T" ++ time.getD "")) <|>
  (do return .moment (← timeOfDay))

/-- A truth value. -/
def boolean : Reader Value :=
  (do chars ['t', 'r', 'u', 'e']; return .boolean true) <|>
  (do chars ['f', 'a', 'l', 's', 'e']; return .boolean false)

/-- A value that holds no others. -/
def scalar : Reader Value :=
  anyString <|> moment <|> fractional <|> specialFloat <|> integer <|> boolean

/-! ## Keys -/

/-- A character of a key without quotation marks. -/
def isBare (c : Char) : Bool :=
  isDecimal c || ('a' ≤ c && c ≤ 'z') || ('A' ≤ c && c ≤ 'Z') || c == '-' || c == '_'

/-- One part of a key. -/
def simpleKey : Reader String :=
  (do return String.ofList (← takeWhile1 isBare)) <|> basicString <|> literalString

/-- A key, whose parts are divided by dots, with blanks around each part. -/
def key : Reader (List String) :=
  sepBy1 (char '.') (do
    blanks
    let part ← simpleKey
    blanks
    return part)

end CallTree.Toml
