import CallTree.Pile

/-!
# Readers

A reader takes a value off the front of a text, or refuses. Refusing takes nothing, so another
reader can be tried in its place. The text is a pile of characters: its size tells at once whether
a reader has taken anything off.
-/

namespace CallTree.Toml

/-- Takes a value off the front of a text. -/
abbrev Reader (α : Type) := StateT (Pile Char) Option α

namespace Reader

variable {α : Type}

/-- One character of a class. -/
def satisfy (p : Char → Bool) : Reader Char := fun s =>
  match s.toList with
  | [] => none
  | c :: _ => if p c then some (c, s.drop 1) else none

/-- A given character. -/
def char (c : Char) : Reader Unit := do
  let _ ← satisfy (· == c)

/-- The given characters in order. -/
def chars : List Char → Reader Unit
  | [] => pure ()
  | c :: rest => do
    char c
    chars rest

/-- As many characters of a class as there are. -/
def takeWhile (p : Char → Bool) : Reader (List Char) := fun s =>
  let taken := s.toList.takeWhile p
  some (taken, s.drop taken.length)

/-- As many characters of a class as there are, but at least one. -/
def takeWhile1 (p : Char → Bool) : Reader (List Char) := do
  let c ← satisfy p
  let rest ← takeWhile p
  return c :: rest

/-- The end of the text. -/
def atEnd : Reader Unit := fun s =>
  if s.isEmpty then some ((), s) else none

/-- As many values as there are. A value that takes nothing off is the last one. -/
def manyOf (r : Reader α) (s : Pile Char) : List α × Pile Char :=
  match r s with
  | none => ([], s)
  | some (a, rest) =>
    if rest.size < s.size then
      let (more, rest) := manyOf r rest
      (a :: more, rest)
    else
      ([a], rest)
termination_by s.size

/-- As many values as there are. -/
def many (r : Reader α) : Reader (List α) := fun s =>
  some (manyOf r s)

/-- Exactly `n` values. -/
def exactly (n : Nat) (r : Reader α) : Reader (List α) :=
  match n with
  | 0 => pure []
  | n + 1 => do
    let a ← r
    let rest ← exactly n r
    return a :: rest

/-- Values divided by a mark, at least one. -/
def sepBy1 (mark : Reader Unit) (r : Reader α) : Reader (List α) := do
  let first ← r
  let rest ← many (do mark; r)
  return first :: rest

/-- A value that is known already, or is refused. -/
def ofOption (o : Option α) : Reader α := fun s =>
  o.map fun a => (a, s)

/-- A value that passes a test. -/
def guarded (r : Reader α) (p : α → Bool) : Reader α := do
  let a ← r
  if p a then pure a else failure

end Reader
end CallTree.Toml
