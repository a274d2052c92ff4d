import CallTree.Toml.Scalar

/-!
# Documents

A document is a sequence of lines: a key with a value, the header of a table, a comment, or
nothing. `parse` reads the lines and then builds the tree of tables from them.
-/

namespace CallTree.Toml

open Reader

/-- Neither values nor keys may nest as deep as this. -/
def nestingLimit : Nat := 80

/-- A key that does not nest too deep. -/
def boundedKey : Reader (List String) :=
  guarded key (·.length < nestingLimit)

/-- A comment, up to the end of its line. -/
def comment : Reader Unit := do
  char '#'
  let _ ← takeWhile isPlain

/-- Blanks, line breaks and comments between the values of an array. -/
def arrayBlanks : Reader Unit := do
  let _ ← many ((do let _ ← satisfy isBlank) <|> lineBreak <|> (do comment; lineBreak))

/-- An array. A comma may follow the last value. -/
def array (element : Reader Value) : Reader Value := do
  char '['
  arrayBlanks
  let items ← optional (do
    let items ← sepBy1 (do arrayBlanks; char ','; arrayBlanks) element
    let _ ← optional (do arrayBlanks; char ',')
    return items)
  arrayBlanks
  char ']'
  return .array (items.getD [])

/-- A key with its value. -/
def keyValue (element : Reader Value) : Reader (List String × Value) := do
  let path ← boundedKey
  char '='
  blanks
  let value ← element
  return (path, value)

/-- Adds a value under a dotted key to a table. -/
def addTo (es : Entries) (entry : List String × Value) : Option Entries :=
  match entry.1.getLast? with
  | none => none
  | some last => es.insert last entry.2 entry.1.dropLast

/-- A table in braces, on one line and without a comma after the last value. -/
def inlineTable (element : Reader Value) : Reader Value := do
  char '\x7b'
  blanks
  let entries ← optional (sepBy1 (char ',') (do
    let entry ← keyValue element
    blanks
    return entry))
  blanks
  char '\x7d'
  let es ← ofOption ((entries.getD []).foldlM addTo [])
  return .table .inline es

/-- A value that nests at most `depth` deep. -/
def value : (depth : Nat) → Reader Value
  | 0 => scalar
  | depth + 1 => scalar <|> array (value depth) <|> inlineTable (value depth)

/-- A line of a document. -/
inductive Line
  | blank
  /-- A key with its value. -/
  | entry (path : List String) (value : Value)
  /-- The header of a table. -/
  | table (path : List String)
  /-- The header of one of several tables. -/
  | element (path : List String)
deriving Repr, Inhabited

/-- What may follow on a line: blanks and a comment. -/
def lineEnd : Reader Unit := do
  blanks
  let _ ← optional comment
  lineBreak <|> atEnd

/-- The header of a table, in single or double brackets. -/
def headerLine : Reader Line :=
  (do
    chars ['[', '[']
    let path ← boundedKey
    chars [']', ']']
    lineEnd
    return .element path) <|>
  (do
    char '['
    let path ← boundedKey
    char ']'
    lineEnd
    return .table path)

/-- One line, of which something is left. -/
def line : Reader Line := do
  blanks
  (do
    let _ ← optional comment
    lineBreak
    return .blank) <|>
  headerLine <|>
  (do
    let (path, v) ← keyValue (value (nestingLimit - 1))
    lineEnd
    return .entry path v)

/-- All lines of a document. The last one may end without a line break. -/
def lines : Reader (List Line) := do
  let _ ← optional (char '\uFEFF')
  let all ← many line
  blanks
  let _ ← optional comment
  atEnd
  return all

/-- A document under construction: its tables, and the path of the header in force. -/
structure Draft where
  /-- The root table. -/
  root : Entries := []
  /-- Where the next key goes. -/
  path : List String := []
deriving Inhabited

/-- Takes one line into account. -/
def Draft.add (d : Draft) : Line → Option Draft
  | .blank => some d
  | .entry path v => do
    let root ← Entries.alterAt (addTo · (path, v)) d.path d.root
    return { d with root := root }
  | .table path => do
    let root ← Entries.alterAt (Entries.openTable (← path.getLast?)) path.dropLast d.root
    return { root := root, path := path }
  | .element path => do
    let root ← Entries.alterAt (Entries.openElement (← path.getLast?)) path.dropLast d.root
    return { root := root, path := path }

/-- The root table of a document, or `none` if the text is malformed. -/
def parse (text : String) : Option Entries := do
  let (all, _) ← lines (.ofList text.toList)
  let draft ← all.foldlM Draft.add {}
  return draft.root

end CallTree.Toml
