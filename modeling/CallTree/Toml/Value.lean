/-!
# Values of a document

A document is a tree of tables. How a table came to be decides what may still be added to it: a
table that a header or braces have defined is closed to dotted keys, and one that dotted keys have
defined is closed to headers.
-/

namespace CallTree.Toml

/-- How a table came to be. -/
inductive Origin
  /-- Written in braces. -/
  | inline
  /-- Named by a header. -/
  | header
  /-- Passed through by the header of a table below it. -/
  | implied
  /-- Passed through by a dotted key. -/
  | dotted
deriving DecidableEq, Repr, Inhabited

/-- A value of a document. -/
inductive Value
  | string (s : String)
  | integer (i : Int)
  /-- A number with a fraction or an exponent, as it is written. -/
  | float (written : String)
  | boolean (b : Bool)
  /-- A date, a time, or both, as it is written. -/
  | moment (written : String)
  | array (items : List Value)
  | table (origin : Origin) (entries : List (String × Value))
  /-- The tables of a header in double brackets, in order. -/
  | tables (elements : List (List (String × Value)))
deriving Repr, Inhabited

/-- The entries of a table. -/
abbrev Entries := List (String × Value)

namespace Entries

/-- The value of a key. -/
def get? (es : Entries) (key : String) : Option Value :=
  (es.find? (·.1 == key)).map (·.2)

/-- Gives a key a value, in its place if it is there and else at the end. -/
def set (key : String) (value : Value) : Entries → Entries
  | [] => [(key, value)]
  | e :: rest => if e.1 = key then (key, value) :: rest else e :: set key value rest

/-- Adds a value under a dotted key, whose last part is `key`. The parts before it lead through
tables, which are made where they are missing. Refused if the key is taken, if a part is no open
table, or if the table in the end was not made by dotted keys. -/
def insert (key : String) (value : Value) : List String → Entries → Option Entries
  | [], es => if (es.get? key).isSome then none else some (es.set key value)
  | part :: path, es =>
    let within (origin : Origin) (sub : Entries) : Option Entries :=
      if path.isEmpty && origin != .dotted then none else insert key value path sub
    match es.get? part with
    | none => (within .dotted []).map fun sub => es.set part (.table .dotted sub)
    | some (.table .dotted sub) =>
      (within .dotted sub).map fun sub => es.set part (.table .dotted sub)
    | some (.table .implied sub) =>
      (within .implied sub).map fun sub => es.set part (.table .implied sub)
    | some (.tables elements) =>
      match elements.getLast? with
      | none => none
      | some last =>
        (within .header last).map fun sub => es.set part (.tables (elements.dropLast ++ [sub]))
    | some _ => none

/-- Changes the table that a header path leads to. Missing tables on the way are implied; of the
tables of a header in double brackets the last one counts. -/
def alterAt (f : Entries → Option Entries) : List String → Entries → Option Entries
  | [], es => f es
  | part :: path, es =>
    match es.get? part with
    | none => (alterAt f path []).map fun sub => es.set part (.table .implied sub)
    | some (.table .inline _) => none
    | some (.table origin sub) =>
      (alterAt f path sub).map fun sub => es.set part (.table origin sub)
    | some (.tables elements) =>
      match elements.getLast? with
      | none => none
      | some last =>
        (alterAt f path last).map fun sub => es.set part (.tables (elements.dropLast ++ [sub]))
    | some _ => none

/-- Defines a table by a header. It may so far have been implied at most. -/
def openTable (key : String) (es : Entries) : Option Entries :=
  match es.get? key with
  | none => some (es.set key (.table .header []))
  | some (.table .implied sub) => some (es.set key (.table .header sub))
  | some _ => none

/-- Adds a table by a header in double brackets. -/
def openElement (key : String) (es : Entries) : Option Entries :=
  match es.get? key with
  | none => some (es.set key (.tables [[]]))
  | some (.tables elements) => some (es.set key (.tables (elements ++ [[]])))
  | some _ => none

end Entries
end CallTree.Toml
