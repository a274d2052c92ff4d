import CallTree.Limits
import CallTree.Toml.Document

/-!
# Loading limits

Limits are read from a document, in which every bound may be left out, or from a file that holds
one; some of them can then be replaced by variables of the environment. Whatever the source, no
bound may be zero.
-/

namespace CallTree

/-- Why limits cannot be loaded. -/
inductive LimitsError
  /-- There is no such file, or it is no text. -/
  | unreadable
  /-- The text is no document, or a bound in it is no number. -/
  | malformed
  /-- A bound has a value that nothing can run with. -/
  | invalid (field reason : String)
deriving DecidableEq, Repr, Inhabited

/-- The text of an error. -/
def LimitsError.message : LimitsError → String
  | .unreadable => "failed to read config"
  | .malformed => "failed to parse config"
  | .invalid field reason => "invalid config field `" ++ field ++ "`: " ++ reason

/-- Whether a character counts as white space at the ends of a number. -/
def isWhiteSpace (c : Char) : Bool :=
  let n := c.toNat
  (0x09 ≤ n && n ≤ 0x0D) || n == 0x20 || n == 0x85 || n == 0xA0 || n == 0x1680 ||
    (0x2000 ≤ n && n ≤ 0x200A) || n == 0x2028 || n == 0x2029 || n == 0x202F || n == 0x205F ||
    n == 0x3000

/-- A text without the white space at its ends. -/
def trimmed (cs : List Char) : List Char :=
  ((cs.dropWhile isWhiteSpace).reverse.dropWhile isWhiteSpace).reverse

/-- Reads an amount: decimal digits, perhaps after a plus sign, with white space around them. -/
def amountOfText? (text : String) : Option Nat :=
  let cs := trimmed text.toList
  let digits := match cs with
    | '+' :: rest => rest
    | _ => cs
  if digits.isEmpty || !digits.all Toml.isDecimal then none
  else fit? (Toml.digitsValue 10 digits)

namespace Limits

/-- Refuses limits with a bound of zero; the first such bound is named. -/
def validate (l : Limits) : Except LimitsError Limits :=
  match l.fields.find? (·.2 == 0) with
  | some (field, _) => .error (.invalid field "must be greater than zero")
  | none => .ok l

/-- Takes a bound from a document, if it is there. -/
def takeField (document : Toml.Entries) (l : Limits) (field : String) :
    Except LimitsError Limits :=
  match document.get? field with
  | none => .ok l
  | some (.integer i) => if 0 ≤ i then .ok (l.set field i.toNat) else .error .malformed
  | some _ => .error .malformed

/-- Reads limits from a document. Bounds that are left out have their default. -/
def ofToml (text : String) : Except LimitsError Limits :=
  match Toml.parse text with
  | none => .error .malformed
  | some document => do
    let defaults : Limits := {}
    let l ← (defaults.fields.map (·.1)).foldlM (takeField document) defaults
    l.validate

/-- Reads limits from the contents of a file, where `none` stands for a missing file. -/
def ofFile (contents : Option Bytes) : Except LimitsError Limits :=
  match contents.bind String.fromUTF8? with
  | none => .error .unreadable
  | some text => ofToml text

/-- What the names of the variables start with. -/
def environmentMark : String := "FRAME_VM_"

/-- The bounds that a variable can replace, with the rest of its name. -/
def overridable : List (String × String) :=
  [("MAX_CALL_DEPTH", "max_call_depth"),
   ("MAX_STACK_SIZE", "max_stack_size"),
   ("MAX_MEMORY_SIZE", "max_memory_size"),
   ("MAX_EXECUTION_STEPS", "max_execution_steps")]

/-- Replaces one bound by a variable, if that is set. -/
def takeVariable (lookup : String → Option String) (l : Limits) (entry : String × String) :
    Except LimitsError Limits :=
  match lookup (environmentMark ++ entry.1) with
  | none => .ok l
  | some raw =>
    match amountOfText? raw with
    | some n => .ok (l.set entry.2 n)
    | none => .error (.invalid entry.2 ("`" ++ raw ++ "` is not a valid number"))

/-- Replaces the bounds for which a variable is set. -/
def withEnvironment (lookup : String → Option String) (l : Limits) :
    Except LimitsError Limits := do
  let l ← overridable.foldlM (takeVariable lookup) l
  l.validate

end Limits
end CallTree
