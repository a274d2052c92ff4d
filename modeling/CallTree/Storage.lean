import CallTree.Checkpoint.Journal
import CallTree.Fault
import Std.Data.ExtTreeMap

/-!
# Storage

The slots of one account. A slot that is absent reads as zero and writing zero removes it, so the
slots of a storage never hold a zero. While a checkpoint is open, every write notes what the slot
held before.
-/

namespace CallTree

/-- Words are ordered by number. -/
instance : Std.TransOrd Word :=
  inferInstance

/-- Words that compare as equal are equal. -/
instance : Std.LawfulEqOrd Word :=
  inferInstance

/-- Addresses are ordered by number. -/
instance : Std.TransOrd Address :=
  inferInstance

/-- Addresses that compare as equal are equal. -/
instance : Std.LawfulEqOrd Address :=
  inferInstance

/-- A finite map; two maps with the same entries are equal. -/
abbrev FinMap (κ β : Type) [Ord κ] := Std.ExtTreeMap κ β compare

/-- The slots of one account by their keys. -/
abbrev Slots := FinMap Word Word

namespace Slots

/-- The value of a slot; zero if it is absent. -/
def load (s : Slots) (key : Word) : Word :=
  s[key]?.getD 0

/-- Gives a slot a value; zero removes it. -/
def store (s : Slots) (key value : Word) : Slots :=
  if value = 0 then s.erase key else s.insert key value

/-- The slots that are not zero. -/
def nonzero (s : Slots) : Slots :=
  s.filter fun _ value => value ≠ 0

/-- Gives a slot back what it held: a value, or nothing. -/
def restore (s : Slots) (key : Word) : Option Word → Slots
  | some value => s.insert key value
  | none => s.erase key

end Slots

/-- The storage of a frame. -/
structure Storage where
  /-- The slots that are not zero. -/
  slots : Slots := ∅
  /-- The undo journal: keys with what the slot held before. -/
  journal : Journal Unit (Word × Option Word) := {}
deriving DecidableEq, Inhabited

namespace Storage

/-- A storage with given slots; zeros are left out. -/
def ofSlots (slots : Slots) : Storage :=
  { slots := slots.nonzero }

/-- The value of a slot. -/
def load (s : Storage) (key : Word) : Word :=
  s.slots.load key

/-- Writes a slot. The result is its previous value. -/
def store (key value : Word) (s : Storage) : Word × Storage :=
  let previous := s.slots[key]?
  (previous.getD 0,
    { slots := s.slots.store key value, journal := s.journal.record (key, previous) })

/-- The number of slots that are not zero. -/
def size (s : Storage) : Nat :=
  s.slots.size

/-- Clears the listed slots one after another. -/
def clearAll (keys : List Word) (s : Storage) : Storage :=
  keys.foldl (fun s key => (s.store key 0).2) s

/-- Writes the listed slots one after another, where they differ. -/
def storeChanged (entries : List (Word × Word)) (s : Storage) : Storage :=
  entries.foldl (fun s entry =>
    if s.slots[entry.1]? = some entry.2 then s else (s.store entry.1 entry.2).2) s

/-- The keys of `s` that `other` does not have. -/
def stale (s other : Storage) : List Word :=
  s.slots.keys.filter fun key => !other.slots.contains key

/-- Clears the keys that are stale and writes the entries that differ, in the order in which they
are listed. -/
def mergeIn (staleKeys : List Word) (entries : List (Word × Word)) (s : Storage) : Storage :=
  storeChanged entries (clearAll staleKeys s)

/-- Makes the slots equal to those of `other`, by writes that can be undone. -/
def mergeFrom (s other : Storage) : Storage :=
  s.mergeIn (s.stale other) other.slots.toList

instance : Checkpointed Storage where
  checkpoint s := (s.journal.depth, { s with journal := s.journal.openWith () })
  revertTo handle s :=
    match s.journal.mark? handle with
    | none => s
    | some mark =>
      { slots := (s.journal.since mark).foldl (fun slots e => slots.restore e.1 e.2) s.slots
        journal := s.journal.forgetFrom handle mark }
  commit handle s := { s with journal := s.journal.commitFrom handle }

end Storage
end CallTree
