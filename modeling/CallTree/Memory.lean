import CallTree.Checkpoint.Journal
import CallTree.Fault

/-!
# Memory

Bytes that grow on demand by whole words of 32. Reading never grows a memory: what lies past its
end is zero. A region of size zero lies nowhere and never grows it either.

An open checkpoint notes the length; each write since notes the bytes it replaced.
-/

namespace CallTree

/-- What a write replaced. -/
structure Overwrite where
  /-- Where the write started. -/
  offset : Nat
  /-- The bytes that stood there. -/
  previous : Bytes
deriving DecidableEq

/-- The memory of a frame. -/
structure Memory where
  /-- No region may end beyond this many bytes. -/
  limit : Nat := 16777216
  /-- The contents. -/
  data : Bytes := ByteArray.empty
  /-- The undo journal; a checkpoint notes the length of the contents. -/
  journal : Journal Nat Overwrite := {}
deriving DecidableEq, Inhabited

namespace Memory

/-- The limit of a memory unless told otherwise, in bytes. -/
def defaultLimit : Nat := 16777216

/-- An empty memory of at most `limit` bytes. -/
def withLimit (limit : Nat) : Memory :=
  { limit := limit }

/-- The length in bytes. -/
def size (m : Memory) : Nat :=
  m.data.size

/-- The length in words. -/
def words (m : Memory) : Nat :=
  wordsFor m.size

/-- The bytes of a region. -/
def read (m : Memory) (offset size : Nat) : Bytes :=
  m.data.window offset size

/-- Makes sure that a region is inside the memory. The result is the number of words added. -/
def expand (offset size : Nat) : Action Memory Nat := fun m =>
  if size = 0 then
    .ok 0 m
  else if maxAmount < offset + size then
    .error (.fault (.memoryLimitExceeded maxAmount m.limit)) m
  else if offset + size ≤ m.size then
    .ok 0 m
  else if m.limit < offset + size then
    .error (.fault (.memoryLimitExceeded (offset + size) m.limit)) m
  else
    let words := wordsFor (offset + size)
    match fit? (words * 32) with
    | none => .error .overflow m
    | some newSize =>
      let added := words - m.words
      .ok added { m with data := m.data.extendZeros (newSize - m.data.size) }

/-- Writes bytes, growing the memory where needed. The result is the number of words added. -/
def write (offset : Nat) (part : Bytes) : Action Memory Nat := fun m =>
  if part.size = 0 then
    .ok 0 m
  else
    match expand offset part.size m with
    | .error e m => .error e m
    | .ok added ⟨limit, data, journal⟩ =>
      let replaced := ⟨offset, data.extract offset (offset + part.size)⟩
      .ok added ⟨limit, data.splice offset part, journal.record replaced⟩

/-- Writes a single byte. -/
def writeByte (offset : Nat) (value : UInt8) : Action Memory Nat :=
  write offset ⟨#[value]⟩

/-- Writes the 32 bytes of a word. -/
def writeWord (offset : Nat) (value : Word) : Action Memory Nat :=
  write offset value.toBytes

/-- Puts back what a write replaced. -/
def undo (data : Bytes) (entry : Overwrite) : Bytes :=
  data.splice entry.offset entry.previous

instance : Checkpointed Memory where
  checkpoint m := (m.journal.depth, { m with journal := m.journal.openWith m.data.size })
  revertTo handle m :=
    match m with
    | ⟨limit, data, journal⟩ =>
      match journal.mark? handle with
      | none => ⟨limit, data, journal⟩
      | some mark =>
        ⟨limit, ((journal.since mark).foldl undo data).takeFirst mark.note,
          journal.forgetFrom handle mark⟩
  commit handle m := { m with journal := m.journal.commitFrom handle }

end Memory
end CallTree
