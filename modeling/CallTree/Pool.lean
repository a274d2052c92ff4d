import CallTree.Fault

/-!
# Owned and shared cells

A pool holds values in numbered cells. A handle either owns its cell or shares that of an owner.
When the owner goes away its cell is freed and stays empty, so numbers are never given out twice
and every handle that shared the cell dangles from then on.

One access to a cell can take place inside another. Two reads of the same cell agree with each
other; a write agrees with nothing.
-/

namespace CallTree

/-- Values in numbered cells. -/
structure Pool (α : Type) where
  /-- All cells so far by their numbers, of which those in use hold a value. -/
  cells : Array (Option α) := #[]

/-- Access to a cell. -/
inductive Handle
  /-- The cell lives as long as this handle. -/
  | owned (cell : Nat)
  /-- The cell belongs to another handle. -/
  | shared (cell : Nat)
deriving DecidableEq, Repr, Inhabited

namespace Handle

/-- The number of the cell. -/
def cell : Handle → Nat
  | .owned c | .shared c => c

/-- Whether the handle owns its cell. -/
def isOwned : Handle → Bool
  | .owned _ => true
  | .shared _ => false

/-- Another handle to the same cell, which does not own it. -/
def share (h : Handle) : Handle :=
  .shared h.cell

end Handle

namespace Pool

variable {α : Type}

instance : Inhabited (Pool α) :=
  ⟨{}⟩

/-- The value of a cell that is in use. -/
@[inline]
def get? (p : Pool α) (cell : Nat) : Option α :=
  p.cells[cell]?.join

/-- Puts a value into a new cell. -/
def alloc (value : α) (p : Pool α) : Handle × Pool α :=
  (.owned p.cells.size, ⟨p.cells.push (some value)⟩)

/-- Gives a cell a value. -/
@[inline]
def set (cell : Nat) (value : α) (p : Pool α) : Pool α :=
  ⟨p.cells.setIfInBounds cell (some value)⟩

/-- Frees a cell. -/
@[inline]
def free (cell : Nat) (p : Pool α) : Pool α :=
  ⟨p.cells.setIfInBounds cell none⟩

/-- What becomes of the pool when a handle goes away. -/
def release (h : Handle) (p : Pool α) : Pool α :=
  match h with
  | .owned cell => p.free cell
  | .shared _ => p

/-- Whether the cell of a handle is in use. -/
def isLive (p : Pool α) (h : Handle) : Bool :=
  (p.get? h.cell).isSome

/-- Whether two handles reach the same value. -/
def same (p : Pool α) (a b : Handle) : Bool :=
  p.isLive a && p.isLive b && a.cell == b.cell

/-- The text of a handle to a container. -/
def handleText (p : Pool α) (container : Container) (h : Handle) : String :=
  match h with
  | .owned _ => "Owned<" ++ container.name ++ ">"
  | .shared _ =>
    let text := "Shared<" ++ container.name ++ ">"
    if p.isLive h then text else text ++ "(dangling)"

/-- The value that a handle reaches. -/
def read (p : Pool α) (container : Container) (h : Handle) : Except Fault α :=
  match p.get? h.cell with
  | some value => .ok value
  | none => .error (.danglingHandle container)

/-- Runs an action on the value that a handle reaches. -/
@[inline]
def modify {β : Type} (container : Container) (h : Handle) (act : Action α β) :
    Action (Pool α) β := fun p =>
  match p.get? h.cell with
  | none => .error (.fault (.danglingHandle container)) p
  | some value =>
    let p := p.free h.cell
    match act value with
    | .ok r value => .ok r (p.set h.cell value)
    | .error e value => .error e (p.set h.cell value)

/-- How a cell is accessed. -/
inductive Access
  | reading
  | writing
deriving DecidableEq, Repr, Inhabited

/-- The value that `inner` reaches while an access through `outer` is under way. -/
def readWithin (p : Pool α) (container : Container) (outer : Handle × Access)
    (inner : Handle × Access) : Except Fault α := do
  let _ ← p.read container outer.1
  let value ← p.read container inner.1
  if outer.1.cell = inner.1.cell then
    match outer.2, inner.2 with
    | .reading, .reading => .ok value
    | .writing, .reading => .error (.internal (container.name ++ " is mutably borrowed"))
    | _, .writing => .error (.internal (container.name ++ " is already borrowed"))
  else
    .ok value

end Pool
end CallTree
