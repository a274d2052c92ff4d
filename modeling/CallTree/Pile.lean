/-!
# Piles

A pile is a list that knows its length: items lie on top of each other, the topmost comes first,
and the size is at hand without walking down. The equation between the two is part of the type,
so a pile is determined by its list.

Items can also be counted from the bottom. An item keeps that number as long as it is in the pile,
whatever is put on top of it.
-/

namespace CallTree

/-- Items on top of each other, with their number. -/
structure Pile (α : Type) where
  /-- The items, the topmost first. -/
  toList : List α
  /-- How many there are. -/
  size : Nat
  /-- The size is the length of the list. -/
  size_eq : size = toList.length
deriving DecidableEq, Repr

namespace Pile

variable {α : Type}

/-- No items. -/
def empty : Pile α :=
  ⟨[], 0, rfl⟩

instance : Inhabited (Pile α) :=
  ⟨empty⟩

/-- The pile of a list, whose first item is the topmost. -/
def ofList (items : List α) : Pile α :=
  ⟨items, items.length, rfl⟩

/-- Whether there is no item. -/
def isEmpty (p : Pile α) : Bool :=
  p.size == 0

/-- Puts an item on top. -/
@[inline]
def push (a : α) (p : Pile α) : Pile α :=
  ⟨a :: p.toList, p.size + 1, by rw [p.size_eq, List.length_cons]⟩

/-- Takes the topmost `n` items away. -/
@[inline]
def drop (n : Nat) (p : Pile α) : Pile α :=
  ⟨p.toList.drop n, p.size - n, by rw [p.size_eq, List.length_drop]⟩

/-- Keeps the lowest `n` items. -/
def keep (n : Nat) (p : Pile α) : Pile α :=
  p.drop (p.size - n)

/-- The item with `n` items on top of it. -/
@[inline]
def get? (p : Pile α) (n : Nat) : Option α :=
  p.toList[n]?

/-- The item with `n` items below it. -/
def fromBottom? (p : Pile α) (n : Nat) : Option α :=
  if n < p.size then p.toList[p.size - 1 - n]? else none

/-- Piles with the same items are equal. -/
@[ext]
theorem ext {p q : Pile α} (h : p.toList = q.toList) : p = q := by
  obtain ⟨items, size, hs⟩ := p
  obtain ⟨items', size', hs'⟩ := q
  cases h
  cases hs
  cases hs'
  rfl

/-- What is put on a pile comes first. -/
@[simp]
theorem toList_push (a : α) (p : Pile α) : (p.push a).toList = a :: p.toList :=
  rfl

/-- What is taken away are the first items. -/
@[simp]
theorem toList_drop (n : Nat) (p : Pile α) : (p.drop n).toList = p.toList.drop n :=
  rfl

/-- A pile never keeps more items than it has. -/
theorem size_keep (n : Nat) (p : Pile α) : (p.keep n).size = min n p.size := by
  change p.size - (p.size - n) = min n p.size
  omega

end Pile
end CallTree
