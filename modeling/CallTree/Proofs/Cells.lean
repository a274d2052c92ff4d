import CallTree.Pool
import CallTree.Pile

/-!
# Reading pools after a change

What a change to one cell of a pool does to that cell (`get_set_same`, `get_alloc_same`) and to the
others, which it leaves alone (`get_set_other`, `get_free_other`, `get_release_other`).
-/

namespace CallTree

namespace Pool

variable {α : Type}

/-- Only numbers that were given out can be in use. -/
theorem lt_size_of_get {p : Pool α} {cell : Nat} {value : α} (h : p.get? cell = some value) :
    cell < p.cells.size := by
  by_cases hlt : cell < p.cells.size
  · exact hlt
  · simp [get?, Array.getElem?_eq_none (Nat.le_of_not_lt hlt)] at h

/-- A cell in use holds what it was given last. -/
theorem get_set_same {p : Pool α} {cell : Nat} {value old : α} (h : p.get? cell = some old) :
    (p.set cell value).get? cell = some value := by
  simp [get?, set, lt_size_of_get h]

/-- Giving a cell a value leaves the other cells alone. -/
theorem get_set_other (p : Pool α) {cell other : Nat} (value : α) (h : cell ≠ other) :
    (p.set cell value).get? other = p.get? other := by
  simp [get?, set, Array.getElem?_setIfInBounds_ne h]

/-- Freeing a cell leaves the other cells alone. -/
theorem get_free_other (p : Pool α) {cell other : Nat} (h : cell ≠ other) :
    (p.free cell).get? other = p.get? other := by
  simp [get?, free, Array.getElem?_setIfInBounds_ne h]

/-- A cell that was freed is not in use. -/
theorem get_free_same (p : Pool α) (cell : Nat) : (p.free cell).get? cell = none := by
  by_cases hlt : cell < p.cells.size <;> simp [get?, free, hlt]

/-- It does not matter that a cell was freed for the time of a change to it. -/
theorem set_free_same (p : Pool α) (cell : Nat) (value : α) :
    (p.free cell).set cell value = p.set cell value := by
  simp [set, free, Array.setIfInBounds_setIfInBounds]

/-- The last value given to a cell counts. -/
theorem set_set_same (p : Pool α) (cell : Nat) (first second : α) :
    (p.set cell first).set cell second = p.set cell second := by
  simp [set, Array.setIfInBounds_setIfInBounds]

/-- A new cell holds its first value. -/
theorem get_alloc_same (p : Pool α) (value : α) :
    (p.alloc value).2.get? p.cells.size = some value := by
  simp [get?, alloc]

/-- Taking a new cell leaves those in use alone. -/
theorem get_alloc_other {p : Pool α} {cell : Nat} (value : α) (h : cell < p.cells.size) :
    (p.alloc value).2.get? cell = p.get? cell := by
  simp [get?, alloc, Array.getElem?_push_lt h, Array.getElem?_eq_getElem h]

/-- When a handle goes away, only a cell that it owned is freed. -/
theorem get_release_other (p : Pool α) {h : Handle} {cell : Nat} (hne : h ≠ .owned cell) :
    (p.release h).get? cell = p.get? cell := by
  cases h with
  | owned own => exact get_free_other p fun he => hne (by rw [he])
  | shared => rfl

/-- No cell is lost when a handle goes away. -/
theorem size_release (p : Pool α) (h : Handle) : (p.release h).cells.size = p.cells.size := by
  cases h <;> simp [release, free]

/-- It does not matter that a new cell was taken before a handle to another one went away. -/
theorem release_alloc {p : Pool α} {h : Handle} (value : α) (hne : h ≠ .owned p.cells.size) :
    (p.alloc value).2.release h = ((p.release h).alloc value).2 := by
  cases h with
  | owned cell =>
      have hcell : cell ≠ p.cells.size := fun he => hne (by rw [he])
      by_cases hlt : cell < p.cells.size
      · simp [release, free, alloc, Array.setIfInBounds, hlt, Nat.lt_succ_of_lt hlt,
          Array.set_push]
      · have hout : ¬cell < p.cells.size + 1 := by omega
        simp [release, free, alloc, Array.setIfInBounds, hlt, hout]
  | shared => rfl

/-- It does not matter what a new cell held first. -/
theorem set_alloc (p : Pool α) (first value : α) :
    (p.alloc first).2.set p.cells.size value = (p.alloc value).2 := by
  simp [set, alloc, Array.setIfInBounds, Array.set_push]

/-- An action on a cell in use that always succeeds. -/
theorem modify_of_get {p : Pool α} {β : Type} (container : Container) (h : Handle) {value : α}
    (f : α → β × α) (hget : p.get? h.cell = some value) :
    p.modify container h (Action.ofTotal f) = .ok (f value).1 (p.set h.cell (f value).2) := by
  simp only [modify, hget, Action.ofTotal, set_free_same]

end Pool
end CallTree
