/-!
# Machine amounts

Gas, offsets, sizes and program counters are natural numbers below `2 ^ 64`. Two ways of adding
them are used: one that stops at the largest amount, and one that reports a result which does
not fit. Every place where a result could leave the range names which of the two it takes.
-/

namespace CallTree

/-- The largest 64-bit amount. -/
def maxAmount : Nat := 0xFFFFFFFFFFFFFFFF

/-- Addition that stops at the largest amount. -/
def satAdd (a b : Nat) : Nat :=
  min (a + b) maxAmount

/-- The exact result of a sum or a product, or `none` when it is no 64-bit amount. -/
def fit? (n : Nat) : Option Nat :=
  if n ≤ maxAmount then some n else none

/-- The exact difference, or `none` when it would be negative. -/
def sub? (a b : Nat) : Option Nat :=
  if b ≤ a then some (a - b) else none

/-- The number of bytes in one word. -/
def wordBytes : Nat := 32

/-- The number of whole words that cover `size` bytes. -/
def wordsFor (size : Nat) : Nat :=
  (size + 31) / 32

/-- A saturated sum never exceeds the largest amount. -/
theorem satAdd_le (a b : Nat) : satAdd a b ≤ maxAmount :=
  Nat.min_le_right _ _

/-- A sum that fits is not changed by saturation. -/
theorem satAdd_eq_add {a b : Nat} (h : a + b ≤ maxAmount) : satAdd a b = a + b :=
  Nat.min_eq_left h

/-- A result is reported exactly when it is a 64-bit amount. -/
theorem fit?_eq_some_iff {n m : Nat} : fit? n = some m ↔ n ≤ maxAmount ∧ n = m := by
  unfold fit?
  split <;> simp <;> omega

end CallTree
