import Mathlib.Data.List.Forall2
import CallTree.Proofs.Exact

/-!
# Charging for several regions

A frame that charges for one region after another ends where it would have ended with a single charge
up to the farthest end (`Activation.cover`): the costs of growing step by step add up to the cost of
growing at once (`Activation.cover_cover`). So neither the order of the regions nor the places where they
are cut apart make a difference (`Rearranged`), and what is covered already costs nothing.

Whether a charge is accepted does not depend on the order either, unless it is accepted only because an
earlier one has rounded the memory up to a whole word beyond its limit (`Exec.charge_all_allowed`).
-/

namespace CallTree

open Exact (memoryCost)

/-! ## Costs -/

namespace Gas

/-- A larger memory costs more. -/
theorem memory_cost_mono {old new : Nat} (h : old ≤ new) : memoryCost old ≤ memoryCost new := by
  have hsquare : old * old / 512 ≤ new * new / 512 := Nat.div_le_div_right (Nat.mul_le_mul h h)
  unfold memoryCost
  omega

/-- A memory has a cost if no intermediate result overflows, and then it is the exact one. -/
theorem memory_eq_some_iff {words cost : Nat} :
    memory? words = some cost ↔
      (words * words ≤ maxAmount ∧ 3 * words ≤ maxAmount ∧ memoryCost words ≤ maxAmount) ∧
        memoryCost words = cost := by
  unfold memory? memoryCost
  simp only [Option.bind_eq_bind, Option.bind_eq_some_iff, fit?_eq_some_iff]
  constructor
  · rintro ⟨_, ⟨hsquare, rfl⟩, _, ⟨hlinear, rfl⟩, hsum, hcost⟩
    exact ⟨⟨hsquare, hlinear, hsum⟩, hcost⟩
  · rintro ⟨⟨hsquare, hlinear, hsum⟩, hcost⟩
    exact ⟨_, ⟨hsquare, rfl⟩, _, ⟨hlinear, rfl⟩, hsum, hcost⟩

/-- Where a memory has a cost, a smaller one has a cost too. -/
theorem memory_of_le {old new cost : Nat} (h : old ≤ new) (hnew : memory? new = some cost) :
    memory? old = some (memoryCost old) := by
  obtain ⟨⟨hsquare, hlinear, hsum⟩, -⟩ := memory_eq_some_iff.1 hnew
  refine memory_eq_some_iff.2 ⟨⟨?_, ?_, ?_⟩, rfl⟩
  · exact Nat.le_trans (Nat.mul_le_mul h h) hsquare
  · exact Nat.le_trans (Nat.mul_le_mul_left 3 h) hlinear
  · exact Nat.le_trans (memory_cost_mono h) hsum

/-- Growth has a cost if the larger memory has one, and then it is the difference. -/
theorem memory_growth_iff {old needed cost : Nat} :
    memoryGrowth? old (max old needed) = some cost ↔
      (old < needed → ∃ after, memory? needed = some after) ∧
        memoryCost (max old needed) - memoryCost old = cost := by
  unfold memoryGrowth?
  by_cases hle : needed ≤ old
  · rw [Nat.max_eq_left hle, if_pos (Nat.le_refl _), Nat.sub_self, Option.some_inj]
    exact ⟨fun h => ⟨fun hlt => absurd hle (Nat.not_le.2 hlt), h⟩, fun h => h.2⟩
  · have hlt : old < needed := Nat.not_le.1 hle
    rw [Nat.max_eq_right (Nat.le_of_lt hlt), if_neg hle]
    constructor
    · intro h
      obtain ⟨after, hafter, h⟩ := Option.bind_eq_some_iff.1 h
      have hmono := memory_cost_mono (Nat.le_of_lt hlt)
      refine ⟨fun _ => ⟨after, hafter⟩, ?_⟩
      obtain ⟨-, rfl⟩ := memory_eq_some_iff.1 hafter
      rw [memory_of_le (Nat.le_of_lt hlt) hafter] at h
      exact Option.some_inj.1 ((if_pos hmono).symm.trans h)
    · rintro ⟨hfits, rfl⟩
      obtain ⟨after, hafter⟩ := hfits hlt
      have hmono := memory_cost_mono (Nat.le_of_lt hlt)
      rw [hafter, memory_of_le (Nat.le_of_lt hlt) hafter]
      obtain ⟨-, rfl⟩ := memory_eq_some_iff.1 hafter
      exact if_pos hmono

end Gas

/-- Saturated sums can be taken in one step. -/
theorem satAdd_satAdd (a b c : Nat) : satAdd (satAdd a b) c = satAdd a (b + c) := by
  unfold satAdd
  omega

/-! ## Covering a number of bytes -/

/-- Zeros can be appended in one step. -/
theorem Bytes.extend_zeros_append (n k : Nat) (b : Bytes) :
    (b.extendZeros n).extendZeros k = b.extendZeros (n + k) := by
  induction n generalizing b with
  | zero => rw [extendZeros, Nat.zero_add]
  | succ n ih => rw [extendZeros, ih, Nat.succ_add, extendZeros]

namespace Memory

/-- The memory once it covers `reach` bytes. -/
def cover (reach : Nat) (m : Memory) : Memory :=
  if reach ≤ m.size then m else m.grown reach

/-- The memory may grow to cover `reach` bytes. -/
structure Allows (reach : Nat) (m : Memory) : Prop where
  amount : reach ≤ maxAmount
  inside : reach ≤ max m.size m.limit
  fits : m.size < reach → wordsFor reach * 32 ≤ maxAmount

/-- Covering adds the words that are missing. -/
theorem words_cover (reach : Nat) (m : Memory) :
    (m.cover reach).words = max m.words (wordsFor reach) := by
  unfold cover
  split
  · rename_i hle
    unfold words wordsFor
    omega
  · exact words_grown m reach

/-- The length of a memory that covers `reach` bytes. -/
theorem size_cover (reach : Nat) (m : Memory) :
    (m.cover reach).size = if reach ≤ m.size then m.size else wordsFor reach * 32 := by
  unfold cover
  split
  · rfl
  · rw [size_grown]
    unfold wordsFor
    omega

/-- A memory that covers the bytes already stays as it is. -/
theorem cover_of_le {reach : Nat} {m : Memory} (h : reach ≤ m.size) : m.cover reach = m :=
  if_pos h

/-- A memory that does not cover the bytes yet is grown. -/
theorem cover_of_lt {reach : Nat} {m : Memory} (h : ¬reach ≤ m.size) :
    m.cover reach = m.grown reach :=
  if_neg h

/-- Covering one number of bytes after another is covering the larger one. -/
theorem cover_cover (a b : Nat) (m : Memory) : (m.cover a).cover b = m.cover (max a b) := by
  have hsize := size_cover a m
  by_cases ha : a ≤ m.size
  · have hsame : m.cover a = m := if_pos ha
    rw [hsame]
    unfold cover
    by_cases hb : b ≤ m.size
    · rw [if_pos hb, if_pos (by omega)]
    · rw [if_neg hb, if_neg (by omega), Nat.max_eq_right (by omega)]
  · have hgrown : m.cover a = m.grown a := if_neg ha
    rw [if_neg ha] at hsize
    by_cases hb : b ≤ (m.cover a).size
    · have hwords : wordsFor (max a b) = wordsFor a := by
        unfold wordsFor at hsize ⊢
        omega
      rw [cover_of_le hb, hgrown, cover_of_lt (by omega), grown, grown, hwords]
    · have hmax : max a b = b := by
        unfold wordsFor at hsize
        omega
      have hbytes : wordsFor a * 32 - m.size + (wordsFor b * 32 - (m.cover a).size) =
          wordsFor b * 32 - m.size := by
        unfold wordsFor at hsize ⊢
        omega
      have hdata : (m.grown b).data =
          (m.grown a).data.extendZeros (wordsFor b * 32 - (m.cover a).size) := by
        rw [grown, grown, ← hbytes, Bytes.extend_zeros_append]
      rw [hmax, cover_of_lt hb, hgrown, cover_of_lt (by omega)]
      exact congrArg (fun data => { m with data := data }) (hgrown ▸ hdata.symm)

/-- Covering leaves the limit as it is. -/
theorem limit_cover (reach : Nat) (m : Memory) : (m.cover reach).limit = m.limit := by
  unfold cover
  split <;> rfl

/-- A memory covers the bytes that it was made to cover, and what it covered before. -/
theorem max_le_size_cover (reach : Nat) (m : Memory) : max m.size reach ≤ (m.cover reach).size := by
  rw [size_cover]
  unfold wordsFor
  split <;> omega

/-- Growing for a region covers its end, if the memory allows it. -/
theorem expand_eq_cover {offset size : Nat} {m : Memory} (hsize : size ≠ 0)
    (h : m.Allows (offset + size)) :
    ∃ added, expand offset size m = .ok added (m.cover (offset + size)) := by
  obtain ⟨hamount, hinside, hfits⟩ := h
  unfold expand
  rw [if_neg hsize, if_neg (Nat.not_lt.2 hamount)]
  by_cases hle : offset + size ≤ m.size
  · exact ⟨0, by rw [if_pos hle, cover_of_le hle]⟩
  · have hfit : fit? (wordsFor (offset + size) * 32) = some (wordsFor (offset + size) * 32) :=
      fit?_eq_some_iff.2 ⟨hfits (Nat.lt_of_not_le hle), rfl⟩
    rw [if_neg hle, if_neg (by omega), cover_of_lt hle]
    simp only [hfit]
    exact ⟨_, rfl⟩

/-- What was grown for was allowed. -/
theorem allows_of_expand {offset size added : Nat} {m m' : Memory} (hsize : size ≠ 0)
    (h : expand offset size m = .ok added m') : m.Allows (offset + size) := by
  unfold expand at h
  rw [if_neg hsize] at h
  split at h
  · cases h
  · rename_i hamount
    split at h
    · rename_i hle
      exact ⟨Nat.not_lt.1 hamount, by omega, fun hlt => absurd hle (Nat.not_le.2 hlt)⟩
    · split at h
      · cases h
      · rename_i hlimit
        cases hfit : fit? (wordsFor (offset + size) * 32) with
        | none => simp [hfit] at h
        | some newSize =>
            exact ⟨Nat.not_lt.1 hamount, by omega, fun _ => (fit?_eq_some_iff.1 hfit).1⟩

/-- What allows a number of bytes allows a smaller one. -/
theorem Allows.of_le {reach reach' : Nat} {m : Memory} (h : m.Allows reach) (hle : reach' ≤ reach) :
    m.Allows reach' where
  amount := Nat.le_trans hle h.amount
  inside := Nat.le_trans hle h.inside
  fits hlt := by
    have hfits := h.fits (by omega)
    unfold wordsFor at hfits ⊢
    omega

/-- A number of bytes that is allowed still is when fewer are covered. -/
theorem Allows.cover {reach reach' : Nat} {m : Memory} (h : m.Allows reach) :
    (m.cover reach').Allows reach := by
  have hmax := max_le_size_cover reach' m
  have hlimit := limit_cover reach' m
  obtain ⟨hamount, hinside, hfits⟩ := h
  exact ⟨hamount, by omega, fun hlt => hfits (by omega)⟩

/-- What is allowed one after the other is allowed at once, if it ends inside the length or the
limit. -/
theorem Allows.max {a b : Nat} {m : Memory} (ha : m.Allows a) (hb : (m.cover a).Allows b)
    (hinside : Max.max a b ≤ Max.max m.size m.limit) : m.Allows (Max.max a b) where
  amount := Nat.max_le.2 ⟨ha.amount, hb.amount⟩
  inside := hinside
  fits hlt := by
    have hsize := size_cover a m
    by_cases hle : b ≤ a
    · rw [Nat.max_eq_left hle] at hlt ⊢
      exact ha.fits hlt
    · rw [Nat.max_eq_right (by omega)] at hlt ⊢
      by_cases hcovered : (m.cover a).size < b
      · exact hb.fits hcovered
      · -- `b` lies in the word in which `a` ends.
        have hfits := ha.fits (by unfold wordsFor at hsize; split at hsize <;> omega)
        unfold wordsFor at hsize hfits ⊢
        split at hsize <;> omega

end Memory

/-! ## Paying for what is covered -/

/-- A meter after a debit. -/
def GasMeter.pay (amount : Nat) (m : GasMeter) : GasMeter :=
  { m with remaining := m.remaining - amount, used := satAdd m.used amount }

/-- Debits can be made in one step. -/
theorem GasMeter.pay_pay (a b : Nat) (m : GasMeter) : (m.pay a).pay b = m.pay (a + b) := by
  simp only [pay, satAdd_satAdd, Nat.sub_sub]

namespace Activation

/-- The length of the memory in words. -/
def words (x : Activation) : Nat :=
  match x.space with
  | some w => w.memory.words
  | none => 0

/-- What it costs to grow the memory to cover `reach` bytes. -/
def growth (reach : Nat) (x : Activation) : Nat :=
  memoryCost (max x.words (wordsFor reach)) - memoryCost x.words

/-- The activation once its memory covers `reach` bytes and the growth is paid for. -/
def cover (reach : Nat) (x : Activation) : Activation :=
  if reach = 0 then
    x
  else
    ⟨{ x.frame with gas := x.frame.gas.pay (x.growth reach) },
      x.space.map fun w => { w with memory := w.memory.cover reach }⟩

/-- A number of bytes other than zero is paid for. -/
theorem cover_of_ne {reach : Nat} (h : reach ≠ 0) (x : Activation) :
    x.cover reach = ⟨{ x.frame with gas := x.frame.gas.pay (x.growth reach) },
      x.space.map fun w => { w with memory := w.memory.cover reach }⟩ :=
  if_neg h

/-- The frame can pay for growing its memory to cover `reach` bytes. -/
structure CanPay (reach : Nat) (x : Activation) : Prop where
  running : x.frame.running = true
  priced : x.words < wordsFor reach → ∃ cost, Gas.memory? (wordsFor reach) = some cost
  affordable : x.growth reach ≤ x.frame.gas.remaining

/-- The memory is there and may grow to cover `reach` bytes. -/
def Allows (reach : Nat) (x : Activation) : Prop :=
  ∃ w, x.space = some w ∧ w.memory.Allows reach

/-- The words of an activation that covers a number of bytes. -/
theorem words_cover {x : Activation} {w : Workspace} (hw : x.space = some w) (reach : Nat) :
    (x.cover reach).words = max x.words (wordsFor reach) := by
  unfold cover
  split
  · rename_i hzero
    rw [hzero]
    exact (Nat.max_eq_left (Nat.zero_le _)).symm
  · simp only [words, hw, Option.map_some, Memory.words_cover]

/-- The costs of growing step by step add up. -/
theorem growth_add {x : Activation} {w : Workspace} (hw : x.space = some w) (a b : Nat) :
    x.growth a + (x.cover a).growth b = x.growth (max a b) := by
  have hwords : wordsFor (max a b) = max (wordsFor a) (wordsFor b) := by
    unfold wordsFor
    omega
  have hfirst := Gas.memory_cost_mono (Nat.le_max_left x.words (wordsFor a))
  have hsecond := Gas.memory_cost_mono (Nat.le_max_left (max x.words (wordsFor a)) (wordsFor b))
  unfold growth
  rw [words_cover hw, hwords, ← Nat.max_assoc]
  omega

/-- Covering one number of bytes after another, and paying each time, is covering the larger one. -/
theorem cover_cover {x : Activation} {w : Workspace} (hw : x.space = some w) (a b : Nat) :
    (x.cover a).cover b = x.cover (max a b) := by
  by_cases ha : a = 0
  · rw [ha, Nat.max_eq_right (Nat.zero_le _)]
    rfl
  by_cases hb : b = 0
  · rw [hb, Nat.max_eq_left (Nat.zero_le _)]
    rfl
  have hmax : max a b ≠ 0 := by omega
  have hsum := growth_add hw a b
  rw [cover_of_ne hb, cover_of_ne hmax, ← hsum, cover_of_ne ha, hw]
  simp only [Option.map_some, Memory.cover_cover, GasMeter.pay_pay]

/-- Covering is paid for from what remains. -/
theorem remaining_cover {reach : Nat} (h : reach ≠ 0) (x : Activation) :
    (x.cover reach).frame.gas.remaining = x.frame.gas.remaining - x.growth reach := by
  rw [cover_of_ne h]
  rfl

/-- What can be paid for one after the other can be paid for at once. -/
theorem CanPay.max {a b : Nat} {x : Activation} {w : Workspace} (hw : x.space = some w)
    (ha : x.CanPay a) (hb : (x.cover a).CanPay b) : x.CanPay (Max.max a b) := by
  by_cases hzero : a = 0
  · rw [hzero, Nat.max_eq_right (Nat.zero_le _)]
    rw [hzero] at hb
    exact hb
  have hsum := growth_add hw a b
  have hwords := words_cover hw a
  have hpaid := remaining_cover hzero x
  refine ⟨ha.running, fun hlt => ?_, ?_⟩
  · by_cases hle : b ≤ a
    · rw [Nat.max_eq_left hle] at hlt ⊢
      exact ha.priced hlt
    · rw [Nat.max_eq_right (by omega)] at hlt ⊢
      by_cases hgrows : (x.cover a).words < wordsFor b
      · exact hb.priced hgrows
      · -- Both end in the same word.
        have hsame : wordsFor b = wordsFor a := by
          unfold wordsFor at *
          omega
        rw [hsame] at hlt ⊢
        exact ha.priced hlt
  · have hfirst := ha.affordable
    have hsecond := hb.affordable
    omega

/-- Who can pay for a number of bytes can pay for a smaller one first. -/
theorem CanPay.split {a b : Nat} {x : Activation} {w : Workspace} (hw : x.space = some w)
    (h : x.CanPay b) (hle : a ≤ b) : x.CanPay a ∧ (x.cover a).CanPay b := by
  have hsum := growth_add hw a b
  rw [Nat.max_eq_right hle] at hsum
  have hwords : wordsFor a ≤ wordsFor b := by
    unfold wordsFor
    omega
  have haffordable := h.affordable
  have hfirst : x.CanPay a := by
    refine ⟨h.running, fun hlt => ?_, by omega⟩
    obtain ⟨cost, hcost⟩ := h.priced (by omega)
    exact ⟨_, Gas.memory_of_le hwords hcost⟩
  refine ⟨hfirst, ?_⟩
  by_cases hzero : a = 0
  · rw [hzero]
    exact h
  have hgrown := words_cover hw a
  have hpaid := remaining_cover hzero x
  refine ⟨?_, fun hlt => h.priced (by omega), by omega⟩
  rw [cover_of_ne hzero]
  exact h.running

/-- What is allowed stays allowed when fewer bytes are covered. -/
theorem Allows.cover {a b : Nat} {x : Activation} (h : x.Allows b) : (x.cover a).Allows b := by
  obtain ⟨w, hw, hallows⟩ := h
  by_cases hzero : a = 0
  · rw [hzero]
    exact ⟨w, hw, hallows⟩
  · refine ⟨{ w with memory := w.memory.cover a }, ?_, hallows.cover⟩
    rw [cover_of_ne hzero, hw, Option.map_some]

/-- What allows a number of bytes allows a smaller one. -/
theorem Allows.of_le {a b : Nat} {x : Activation} (h : x.Allows b) (hle : a ≤ b) : x.Allows a :=
  h.imp fun _ hw => ⟨hw.1, hw.2.of_le hle⟩

end Activation

/-! ## Charging -/

namespace Exec

/-- A debit that can be made. -/
theorem consume_gas_eq {amount : Nat} {f : Frame} (hrunning : f.running = true)
    (hle : amount ≤ f.gas.remaining) (space : Option Workspace) :
    consumeGas amount ⟨f, space⟩ = .ok () ⟨{ f with gas := f.gas.pay amount }, space⟩ := by
  have hpays : Frame.consumeGas amount f = .ok () { f with gas := f.gas.pay amount } := by
    simp only [Frame.consumeGas, hrunning, if_true, GasMeter.consume, Nat.not_lt.2 hle, if_false]
    rfl
  simp only [consumeGas, onFrame, hpays]

/-- A debit that was made could be made. -/
theorem consume_gas_can {amount : Nat} {f : Frame} {space : Option Workspace} {y : Activation}
    (h : consumeGas amount ⟨f, space⟩ = .ok () y) :
    f.running = true ∧ amount ≤ f.gas.remaining := by
  unfold consumeGas onFrame Frame.consumeGas at h
  by_cases hrunning : f.running = true
  · refine ⟨hrunning, Nat.le_of_not_lt fun hlt => ?_⟩
    simp [hrunning, GasMeter.consume, hlt] at h
  · simp [hrunning] at h

/-- A charge in a memory that allows its region grows the memory first and then debits the cost. -/
theorem charge_memory_allowed {offset size : Nat} {f : Frame} {w : Workspace} (hsize : size ≠ 0)
    (h : w.memory.Allows (offset + size)) :
    chargeMemory offset size ⟨f, some w⟩ =
      (Action.ofChecked (Gas.memoryGrowth? w.memory.words
        (max w.memory.words (wordsFor (offset + size)))) >>= consumeGas)
        ⟨f, some { w with memory := w.memory.cover (offset + size) }⟩ := by
  obtain ⟨added, hexpand⟩ := Memory.expand_eq_cover hsize h
  have hread : ∀ v : Workspace, onMemory (Action.read (·.words)) ⟨f, some v⟩ =
      .ok v.memory.words ⟨f, some v⟩ := fun _ => rfl
  have hgrows : onMemory (Memory.expand offset size) ⟨f, some w⟩ =
      .ok added ⟨f, some { w with memory := w.memory.cover (offset + size) }⟩ := by
    simp only [onMemory, hexpand]
  rw [chargeMemory, if_pos hsize, Action.bind_ok (hread w), Action.bind_ok hgrows,
    Action.bind_ok (hread _), Memory.words_cover]

/-- A charge covers the end of its region. -/
theorem charge_memory_covered {offset size : Nat} {x : Activation} (hsize : size ≠ 0)
    (hallows : x.Allows (offset + size)) (hpay : x.CanPay (offset + size)) :
    chargeMemory offset size x = .ok () (x.cover (offset + size)) := by
  obtain ⟨w, hw, hallows⟩ := hallows
  obtain ⟨f, _⟩ := x
  cases hw
  have hcost : Gas.memoryGrowth? w.memory.words (max w.memory.words (wordsFor (offset + size))) =
      some (Activation.growth (offset + size) ⟨f, some w⟩) :=
    Gas.memory_growth_iff.2 ⟨hpay.priced, rfl⟩
  rw [charge_memory_allowed hsize hallows, hcost, Activation.cover_of_ne (by omega)]
  exact consume_gas_eq hpay.running hpay.affordable _

/-- A charge that was made was allowed. -/
theorem charge_memory_allows {offset size : Nat} {x y : Activation} (hsize : size ≠ 0)
    (h : chargeMemory offset size x = .ok () y) : x.Allows (offset + size) := by
  rw [chargeMemory, if_pos hsize] at h
  obtain ⟨_, _, hread, h⟩ := Action.bind_eq_ok h
  obtain ⟨f, space⟩ := x
  cases space with
  | none => cases hread
  | some w =>
      cases hread
      obtain ⟨added, _, hexpand, -⟩ := Action.bind_eq_ok h
      cases hgrown : Memory.expand offset size w.memory with
      | error e m => simp [onMemory, hgrown] at hexpand
      | ok added m => exact ⟨w, rfl, Memory.allows_of_expand hsize hgrown⟩

/-- A charge that was made could be paid for. -/
theorem charge_memory_can_pay {offset size : Nat} {x y : Activation} (hsize : size ≠ 0)
    (h : chargeMemory offset size x = .ok () y) : x.CanPay (offset + size) := by
  obtain ⟨w, hw, hallows⟩ := charge_memory_allows hsize h
  obtain ⟨f, _⟩ := x
  cases hw
  rw [charge_memory_allowed hsize hallows] at h
  obtain ⟨cost, x', hcost, h⟩ := Action.bind_eq_ok h
  cases hgrowth : Gas.memoryGrowth? w.memory.words
      (max w.memory.words (wordsFor (offset + size))) with
  | none =>
      rw [hgrowth] at hcost
      cases hcost
  | some _ =>
      rw [hgrowth] at hcost
      cases hcost
      obtain ⟨hpriced, rfl⟩ := Gas.memory_growth_iff.1 hgrowth
      obtain ⟨hrunning, hle⟩ := consume_gas_can h
      exact ⟨hrunning, hpriced, hle⟩

end Exec

/-! ## Charging for region after region -/

namespace Region

/-- How far a region reaches. An empty one is nowhere. -/
def reach (r : Region) : Nat :=
  if r.size = 0 then 0 else r.offset + r.size

/-- The farthest end of several regions. -/
def farthest (regions : List Region) : Nat :=
  regions.foldr (fun r far => max r.reach far) 0

theorem farthest_cons (r : Region) (regions : List Region) :
    farthest (r :: regions) = max r.reach (farthest regions) :=
  rfl

/-- A region cut into adjacent parts. -/
inductive Cut : Region → List Region → Prop
  /-- Nothing is left. -/
  | done (offset : Nat) : Cut ⟨offset, 0⟩ []
  /-- The first part, and what follows it. -/
  | part {offset size rest : Nat} {parts : List Region} (h : Cut ⟨offset + size, rest⟩ parts) :
      Cut ⟨offset, size + rest⟩ (⟨offset, size⟩ :: parts)

/-- The parts of a region reach as far as the region. -/
theorem Cut.farthest_eq {r : Region} {parts : List Region} (h : r.Cut parts) :
    farthest parts = r.reach := by
  induction h with
  | done offset => rfl
  | @part offset size rest parts h ih =>
      show max (reach ⟨offset, size⟩) (farthest parts) = _
      rw [ih]
      simp only [reach]
      grind

/-- Several lists of regions reach as far as the one that reaches farthest. -/
theorem farthest_append (regions regions' : List Region) :
    farthest (regions ++ regions') = max (farthest regions) (farthest regions') := by
  induction regions with
  | nil => exact (Nat.max_eq_right (Nat.zero_le _)).symm
  | cons r regions ih =>
      show max r.reach (farthest (regions ++ regions')) = max (max r.reach (farthest regions)) _
      rw [ih, Nat.max_assoc]

/-- The farthest end does not depend on the order. -/
theorem farthest_perm {regions regions' : List Region} (h : regions.Perm regions') :
    farthest regions = farthest regions' :=
  h.foldr_eq' (fun r _ r' _ far => Nat.max_left_comm r'.reach r.reach far) 0

/-- The same regions, each cut into adjacent parts, in another order. -/
def Rearranged (regions regions' : List Region) : Prop :=
  ∃ cuts, List.Forall₂ Cut regions cuts ∧ regions'.Perm cuts.flatten

/-- Rearranged regions reach as far. -/
theorem Rearranged.farthest_eq {regions regions' : List Region} (h : Rearranged regions regions') :
    farthest regions' = farthest regions := by
  obtain ⟨cuts, hcuts, hperm⟩ := h
  rw [farthest_perm hperm]
  clear hperm
  induction hcuts with
  | nil => rfl
  | @cons r parts regions cuts hcut _ ih =>
      rw [List.flatten_cons, farthest_append, hcut.farthest_eq, ih]
      rfl

/-- A bound for every region bounds the farthest end. -/
theorem farthest_le {regions : List Region} {bound : Nat} (h : ∀ r ∈ regions, r.reach ≤ bound) :
    farthest regions ≤ bound := by
  induction regions with
  | nil => exact Nat.zero_le _
  | cons r regions ih =>
      exact Nat.max_le.2 ⟨h r List.mem_cons_self, ih fun r' hr' => h r' (List.mem_cons_of_mem _ hr')⟩

/-- The words up to the farthest end are those of the region that needs most. -/
theorem words_farthest (initial : Nat) (regions : List Region) :
    max initial (wordsFor (farthest regions)) =
      (regions.filter (·.size ≠ 0)).foldr (fun r n => max (wordsFor (r.offset + r.size)) n)
        initial := by
  induction regions with
  | nil => exact Nat.max_eq_left (Nat.zero_le _)
  | cons r regions ih =>
      have hwords : wordsFor (farthest (r :: regions)) =
          max (wordsFor r.reach) (wordsFor (farthest regions)) := by
        show wordsFor (max r.reach (farthest regions)) = _
        unfold wordsFor
        omega
      rw [hwords, List.filter_cons]
      by_cases hempty : r.size = 0
      · have hzero : wordsFor r.reach = 0 := by
          rw [reach, if_pos hempty]
          rfl
        rw [if_neg (by simpa using hempty), ← ih, hzero, Nat.max_eq_right (Nat.zero_le _)]
      · have hreach : r.reach = r.offset + r.size := if_neg hempty
        rw [if_pos (by simpa using hempty), List.foldr_cons, ← ih, hreach]
        omega

end Region

namespace Exec

/-- Charges for several regions, one after the other. -/
def chargeAll : List Region → Exec Unit
  | [] => pure ()
  | r :: regions => do
    chargeMemory r.offset r.size
    chargeAll regions

/-- A charge is accepted if the end of its region is allowed and can be paid for. It is covered
then. -/
theorem charge_memory_ok_iff {r : Region} {x y : Activation} :
    chargeMemory r.offset r.size x = .ok () y ↔
      (r.reach ≠ 0 → x.Allows r.reach ∧ x.CanPay r.reach) ∧ y = x.cover r.reach := by
  by_cases hempty : r.size = 0
  · have hreach : r.reach = 0 := if_pos hempty
    have hfree : chargeMemory r.offset r.size x = .ok () x := by
      rw [hempty]
      rfl
    rw [hfree, hreach]
    constructor
    · rintro ⟨⟩
      exact ⟨fun h => absurd rfl h, rfl⟩
    · rintro ⟨-, rfl⟩
      rfl
  · have hreach : r.reach = r.offset + r.size := if_neg hempty
    rw [hreach]
    constructor
    · intro h
      have hallows := charge_memory_allows hempty h
      have hpay := charge_memory_can_pay hempty h
      cases h.symm.trans (charge_memory_covered hempty hallows hpay)
      exact ⟨fun _ => ⟨hallows, hpay⟩, rfl⟩
    · rintro ⟨hcan, rfl⟩
      obtain ⟨hallows, hpay⟩ := hcan (by omega)
      exact charge_memory_covered hempty hallows hpay

section

variable {r : Region} {regions : List Region} {x y : Activation}

/-- What is charged for first, and what is charged for from there. -/
theorem charge_all_cons (h : chargeAll (r :: regions) x = .ok () y) :
    (r.reach ≠ 0 → x.Allows r.reach ∧ x.CanPay r.reach) ∧
      chargeAll regions (x.cover r.reach) = .ok () y := by
  obtain ⟨_, x₁, hfirst, hrest⟩ := Action.bind_eq_ok h
  obtain ⟨hcan, rfl⟩ := charge_memory_ok_iff.1 hfirst
  exact ⟨hcan, hrest⟩

/-- Charging for several regions covers the farthest end. -/
theorem charge_all_covers (h : chargeAll regions x = .ok () y) :
    y = x.cover (Region.farthest regions) := by
  induction regions generalizing x with
  | nil =>
      cases h
      rfl
  | cons r regions ih =>
      obtain ⟨hcan, hrest⟩ := charge_all_cons h
      rw [ih hrest, Region.farthest_cons]
      -- An empty region is charged for without a memory, which adding up costs needs.
      by_cases hzero : r.reach = 0
      · rw [hzero, Nat.max_eq_right (Nat.zero_le _)]
        rfl
      · obtain ⟨⟨w, hw, -⟩, -⟩ := hcan hzero
        exact Activation.cover_cover hw _ _

/-- Who has charged for several regions could pay for the farthest end. -/
theorem charge_all_can_pay (h : chargeAll regions x = .ok () y)
    (hfar : Region.farthest regions ≠ 0) : x.CanPay (Region.farthest regions) := by
  induction regions generalizing x with
  | nil => exact absurd rfl hfar
  | cons r regions ih =>
      obtain ⟨hcan, hrest⟩ := charge_all_cons h
      rw [Region.farthest_cons] at hfar ⊢
      by_cases hzero : r.reach = 0
      · rw [hzero, Nat.max_eq_right (Nat.zero_le _)] at hfar ⊢
        rw [hzero] at hrest
        exact ih hrest hfar
      obtain ⟨⟨w, hw, -⟩, hpay⟩ := hcan hzero
      by_cases hrestZero : Region.farthest regions = 0
      · rwa [hrestZero, Nat.max_eq_left (Nat.zero_le _)]
      · exact hpay.max hw (ih hrest hrestZero)

/-- Whoever has charged for several regions has a memory that covers them. -/
theorem charge_all_allows (h : chargeAll regions x = .ok () y)
    (hfar : Region.farthest regions ≠ 0) : y.Allows (Region.farthest regions) := by
  induction regions generalizing x with
  | nil => exact absurd rfl hfar
  | cons r regions ih =>
      obtain ⟨hcan, hrest⟩ := charge_all_cons h
      rw [Region.farthest_cons] at hfar ⊢
      by_cases hle : r.reach ≤ Region.farthest regions
      · rw [Nat.max_eq_right hle] at hfar ⊢
        exact ih hrest hfar
      · rw [Nat.max_eq_left (by omega)]
        rw [charge_all_covers hrest]
        exact (hcan (by omega)).1.cover.cover

/-- Whoever has charged for a region has a memory. -/
theorem charge_all_space (h : chargeAll regions x = .ok () y)
    (hfar : Region.farthest regions ≠ 0) : ∃ w, x.space = some w := by
  obtain ⟨w', hw', -⟩ := charge_all_allows h hfar
  rw [charge_all_covers h, Activation.cover_of_ne hfar] at hw'
  obtain ⟨w, hw, -⟩ := Option.map_eq_some_iff.1 hw'
  exact ⟨w, hw⟩

/-- Regions that were charged for are allowed at once, if none of them ends beyond both the length of
the memory and its limit. -/
theorem charge_all_allowed (h : chargeAll regions x = .ok () y)
    (hfar : Region.farthest regions ≠ 0)
    (hinside : ∀ w, x.space = some w →
      Region.farthest regions ≤ max w.memory.size w.memory.limit) :
    x.Allows (Region.farthest regions) := by
  induction regions generalizing x with
  | nil => exact absurd rfl hfar
  | cons r regions ih =>
      obtain ⟨hcan, hrest⟩ := charge_all_cons h
      rw [Region.farthest_cons] at hfar hinside ⊢
      by_cases hzero : r.reach = 0
      · rw [hzero, Nat.max_eq_right (Nat.zero_le _)] at hfar hinside ⊢
        rw [hzero] at hrest
        exact ih hrest hfar hinside
      obtain ⟨⟨w, hw, hallows⟩, -⟩ := hcan hzero
      by_cases hrestZero : Region.farthest regions = 0
      · rw [hrestZero, Nat.max_eq_left (Nat.zero_le _)]
        exact ⟨w, hw, hallows⟩
      have hcovered : (x.cover r.reach).space =
          some { w with memory := w.memory.cover r.reach } := by
        rw [Activation.cover_of_ne hzero, hw, Option.map_some]
      have hinside := hinside w hw
      -- The rest is charged for in the memory that covers the first region, with the same limit.
      obtain ⟨w', hw', hallows'⟩ := ih hrest hrestZero fun w' hw' => by
        cases hcovered.symm.trans hw'
        have hsize := Memory.max_le_size_cover r.reach w.memory
        have hlimit := Memory.limit_cover r.reach w.memory
        show Region.farthest regions ≤
          max (w.memory.cover r.reach).size (w.memory.cover r.reach).limit
        omega
      cases hcovered.symm.trans hw'
      exact ⟨w, hw, hallows.max hallows' hinside⟩

/-- Empty regions are charged for by doing nothing. -/
theorem charge_all_of_empty (h : Region.farthest regions = 0) : chargeAll regions x = .ok () x := by
  induction regions with
  | nil => rfl
  | cons r regions ih =>
      rw [Region.farthest_cons] at h
      have hreach : r.reach = 0 := by omega
      have hfree : chargeMemory r.offset r.size x = .ok () x := by
        rw [charge_memory_ok_iff, hreach]
        exact ⟨fun hne => absurd rfl hne, rfl⟩
      exact (Action.bind_ok hfree).trans (ih (by omega))

/-- Who can have a number of bytes covered can be charged for regions that do not reach farther. -/
theorem charge_all_of_allows {far : Nat} (hfar : Region.farthest regions ≤ far)
    (hallows : x.Allows far) (hpay : x.CanPay far) : ∃ y, chargeAll regions x = .ok () y := by
  induction regions generalizing x with
  | nil => exact ⟨x, rfl⟩
  | cons r regions ih =>
      obtain ⟨hreach, hrest⟩ := Nat.max_le.1 hfar
      obtain ⟨w, hw, -⟩ := id hallows
      -- What is left after the first region still pays for covering `far`.
      obtain ⟨hfirst, hthen⟩ := hpay.split hw hreach
      have hcharge := charge_memory_ok_iff.2 ⟨fun _ => ⟨hallows.of_le hreach, hfirst⟩, rfl⟩
      obtain ⟨y, hy⟩ := ih hrest hallows.cover hthen
      exact ⟨y, (Action.bind_ok hcharge).trans hy⟩

/-- What was charged for is covered: charging for it again changes nothing. -/
theorem charge_all_again (h : chargeAll regions x = .ok () y)
    (hreach : r.reach ≤ Region.farthest regions) : chargeMemory r.offset r.size y = .ok () y := by
  have hcovers := charge_all_covers h
  by_cases hzero : r.reach = 0
  · rw [charge_memory_ok_iff, hzero]
    exact ⟨fun hne => absurd rfl hne, rfl⟩
  have hfar : Region.farthest regions ≠ 0 := by omega
  have hallows := charge_all_allows h hfar
  obtain ⟨w, hw⟩ := charge_all_space h hfar
  obtain ⟨-, hpay⟩ := (charge_all_can_pay h hfar).split hw (Nat.le_refl _)
  rw [← hcovers] at hpay
  obtain ⟨w', hw', -⟩ := id hallows
  refine charge_memory_ok_iff.2 ⟨fun _ => ⟨hallows.of_le hreach, (hpay.split hw' hreach).1⟩, ?_⟩
  rw [hcovers, Activation.cover_cover hw, Nat.max_eq_left hreach]

/-- What several charges have cost. -/
theorem charge_all_cost (h : chargeAll regions x = .ok () y) :
    y.words = max x.words (wordsFor (Region.farthest regions)) ∧
      x.frame.gas.remaining =
        y.frame.gas.remaining + (memoryCost y.words - memoryCost x.words) ∧
      (x.frame.gas.used ≤ maxAmount →
        y.frame.gas.used =
          satAdd x.frame.gas.used (memoryCost y.words - memoryCost x.words)) := by
  have hcovers := charge_all_covers h
  by_cases hfar : Region.farthest regions = 0
  · rw [hfar] at hcovers ⊢
    obtain rfl : y = x := hcovers
    rw [Nat.sub_self, Nat.add_zero]
    refine ⟨(Nat.max_eq_left (Nat.zero_le _)).symm, rfl, fun hused => ?_⟩
    exact (Nat.min_eq_left hused).symm
  · obtain ⟨w, hw⟩ := charge_all_space h hfar
    have hpay := charge_all_can_pay h hfar
    have hwords := hcovers ▸ Activation.words_cover hw (Region.farthest regions)
    have hremaining := hcovers ▸ Activation.remaining_cover hfar x
    have haffordable := hpay.affordable
    refine ⟨hwords, ?_, fun _ => ?_⟩
    · rw [hwords]
      show _ = _ + x.growth (Region.farthest regions)
      omega
    · rw [hwords, hcovers, Activation.cover_of_ne hfar]
      rfl

/-- Growth by several charges has exact costs at both ends. -/
theorem charge_all_priced (h : chargeAll regions x = .ok () y) (hgrows : x.words < y.words) :
    Gas.memory? x.words = some (memoryCost x.words) ∧
      Gas.memory? y.words = some (memoryCost y.words) := by
  obtain ⟨hwords, -⟩ := charge_all_cost h
  have hfar : Region.farthest regions ≠ 0 := fun hzero => by
    rw [hzero] at hwords
    unfold wordsFor at hwords
    omega
  have hneeded : y.words = wordsFor (Region.farthest regions) := by omega
  obtain ⟨cost, hcost⟩ := (charge_all_can_pay h hfar).priced (by omega)
  rw [← hneeded] at hcost
  exact ⟨Gas.memory_of_le (Nat.le_of_lt hgrows) hcost, Gas.memory_of_le (Nat.le_refl _) hcost⟩

/-- Rearranged regions are charged for with the same result, if they are accepted. -/
theorem charge_all_rearranged {regions' : List Region} {y' : Activation}
    (h : chargeAll regions x = .ok () y) (hregions : Region.Rearranged regions regions')
    (h' : chargeAll regions' x = .ok () y') : y' = y := by
  rw [charge_all_covers h', charge_all_covers h, hregions.farthest_eq]

/-- They are accepted, if no region ends beyond both the length of the memory and its limit. -/
theorem charge_all_rearranged_ok {regions' : List Region} (h : chargeAll regions x = .ok () y)
    (hregions : Region.Rearranged regions regions')
    (hinside : ∀ w, x.space = some w → ∀ r ∈ regions,
      r.reach ≤ max w.memory.size w.memory.limit) : chargeAll regions' x = .ok () y := by
  have hsame := hregions.farthest_eq
  have haccepted : ∃ y', chargeAll regions' x = .ok () y' := by
    by_cases hfar : Region.farthest regions = 0
    · exact ⟨x, charge_all_of_empty (hsame.trans hfar)⟩
    · have hallows := charge_all_allowed h hfar fun w hw => Region.farthest_le (hinside w hw)
      exact charge_all_of_allows (Nat.le_of_eq hsame) hallows (charge_all_can_pay h hfar)
  obtain ⟨y', hy'⟩ := haccepted
  rw [hy', charge_all_rearranged h hregions hy']

/-- What charging for one region after another costs depends only on where it starts and how far it
gets. The memory ends with the words that the region in need of most takes, and the debit is the
difference of the costs. So the same regions in another order, or cut into adjacent parts, lead to the
same activation; and where no region ends beyond both the length of the memory and its limit they are
accepted too. What is inside the words that are there is free, and charging again for anything up to
the farthest end changes nothing. -/
theorem charging_path_independent (hall : chargeAll regions x = .ok () y) :
    (y.words = (regions.filter (·.size ≠ 0)).foldr
        (fun r n => max (wordsFor (r.offset + r.size)) n) x.words ∧
      memoryCost x.words ≤ memoryCost y.words ∧
      x.frame.gas.remaining =
        y.frame.gas.remaining + (memoryCost y.words - memoryCost x.words) ∧
      (x.frame.gas.used ≤ maxAmount → y.frame.gas.used =
        satAdd x.frame.gas.used (memoryCost y.words - memoryCost x.words))) ∧
    ((x.words < y.words → Gas.memory? x.words = some (memoryCost x.words) ∧
        Gas.memory? y.words = some (memoryCost y.words)) ∧
      (∀ before after, Gas.memory? x.words = some before → Gas.memory? y.words = some after →
        before ≤ after ∧
          x.frame.gas.remaining = y.frame.gas.remaining + (after - before))) ∧
    (∀ regions', Region.Rearranged regions regions' →
      (∀ y', chargeAll regions' x = .ok () y' → y' = y) ∧
      ((∀ w, x.space = some w → ∀ r ∈ regions, r.reach ≤ max w.memory.size w.memory.limit) →
        chargeAll regions' x = .ok () y)) ∧
    (∀ (r : Region) (z : Activation), wordsFor r.reach ≤ y.words →
      chargeMemory r.offset r.size y = .ok () z →
      z.words = y.words ∧ z.frame.gas.remaining = y.frame.gas.remaining) ∧
    (∀ r : Region, r.reach ≤ Region.farthest regions →
      chargeMemory r.offset r.size y = .ok () y) := by
  obtain ⟨hwords, hremaining, hused⟩ := charge_all_cost hall
  have hmono : memoryCost x.words ≤ memoryCost y.words := Gas.memory_cost_mono (by omega)
  refine ⟨⟨hwords.trans (Region.words_farthest _ _), hmono, hremaining, hused⟩,
    ⟨charge_all_priced hall, ?_⟩, fun regions' hregions => ⟨?_, ?_⟩, ?_, ?_⟩
  · intro before after hbefore hafter
    obtain ⟨-, rfl⟩ := Gas.memory_eq_some_iff.1 hbefore
    obtain ⟨-, rfl⟩ := Gas.memory_eq_some_iff.1 hafter
    exact ⟨hmono, hremaining⟩
  · exact fun y' hy' => charge_all_rearranged hall hregions hy'
  · exact charge_all_rearranged_ok hall hregions
  · intro r z hinside hz
    have hone : chargeAll [r] y = .ok () z := (Action.bind_ok hz).trans rfl
    obtain ⟨hwords', hremaining', -⟩ := charge_all_cost hone
    have hreach : Region.farthest [r] = r.reach := Nat.max_eq_left (Nat.zero_le _)
    rw [hreach, Nat.max_eq_left hinside] at hwords'
    rw [hwords', Nat.sub_self, Nat.add_zero] at hremaining'
    exact ⟨hwords', hremaining'.symm⟩
  · exact fun r hreach => charge_all_again hall hreach

/-- Three regions, one of them empty and one inside what is there already, cost a memory of three words.
In another order and with one of them cut in two they cost the same. -/
theorem charging_three_regions :
    ∃ x y : Activation, chargeAll [⟨40, 50⟩, ⟨7, 0⟩, ⟨0, 32⟩] x = .ok () y ∧
      y.words = 3 ∧ x.frame.gas.remaining = 100 ∧ y.frame.gas.remaining = 91 ∧
      chargeAll [⟨0, 16⟩, ⟨16, 16⟩, ⟨40, 50⟩] x = .ok () y ∧
      chargeMemory 33 57 y = .ok () y := by
  let x : Activation := ⟨Frame.new ByteArray.empty 100 default (.owned 0), some {}⟩
  have hall : chargeAll [⟨40, 50⟩, ⟨7, 0⟩, ⟨0, 32⟩] x = .ok () (x.cover 90) := rfl
  have hwhole : Region.Cut ⟨40, 50 + 0⟩ [⟨40, 50⟩] := .part (.done 90)
  have hhalves : Region.Cut ⟨0, 16 + (16 + 0)⟩ [⟨0, 16⟩, ⟨16, 16⟩] := .part (.part (.done 32))
  have hregions : Region.Rearranged [⟨40, 50⟩, ⟨7, 0⟩, ⟨0, 32⟩]
      [⟨0, 16⟩, ⟨16, 16⟩, ⟨40, 50⟩] :=
    ⟨[[⟨40, 50⟩], [], [⟨0, 16⟩, ⟨16, 16⟩]],
      .cons hwhole (.cons (.done 7) (.cons hhalves .nil)), by decide⟩
  obtain ⟨⟨hwords, -, hremaining, -⟩, -, hsame, -, hagain⟩ := charging_path_independent hall
  have hthree : (x.cover 90).words = 3 := hwords
  rw [hthree] at hremaining
  have hinitial : x.frame.gas.remaining = 100 ∧ memoryCost 3 - memoryCost x.words = 9 := by decide
  refine ⟨x, x.cover 90, hall, hthree, hinitial.1, by omega, (hsame _ hregions).2 ?_,
    hagain ⟨33, 57⟩ (by decide)⟩
  rintro w ⟨⟩
  decide

end

end Exec
end CallTree
