import CallTree.Gas.Meter
import CallTree.Proofs.Effects

/-!
# A gas meter under any use

A meter does not check its credits against its debits. Given back more than was ever spent, it holds more
than its limit, and what is used stops at zero. So a meter that is used from outside does not add up to
its limit. What it keeps is a bound: what remains and what is used make one amount together
(`GasMeter.InRange`). A debit moves gas from the one to the other, which is why it never saturates
and why the same credit undoes it (`GasMeter.run_exact`).
-/

namespace CallTree

/-- One operation on a meter from outside. -/
inductive MeterOperation
  | consume (amount : Nat)
  | refund (amount : Nat)
  | addRefund (amount : Nat)

namespace GasMeter

/-- The meter after an operation, whether that was refused or not. -/
def perform (m : GasMeter) : MeterOperation → GasMeter
  | .consume amount => Action.after (consume amount) m
  | .refund amount => m.refund amount
  | .addRefund amount => m.addRefund amount

/-- The meter after several operations. -/
def run (ops : List MeterOperation) (m : GasMeter) : GasMeter :=
  ops.foldl perform m

/-- What remains and what is used are one amount together, and what is earned is one of its own. -/
structure InRange (m : GasMeter) : Prop where
  total : m.remaining + m.used ≤ maxAmount
  refunds : m.refunds ≤ maxAmount

variable {m : GasMeter} {amount : Nat}

/-- A debit of more than remains is refused and changes nothing. -/
theorem consume_poor (h : m.remaining < amount) :
    consume amount m = .error (.fault .outOfGas) m :=
  if_pos h

/-- A debit of what there is moves exactly that much. -/
theorem InRange.consume_eq (hm : m.InRange) (h : amount ≤ m.remaining) :
    consume amount m = .ok ()
      { m with remaining := m.remaining - amount, used := m.used + amount } := by
  have hused : satAdd m.used amount = m.used + amount := by
    have htotal := hm.total
    exact satAdd_eq_add (by omega)
  rw [consume, if_neg (Nat.not_lt.2 h), hused]

/-- The same credit undoes a debit. -/
theorem InRange.refund_debit (hm : m.InRange) (h : amount ≤ m.remaining) :
    refund amount { m with remaining := m.remaining - amount, used := m.used + amount } = m := by
  have hsum : m.remaining - amount + amount = m.remaining := Nat.sub_add_cancel h
  have hback : satAdd (m.remaining - amount) amount = m.remaining := by
    have htotal := hm.total
    rw [satAdd_eq_add (by omega), hsum]
  rw [refund, hback, Nat.add_sub_cancel]

/-- The counter of refunds stops at the largest amount, so counting never lowers it. -/
theorem InRange.le_add_refund (hm : m.InRange) (amount : Nat) :
    m.refunds ≤ (m.addRefund amount).refunds :=
  Nat.le_min.2 ⟨Nat.le_add_right _ _, hm.refunds⟩

/-- A new meter is in range. -/
theorem in_range_new {limit : Nat} (h : limit ≤ maxAmount) : (new limit).InRange :=
  ⟨h, Nat.zero_le _⟩

/-- Every operation keeps a meter in range. -/
theorem InRange.perform (hm : m.InRange) (op : MeterOperation) : (m.perform op).InRange := by
  have htotal := hm.total
  cases op with
  | consume amount =>
      by_cases h : amount ≤ m.remaining
      · rw [GasMeter.perform, Action.after_ok (hm.consume_eq h)]
        refine ⟨?_, hm.refunds⟩
        show m.remaining - amount + (m.used + amount) ≤ maxAmount
        omega
      · rw [GasMeter.perform, Action.after_error (consume_poor (Nat.lt_of_not_le h))]
        exact hm
  | refund amount =>
      refine ⟨?_, hm.refunds⟩
      show satAdd m.remaining amount + (m.used - amount) ≤ maxAmount
      -- Where the credit exceeds what is used, nothing is left of that.
      by_cases hused : amount ≤ m.used
      · rw [satAdd_eq_add (by omega)]
        omega
      · rw [Nat.sub_eq_zero_of_le (Nat.le_of_not_le hused)]
        exact satAdd_le m.remaining amount
  | addRefund amount => exact ⟨htotal, satAdd_le _ _⟩

/-- No operation lowers the counter of refunds. -/
theorem InRange.refunds_perform (hm : m.InRange) (op : MeterOperation) :
    m.refunds ≤ (m.perform op).refunds := by
  cases op with
  | consume amount =>
      by_cases h : amount ≤ m.remaining
      · have hdebited := Action.after_ok (hm.consume_eq h)
        exact Nat.le_of_eq (congrArg (·.refunds) hdebited.symm)
      · have hrefused := Action.after_error (consume_poor (Nat.lt_of_not_le h))
        exact Nat.le_of_eq (congrArg (·.refunds) hrefused.symm)
  | refund amount => exact Nat.le_refl _
  | addRefund amount => exact hm.le_add_refund amount

/-- Operations keep a meter in range and never lower the counter of refunds. -/
theorem InRange.run (hm : m.InRange) (ops : List MeterOperation) :
    (m.run ops).InRange ∧ m.refunds ≤ (m.run ops).refunds := by
  induction ops generalizing m with
  | nil => exact ⟨hm, Nat.le_refl _⟩
  | cons op ops ih =>
      obtain ⟨hrange, hrefunds⟩ := ih (hm.perform op)
      exact ⟨hrange, Nat.le_trans (hm.refunds_perform op) hrefunds⟩

/-- A meter is exact after any operations, with any amounts, and however much more was given back than was
spent. What remains and what is used are one amount together. A debit is refused exactly if it exceeds what
remains, and then changes nothing; any other debit moves exactly its amount, and the same credit gives
the meter back as it was. Counting a refund changes the counter only, which no operation ever lowers. -/
theorem run_exact {limit : Nat} (hlimit : limit ≤ maxAmount) (ops : List MeterOperation) :
    let m := (new limit).run ops
    m.remaining + m.used ≤ maxAmount ∧
    (∀ amount, m.remaining < amount → consume amount m = .error (.fault .outOfGas) m) ∧
    (∀ amount, amount ≤ m.remaining → ∃ debited, consume amount m = .ok () debited ∧
      debited.remaining = m.remaining - amount ∧ debited.used = m.used + amount ∧
      debited.refunds = m.refunds ∧ debited.refund amount = m) ∧
    (∀ amount, m.addRefund amount = { m with refunds := (m.addRefund amount).refunds } ∧
      m.refunds ≤ (m.addRefund amount).refunds) ∧
    ∀ later, m.refunds ≤ (m.run later).refunds := by
  intro m
  have hm : m.InRange := ((in_range_new hlimit).run ops).1
  refine ⟨hm.total, fun amount => consume_poor, fun amount h => ?_, fun amount => ?_, fun later => ?_⟩
  · exact ⟨_, hm.consume_eq h, rfl, rfl, rfl, hm.refund_debit h⟩
  · exact ⟨rfl, hm.le_add_refund amount⟩
  · exact (hm.run later).2

/-- A meter that was given back far more than it had spent is full, and spends all of it. -/
theorem run_exact_refunded :
    let m := (new 1000).run [.consume 600, .refund maxAmount, .consume 2000, .addRefund 4800,
      .addRefund maxAmount]
    m = ⟨maxAmount - 2000, 2000, maxAmount⟩ ∧
      consume maxAmount m = .error (.fault .outOfGas) m ∧
      ∃ debited, consume (maxAmount - 2000) m = .ok () debited ∧ debited.remaining = 0 ∧
        debited.used = maxAmount ∧ debited.refund (maxAmount - 2000) = m := by
  intro m
  have hm : m = ⟨maxAmount - 2000, 2000, maxAmount⟩ := by decide +kernel
  obtain ⟨-, hpoor, hdebit, -⟩ := run_exact (by decide : 1000 ≤ maxAmount)
    [.consume 600, .refund maxAmount, .consume 2000, .addRefund 4800, .addRefund maxAmount]
  have hremaining : m.remaining = maxAmount - 2000 := congrArg (·.remaining) hm
  have hused : m.used = 2000 := congrArg (·.used) hm
  have hlt : m.remaining < maxAmount := by
    rw [hremaining]
    decide
  obtain ⟨debited, hconsume, hleft, htotal, -, hback⟩ := hdebit _ (Nat.le_of_eq hremaining.symm)
  refine ⟨hm, hpoor maxAmount hlt, debited, hconsume, ?_, ?_, hback⟩
  · exact hleft.trans (Nat.sub_eq_zero_of_le (Nat.le_of_eq hremaining))
  · rw [htotal, hused]
    decide

end GasMeter
end CallTree
