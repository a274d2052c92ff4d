import CallTree.Fault

/-!
# The gas meter

Each frame has one meter. A debit larger than what remains is refused and changes nothing;
credits saturate. The refunds for cleared slots are counted apart, since they are paid once, at
the end of the transaction.
-/

namespace CallTree

/-- The gas of one frame. -/
structure GasMeter where
  /-- What the frame may still spend. -/
  remaining : Nat := 0
  /-- What it has spent. -/
  used : Nat := 0
  /-- What it has earned by clearing slots. -/
  refunds : Nat := 0
deriving DecidableEq, Repr, Inhabited

namespace GasMeter

/-- A meter with `limit` gas to spend. -/
def new (limit : Nat) : GasMeter :=
  { remaining := limit }

/-- Debits `amount`, or refuses and changes nothing. -/
@[inline]
def consume (amount : Nat) : Action GasMeter Unit := fun m =>
  if m.remaining < amount then
    .error (.fault .outOfGas) m
  else
    .ok () { m with remaining := m.remaining - amount, used := satAdd m.used amount }

/-- Credits `amount` back. -/
def refund (amount : Nat) (m : GasMeter) : GasMeter :=
  { m with remaining := satAdd m.remaining amount, used := m.used - amount }

/-- Counts a refund that is paid at the end of the transaction. -/
def addRefund (amount : Nat) (m : GasMeter) : GasMeter :=
  { m with refunds := satAdd m.refunds amount }

/-- Spends all that remains. -/
def burn (m : GasMeter) : GasMeter :=
  { m with remaining := 0, used := satAdd m.used m.remaining }

end GasMeter
end CallTree
