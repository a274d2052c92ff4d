import CallTree.Amount
import CallTree.Opcode

/-!
# The gas schedule

What each instruction costs. The static part is charged before an instruction runs, the dynamic
parts while it does. A dynamic cost that would leave the 64-bit range is `none`.
-/

namespace CallTree.Gas

/-- Reading a value that the frame already holds. -/
def base : Nat := 2
/-- Simple arithmetic and stack shuffling. -/
def veryLow : Nat := 3
/-- A multiplication. -/
def low : Nat := 5
/-- A jump. -/
def mid : Nat := 8
/-- A conditional jump. -/
def high : Nat := 10
/-- Passing a jump destination. -/
def jumpDest : Nat := 1
/-- The price of a transaction as such. Executing one does not charge it. -/
def transactionBase : Nat := 21000
/-- Copying one word of memory. -/
def copyWord : Nat := 3
/-- Reading a storage slot. -/
def storageLoad : Nat := 800
/-- Giving a value to a slot that was zero. -/
def storageSet : Nat := 20000
/-- Any other write to a slot. -/
def storageReset : Nat := 2900
/-- What clearing a slot is worth at the end of the transaction. -/
def storageClearRefund : Nat := 4800
/-- Calling another contract. -/
def call : Nat := 100
/-- The surcharge of a call that carries value. -/
def callValue : Nat := 9000
/-- What the callee of such a call gets on top. -/
def callStipend : Nat := 2300
/-- An internal call. -/
def callInternal : Nat := 5
/-- The return from an internal call. -/
def returnInternal : Nat := 3
/-- A creation. -/
def create : Nat := 32000
/-- One word of init code. -/
def initCodeWord : Nat := 2
/-- One byte of deployed code. -/
def codeDepositByte : Nat := 200
/-- A log entry. -/
def log : Nat := 375
/-- One topic of a log entry. -/
def logTopic : Nat := 375
/-- One byte of a log entry. -/
def logByte : Nat := 8

/-- The gas charged before an instruction runs. Writing a slot is charged by what it changes. -/
def static : Opcode → Nat
  | .stop | .ret | .revert | .invalid | .undefined | .sstore => 0
  | .add | .sub | .lt | .gt | .eq | .isZero => veryLow
  | .mul => low
  | .caller | .callValue | .callDataSize | .returnDataSize | .pop | .pc | .msize | .gas => base
  | .callDataLoad | .returnDataCopy | .mload | .mstore | .mstore8 => veryLow
  | .sload => storageLoad
  | .jump => mid
  | .jumpIf => high
  | .jumpDest => jumpDest
  | .push 0 => base
  | .push _ | .dup _ | .swap _ => veryLow
  | .log _ => log
  | .callInternal => callInternal
  | .returnInternal => returnInternal
  | .create => create
  | .call | .staticCall => call

/-- The cost of the topics and the data of a log entry. -/
def logData? (size topics : Nat) : Option Nat := do
  let forTopics ← fit? (logTopic * topics)
  let forData ← fit? (logByte * size)
  fit? (forTopics + forData)

/-- The cost of copying `size` bytes, by the word. -/
def copy (size : Nat) : Nat :=
  copyWord * wordsFor size

/-- The cost of `size` bytes of init code, by the word. -/
def initCode (size : Nat) : Nat :=
  initCodeWord * wordsFor size

/-- The cost of deploying `size` bytes of code. -/
def codeDeposit? (size : Nat) : Option Nat :=
  fit? (codeDepositByte * size)

/-- The cost of a write, by whether the slot was zero and whether it becomes zero. -/
def storageStore (wasZero isZero : Bool) : Nat :=
  if wasZero && !isZero then storageSet else storageReset

/-- The gas handed to a child: what is requested, but at most all except one part in 64. -/
def forwarded (available requested : Nat) : Nat :=
  min requested (available - available / 64)

/-- The part of the clear refunds that is paid out: at most one part in `quotient` of the gas
used, where a quotient of zero counts as one. -/
def refundPaid (used refund quotient : Nat) : Nat :=
  min refund (used / max quotient 1)

/-- The cost of a memory of `words` words: linear at first, quadratic in the end. -/
def memory? (words : Nat) : Option Nat := do
  let square ← fit? (words * words)
  let linear ← fit? (3 * words)
  fit? (square / 512 + linear)

/-- The cost of growing a memory from `old` to `new` words. -/
def memoryGrowth? (old new : Nat) : Option Nat :=
  if new ≤ old then
    some 0
  else do
    let after ← memory? new
    let before ← memory? old
    sub? after before

end CallTree.Gas
