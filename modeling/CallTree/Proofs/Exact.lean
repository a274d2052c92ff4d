import CallTree.Proofs.Affording
import CallTree.Proofs.MemoryBounds

/-!
# Instructions on unbounded operands

An instruction takes offsets, sizes and jump targets from the stack as 64-bit amounts, and a word that
does not fit becomes the largest amount. This module has a second reading of the instructions which
takes such operands as the numbers they are and computes with numbers of any size: regions end where
they end, costs are what they are, and nothing overflows. Only what is reported, in a fault or in the
regions that a call records, is an amount.

Where memories are limited to `largestMemory` bytes the two readings agree (`Agree`, `SameOn`): a word that
does not fit is refused wherever it would make a difference. The rules for charging, writing and reading are
here; the instructions follow in `CallTree.Proofs.Operands`.
-/

namespace CallTree

namespace Memory

/-- Writes bytes into a memory that covers them. -/
def put (offset : Nat) (part : Bytes) (m : Memory) : Memory :=
  if part.size = 0 then
    m
  else
    ⟨m.limit, m.data.splice offset part,
      m.journal.record ⟨offset, m.data.extract offset (offset + part.size)⟩⟩

end Memory

namespace Exact

open Exec

/-- A number as it is reported. -/
def reported (n : Nat) : Nat :=
  min n maxAmount

/-- The cost of a memory of `words` words. -/
def memoryCost (words : Nat) : Nat :=
  words * words / 512 + 3 * words

/-- Takes a number from the stack. -/
def popNat : Exec Nat := do
  let w ← pop
  return w.toNat

/-- Makes sure that a region is inside the memory and charges for the words this adds. A region that
is empty is nowhere; any other must end within the length or the limit. -/
def chargeMemory (offset size : Nat) : Exec Unit := do
  if size ≠ 0 then
    let m ← onMemory (Action.read id)
    if max m.size m.limit < offset + size then
      Action.refuse (.memoryLimitExceeded (reported (offset + size)) m.limit)
    let _ ← onMemory (Action.ofTotal fun m => ((), m.grown (offset + size)))
    consumeGas (memoryCost (max m.words (wordsFor (offset + size))) - memoryCost m.words)

/-- Writes bytes into the memory, which covers them. -/
def put (offset : Nat) (part : Bytes) : Exec Unit :=
  onMemory (Action.ofTotal fun m => ((), m.put offset part))

/-- Goes on at a jump destination. -/
def jump (dest : Nat) : Exec Unit := do
  let f ← frame
  if dest ∈ jumpDestinations f.program.code then
    update (Frame.setPc dest)
  else
    Action.refuse (.invalidJump (reported dest))

/-- Ends the frame normally with an output. -/
def completeReturn (maxCodeSize : Nat) (data : Bytes) : Exec Unit := do
  let f ← frame
  if f.creation then
    if maxCodeSize < data.size then
      Action.refuse (.codeSizeExceeded data.size maxCodeSize)
    consumeGas (Gas.codeDepositByte * data.size)
  update (Frame.setOutput data)
  update Frame.stop

/-- Copies return data of the last child into memory. -/
def returnDataCopy : Exec Unit := do
  let dest ← popNat
  let offset ← popNat
  let size ← popNat
  let data := (← frame).lastReturn
  if data.size < offset + size then
    Action.refuse (.returnDataOutOfBounds (reported offset) (reported size) data.size)
  chargeMemory dest size
  consumeGas (Gas.copy size)
  put dest (data.extract offset (offset + size))

/-- Emits an entry with the data of a memory region. -/
def log (topics : Nat) : Exec Unit := do
  let offset ← popNat
  let size ← popNat
  let words ← popMany topics
  chargeMemory offset size
  consumeGas (Gas.logTopic * topics + Gas.logByte * size)
  let data ← readMemory offset size
  update fun f => f.addLog ⟨f.call.contract, words, data⟩

/-- Takes a region from the stack and reads it. -/
def popRegion : Exec Bytes := do
  let offset ← popNat
  let size ← popNat
  chargeMemory offset size
  readMemory offset size

/-- Reverts with the data of a memory region. -/
def revert : Exec Unit := do
  let data ← popRegion
  let reason := (RevertReason.decode data).getD RevertReason.default
  update fun f => ((f.setOutput data).setReverted true reason).halt

/-- What an instruction does once the program counter has moved past it. Instructions that take no
offset, size or target are the same in both readings. -/
def body (limits : Limits) (pc : Nat) (immediate : Word) : Opcode → Exec Unit
  | .callDataLoad => do
    let offset ← popNat
    push (Word.ofBytes ((← frame).call.input.window offset 32))
  | .returnDataCopy => returnDataCopy
  | .mload => do
    let offset ← popNat
    chargeMemory offset 32
    let bytes ← readMemory offset 32
    push (Word.ofBytes bytes)
  | .mstore => do
    let offset ← popNat
    let value ← pop
    chargeMemory offset 32
    put offset value.toBytes
  | .mstore8 => do
    let offset ← popNat
    let value ← pop
    chargeMemory offset 1
    put offset ⟨#[UInt8.ofNat value.toNat]⟩
  | .jump => do
    let dest ← popNat
    jump dest
  | .jumpIf => do
    let dest ← popNat
    let condition ← pop
    if condition ≠ 0 then
      jump dest
  | .log topics => log topics
  | .ret => do
    let data ← popRegion
    completeReturn limits.maxCodeSize data
  | .revert => revert
  | op => Instruction.body limits pc immediate op

/-- Executes one instruction that neither calls nor creates. -/
def executeLocal (limits : Limits) (op : Opcode) : Exec Unit := do
  let pc := (← frame).pc
  let immediate ← Action.ofChecked ((← frame).immediate? op.immediateSize)
  update (Frame.advance (1 + op.immediateSize))
  body limits pc immediate op

/-- The caller's part of an internal call. -/
def requestInternal (env : Surroundings) : Exec Request := do
  let target ← popNat
  let requested ← popNat
  update (Frame.advance 1)
  let f ← frame
  if target ∉ jumpDestinations f.program.code then
    Action.refuse (.invalidJump (reported target))
  if env.limits.maxCallDepth ≤ env.depth then
    Action.refuse (.callDepthExceeded (env.depth + 1) env.limits.maxCallDepth)
  let gas := min requested f.gas.remaining
  consumeGas gas
  return .internal target gas

/-- The caller's part of a message to another contract. -/
def requestMessage (env : Surroundings) (withValue : Bool) : Exec Request := do
  let requested ← popNat
  let callee := Address.ofWord (← pop)
  let value ← if withValue then pop else pure 0
  let argsOffset ← popNat
  let argsSize ← popNat
  let retOffset ← popNat
  let retSize ← popNat
  update (Frame.advance 1)
  if (← frame).call.isStatic ∧ value ≠ 0 then
    Action.refuse .writeInStaticContext
  chargeMemory argsOffset argsSize
  chargeMemory retOffset retSize
  if value ≠ 0 then
    consumeGas Gas.callValue
  update (Frame.setLastReturn ByteArray.empty)
  if env.limits.maxCallDepth ≤ env.depth then
    push 0
    return .proceed
  let gas := Gas.forwarded (← frame).gas.remaining requested
  consumeGas gas
  let childGas := if value = 0 then gas else satAdd gas Gas.callStipend
  let input ← readMemory argsOffset argsSize
  let caller := (← frame).call
  let call :=
    if caller.isStatic || !withValue then
      CallData.static env.origin caller.contract callee input
    else
      CallData.external env.origin caller.contract callee value input
  return .message { call with region := ⟨reported argsOffset, reported argsSize⟩ } childGas
    ⟨reported retOffset, reported retSize⟩

/-- The creator's part of a creation. -/
def requestCreate (env : Surroundings) : Exec Request := do
  let value ← pop
  let offset ← popNat
  let size ← popNat
  update (Frame.advance 1)
  if env.limits.maxInitCodeSize < size then
    Action.refuse (.codeSizeExceeded (reported size) env.limits.maxInitCodeSize)
  chargeMemory offset size
  consumeGas (Gas.initCode size)
  update (Frame.setLastReturn ByteArray.empty)
  if env.limits.maxCallDepth ≤ env.depth then
    push 0
    return .proceed
  let initCode ← readMemory offset size
  let remaining := (← frame).gas.remaining
  return .create value initCode (Gas.forwarded remaining remaining)

/-- Executes one instruction, up to what it asks of the call stack. -/
def dispatch (env : Surroundings) : Opcode → Exec Request
  | .callInternal => requestInternal env
  | .call => requestMessage env true
  | .staticCall => requestMessage env false
  | .create => requestCreate env
  | op => do
    executeLocal env.limits op
    return .proceed

/-- The instruction at the program counter of a running frame. -/
def fetchAndDispatch (env : Surroundings) : Exec Request := do
  match (← frame).currentOp with
  | .undefined =>
    match (← frame).currentByte? with
    | none =>
      update Frame.stop
      return .proceed
    | some byte => Action.refuse (.invalidOpcode byte)
  | op =>
    if (← frame).call.isStatic && op.isStateModifying then
      Action.refuse .writeInStaticContext
    else
      consumeGas (Gas.static op)
      dispatch env op

end Exact

/-! ## Bounds -/

/-- No code, input or return data is larger than a machine can address, and the gas is an amount. -/
structure Frame.Bounded (f : Frame) : Prop where
  code : f.program.code.size ≤ largestCode
  input : f.call.input.size ≤ largestCode
  lastReturn : f.lastReturn.size ≤ largestCode
  gas : f.gas.remaining ≤ maxAmount

/-- The frame is within the bounds, and so is its memory. -/
structure Activation.Bounded (x : Activation) : Prop where
  frame : x.frame.Bounded
  memory : ∀ w, x.space = some w → w.memory.Bounded

/-- A touch keeps the bounds, unless it sets the return data. -/
theorem Touch.bounded {part : Part} {x y : Activation} (h : Touch part x y)
    (hpart : part ≠ .lastReturn) (hx : x.Bounded) : y.Bounded where
  frame := by
    have hframe := hx.frame
    cases h with
    | lastReturn data => exact absurd rfl hpart
    | gas hrunning hle =>
        exact ⟨hframe.code, hframe.input, hframe.lastReturn,
          Nat.le_trans (Nat.sub_le _ _) hframe.gas⟩
    | _ => exact ⟨hframe.code, hframe.input, hframe.lastReturn, hframe.gas⟩
  memory w hw := by
    obtain ⟨v, hv, htouch⟩ := h.space_eq hw
    exact (hx.memory v hv).touch htouch

namespace Exact

open Exec
open CallTree.Action (Triple)

/-! ## Costs -/

/-- The cost of growing a memory is the difference of the costs. -/
theorem memory_growth_eq (old : Nat) {new : Nat} (h : new < 2 ^ 32) :
    Gas.memoryGrowth? old new = some (memoryCost (max old new) - memoryCost old) := by
  unfold Gas.memoryGrowth?
  by_cases hle : new ≤ old
  · rw [if_pos hle, Nat.max_eq_left hle, Nat.sub_self]
  · have hsquare : old * old / 512 ≤ new * new / 512 :=
      Nat.div_le_div_right (Nat.mul_le_mul (by omega) (by omega))
    rw [if_neg hle, Nat.max_eq_right (by omega), Gas.memory_fits h, Gas.memory_fits (by omega)]
    refine if_pos ?_
    omega

/-- The cost of a log entry. -/
theorem log_data_eq {size topics : Nat} (hsize : size ≤ largestMemory) (htopics : topics ≤ 4) :
    Gas.logData? size topics = some (Gas.logTopic * topics + Gas.logByte * size) := by
  have hfit : ∀ n, n ≤ maxAmount → fit? n = some n := fun n hn => fit?_eq_some_iff.2 ⟨hn, rfl⟩
  unfold maxAmount at hfit
  unfold largestMemory at hsize
  simp only [Gas.logData?, Gas.logTopic, Gas.logByte, hfit (375 * topics) (by omega),
    hfit (8 * size) (by omega), hfit (375 * topics + 8 * size) (by omega), Option.bind_eq_bind,
    Option.bind_some]

/-- The cost of deployed code. -/
theorem code_deposit_eq {size : Nat} (hsize : size ≤ largestMemory) :
    Gas.codeDeposit? size = some (Gas.codeDepositByte * size) := by
  unfold largestMemory at hsize
  exact fit?_eq_some_iff.2 ⟨by unfold Gas.codeDepositByte maxAmount; omega, rfl⟩

/-! ## Actions that do the same -/

variable {α β : Type} {lax : Prop}

/-- The same result. If `lax` holds, it is enough that both are refused and leave the same where the
second one is refused because of the size of code. -/
def Agree (lax : Prop) (result result' : EStateM.Result Abort Activation α) : Prop :=
  result = result' ∨ lax ∧ ∃ cause size max x, result = .error (.fault cause) x ∧
    result' = .error (.fault (.codeSizeExceeded size max)) x

/-- From every activation with `P` the two actions do the same. -/
def SameOn (lax : Prop) (P : Activation → Prop) (act act' : Exec α) : Prop :=
  ∀ x, P x → Agree lax (act x) (act' x)

namespace SameOn

variable {P Q : Activation → Prop} {act act' : Exec α}

theorem rfl : SameOn lax P act act :=
  fun _ _ => .inl (Eq.refl _)

theorem of_eq (h : ∀ x, P x → act x = act' x) : SameOn lax P act act' :=
  fun x hx => .inl (h x hx)

theorem eq (h : SameOn False P act act') {x : Activation} (hx : P x) : act x = act' x :=
  (h x hx).resolve_right fun hrefused => hrefused.1

theorem weaken (h : SameOn lax P act act') (hQ : ∀ x, Q x → P x) : SameOn lax Q act act' :=
  fun x hx => h x (hQ x hx)

/-- One action after another. What is known after the first one may be used for the rest. -/
theorem bind {R : β → Activation → Prop} {first first' : Exec β} {next next' : β → Exec α}
    (hfirst : SameOn lax P first first') (hafter : ∀ x r y, P x → first x = .ok r y → R r y)
    (hnext : ∀ r, SameOn lax (R r) (next r) (next' r)) :
    SameOn lax P (first >>= next) (first' >>= next') := by
  intro x hx
  rcases hfirst x hx with hsame | ⟨hlax, cause, size, max, y, hact, hact'⟩
  · cases hact : first x with
    | ok r y =>
        rw [Action.bind_ok hact, Action.bind_ok (hsame.symm.trans hact)]
        exact hnext r y (hafter x r y hx hact)
    | error e y =>
        rw [Action.bind_error hact, Action.bind_error (hsame.symm.trans hact)]
        exact .inl (Eq.refl _)
  · exact .inr ⟨hlax, cause, size, max, y, Action.bind_error hact, Action.bind_error hact'⟩

/-- The same action first, which touches only parts that do not matter. -/
theorem keep {parts : List Part} {first : Exec β} {next next' : β → Exec α}
    (hwithin : Within parts first)
    (hstable : ∀ part ∈ parts, ∀ x y, Touch part x y → P x → P y)
    (hnext : ∀ r, SameOn lax P (next r) (next' r)) : SameOn lax P (first >>= next) (first >>= next') :=
  bind rfl (fun _ _ _ hx hact => (hwithin.triple hstable).ok hx hact) hnext

/-- Both or neither. -/
theorem ite {c c' : Prop} [Decidable c] [Decidable c'] {other other' : Exec α} (hc : c ↔ c')
    (h : c → SameOn lax P act act') (hother : ¬c → SameOn lax P other other') :
    SameOn lax P (if c then act else other) (if c' then act' else other') := by
  by_cases hcond : c
  · rw [if_pos hcond, if_pos (hc.1 hcond)]
    exact h hcond
  · rw [if_neg hcond, if_neg (fun hc' => hcond (hc.2 hc'))]
    exact hother hcond

/-- A refusal under a condition, before the rest. -/
theorem guard {c c' : Prop} [Decidable c] [Decidable c'] {cause cause' : Fault}
    {rest rest' : Unit → Exec α} (hc : c ↔ c') (hcause : c → cause = cause')
    (hrest : ¬c → SameOn lax P (rest ()) (rest' ())) :
    SameOn lax P (if c then Action.refuse cause >>= rest else rest ())
      (if c' then Action.refuse cause' >>= rest' else rest' ()) := by
  refine ite hc (fun hcond x _ => .inl ?_) hrest
  have hrefused : (Action.refuse cause : Exec Unit) x = .error (.fault cause) x := Eq.refl _
  rw [← hcause hcond, Action.bind_error hrefused, Action.bind_error hrefused]

/-- One of two actions first, which touch only parts that do not matter. -/
theorem choose {parts : List Part} {c : Prop} [Decidable c] {first other : Exec β}
    {next next' : β → Exec α} (hfirst : Within parts first) (hother : Within parts other)
    (hstable : ∀ part ∈ parts, ∀ x y, Touch part x y → P x → P y)
    (hnext : ∀ r, SameOn lax P (next r) (next' r)) :
    SameOn lax P (if c then first >>= next else other >>= next)
      (if c then first >>= next' else other >>= next') :=
  ite Iff.rfl (fun _ => keep hfirst hstable hnext) fun _ => keep hother hstable hnext

/-- An action that is taken only under a condition, before the rest. -/
theorem when {parts : List Part} {c : Prop} [Decidable c] {first : Exec Unit}
    {rest rest' : Unit → Exec α} (hfirst : Within parts first)
    (hstable : ∀ part ∈ parts, ∀ x y, Touch part x y → P x → P y)
    (hrest : ∀ r, SameOn lax P (rest r) (rest' r)) :
    SameOn lax P (if c then first >>= rest else rest ()) (if c then first >>= rest' else rest' ()) :=
  ite Iff.rfl (fun _ => keep hfirst hstable hrest) fun _ => hrest ()

end SameOn

/-! ## Operands -/

/-- An amount is taken from the stack as a word. -/
theorem pop_amount_eq : popAmount = (do let w ← pop; return reported w.toNat) := by
  funext x
  obtain ⟨f, _ | ⟨⟨limit, ⟨items, size, hsize⟩, copies⟩, memory, storage, pending⟩⟩ := x
  · rfl
  · cases items with
    | nil => rfl
    | cons word rest => rfl

/-- What touches neither the memory nor the return data stays within the bounds. -/
theorem bounded_stable {parts : List Part} (hparts : Part.lastReturn ∉ parts) :
    ∀ part ∈ parts, ∀ x y : Activation, Touch part x y → x.Bounded → y.Bounded :=
  fun _ hpart _ _ htouch hx => htouch.bounded (fun he => hparts (he ▸ hpart)) hx

/-- The word that is taken is an amount in one reading and the number that it is in the other. -/
theorem SameOn.pop_amount {next next' : Nat → Exec α}
    (h : ∀ w : Word, SameOn lax Activation.Bounded (next (reported w.toNat)) (next' w.toNat)) :
    SameOn lax Activation.Bounded (popAmount >>= next) (popNat >>= next') := by
  have hwithin : Within [.stack] pop := .pop (by decide)
  intro x hx
  cases hpop : pop x with
  | error e y =>
      have hamount : popAmount x = .error e y := by
        rw [pop_amount_eq]
        exact Action.bind_error hpop
      have hnat : popNat x = .error e y := Action.bind_error hpop
      rw [Action.bind_error hamount, Action.bind_error hnat]
      exact .inl (Eq.refl _)
  | ok word y =>
      have hamount : popAmount x = .ok (reported word.toNat) y := by
        rw [pop_amount_eq]
        exact Action.bind_ok hpop
      have hnat : popNat x = .ok word.toNat y := Action.bind_ok hpop
      rw [Action.bind_ok hamount, Action.bind_ok hnat]
      exact h word y ((hwithin.triple (bounded_stable (by decide))).ok hx hpop)

/-! ## Regions -/

/-- How a bounded memory grows. -/
theorem expand_reported {m : Memory} (h : m.Bounded) (offset : Nat) {size : Nat}
    (hsize : size ≠ 0) :
    Memory.expand (reported offset) (reported size) m =
      if max m.size m.limit < offset + size then
        .error (.fault (.memoryLimitExceeded (reported (offset + size)) m.limit)) m
      else
        .ok ((m.grown (offset + size)).words - m.words) (m.grown (offset + size)) := by
  obtain ⟨hwhole, hsmall, hsmallLimit⟩ := h.small
  have hne : reported size ≠ 0 := by
    unfold reported maxAmount
    omega
  have hreach : (Memory.Edit.expand (reported offset) (reported size)).reach =
      reported offset + reported size := if_neg hne
  rw [Memory.expand_eq hwhole _ _ hreach]
  unfold largestMemory at hsmall hsmallLimit
  by_cases hbeyond : max m.size m.limit < offset + size
  · have hmin : min (reported offset + reported size) maxAmount = reported (offset + size) := by
      unfold reported
      omega
    rw [if_pos hbeyond, hmin, if_neg]
    unfold reported maxAmount
    omega
  · have hsame : reported offset + reported size = offset + size := by
      unfold reported maxAmount
      omega
    rw [if_neg hbeyond, hsame, if_pos (Nat.not_lt.1 hbeyond)]

/-- What charging for a region does where there is a memory. -/
theorem charge_memory_eq {f : Frame} {w : Workspace} (offset : Nat) {size : Nat} (hsize : size ≠ 0) :
    chargeMemory offset size ⟨f, some w⟩ =
      if max w.memory.size w.memory.limit < offset + size then
        .error (.fault (.memoryLimitExceeded (reported (offset + size)) w.memory.limit)) ⟨f, some w⟩
      else
        consumeGas (memoryCost (max w.memory.words (wordsFor (offset + size))) -
            memoryCost w.memory.words)
          ⟨f, some { w with memory := w.memory.grown (offset + size) }⟩ := by
  have hread : onMemory (Action.read id) ⟨f, some w⟩ = .ok w.memory ⟨f, some w⟩ := rfl
  rw [chargeMemory, if_pos hsize, Action.bind_ok hread]
  by_cases hbeyond : max w.memory.size w.memory.limit < offset + size
  · rw [if_pos hbeyond, if_pos hbeyond]
    rfl
  · rw [if_neg hbeyond, if_neg hbeyond]
    rfl

/-- Charging for a region that is taken as amounts, and as the numbers that they stand for. -/
theorem charge_memory_same (offset size : Nat) {x : Activation} (hx : x.Bounded) :
    Exec.chargeMemory (reported offset) (reported size) x = chargeMemory offset size x := by
  obtain ⟨f, s⟩ := x
  by_cases hsize : size = 0
  · rw [hsize]
    rfl
  have hne : reported size ≠ 0 := by
    unfold reported maxAmount
    omega
  cases s with
  | none =>
      unfold Exec.chargeMemory chargeMemory
      rw [if_pos hsize, if_pos hne]
      rfl
  | some w =>
      have hmemory := hx.memory w rfl
      have hexpand := expand_reported hmemory offset hsize
      obtain ⟨hwhole, hsmall, hsmallLimit⟩ := hmemory.small
      have hread : ∀ v : Workspace, onMemory (Action.read (·.words)) ⟨f, some v⟩ =
          .ok v.memory.words ⟨f, some v⟩ := fun _ => rfl
      rw [charge_memory_eq offset hsize, Exec.chargeMemory, if_pos hne, Action.bind_ok (hread w)]
      by_cases hbeyond : max w.memory.size w.memory.limit < offset + size
      · rw [if_pos hbeyond] at hexpand ⊢
        refine Action.bind_error ?_
        simp only [onMemory, hexpand]
      · rw [if_neg hbeyond] at hexpand ⊢
        have hgrows : onMemory (Memory.expand (reported offset) (reported size)) ⟨f, some w⟩ =
            .ok ((w.memory.grown (offset + size)).words - w.memory.words)
              ⟨f, some { w with memory := w.memory.grown (offset + size) }⟩ := by
          simp only [onMemory, hexpand]
        have hfew : max w.memory.words (wordsFor (offset + size)) < 2 ^ 32 := by
          unfold Memory.words wordsFor
          unfold largestMemory at hsmall hsmallLimit
          omega
        have hcost := memory_growth_eq w.memory.words hfew
        rw [Nat.max_eq_right (Nat.le_max_left _ _)] at hcost
        rw [Action.bind_ok hgrows, Action.bind_ok (hread _), Memory.words_grown, hcost]
        rfl

/-- A debit leaves what lies inside the memory. -/
theorem consume_gas_covers (amount : Nat) (region : Region) :
    Triple (·.Covers region) (consumeGas amount) (fun _ => (·.Covers region)) fun _ _ => True := by
  have hpay : Within [.gas] (consumeGas amount) := .consume_gas (List.mem_singleton_self _) amount
  refine .of_results (fun x r y hx hact => ?_) fun _ _ _ _ _ => trivial
  have htouches := Action.after_ok hact ▸ hpay x
  exact htouches.covers (by decide) hx

/-- The memory covers a region that was charged for. -/
theorem charge_memory_covers (offset size : Nat) :
    Triple Activation.Bounded (chargeMemory offset size)
      (fun _ x => (size = 0 ∨ offset + size ≤ largestMemory) ∧
        x.Bounded ∧ x.Covers ⟨offset, size⟩) fun _ _ => True := by
  have hwithin : Within [.memory, .gas] (Exec.chargeMemory (reported offset) (reported size)) :=
    .charge_memory (by decide) (by decide) _ _
  have hbounded := hwithin.triple (bounded_stable (by decide))
  refine .of_results (fun x r y hx hact => ?_) fun _ _ _ _ _ => trivial
  have hy : y.Bounded := hbounded.ok hx ((charge_memory_same offset size hx).trans hact)
  obtain ⟨f, s⟩ := x
  by_cases hsize : size = 0
  · exact ⟨.inl hsize, hy, fun _ _ hne => absurd hsize hne⟩
  cases s with
  | none =>
      rw [chargeMemory, if_pos hsize] at hact
      exact nomatch hact
  | some w =>
      obtain ⟨hwhole, hsmall, hsmallLimit⟩ := (hx.memory w rfl).small
      rw [charge_memory_eq offset hsize] at hact
      by_cases hbeyond : max w.memory.size w.memory.limit < offset + size
      · rw [if_pos hbeyond] at hact
        exact nomatch hact
      · rw [if_neg hbeyond] at hact
        have hfits : offset + size ≤ largestMemory :=
          Nat.le_trans (Nat.not_lt.1 hbeyond) (Nat.max_le.2 ⟨hsmall, hsmallLimit⟩)
        refine ⟨.inr hfits, hy, (consume_gas_covers _ _).ok ?_ hact⟩
        rintro _ ⟨⟩ _
        have hcovered : offset + size ≤ wordsFor (offset + size) * 32 := Memory.Edit.le_words _
        refine ⟨?_, Nat.le_trans hfits (by decide)⟩
        show offset + size ≤ (w.memory.grown (offset + size)).size
        rw [Memory.size_grown]
        exact Nat.le_trans hcovered (Nat.le_max_right _ _)

/-- Reading a region that memories have room for. -/
theorem read_memory_reported {offset size : Nat} (h : size = 0 ∨ offset + size ≤ largestMemory) :
    readMemory (reported offset) (reported size) = readMemory offset size := by
  rcases h with rfl | hfits
  · have hempty : ∀ m : Memory, m.read (reported offset) 0 = m.read offset 0 := fun m => by
      rw [Memory.read, Memory.read, Bytes.window_eq_map, Bytes.window_eq_map]
      rfl
    show onMemory (Action.read (·.read (reported offset) 0)) = _
    simp only [hempty]
    rfl
  · unfold largestMemory at hfits
    have hsame : reported offset = offset ∧ reported size = size := by
      unfold reported maxAmount
      omega
    rw [hsame.1, hsame.2]

/-- Writing where the memory covers the region. -/
theorem write_same {offset size : Nat} {part : Bytes} (hpart : part.size ≤ size) :
    SameOn lax (fun x => x.Bounded ∧ x.Covers ⟨offset, size⟩)
      (do let _ ← onMemory (Memory.write (reported offset) part)) (put offset part) := by
  refine .of_eq ?_
  rintro ⟨f, s⟩ ⟨hx, hcovers⟩
  cases s with
  | none => rfl
  | some w =>
      have hwrite : Memory.write (reported offset) part w.memory =
          .ok 0 (w.memory.put offset part) := by
        by_cases hempty : part.size = 0
        · rw [Memory.write, Memory.put, if_pos hempty, if_pos hempty]
        · obtain ⟨hinside, hend⟩ := hcovers w rfl (by show size ≠ 0; omega)
          replace hinside : offset + size ≤ w.memory.data.size := hinside
          replace hend : offset + size ≤ maxAmount := hend
          have hsame : reported offset = offset := Nat.min_eq_left (by omega)
          have hexpand : Memory.expand offset part.size w.memory = .ok 0 w.memory := by
            have hle : offset + part.size ≤ w.memory.size := by
              unfold Memory.size
              omega
            rw [Memory.expand, if_neg hempty, if_neg (by omega), if_pos hle]
          rw [hsame, Memory.write_of_expand hempty hexpand, Memory.put, if_neg hempty]
      have hdone : onMemory (Memory.write (reported offset) part) ⟨f, some w⟩ =
          .ok 0 ⟨f, some { w with memory := w.memory.put offset part }⟩ := by
        simp only [onMemory, hwrite]
      rw [Action.bind_ok hdone]
      rfl

namespace SameOn

variable {P : Activation → Prop}

/-- Charging for a region first. Afterwards it is known to be one that memories have room for. -/
theorem charge_covers {offset size shown : Nat} {next next' : Unit → Exec α}
    (hshown : shown = reported size) (h : size = 0 ∨ offset + size ≤ largestMemory →
      SameOn lax (fun x => x.Bounded ∧ x.Covers ⟨offset, size⟩) (next ()) (next' ())) :
    SameOn lax Activation.Bounded (Exec.chargeMemory (reported offset) shown >>= next)
      (chargeMemory offset size >>= next') := by
  subst hshown
  refine bind (R := fun _ x => (size = 0 ∨ offset + size ≤ largestMemory) ∧
    x.Bounded ∧ x.Covers ⟨offset, size⟩)
    (.of_eq fun _ hx => charge_memory_same offset size hx) (fun x r y hx hact => ?_)
    fun _ y hy => h hy.1 y hy.2
  exact (charge_memory_covers offset size).ok hx ((charge_memory_same offset size hx).symm.trans hact)

theorem charge {offset size shown : Nat} {next next' : Unit → Exec α}
    (hshown : shown = reported size) (h : size = 0 ∨ offset + size ≤ largestMemory →
      SameOn lax Activation.Bounded (next ()) (next' ())) :
    SameOn lax Activation.Bounded (Exec.chargeMemory (reported offset) shown >>= next)
      (chargeMemory offset size >>= next') :=
  charge_covers hshown fun hfits => (h hfits).weaken fun _ hx => hx.1

/-- Paying for what was charged before. -/
theorem pay {amount amount' : Nat} {region : Region} {next next' : Unit → Exec α}
    (hamount : amount = amount')
    (h : SameOn lax (fun x => x.Bounded ∧ x.Covers region) (next ()) (next' ())) :
    SameOn lax (fun x => x.Bounded ∧ x.Covers region) (consumeGas amount >>= next)
      (consumeGas amount' >>= next') := by
  subst hamount
  have hpay : Within [.gas] (consumeGas amount) := .consume_gas (List.mem_singleton_self _) amount
  refine bind (R := fun _ x => x.Bounded ∧ x.Covers region) rfl (fun x r y hx hact => ?_) fun _ => h
  exact ⟨(hpay.triple (bounded_stable (by decide))).ok hx.1 hact,
    (consume_gas_covers amount region).ok hx.2 hact⟩

/-- What follows may use that the frame is within the bounds. -/
theorem frame {next next' : Frame → Exec α} (hP : ∀ x, P x → x.Bounded)
    (h : ∀ f : Frame, f.Bounded → SameOn lax P (next f) (next' f)) :
    SameOn lax P (Exec.frame >>= next) (Exec.frame >>= next') := by
  intro x hx
  have hread : Exec.frame x = .ok x.frame x := Eq.refl _
  rw [Action.bind_ok hread, Action.bind_ok hread]
  exact h x.frame (hP x hx).frame x hx

end SameOn

end Exact
end CallTree
