import CallTree.Context.Finish
import CallTree.Proofs.Effects

/-!
# What can be done to a frame

A frame is changed from outside by a fixed set of operations (`Mutation`), in any order. Its outcome can be
seen as five flags that are written one by one: whether it runs, has succeeded, has reverted, has run out
of gas, and the reason of a revert (`Flags`). The verdict is these flags without the combinations that
no order of operations reaches (`Frame.flags_perform`, `Flags.Consistent.run`).

A frame that has halted is frozen: its program counter, what it may spend and what it has spent stay as
they are (`Frame.Frozen`). Its verdict is not. It follows the last ruling, and a revert that is withdrawn
makes a success of the frame (`Frame.halted_follows_rulings`).
-/

namespace CallTree

/-- One operation on a frame from outside. -/
inductive Mutation
  | consumeGas (amount : Nat)
  | refundGas (amount : Nat)
  | recordRefund (amount : Nat)
  | halt
  | markSuccess
  | setReverted (reverted : Bool) (reason : String)
  | fail (cause : Fault)
  | setReturnData (data : Bytes) (region : Region)
  | setOutput (data : Bytes)
  | setLastReturn (data : Bytes)
  | stage (result : StagedResult)
  | takeStaged
  | addLog (entry : LogEntry)
  | addLogs (entries : Array LogEntry)
  | takeLogs
  | advance (count : Nat)
  | setPc (pc : Nat)
  | setCode (code : Bytes)
  | enableCreation

namespace Frame

/-- The frame after an operation, whether that was refused or not. -/
def mutate (f : Frame) : Mutation → Frame
  | .consumeGas amount => Action.after (consumeGas amount) f
  | .refundGas amount => f.refundGas amount
  | .recordRefund amount => f.recordRefund amount
  | .halt => f.halt
  | .markSuccess => f.markSuccess
  | .setReverted reverted reason => f.setReverted reverted reason
  | .fail cause => f.fail cause
  | .setReturnData data region => f.setReturnData data region
  | .setOutput data => f.setOutput data
  | .setLastReturn data => f.setLastReturn data
  | .stage result => f.stage result
  | .takeStaged => f.takeStaged.2
  | .addLog entry => f.addLog entry
  | .addLogs entries => f.addLogs entries
  | .takeLogs => f.takeLogs.2
  | .advance count => f.advance count
  | .setPc pc => f.setPc pc
  | .setCode code => f.setCode code
  | .enableCreation => f.enableCreation

/-- The frame after several operations. -/
def perform (ms : List Mutation) (f : Frame) : Frame :=
  ms.foldl mutate f

/-- The frame as it comes into being. -/
inductive Made : Frame → Prop
  | new (code : Bytes) (gas : Nat) (call : CallData) (home : Handle) :
      Made (Frame.new code gas call home)
  | internal (parent : Frame) (origin : Address) (target gas : Nat) (marks : Marks) :
      Made (parent.internal origin target gas marks)

/-- A debit changes the gas of a running frame, or nothing. -/
theorem consume_gas_cases (amount : Nat) (f : Frame) :
    (f.running = true ∧ amount ≤ f.gas.remaining ∧
      consumeGas amount f = .ok () { f with gas := { f.gas with
        remaining := f.gas.remaining - amount, used := satAdd f.gas.used amount } }) ∨
    ∃ cause, consumeGas amount f = .error (.fault cause) f := by
  unfold consumeGas GasMeter.consume
  by_cases hrunning : f.running = true
  · by_cases hlt : f.gas.remaining < amount
    · exact .inr ⟨.outOfGas, by simp [hrunning, hlt]⟩
    · exact .inl ⟨hrunning, by omega, by simp [hrunning, hlt]⟩
  · exact .inr ⟨.frameHalted, by simp [hrunning]⟩

/-- A debit that is refused leaves the frame as it is. -/
theorem consume_gas_refused {amount : Nat} {f g : Frame} {e : Abort}
    (h : consumeGas amount f = .error e g) : g = f := by
  obtain ⟨-, -, hok⟩ | ⟨cause, herror⟩ := consume_gas_cases amount f
  · cases hok.symm.trans h
  · cases herror.symm.trans h
    rfl

end Frame

/-! ## The outcome as flags -/

/-- The outcome of a frame as flags that are written one by one. -/
structure Flags where
  /-- Whether the frame has not halted yet. -/
  running : Bool := true
  /-- Whether a success was recorded. -/
  success : Bool := false
  /-- Whether a revert was recorded. -/
  reverted : Bool := false
  /-- Whether the gas ran out. -/
  outOfGas : Bool := false
  /-- The reason of a revert. -/
  reason : Option String := none
deriving DecidableEq

namespace Flags

/-- Stops the frame. -/
def halt (g : Flags) : Flags :=
  { g with running := false }

/-- Records a success, unless a revert is recorded. -/
def markSuccess (g : Flags) : Flags :=
  if g.reverted then g else { g with success := true }

/-- Records a revert, or clears it with all that goes with it. -/
def setReverted (reverted : Bool) (reason : String) (g : Flags) : Flags :=
  if reverted then
    { g with reverted := true, success := false, reason := some reason }
  else
    { g with reverted := false, outOfGas := false, reason := none }

/-- Halts a running frame because of a fault. -/
def fail (cause : Fault) (g : Flags) : Flags :=
  if g.running then
    let g := { g with outOfGas := cause == Fault.outOfGas }
    (g.setReverted true cause.revertReason).halt
  else
    g

/-- The flags after an operation on the frame. The operations that are not listed leave them alone. -/
def mutate (g : Flags) : Mutation → Flags
  | .halt => g.halt
  | .markSuccess => g.markSuccess
  | .setReverted reverted reason => g.setReverted reverted reason
  | .fail cause => g.fail cause
  | _ => g

/-- The flags after several operations. -/
def run (ms : List Mutation) (g : Flags) : Flags :=
  ms.foldl mutate g

/-- Where the frame stands. -/
def status (g : Flags) : FrameStatus :=
  if g.running then .running
  else if g.outOfGas then .haltedOutOfGas
  else if g.reverted then .haltedReverted
  else .haltedSuccess

/-- Whether the frame has succeeded, or has halted without reverting. -/
def isSuccess (g : Flags) : Bool :=
  !g.reverted && (g.success || !g.running)

/-- The combinations of flags that occur. -/
structure Consistent (g : Flags) : Prop where
  exclusive : g.reverted = true → g.success = false
  reason : g.reason.isSome = g.reverted
  outOfGas : g.outOfGas = true → g.reverted = true

/-- Recording a revert or clearing it leads to flags that occur, wherever it starts. -/
theorem consistent_set_reverted (reverted : Bool) (reason : String) (g : Flags) :
    (g.setReverted reverted reason).Consistent := by
  cases reverted with
  | true => exact ⟨fun _ => rfl, rfl, fun _ => rfl⟩
  | false => exact ⟨fun hreverted => (Bool.false_ne_true hreverted).elim, rfl, fun h => h⟩

/-- Operations lead to flags that occur. -/
theorem Consistent.mutate {g : Flags} (h : g.Consistent) (m : Mutation) :
    (g.mutate m).Consistent := by
  cases m with
  | halt => exact ⟨h.exclusive, h.reason, h.outOfGas⟩
  | markSuccess =>
      show g.markSuccess.Consistent
      unfold markSuccess
      split
      · exact h
      · rename_i hreverted
        exact ⟨fun hr => absurd hr hreverted, h.reason, h.outOfGas⟩
  | setReverted reverted reason => exact consistent_set_reverted reverted reason g
  | fail cause =>
      show (g.fail cause).Consistent
      unfold fail
      split
      · exact ⟨fun _ => rfl, rfl, fun _ => rfl⟩
      · exact h
  | _ => exact h

/-- All orders of operations lead to flags that occur. -/
theorem Consistent.run {g : Flags} (h : g.Consistent) (ms : List Mutation) :
    (g.run ms).Consistent := by
  induction ms generalizing g with
  | nil => exact h
  | cons m ms ih => exact ih (h.mutate m)

/-- At the start nothing is recorded. -/
theorem Consistent.init : Consistent {} :=
  ⟨fun _ => rfl, rfl, fun h => h⟩

end Flags

namespace Frame

/-- The flags that a verdict stands for. -/
def flags (f : Frame) : Flags :=
  match f.verdict with
  | .undecided => { running := f.running }
  | .succeeded => { running := f.running, success := true }
  | .reverted reason outOfGas =>
    { running := f.running, reverted := true, outOfGas := outOfGas, reason := some reason }

/-- An operation does to the verdict what it does to the flags. -/
theorem flags_mutate (f : Frame) (m : Mutation) : (f.mutate m).flags = f.flags.mutate m := by
  cases m with
  | consumeGas amount =>
      show (Action.after (consumeGas amount) f).flags = f.flags
      obtain ⟨-, -, hok⟩ | ⟨cause, herror⟩ := consume_gas_cases amount f
      · rw [Action.after_ok hok]
        rfl
      · rw [Action.after_error herror]
  | refundGas amount =>
      show (f.refundGas amount).flags = f.flags
      unfold refundGas
      split <;> rfl
  | advance count =>
      show (f.advance count).flags = f.flags
      unfold advance
      split <;> rfl
  | setPc pc =>
      show (f.setPc pc).flags = f.flags
      unfold setPc
      split <;> rfl
  | halt =>
      show f.halt.flags = f.flags.halt
      cases hverdict : f.verdict <;> simp [flags, halt, Flags.halt, hverdict]
  | markSuccess =>
      show f.markSuccess.flags = f.flags.markSuccess
      cases hverdict : f.verdict <;>
        simp [flags, markSuccess, Verdict.succeed, Flags.markSuccess, hverdict]
  | setReverted reverted reason =>
      show (f.setReverted reverted reason).flags = f.flags.setReverted reverted reason
      cases reverted <;> cases hverdict : f.verdict <;>
        simp [flags, setReverted, Verdict.revert, Verdict.clearRevert, Flags.setReverted, hverdict]
  | fail cause =>
      show (f.fail cause).flags = f.flags.fail cause
      have hrunning : f.flags.running = f.running := by
        unfold flags
        split <;> rfl
      unfold fail Flags.fail
      rw [hrunning]
      split
      · simp [flags, Flags.setReverted, Flags.halt]
      · rfl
  -- Everything else writes fields that neither side of the outcome looks at.
  | _ => rfl

/-- All orders of operations do to the verdict what they do to the flags. -/
theorem flags_perform (ms : List Mutation) (f : Frame) :
    (f.perform ms).flags = f.flags.run ms := by
  induction ms generalizing f with
  | nil => rfl
  | cons m ms ih =>
      show ((f.mutate m).perform ms).flags = (f.flags.mutate m).run ms
      rw [ih, flags_mutate]

/-- A frame that has just been made has the flags of a start. -/
theorem Made.flags_eq {f : Frame} (h : f.Made) : f.flags = {} := by
  cases h <;> rfl

/-- What the frame says about its outcome is what the flags say. -/
structure Shows (f : Frame) (g : Flags) : Prop where
  running : f.running = g.running
  success : f.isSuccess = g.isSuccess
  reverted : f.isReverted = g.reverted
  reason : f.revertReason? = g.reason
  status : f.status = g.status

/-- A frame shows its flags. -/
theorem shows_flags (f : Frame) : f.Shows f.flags := by
  cases hverdict : f.verdict with
  | reverted reason outOfGas =>
      cases outOfGas <;> constructor <;>
        simp [flags, isSuccess, Flags.isSuccess, isReverted, revertReason?, Verdict.reason?,
          status, Flags.status, hverdict]
  | _ =>
      constructor <;>
        simp [flags, isSuccess, Flags.isSuccess, isReverted, revertReason?, Verdict.reason?,
          status, Flags.status, hverdict]

/-! ## Frames that have halted -/

/-- The frame has halted where another one has, with the same gas. -/
structure Frozen (f g : Frame) : Prop where
  halted : g.running = false
  pc : g.pc = f.pc
  remaining : g.gas.remaining = f.gas.remaining
  used : g.gas.used = f.gas.used

/-- An operation leaves a frame that has halted where it is. -/
theorem Frozen.mutate {f g : Frame} (h : f.Frozen g) (m : Mutation) : f.Frozen (g.mutate m) := by
  obtain ⟨hhalted, hpc, hremaining, hused⟩ := h
  have hsame : f.Frozen g := ⟨hhalted, hpc, hremaining, hused⟩
  have hnot : ¬g.running = true := Bool.not_eq_true _ ▸ hhalted
  cases m with
  | consumeGas amount =>
      show f.Frozen (Action.after (consumeGas amount) g)
      obtain ⟨hrunning, -, -⟩ | ⟨cause, herror⟩ := consume_gas_cases amount g
      · exact absurd hrunning hnot
      · rwa [Action.after_error herror]
  | refundGas amount =>
      show f.Frozen (g.refundGas amount)
      rwa [refundGas, if_neg hnot]
  | fail cause =>
      show f.Frozen (g.fail cause)
      rwa [fail, if_neg hnot]
  | advance count =>
      show f.Frozen (g.advance count)
      rwa [advance, if_neg hnot]
  | setPc pc =>
      show f.Frozen (g.setPc pc)
      rwa [setPc, if_neg hnot]
  | halt => exact ⟨rfl, hpc, hremaining, hused⟩
  -- A frame that has halted still takes data, logs and rulings, and refunds are counted apart.
  | _ => exact ⟨hhalted, hpc, hremaining, hused⟩

/-- No order of operations moves a frame that has halted. -/
theorem Frozen.perform {f g : Frame} (h : f.Frozen g) (ms : List Mutation) :
    f.Frozen (g.perform ms) := by
  induction ms generalizing g with
  | nil => exact h
  | cons m ms ih => exact ih (h.mutate m)

/-- The outcome of a frame, after any operations in any order. The frame shows the flags that the
operations write one by one. Success and revert exclude each other, there is a reason exactly for a
revert, gas runs out only in a revert, and a frame that has halted is one or the other. A debit that is
refused changes nothing. From the moment the frame has halted it does not run, move or spend again. -/
theorem perform_consistent {f₀ : Frame} (hmade : f₀.Made) (ms : List Mutation) :
    let f := f₀.perform ms
    f.Shows (Flags.run ms {}) ∧
    ¬(f.isSuccess = true ∧ f.isReverted = true) ∧
    (f.revertReason?.isSome = true ↔ f.isReverted = true) ∧
    (f.status = .haltedOutOfGas → f.isReverted = true) ∧
    (f.running = false → (f.isSuccess = true ↔ ¬f.isReverted = true)) ∧
    (∀ amount e g, consumeGas amount f = .error e g → g = f) ∧
    (f.running = false → ∀ later, f.Frozen (f.perform later)) := by
  intro f
  have hflags : f.flags = Flags.run ms {} := by
    rw [flags_perform, hmade.flags_eq]
  have hshows : f.Shows (Flags.run ms {}) := hflags ▸ shows_flags f
  have hconsistent : (Flags.run ms {}).Consistent := Flags.Consistent.init.run ms
  refine ⟨hshows, ?_, ?_, ?_, ?_, fun _ _ _ => consume_gas_refused, fun hhalted later => ?_⟩
  · rintro ⟨hsuccess, hreverted⟩
    rw [hshows.success, Flags.isSuccess, ← hshows.reverted, hreverted] at hsuccess
    cases hsuccess
  · rw [hshows.reason, hshows.reverted, hconsistent.reason]
  · intro hstatus
    rw [hshows.reverted]
    refine hconsistent.outOfGas ?_
    rw [hshows.status] at hstatus
    unfold Flags.status at hstatus
    grind
  · intro hhalted
    rw [hshows.success, Flags.isSuccess, ← hshows.running, hhalted, ← hshows.reverted]
    simp
  · have hstart : f.Frozen f := ⟨hhalted, rfl, rfl, rfl⟩
    exact hstart.perform later

/-- A frame that debits, recovers from a revert, runs out of gas and is moved afterwards. -/
theorem perform_consistent_out_of_gas :
    let ms : List Mutation :=
      [.setReverted true "early", .markSuccess, .setReverted false "", .consumeGas 20, .setPc 3,
        .fail .outOfGas, .markSuccess]
    let f := (Frame.new ByteArray.empty 50 default (.owned 0)).perform ms
    f.status = .haltedOutOfGas ∧ f.revertReason? = some "out of gas" ∧ f.isSuccess = false ∧
      (f.perform [.refundGas 7, .setPc 9, .setReverted false ""]).pc = 3 ∧
      (f.perform [.refundGas 7, .setPc 9, .setReverted false ""]).gas.remaining = 0 := by
  intro ms f
  obtain ⟨hshows, hexclusive, -, -, -, -, hfrozen⟩ :=
    perform_consistent (.new ByteArray.empty 50 default (.owned 0)) ms
  have hlater := hfrozen (by decide) [.refundGas 7, .setPc 9, .setReverted false ""]
  refine ⟨hshows.status.trans (by decide), hshows.reason.trans (by decide),
    hshows.success.trans (by decide), hlater.pc.trans ?_, hlater.remaining.trans ?_⟩
  · decide
  · decide

end Frame

/-! ## Rulings on a frame that has halted -/

/-- What an operation rules on a frame that has halted: that it has reverted, that it has not, or
nothing. -/
def Mutation.ruling? : Mutation → Option Bool
  | .setReverted reverted _ => some reverted
  | _ => none

namespace Flags

/-- A frame that has halted is reverted as the operation rules. -/
theorem reverted_mutate {g : Flags} (h : g.running = false) (m : Mutation) :
    (g.mutate m).running = false ∧ (g.mutate m).reverted = m.ruling?.getD g.reverted := by
  cases m with
  | halt => exact ⟨rfl, rfl⟩
  | markSuccess =>
      show g.markSuccess.running = false ∧ g.markSuccess.reverted = g.reverted
      unfold markSuccess
      split
      · exact ⟨h, rfl⟩
      · exact ⟨h, rfl⟩
  | setReverted reverted reason => cases reverted <;> exact ⟨h, rfl⟩
  | fail cause =>
      have hsame : g.fail cause = g := if_neg (Bool.not_eq_true _ ▸ h)
      show (g.fail cause).running = false ∧ (g.fail cause).reverted = g.reverted
      rw [hsame]
      exact ⟨h, rfl⟩
  | _ => exact ⟨h, rfl⟩

/-- After several operations the last ruling holds. -/
theorem reverted_run {g : Flags} (h : g.running = false) (ms : List Mutation) :
    (g.run ms).running = false ∧
      (g.run ms).reverted = ((ms.filterMap Mutation.ruling?).getLast?).getD g.reverted := by
  induction ms generalizing g with
  | nil => exact ⟨h, rfl⟩
  | cons m ms ih =>
      obtain ⟨hhalted, hruling⟩ := reverted_mutate h m
      obtain ⟨hlater, hlast⟩ := ih hhalted
      refine ⟨hlater, hlast.trans ?_⟩
      rw [hruling, List.filterMap_cons]
      cases m.ruling? with
      | none => rfl
      | some ruling =>
          show _ = (ruling :: ms.filterMap Mutation.ruling?).getLast?.getD g.reverted
          rw [List.getLast?_cons]
          rfl

/-- The status of a frame that has halted changes only when a success is reverted, unless the operation
withdraws a revert. -/
theorem status_mutate {g : Flags} (hconsistent : g.Consistent) (h : g.running = false) {m : Mutation}
    (hstands : m.ruling? ≠ some false) :
    (g.mutate m).status = g.status ∨
      g.status = .haltedSuccess ∧ (g.mutate m).status = .haltedReverted := by
  cases m with
  | halt =>
      left
      show g.halt.status = g.status
      rw [halt, ← h]
  | markSuccess =>
      left
      show g.markSuccess.status = g.status
      unfold markSuccess
      split <;> rfl
  | setReverted reverted reason =>
      cases reverted with
      | false => exact absurd rfl hstands
      | true =>
          show (g.setReverted true reason).status = g.status ∨
            g.status = .haltedSuccess ∧ (g.setReverted true reason).status = .haltedReverted
          -- Only a success may change: where the gas has run out, a revert is recorded already.
          have hgas := hconsistent.outOfGas
          cases hreverted : g.reverted <;> cases hout : g.outOfGas <;>
            simp [status, setReverted, h, hreverted, hout] at hgas ⊢
  | fail cause =>
      left
      show (g.fail cause).status = g.status
      rw [fail, if_neg (Bool.not_eq_true _ ▸ h)]
  | _ => exact .inl rfl

/-- Unless a revert is withdrawn, the status stays or goes from success to revert. -/
theorem status_run {g : Flags} (hconsistent : g.Consistent) (h : g.running = false)
    {ms : List Mutation} (hstands : ∀ m ∈ ms, m.ruling? ≠ some false) :
    (g.run ms).status = g.status ∨
      g.status = .haltedSuccess ∧ (g.run ms).status = .haltedReverted := by
  induction ms generalizing g with
  | nil => exact .inl rfl
  | cons m ms ih =>
      have hfirst := status_mutate hconsistent h (hstands m List.mem_cons_self)
      have hrest := ih (hconsistent.mutate m) (reverted_mutate h m).1 fun m' hm' =>
        hstands m' (List.mem_cons_of_mem _ hm')
      show ((g.mutate m).run ms).status = _ ∨ _ ∧ ((g.mutate m).run ms).status = _
      obtain hsame | ⟨hsuccess, hreverted⟩ := hfirst
      · rwa [hsame] at hrest
      · -- A revert is not reverted again.
        obtain hsame | ⟨hsuccess', -⟩ := hrest
        · exact .inr ⟨hsuccess, hsame.trans hreverted⟩
        · cases hreverted.symm.trans hsuccess'

end Flags

namespace Frame

/-- The flags of a verdict occur. -/
theorem flags_consistent (f : Frame) : f.flags.Consistent := by
  unfold flags
  split
  · exact ⟨fun _ => rfl, rfl, fun h => h⟩
  · exact ⟨fun h => (Bool.false_ne_true h).elim, rfl, fun h => h⟩
  · exact ⟨fun _ => rfl, rfl, fun _ => rfl⟩

/-- The verdict on a frame that has halted follows the last ruling, whichever it is. As long as no
revert is withdrawn, a revert stays and the status changes at most from a success to a revert. But a
withdrawal makes a success of the frame, whatever it has halted with, and it is finished as one. -/
theorem halted_follows_rulings {f : Frame} (hhalted : f.running = false) (ms : List Mutation) :
    (f.perform ms).running = false ∧
    (f.perform ms).isReverted =
      ((ms.filterMap Mutation.ruling?).getLast?).getD f.isReverted ∧
    (f.perform ms).finished.success = !(f.perform ms).isReverted ∧
    ((∀ m ∈ ms, m.ruling? ≠ some false) →
      (f.isReverted = true → (f.perform ms).isReverted = true) ∧
      ((f.perform ms).status = f.status ∨
        f.status = .haltedSuccess ∧ (f.perform ms).status = .haltedReverted)) ∧
    (∀ reason, ((f.perform ms).perform [.setReverted false reason]).status = .haltedSuccess ∧
      ((f.perform ms).perform [.setReverted false reason]).finished.success = true) := by
  have hstart := shows_flags f
  have hend : (f.perform ms).Shows (f.flags.run ms) := flags_perform ms f ▸ shows_flags _
  have hflags : f.flags.running = false := hstart.running ▸ hhalted
  obtain ⟨hrunning, hreverted⟩ := Flags.reverted_run hflags ms
  rw [← hend.running] at hrunning
  rw [← hend.reverted, ← hstart.reverted] at hreverted
  have hsuccess : (f.perform ms).finished.success = !(f.perform ms).isReverted := by
    show (f.perform ms).isSuccess = _
    rw [hend.success, Flags.isSuccess, ← hend.running, hrunning, ← hend.reverted]
    simp
  refine ⟨hrunning, hreverted, hsuccess, fun hstands => ⟨fun hrev => ?_, ?_⟩, fun reason => ?_⟩
  · rw [hreverted, hrev]
    cases hlast : (ms.filterMap Mutation.ruling?).getLast? with
    | none => rfl
    | some ruling =>
        obtain ⟨m, hm, hruling⟩ := List.mem_filterMap.1 (List.mem_of_getLast? hlast)
        cases ruling with
        | true => rfl
        | false => exact absurd hruling (hstands m hm)
  · rw [hend.status, hstart.status]
    exact Flags.status_run (flags_consistent f) hflags hstands
  · have hcleared : ((f.perform ms).setReverted false reason).flags =
        (f.perform ms).flags.setReverted false reason :=
      flags_mutate (f.perform ms) (.setReverted false reason)
    have hshows := hcleared ▸ shows_flags ((f.perform ms).setReverted false reason)
    have hstopped : (f.perform ms).flags.running = false :=
      (shows_flags (f.perform ms)).running ▸ hrunning
    refine ⟨hshows.status.trans ?_, hshows.success.trans ?_⟩
    · simp [Flags.status, Flags.setReverted, hstopped]
    · simp [Flags.isSuccess, Flags.setReverted, hstopped]

/-- A frame that has failed, one that is reverted afterwards, and one whose revert is withdrawn. -/
theorem halted_follows_rulings_failed :
    let f := (Frame.new ByteArray.empty 50 default (.owned 0)).perform [.fail .outOfGas]
    (f.perform [.markSuccess, .setReverted true "late", .fail .stackUnderflow]).status =
        .haltedOutOfGas ∧
      (f.perform [.setReverted false "", .setReverted true "late"]).isReverted = true ∧
      (f.perform [.setReverted true "late", .setReverted false ""]).finished.success = true := by
  intro f
  have hhalted : f.running = false := by decide
  obtain ⟨-, -, -, hstands, -⟩ := halted_follows_rulings hhalted
    [.markSuccess, .setReverted true "late", .fail .stackUnderflow]
  obtain ⟨-, hlast, -⟩ := halted_follows_rulings hhalted
    [.setReverted false "", .setReverted true "late"]
  obtain ⟨-, -, -, -, hwithdrawn⟩ := halted_follows_rulings hhalted [.setReverted true "late"]
  refine ⟨?_, hlast, (hwithdrawn "").2⟩
  obtain hsame | ⟨hsuccess, -⟩ := (hstands (by decide)).2
  · exact hsame
  · cases hsuccess

/-- A frame that has run out of gas is finished as a success once its revert is withdrawn: a revert is not
final when the frame has halted. -/
theorem withdrawn_revert_succeeds :
    let f := (Frame.new ByteArray.empty 50 default (.owned 0)).perform [.fail .outOfGas]
    f.running = false ∧ f.isReverted = true ∧ f.status = .haltedOutOfGas ∧
      f.finished.success = false ∧
      (f.perform [.setReverted false ""]).isReverted = false ∧
      (f.perform [.setReverted false ""]).status = .haltedSuccess ∧
      (f.perform [.setReverted false ""]).finished.success = true := by
  decide

end Frame
end CallTree
