import CallTree.Proofs.Payments

/-!
# Faults of running frames

Some faults are raised only where the call stack itself is broken (`Fault.isStructural`). A running
frame whose workspace is in use never raises one: `Instruction.fetch_regular` says so of every
instruction, and also that the operands stay within their limit and that an instruction asks for a
frame only if there is one more level left and there will be room to take up its result.
`Exec.resume_regular` is about taking up a result, which after a message or a creation cannot be
refused at all.

The operands are counted by the room that is left: each one that is taken makes room for another, so
an instruction that takes at least one can always put one back.
-/

namespace CallTree

open CallTree.Action (Triple)

/-- Whether the fault is one that a frame does not raise by itself: the call stack or the handles to
its workspaces would have to be broken, or a transaction could not even begin. -/
def Fault.isStructural : Fault → Bool
  | .internal _ | .danglingHandle _ | .noActiveFrame | .frameHalted | .contractAlreadyExists _ => true
  | _ => false

/-! ## Room -/

/-- The stack may hold `max` operands, and there is room for `room` more. -/
structure Workspace.Room (max room : Nat) (w : Workspace) : Prop where
  limit : w.stack.limit = max
  size : w.stack.items.size + room ≤ max

/-- The region lies inside the memory, or it is empty. -/
def Workspace.Covers (region : Region) (w : Workspace) : Prop :=
  region.size ≠ 0 →
    region.offset + region.size ≤ w.memory.data.size ∧ region.offset + region.size ≤ maxAmount

/-- A running frame on a workspace with the property. -/
structure Activation.On (S : Workspace → Prop) (a : Activation) : Prop where
  running : a.frame.running = true
  space : ∃ w, a.space = some w ∧ S w

/-- The operands are within their limit, whether or not the frame still runs. -/
def Activation.Roomy (max : Nat) (a : Activation) : Prop :=
  ∃ w, a.space = some w ∧ w.Room max 0

/-- An action was refused by a fault of the frame itself, or by an overflow, and the operands are
within their limit. -/
structure Regularly (max : Nat) (e : Abort) (a : Activation) : Prop where
  cause : ∀ cause, e = .fault cause → cause.isStructural = false
  roomy : a.Roomy max

section

variable {max room less : Nat} {S : Workspace → Prop} {a : Activation} {w : Workspace}

/-- Less room is room, too. -/
theorem Workspace.Room.mono (h : w.Room max room) (hle : less ≤ room) : w.Room max less :=
  ⟨h.limit, Nat.le_trans (Nat.add_le_add_left hle _) h.size⟩

theorem Activation.On.mono {T : Workspace → Prop} (h : a.On S) (hsub : ∀ w, S w → T w) : a.On T := by
  obtain ⟨w, hw, hS⟩ := h.space
  exact ⟨h.running, w, hw, hsub w hS⟩

theorem Activation.On.roomy (h : a.On S) (hroom : ∀ w, S w → w.Room max 0) : a.Roomy max := by
  obtain ⟨w, hw, hS⟩ := h.space
  exact ⟨w, hw, hroom w hS⟩

theorem Workspace.Room.zero (w : Workspace) (h : w.Room max room) : w.Room max 0 :=
  h.mono (Nat.zero_le _)

end

/-- A memory cannot be grown beyond its limit. -/
theorem Memory.expand_refused {m m' : Memory} {offset size : Nat} {e : Abort}
    (h : Memory.expand offset size m = .error e m') :
    ∀ cause, e = .fault cause → cause.isStructural = false := by
  unfold Memory.expand at h
  split at h
  · cases h
  · split at h
    · cases h
      rintro _ ⟨⟩
      rfl
    · split at h
      · cases h
      · split at h
        · cases h
          rintro _ ⟨⟩
          rfl
        · cases hfit : fit? (wordsFor (offset + size) * 32) with
          | none =>
              simp only [hfit] at h
              cases h
              rintro _ ⟨⟩
          | some newSize => simp [hfit] at h

theorem Memory.write_refused {m m' : Memory} {offset : Nat} {part : Bytes} {e : Abort}
    (h : Memory.write offset part m = .error e m') :
    ∀ cause, e = .fault cause → cause.isStructural = false := by
  unfold Memory.write at h
  split at h
  · cases h
  · cases hexpand : Memory.expand offset part.size m with
    | ok added grown => simp [hexpand] at h
    | error cause same =>
        simp only [hexpand] at h
        cases h
        exact Memory.expand_refused hexpand

namespace Exec

variable {α β : Type} {max room : Nat} {P Q R : Activation → Prop} {S : Workspace → Prop}

/-- From `P` the action ends in `Q`, or it is refused regularly. -/
def Regular (max : Nat) (P : Activation → Prop) (act : Exec α) (Q : Activation → Prop) : Prop :=
  Triple P act (fun _ => Q) (Regularly max)

namespace Regular

theorem bind {act : Exec α} {next : α → Exec β} (h : Regular max P act R)
    (hnext : ∀ r, Regular max R (next r) Q) : Regular max P (act >>= next) Q :=
  Triple.bind h hnext

theorem pure {r : α} : Regular max P (Pure.pure r : Exec α) P :=
  Triple.pure fun _ hx => hx

theorem ite {c : Prop} [Decidable c] {act other : Exec α} (h : Regular max P act Q)
    (hother : Regular max P other Q) : Regular max P (if c then act else other) Q :=
  Triple.ite (fun _ => h) fun _ => hother

/-- What remains is that the operands are within their limit. -/
theorem last {act : Exec α} (h : Regular max P act (Activation.On (Workspace.Room max room))) :
    Regular max P act (Activation.Roomy max) :=
  Triple.post h fun _ _ hx => hx.roomy Workspace.Room.zero

/-- A fault of the frame itself. -/
theorem refuse {cause : Fault} (hcause : cause.isStructural = false)
    (hroom : ∀ w, S w → w.Room max 0) :
    Regular max (Activation.On S) (Action.refuse cause : Exec α) Q := by
  refine Triple.refuse fun x hx => ⟨?_, hx.roomy hroom⟩
  rintro _ ⟨⟩
  exact hcause

/-- A condition that is refused before the rest. -/
theorem guard {c : Prop} [Decidable c] {cause : Fault} {rest : Unit → Exec α}
    (hcause : cause.isStructural = false) (hroom : ∀ w, S w → w.Room max 0)
    (h : Regular max (Activation.On S) (rest ()) Q) :
    Regular max (Activation.On S)
      (if c then (Action.refuse cause : Exec Unit) >>= rest else rest ()) Q :=
  ite ((refuse hcause hroom).bind fun _ => h) h

/-- An action that is taken only under a condition, before the rest. -/
theorem when {c : Prop} [Decidable c] {act : Exec Unit} {rest : Unit → Exec α}
    (h : Regular max P act P) (hrest : ∀ r, Regular max P (rest r) Q) :
    Regular max P (if c then act >>= rest else rest ()) Q :=
  ite (h.bind hrest) (hrest ())

/-! ### The frame -/

theorem frame : Regular max P Exec.frame P :=
  fun _ hx => hx

/-- A change that does not halt the frame. -/
theorem update {g : Frame → Frame} (h : ∀ f, f.running = true → (g f).running = true) :
    Regular max (Activation.On S) (Exec.update g) (Activation.On S) :=
  update_triple fun _ hx => ⟨h _ hx.running, hx.space⟩

theorem record_refund (amount : Nat) :
    Regular max (Activation.On S) (Exec.update (Frame.recordRefund amount)) (Activation.On S) :=
  update fun _ hf => hf

theorem set_output (data : Bytes) :
    Regular max (Activation.On S) (Exec.update (Frame.setOutput data)) (Activation.On S) :=
  update fun _ hf => hf

theorem set_last_return (data : Bytes) :
    Regular max (Activation.On S) (Exec.update (Frame.setLastReturn data)) (Activation.On S) :=
  update fun _ hf => hf

/-- The end of the frame. -/
theorem halt {g : Frame → Frame} (hroom : ∀ w, S w → w.Room max 0) :
    Regular max (Activation.On S) (Exec.update g) (Activation.Roomy max) :=
  update_triple fun _ hx => hx.roomy hroom

theorem advance (count : Nat) :
    Regular max (Activation.On S) (Exec.update (Frame.advance count)) (Activation.On S) := by
  refine update fun f hf => ?_
  unfold Frame.advance
  rw [if_pos hf]
  exact hf

/-- A number that may be no amount. -/
theorem of_checked {result : Option α} (hroom : ∀ w, S w → w.Room max 0) :
    Regular max (Activation.On S) (Action.ofChecked result) (Activation.On S) := by
  cases result with
  | some r => exact fun x hx => hx
  | none =>
      refine fun x hx => ⟨?_, hx.roomy hroom⟩
      rintro _ ⟨⟩

/-- A running frame can be charged. -/
theorem consume_gas (amount : Nat) (hroom : ∀ w, S w → w.Room max 0) :
    Regular max (Activation.On S) (Exec.consumeGas amount) (Activation.On S) := by
  rintro ⟨f, s⟩ hx
  have hf : f.running = true := hx.running
  unfold Exec.consumeGas onFrame Frame.consumeGas GasMeter.consume
  by_cases hlt : f.gas.remaining < amount
  · simp only [hf, if_true, hlt]
    refine ⟨?_, hx.roomy hroom⟩
    rintro _ ⟨⟩
    rfl
  · simp only [hf, if_true, hlt, if_false]
    exact ⟨rfl, hx.space⟩

theorem jump (dest : Nat) (hroom : ∀ w, S w → w.Room max 0) :
    Regular max (Activation.On S) (Exec.jump dest) (Activation.On S) := by
  refine frame.bind fun f => ite (update fun g hg => ?_) (refuse rfl hroom)
  unfold Frame.setPc
  rw [if_pos hg]
  exact hg

/-! ### The containers -/

/-- What an action on a container may end in: the workspace has `T` afterwards, or the cause is a
fault of the frame itself or an overflow and the operands are within their limit. -/
def Ends {σ : Type} (max : Nat) (T : Workspace → Prop) (put : σ → Workspace) :
    EStateM.Result Abort σ α → Prop
  | .ok _ t => T (put t)
  | .error e t => (∀ cause, e = .fault cause → cause.isStructural = false) ∧ (put t).Room max 0

/-- An action on the stack. -/
theorem on_stack {act : Action Stack α} {T : Workspace → Prop}
    (h : ∀ w, S w → Ends max T (fun t => { w with stack := t }) (act w.stack)) :
    Regular max (Activation.On S) (Exec.onStack act) (Activation.On T) := by
  rintro ⟨f, s⟩ ⟨hf, w, hw, hS⟩
  cases hw
  have hend := h w hS
  obtain ⟨stack, memory, storage, pending⟩ := w
  cases hact : act stack with
  | ok r t =>
      simp only [hact] at hend
      simp only [onStack, hact]
      exact ⟨hf, _, rfl, hend⟩
  | error e t =>
      simp only [hact] at hend
      simp only [onStack, hact]
      exact ⟨hend.1, _, rfl, hend.2⟩

/-- An action on the memory. -/
theorem on_memory {act : Action Memory α} {T : Workspace → Prop}
    (h : ∀ w, S w → Ends max T (fun m => { w with memory := m }) (act w.memory)) :
    Regular max (Activation.On S) (Exec.onMemory act) (Activation.On T) := by
  rintro ⟨f, s⟩ ⟨hf, w, hw, hS⟩
  cases hw
  have hend := h w hS
  obtain ⟨stack, memory, storage, pending⟩ := w
  cases hact : act memory with
  | ok r t =>
      simp only [hact] at hend
      simp only [onMemory, hact]
      exact ⟨hf, _, rfl, hend⟩
  | error e t =>
      simp only [hact] at hend
      simp only [onMemory, hact]
      exact ⟨hend.1, _, rfl, hend.2⟩

/-- An operand that is not there. -/
theorem ends_underflow {w : Workspace} {T : Workspace → Prop} (hw : w.Room max room) :
    Ends max T (fun t => { w with stack := t })
      (.error (.fault .stackUnderflow) w.stack : EStateM.Result Abort Stack α) := by
  refine ⟨?_, hw.zero⟩
  rintro _ ⟨⟩
  rfl

/-- An operand that is taken makes room for another. -/
theorem pop : Regular max (Activation.On (Workspace.Room max room)) Exec.pop
    (Activation.On (Workspace.Room max (room + 1))) := by
  refine on_stack fun w hw => ?_
  have hsize := w.stack.items.size_eq
  unfold Stack.pop
  cases hitems : w.stack.items.toList with
  | nil => exact ends_underflow hw
  | cons word rest =>
      rw [hitems, List.length_cons] at hsize
      refine ⟨hw.limit, ?_⟩
      show w.stack.items.size - 1 + (room + 1) ≤ max
      have hle := hw.size
      omega

theorem pop_amount : Regular max (Activation.On (Workspace.Room max room)) Exec.popAmount
    (Activation.On (Workspace.Room max (room + 1))) := by
  intro x hx
  have hend := pop x hx
  obtain ⟨f, _ | ⟨stack, memory, storage, pending⟩⟩ := x
  · obtain ⟨w, hw, _⟩ := hx.space
    cases hw
  · unfold Exec.pop onStack at hend
    unfold Exec.popAmount onStack Stack.popAmount
    cases hact : Stack.pop stack with
    | ok r t =>
        simp only [hact] at hend ⊢
        exact hend
    | error e t =>
        simp only [hact] at hend ⊢
        exact hend

theorem pop_many (n : Nat) : Regular max (Activation.On (Workspace.Room max room)) (Exec.popMany n)
    (Activation.On (Workspace.Room max room)) := by
  induction n with
  | zero => exact pure
  | succ n ih =>
      have hpop : Regular max (Activation.On (Workspace.Room max room)) Exec.pop
          (Activation.On (Workspace.Room max room)) :=
        Triple.post pop fun _ _ hx => hx.mono fun w hw => hw.mono (Nat.le_succ room)
      exact hpop.bind fun _ => ih.bind fun _ => pure

/-- Putting an operand on the stack needs room. -/
theorem ends_push {w : Workspace} (word : Word) (hw : w.Room max room) :
    Ends max (Workspace.Room max 0) (fun t => { w with stack := t }) (Stack.push word w.stack) := by
  unfold Stack.push
  by_cases hfull : w.stack.limit ≤ w.stack.size
  · rw [if_pos hfull]
    refine ⟨?_, hw.zero⟩
    rintro _ ⟨⟩
    rfl
  · rw [if_neg hfull]
    have hlimit := hw.limit
    refine ⟨hlimit, ?_⟩
    show w.stack.items.size + 1 + 0 ≤ max
    unfold Stack.size at hfull
    omega

theorem push (word : Word) : Regular max (Activation.On (Workspace.Room max room))
    (Exec.push word) (Activation.On (Workspace.Room max 0)) :=
  on_stack fun _ hw => ends_push word hw

theorem dup (n : Nat) : Regular max (Activation.On (Workspace.Room max room))
    (Exec.onStack (Stack.dup n)) (Activation.On (Workspace.Room max 0)) := by
  refine on_stack fun w hw => ?_
  unfold Stack.dup
  cases n with
  | zero => exact ends_underflow hw
  | succ m =>
      cases hget : w.stack.items.get? m with
      | none =>
          simp only [hget]
          exact ends_underflow hw
      | some word =>
          simp only [hget]
          exact ends_push word hw

theorem swap (n : Nat) : Regular max (Activation.On (Workspace.Room max room))
    (Exec.onStack (Stack.swap n)) (Activation.On (Workspace.Room max 0)) := by
  refine on_stack fun w hw => ?_
  obtain ⟨⟨limit, ⟨items, size, hsize⟩, copies⟩, memory, storage, pending⟩ := w
  unfold Stack.swap
  cases n with
  | zero => exact ends_underflow hw
  | succ m =>
      cases items with
      | nil => exact ends_underflow hw
      | cons top rest =>
          cases hdeep : rest[m]? with
          | none =>
              simp only [hdeep]
              exact ends_underflow hw
          | some deep =>
              simp only [hdeep]
              exact ⟨hw.limit, hw.mono (Nat.zero_le room) |>.size⟩

/-- What is read changes nothing. -/
theorem read_memory_with (g : Memory → α) :
    Regular max (Activation.On S) (Exec.onMemory (Action.read g)) (Activation.On S) := by
  rintro ⟨f, s⟩ ⟨hf, w, hw, hS⟩
  cases hw
  exact ⟨hf, w, rfl, hS⟩

theorem read_storage_with (g : Storage → α) :
    Regular max (Activation.On S) (Exec.onStorage (Action.read g)) (Activation.On S) := by
  rintro ⟨f, s⟩ ⟨hf, w, hw, hS⟩
  cases hw
  exact ⟨hf, w, rfl, hS⟩

theorem store (key value : Word) : Regular max (Activation.On (Workspace.Room max room))
    (Exec.onStorage (Action.ofTotal (Storage.store key value)))
    (Activation.On (Workspace.Room max room)) := by
  rintro ⟨f, s⟩ ⟨hf, w, hw, hroom⟩
  cases hw
  exact ⟨hf, _, rfl, hroom.limit, hroom.size⟩

/-- A memory that was grown for a region covers it. -/
theorem expand (offset size : Nat) : Regular max (Activation.On (Workspace.Room max room))
    (Exec.onMemory (Memory.expand offset size))
    (Activation.On fun w => w.Room max room ∧ w.Covers ⟨offset, size⟩) := by
  refine on_memory fun w hw => ?_
  cases hexpand : Memory.expand offset size w.memory with
  | ok added m =>
      obtain ⟨_, _, hinside⟩ := Memory.expand_cases hexpand
      exact ⟨⟨hw.limit, hw.size⟩, hinside⟩
  | error e m => exact ⟨Memory.expand_refused hexpand, hw.limit, hw.zero.size⟩

theorem write (offset : Nat) (part : Bytes) : Regular max (Activation.On (Workspace.Room max room))
    (Exec.onMemory (Memory.write offset part)) (Activation.On (Workspace.Room max room)) := by
  refine on_memory fun w hw => ?_
  cases hwrite : Memory.write offset part w.memory with
  | ok added m => exact ⟨hw.limit, hw.size⟩
  | error e m => exact ⟨Memory.write_refused hwrite, hw.limit, hw.zero.size⟩

/-- Growing the memory and paying for it. -/
theorem charge_memory (offset size : Nat) : Regular max (Activation.On (Workspace.Room max room))
    (Exec.chargeMemory offset size)
    (Activation.On fun w => w.Room max room ∧ w.Covers ⟨offset, size⟩) := by
  have hroom : ∀ w : Workspace, w.Room max room ∧ w.Covers ⟨offset, size⟩ → w.Room max 0 :=
    fun w hw => hw.1.zero
  unfold chargeMemory
  by_cases hsize : size ≠ 0
  · rw [if_pos hsize]
    refine (read_memory_with _).bind fun old => (expand offset size).bind fun _ => ?_
    refine (read_memory_with _).bind fun new => (of_checked hroom).bind fun cost => ?_
    exact consume_gas cost hroom
  · rw [if_neg hsize]
    exact Triple.pure fun x hx => hx.mono fun w hw => ⟨hw, fun h => absurd h hsize⟩

/-- Memory that is only charged for. -/
theorem grow (offset size : Nat) : Regular max (Activation.On (Workspace.Room max room))
    (Exec.chargeMemory offset size) (Activation.On (Workspace.Room max room)) :=
  Triple.post (charge_memory offset size) fun _ _ hx => hx.mono fun _ hw => hw.1

/-- Ending with an output. -/
theorem complete_return (maxCodeSize : Nat) (data : Bytes) :
    Regular max (Activation.On (Workspace.Room max room)) (Exec.completeReturn maxCodeSize data)
      (Activation.Roomy max) := by
  have hend : ∀ _ : Unit, Regular max (Activation.On (Workspace.Room max room)) (do
      Exec.update (Frame.setOutput data)
      Exec.update Frame.stop) (Activation.Roomy max) := fun _ =>
    (set_output data).bind fun _ => halt Workspace.Room.zero
  refine frame.bind fun f => ite ?_ (hend ())
  refine guard rfl Workspace.Room.zero ?_
  refine (of_checked Workspace.Room.zero).bind fun deposit => ?_
  exact (consume_gas deposit Workspace.Room.zero).bind hend

end Regular
end Exec

/-! ## Instructions -/

/-- What is known when an instruction asks the call stack for something: there is one more level
left, a creation can be paid for, and after a message or a creation there is room for one operand and
for the output. -/
def Request.Servable (env : Surroundings) (x : Activation) : Request → Prop
  | .proceed => x.Roomy env.limits.maxStackSize
  | .internal _ _ => env.depth < env.limits.maxCallDepth ∧
      x.On (Workspace.Room env.limits.maxStackSize 0)
  | .message _ _ region => env.depth < env.limits.maxCallDepth ∧
      x.On fun w => w.Room env.limits.maxStackSize 1 ∧ w.Covers region
  | .create _ _ gas => env.depth < env.limits.maxCallDepth ∧ gas ≤ x.frame.gas.remaining ∧
      x.On (Workspace.Room env.limits.maxStackSize 1)

theorem Request.Servable.roomy {env : Surroundings} {x : Activation} {request : Request}
    (h : request.Servable env x) : x.Roomy env.limits.maxStackSize := by
  cases request with
  | proceed => exact h
  | internal target gas => exact h.2.roomy Workspace.Room.zero
  | message call gas region => exact h.2.roomy fun w hw => hw.1.zero
  | create value initCode gas => exact h.2.2.roomy Workspace.Room.zero

namespace Instruction

open Exec

variable {max room : Nat}

theorem return_data_copy_regular : Regular max (Activation.On (Workspace.Room max room))
    returnDataCopy (Activation.Roomy max) := by
  refine Regular.pop_amount.bind fun dest => Regular.pop_amount.bind fun offset => ?_
  refine Regular.pop_amount.bind fun size => Regular.frame.bind fun f => ?_
  refine .guard rfl Workspace.Room.zero ?_
  refine (Regular.grow dest size).bind fun _ => ?_
  refine (Regular.consume_gas _ Workspace.Room.zero).bind fun _ => ?_
  exact .last ((Regular.write dest _).bind fun _ => .pure)

theorem storage_store_regular : Regular max (Activation.On (Workspace.Room max room)) storageStore
    (Activation.Roomy max) := by
  refine Regular.pop.bind fun key => Regular.pop.bind fun value => ?_
  refine (Regular.read_storage_with _).bind fun current => ?_
  refine (Regular.consume_gas _ Workspace.Room.zero).bind fun _ => ?_
  refine .when (.record_refund _) fun _ => ?_
  exact .last ((Regular.store key value).bind fun _ => .pure)

theorem log_regular (topics : Nat) : Regular max (Activation.On (Workspace.Room max room))
    (log topics) (Activation.Roomy max) := by
  refine Regular.pop_amount.bind fun offset => Regular.pop_amount.bind fun size => ?_
  refine (Regular.pop_many topics).bind fun words => (Regular.grow offset size).bind fun _ => ?_
  refine (Regular.of_checked Workspace.Room.zero).bind fun cost => ?_
  refine (Regular.consume_gas cost Workspace.Room.zero).bind fun _ => ?_
  refine (Regular.read_memory_with _).bind fun data => ?_
  exact .last (.update fun _ hf => hf)

theorem pop_region_regular : Regular max (Activation.On (Workspace.Room max room)) popRegion
    (Activation.On (Workspace.Room max (room + 2))) := by
  refine Regular.pop_amount.bind fun offset => Regular.pop_amount.bind fun size => ?_
  exact (Regular.grow offset size).bind fun _ => .read_memory_with _

/-- The instructions that neither call nor create. -/
theorem body_regular (limits : Limits) (pc : Nat) (immediate : Word) {op : Opcode}
    (hlocal : op.isCall = false) (hop : op ≠ .undefined) :
    Regular max (Activation.On (Workspace.Room max 0)) (body limits pc immediate op)
      (Activation.Roomy max) := by
  cases op with
  | stop => exact .halt Workspace.Room.zero
  | add | mul | sub | lt | gt | eq =>
      exact Regular.pop.bind fun _ => Regular.pop.bind fun _ => .last (.push _)
  | isZero => exact Regular.pop.bind fun _ => .last (.push _)
  | caller | callValue | callDataSize | returnDataSize | gas =>
      exact Regular.frame.bind fun _ => .last (.push _)
  | callDataLoad =>
      exact Regular.pop_amount.bind fun _ => Regular.frame.bind fun _ => .last (.push _)
  | returnDataCopy => exact return_data_copy_regular
  | pop => exact .last (Regular.pop.bind fun _ => .pure)
  | mload =>
      refine Regular.pop_amount.bind fun offset => (Regular.grow offset 32).bind fun _ => ?_
      exact (Regular.read_memory_with _).bind fun _ => .last (.push _)
  | mstore | mstore8 =>
      refine Regular.pop_amount.bind fun offset => Regular.pop.bind fun value => ?_
      refine (Regular.grow offset _).bind fun _ => ?_
      exact .last ((Regular.write offset _).bind fun _ => .pure)
  | sload =>
      exact Regular.pop.bind fun key => (Regular.read_storage_with _).bind fun _ => .last (.push _)
  | sstore => exact storage_store_regular
  | jump => exact Regular.pop_amount.bind fun dest => .last (.jump dest Workspace.Room.zero)
  | jumpIf =>
      refine Regular.pop_amount.bind fun dest => Regular.pop.bind fun condition => ?_
      exact .last (.ite (.jump dest Workspace.Room.zero) .pure)
  | pc | push => exact .last (.push _)
  | msize => exact (Regular.read_memory_with _).bind fun _ => .last (.push _)
  | jumpDest => exact .last .pure
  | dup n => exact .last (.dup n)
  | swap n => exact .last (.swap n)
  | log topics => exact log_regular topics
  | returnInternal =>
      refine Regular.frame.bind fun f => .ite (.halt Workspace.Room.zero) ?_
      exact .refuse rfl Workspace.Room.zero
  | ret => exact pop_region_regular.bind fun data => .complete_return _ data
  | revert => exact pop_region_regular.bind fun data => .halt Workspace.Room.zero
  | invalid => exact .refuse rfl Workspace.Room.zero
  | callInternal | call | staticCall | create => simp [Opcode.isCall] at hlocal
  | undefined => exact absurd rfl hop

variable {env : Surroundings} {S : Workspace → Prop}

/-- A condition that is refused before the rest. -/
theorem guard_servable {c : Prop} [Decidable c] {cause : Fault} {rest : Unit → Exec Request}
    (hcause : cause.isStructural = false) (hroom : ∀ w, S w → w.Room env.limits.maxStackSize 0)
    (hrest : ¬c → Triple (Activation.On S) (rest ()) (fun request x => request.Servable env x)
      (Regularly env.limits.maxStackSize)) :
    Triple (Activation.On S) (if c then (Action.refuse cause : Exec Unit) >>= rest else rest ())
      (fun request x => request.Servable env x) (Regularly env.limits.maxStackSize) := by
  refine .guard (fun _ x hx => ⟨?_, hx.roomy hroom⟩) hrest
  rintro _ ⟨⟩
  exact hcause

/-- An internal call is asked for only if there is a level left. -/
theorem request_internal_servable :
    Triple (Activation.On (Workspace.Room env.limits.maxStackSize room)) (requestInternal env)
      (fun request x => request.Servable env x) (Regularly env.limits.maxStackSize) := by
  refine Triple.bind Regular.pop_amount fun target => ?_
  refine Triple.bind Regular.pop_amount fun requested => ?_
  refine Triple.bind (Regular.advance 1) fun _ => Triple.bind Regular.frame fun f => ?_
  refine guard_servable rfl Workspace.Room.zero fun _ => ?_
  refine guard_servable rfl Workspace.Room.zero fun hdepth => ?_
  refine Triple.bind (Regular.consume_gas _ Workspace.Room.zero) fun _ => ?_
  exact .pure fun x hx => ⟨Nat.lt_of_not_le hdepth, hx.mono Workspace.Room.zero⟩

/-- At the depth limit a message or a creation fails at once. -/
theorem full_servable (hroom : ∀ w, S w → w.Room env.limits.maxStackSize room)
    {rest : Exec Request}
    (hrest : env.depth < env.limits.maxCallDepth → Triple (Activation.On S) rest
      (fun request x => request.Servable env x) (Regularly env.limits.maxStackSize)) :
    Triple (Activation.On S)
      (if env.limits.maxCallDepth ≤ env.depth then (do push 0; return Request.proceed) else rest)
      (fun request x => request.Servable env x) (Regularly env.limits.maxStackSize) := by
  refine .ite (fun _ => ?_) fun hdepth => hrest (Nat.lt_of_not_le hdepth)
  refine Triple.bind (Triple.pre (Regular.push 0) fun x hx => hx.mono hroom) fun _ => ?_
  exact .pure fun x hx => hx.roomy Workspace.Room.zero

/-- A message is asked for only if there is a level left. More operands were taken than its result
needs, and the region for its output was paid for. -/
theorem request_message_servable (withValue : Bool) :
    Triple (Activation.On (Workspace.Room env.limits.maxStackSize room))
      (requestMessage env withValue) (fun request x => request.Servable env x)
      (Regularly env.limits.maxStackSize) := by
  refine Triple.bind Regular.pop_amount fun requested => Triple.bind Regular.pop fun callee => ?_
  refine .choose (R := fun _ => Activation.On (Workspace.Room env.limits.maxStackSize (room + 2)))
    (fun _ => Triple.post Regular.pop fun _ _ hx => ?_) (fun _ => .pure fun _ hx => hx)
    fun value => ?_
  · exact hx.mono fun _ hw => hw.mono (Nat.le_succ _)
  refine Triple.bind Regular.pop_amount fun argsOffset => ?_
  refine Triple.bind Regular.pop_amount fun argsSize => ?_
  refine Triple.bind Regular.pop_amount fun retOffset => ?_
  refine Triple.bind Regular.pop_amount fun retSize => ?_
  refine Triple.bind (Regular.advance 1) fun _ => Triple.bind Regular.frame fun f => ?_
  refine guard_servable rfl Workspace.Room.zero fun _ => ?_
  refine Triple.bind (Regular.grow argsOffset argsSize) fun _ => ?_
  refine Triple.bind (Regular.charge_memory retOffset retSize) fun _ => ?_
  have hzero : ∀ w : Workspace, w.Room env.limits.maxStackSize (room + 6) ∧
      w.Covers ⟨retOffset, retSize⟩ → w.Room env.limits.maxStackSize 0 := fun w hw => hw.1.zero
  refine .when (fun _ => Regular.consume_gas Gas.callValue hzero) (fun _ _ hx => hx) fun _ => ?_
  refine Triple.bind (Regular.set_last_return ByteArray.empty) fun _ => ?_
  refine full_servable (fun w hw => hw.1) fun hdepth => ?_
  refine Triple.bind Regular.frame fun f => Triple.bind (Regular.consume_gas _ hzero) fun _ => ?_
  refine Triple.bind (Regular.read_memory_with _) fun input => Triple.bind Regular.frame fun f => ?_
  exact .pure fun x hx => ⟨hdepth, hx.mono fun w hw => ⟨hw.1.mono (by omega), hw.2⟩⟩

/-- A creation is asked for only if there is a level left, and never for more gas than there is. -/
theorem request_create_servable :
    Triple (Activation.On (Workspace.Room env.limits.maxStackSize room)) (requestCreate env)
      (fun request x => request.Servable env x) (Regularly env.limits.maxStackSize) := by
  refine Triple.bind Regular.pop fun value => Triple.bind Regular.pop_amount fun offset => ?_
  refine Triple.bind Regular.pop_amount fun size => Triple.bind (Regular.advance 1) fun _ => ?_
  refine guard_servable rfl Workspace.Room.zero fun _ => ?_
  refine Triple.bind (Regular.grow offset size) fun _ => ?_
  refine Triple.bind (Regular.consume_gas _ Workspace.Room.zero) fun _ => ?_
  refine Triple.bind (Regular.set_last_return ByteArray.empty) fun _ => ?_
  refine full_servable (fun w hw => hw) fun hdepth => ?_
  refine Triple.bind (Regular.read_memory_with _) fun initCode => Triple.bind frame_triple fun f => ?_
  refine .pure fun x hx => ⟨hdepth, ?_, hx.1.mono fun w hw => hw.mono (by omega)⟩
  rw [hx.2, Gas.forwarded]
  omega

/-- No instruction raises a fault of another kind. -/
theorem fetch_regular (env : Surroundings) :
    Triple (Activation.On (Workspace.Room env.limits.maxStackSize 0)) (fetchAndDispatch env)
      (fun request x => request.Servable env x) (Regularly env.limits.maxStackSize) := by
  have hlocal : ∀ {op : Opcode}, op.isCall = false → op ≠ .undefined →
      Triple (Activation.On (Workspace.Room env.limits.maxStackSize 0))
        (do executeLocal env.limits op; return Request.proceed)
        (fun request x => request.Servable env x) (Regularly env.limits.maxStackSize) := by
    intro op hcall hop
    refine Triple.bind (R := fun _ => Activation.Roomy env.limits.maxStackSize) ?_
      fun _ => .pure fun x hx => hx
    refine Triple.bind Regular.frame fun f => Triple.bind Regular.frame fun g => ?_
    refine Triple.bind (Regular.of_checked Workspace.Room.zero) fun immediate => ?_
    exact Triple.bind (Regular.advance _) fun _ => body_regular _ _ immediate hcall hop
  have hdispatch : ∀ {op : Opcode}, op ≠ .undefined →
      Triple (Activation.On (Workspace.Room env.limits.maxStackSize 0)) (dispatch env op)
        (fun request x => request.Servable env x) (Regularly env.limits.maxStackSize) := by
    intro op hop
    cases op with
    | callInternal => exact request_internal_servable
    | call => exact request_message_servable true
    | staticCall => exact request_message_servable false
    | create => exact request_create_servable
    | _ => exact hlocal rfl hop
  have hrefuse : ∀ {cause : Fault}, cause.isStructural = false →
      Triple (Activation.On (Workspace.Room env.limits.maxStackSize 0))
        (Action.refuse cause : Exec Request) (fun request x => request.Servable env x)
        (Regularly env.limits.maxStackSize) := by
    intro cause hcause
    refine .refuse fun x hx => ⟨?_, hx.roomy Workspace.Room.zero⟩
    rintro _ ⟨⟩
    exact hcause
  refine Triple.bind Regular.frame fun f => ?_
  -- What is no instruction is met before any gas is paid.
  cases hop : f.currentOp with
  | undefined =>
      refine Triple.bind Regular.frame fun g => ?_
      split
      · refine Triple.bind (Regular.halt Workspace.Room.zero) fun _ => .pure fun x hx => hx
      · exact hrefuse rfl
  | _ =>
      refine Triple.bind Regular.frame fun g => .ite (fun _ => hrefuse rfl) fun _ => ?_
      refine Triple.bind (Regular.consume_gas _ Workspace.Room.zero) fun _ => ?_
      exact hdispatch (by simp)

end Instruction

/-! ## Results of children -/

/-- A write inside the memory is not refused, and changes no other bytes. -/
theorem Memory.write_inside {m : Memory} {offset : Nat} {part : Bytes}
    (h : part.size ≠ 0 → offset + part.size ≤ m.data.size ∧ offset + part.size ≤ maxAmount) :
    ∃ m', Memory.write offset part m = .ok 0 m' ∧ m'.data.size = m.data.size ∧
      ∀ i : Nat, m'.data.data[i]? =
        if offset ≤ i ∧ i < offset + part.size then part.data[i - offset]? else m.data.data[i]? := by
  unfold Memory.write
  by_cases hempty : part.size = 0
  · rw [if_pos hempty]
    refine ⟨m, rfl, rfl, fun i => ?_⟩
    rw [if_neg (by omega)]
  · obtain ⟨hinside, hend⟩ := h hempty
    have hexpand : Memory.expand offset part.size m = .ok 0 m := by
      rw [Memory.expand, if_neg hempty, if_neg (Nat.not_lt.2 hend)]
      exact if_pos hinside
    rw [if_neg hempty, hexpand]
    exact ⟨_, rfl, Bytes.size_splice hinside, Bytes.get_splice hinside⟩

/-- The memory becomes `m'` when as much of the data is written to the region as fits. -/
structure Memory.Receives (region : Region) (data : Bytes) (m m' : Memory) : Prop where
  size : m'.data.size = m.data.size
  get : ∀ i : Nat, m'.data.data[i]? =
    if region.offset ≤ i ∧ i < region.offset + min region.size data.size
    then data.data[i - region.offset]? else m.data.data[i]?

/-- The frame can go on when the child is finished: its result is staged, and after a message or a
creation there is room for it. -/
structure Activation.Awaits (max : Nat) (result : FinishedCall) (x : Activation) : Prop where
  on : x.On (Workspace.Room max 0)
  staged : x.frame.staged ≠ .empty
  region : ∀ region data, x.frame.staged = .returned region data → region = result.returnRegion
  ready : result.kind ≠ .internal → x.On fun w => w.Room max 1 ∧ w.Covers result.returnRegion

namespace Exec

variable {max : Nat}

/-- Where there is room an operand is not refused. -/
theorem push_room (word : Word) : Triple (Activation.On (Workspace.Room max 1)) (Exec.push word)
    (fun _ => Activation.Roomy max) fun _ _ => False := by
  rintro ⟨f, s⟩ ⟨hf, w, hw, hroom⟩
  cases hw
  obtain ⟨⟨limit, items, copies⟩, memory, storage, pending⟩ := w
  have hlimit : limit = max := hroom.limit
  have hsize : items.size + 1 ≤ max := hroom.size
  have hfree : ¬limit ≤ Stack.size ⟨limit, items, copies⟩ := by
    show ¬limit ≤ items.size
    omega
  simp only [Exec.push, onStack, Stack.push, if_neg hfree]
  exact ⟨_, rfl, hlimit, hsize⟩

/-- A running frame pays what it has. -/
theorem pay_room (amount : Nat) {S : Workspace → Prop} :
    Triple (fun x => amount ≤ x.frame.gas.remaining ∧ x.On S) (Exec.consumeGas amount)
      (fun _ => Activation.On S) fun _ _ => False := by
  rintro ⟨f, s⟩ ⟨hgas, hf, hspace⟩
  have hrunning : f.running = true := hf
  have henough : ¬f.gas.remaining < amount := Nat.not_lt.2 hgas
  unfold Exec.consumeGas onFrame Frame.consumeGas GasMeter.consume
  simp only [hrunning, if_true, henough, if_false]
  exact ⟨rfl, hspace⟩

/-- What is copied into a region inside the memory is not refused either. -/
theorem copy_output_inside {region : Region} (data : Bytes) {f : Frame} {w : Workspace}
    (h : w.Covers region) :
    ∃ m, copyOutput region data ⟨f, some w⟩ = .ok () ⟨f, some { w with memory := m }⟩ ∧
      Memory.Receives region data w.memory m := by
  obtain ⟨stack, memory, storage, pending⟩ := w
  have hsize : (data.takeFirst region.size).size = min region.size data.size :=
    Bytes.size_take_first data region.size
  have hinside : (data.takeFirst region.size).size ≠ 0 →
      region.offset + (data.takeFirst region.size).size ≤ memory.data.size ∧
        region.offset + (data.takeFirst region.size).size ≤ maxAmount := by
    intro hpart
    have hcovers := h (by omega)
    have hinside : region.offset + region.size ≤ memory.data.size := hcovers.1
    have hend := hcovers.2
    omega
  obtain ⟨m, hwrite, hkept, hget⟩ := Memory.write_inside hinside
  have hdone : Exec.onMemory (Memory.write region.offset (data.takeFirst region.size))
      ⟨f, some ⟨stack, memory, storage, pending⟩⟩ =
        .ok 0 ⟨f, some ⟨stack, m, storage, pending⟩⟩ := by
    simp only [onMemory, hwrite]
  refine ⟨m, ?_, hkept, fun i => ?_⟩
  · rw [copyOutput, Action.bind_ok hdone]
    rfl
  · rw [hget, hsize]
    split
    · rw [Bytes.get_take_first, if_pos (by omega)]
    · rfl

theorem copy_room (region : Region) (data : Bytes) :
    Triple (Activation.On fun w => w.Room max 1 ∧ w.Covers region) (copyOutput region data)
      (fun _ => Activation.On (Workspace.Room max 1)) fun _ _ => False := by
  rintro ⟨f, s⟩ ⟨hf, w, hw, hroom, hcovers⟩
  cases hw
  obtain ⟨m, hdone, _⟩ := copy_output_inside data (f := f) hcovers
  rw [hdone]
  exact ⟨hf, _, rfl, hroom.limit, hroom.size⟩

/-- Taking up the result of a child. After a message or a creation it is not refused. -/
theorem resume_regular (limits : Limits) (result : FinishedCall) :
    Triple (Activation.Awaits max result) (Exec.resume limits result) (fun _ => Activation.Roomy max)
      fun e x => result.kind = .internal ∧ Regularly max e x := by
  obtain ⟨kind, address, success, exitsCall, region⟩ := result
  -- After an internal call only the size of the stack is known, so that taking up its result may fail;
  -- after any other child there is room, and nothing may.
  let P (x : Activation) : Prop := x.On (Workspace.Room max 0) ∧
    (kind ≠ .internal → x.On fun w => w.Room max 1 ∧ w.Covers region)
  let E (e : Abort) (x : Activation) : Prop := kind = .internal ∧ Regularly max e x
  have hinternal : ∀ {act : Exec Unit}, kind = .internal →
      Regular max (Activation.On (Workspace.Room max 0)) act (Activation.Roomy max) →
      Triple P act (fun _ => Activation.Roomy max) E := fun hkind h =>
    Triple.weaken h (fun x hx => hx.1) (fun _ _ hx => hx) fun e x he => ⟨hkind, he⟩
  have hown : ∀ {act : Exec Unit}, kind ≠ .internal →
      Triple (Activation.On fun w => w.Room max 1 ∧ w.Covers region) act
        (fun _ => Activation.Roomy max) (fun _ _ => False) →
      Triple P act (fun _ => Activation.Roomy max) E := fun hkind h =>
    h.weaken (fun x hx => hx.2 hkind) (fun _ _ hx => hx) fun _ _ he => he.elim
  have hlast : ∀ (S : Workspace → Prop) (data : Bytes), Triple (Activation.On S)
      (Exec.update (Frame.setLastReturn data)) (fun _ => Activation.On S) fun _ _ => False :=
    fun S data => update_triple fun x hx => ⟨hx.running, hx.space⟩
  have hpush : ∀ word, Triple (Activation.On fun w => w.Room max 1 ∧ w.Covers region)
      (Exec.push word) (fun _ => Activation.Roomy max) fun _ _ => False := fun word =>
    (push_room word).pre fun x hx => hx.mono fun w hw => hw.1
  refine Triple.bind (R := fun staged x => (staged ≠ .empty ∧
      ∀ aim data, staged = .returned aim data → aim = region) ∧ P x) ?_
    fun staged => .assume fun hstaged => ?_
  · intro x hx
    have hready := hx.ready
    exact ⟨⟨hx.staged, hx.region⟩, ⟨hx.on.running, hx.on.space⟩,
      fun hkind => ⟨(hready hkind).running, (hready hkind).space⟩⟩
  cases staged with
  | empty => exact absurd rfl hstaged.1
  | returned aim data =>
      cases hstaged.2 aim data rfl
      cases kind with
      | internal => exact hinternal rfl (.ite (.complete_return _ data) (.last .pure))
      | create => exact hown (by simp) (hpush _)
      | external | static =>
          refine hown (by simp) ((copy_room region data).bind fun _ => ?_)
          exact (hlast _ data).bind fun _ => push_room _
  | reverted reason data =>
      cases kind with
      | internal =>
          refine hinternal rfl ((Regular.set_output data).bind fun _ => ?_)
          exact .refuse rfl Workspace.Room.zero
      | create => exact hown (by simp) ((hlast _ data).bind fun _ => hpush _)
      | external | static =>
          refine hown (by simp) ((copy_room region data).bind fun _ => ?_)
          exact (hlast _ data).bind fun _ => push_room _

end Exec
end CallTree
