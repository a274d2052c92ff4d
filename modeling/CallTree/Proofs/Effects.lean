import Mathlib.Logic.Relation
import CallTree.Interpreter.Run

/-!
# What an instruction can touch

An activation has parts: the gas, the program counter, the operands and so on. `Touch` lists every
way in which a single part is ever changed while an instruction runs or a finished call is taken
up. `Exec.Within` says that an action does not go beyond some parts, whether it is completed or
refused half-way, and there is one lemma on it for every way to put actions together.

Whatever holds of every single touch thus holds of every instruction, by induction on the touches.
-/

namespace CallTree

namespace Action

variable {σ α β : Type}

/-- The state that an action leaves behind, whether it succeeds or not. -/
def after (act : Action σ α) (s : σ) : σ :=
  match act s with
  | .ok _ s => s
  | .error _ s => s

theorem after_ok {act : Action σ α} {s t : σ} {r : α} (h : act s = .ok r t) : act.after s = t := by
  simp [after, h]

theorem after_error {act : Action σ α} {s t : σ} {e : Abort} (h : act s = .error e t) :
    act.after s = t := by
  simp [after, h]

/-- One action after another: the first one succeeds. -/
theorem bind_ok {act : Action σ α} {next : α → Action σ β} {s t : σ} {r : α}
    (h : act s = .ok r t) : (act >>= next) s = next r t := by
  show EStateM.bind act next s = next r t
  simp [EStateM.bind, h]

/-- One action after another: the first one is refused. -/
theorem bind_error {act : Action σ α} {next : α → Action σ β} {s t : σ} {e : Abort}
    (h : act s = .error e t) : (act >>= next) s = .error e t := by
  show EStateM.bind act next s = .error e t
  simp [EStateM.bind, h]

end Action

/-- The parts of an activation that can change on their own. -/
inductive Part
  | gas
  | pc
  | stack
  | memory
  | slots
  | refunds
  | logs
  | output
  | verdict
  | lastReturn
  | staged
deriving DecidableEq

/-- A change to one part of an activation. -/
inductive Touch : Part → Activation → Activation → Prop
  | gas {f : Frame} {s : Option Workspace} {amount : Nat} (hrunning : f.running = true)
      (hle : amount ≤ f.gas.remaining) :
      Touch .gas ⟨f, s⟩
        ⟨{ f with gas := { f.gas with
            remaining := f.gas.remaining - amount, used := satAdd f.gas.used amount } }, s⟩
  | pc {f : Frame} {s : Option Workspace} (pc : Nat) : Touch .pc ⟨f, s⟩ ⟨{ f with pc := pc }, s⟩
  | stack {f : Frame} {w : Workspace} (items : Pile Word) :
      Touch .stack ⟨f, some w⟩ ⟨f, some { w with stack.items := items }⟩
  | expand {f : Frame} {w : Workspace} {offset size added : Nat} {m : Memory}
      (h : Memory.expand offset size w.memory = .ok added m) :
      Touch .memory ⟨f, some w⟩ ⟨f, some { w with memory := m }⟩
  | write {f : Frame} {w : Workspace} {offset added : Nat} {part : Bytes} {m : Memory}
      (h : Memory.write offset part w.memory = .ok added m) :
      Touch .memory ⟨f, some w⟩ ⟨f, some { w with memory := m }⟩
  | slots {f : Frame} {w : Workspace} (key value : Word) :
      Touch .slots ⟨f, some w⟩ ⟨f, some { w with storage := (w.storage.store key value).2 }⟩
  | refunds {f : Frame} {s : Option Workspace} (amount : Nat) :
      Touch .refunds ⟨f, s⟩ ⟨f.recordRefund amount, s⟩
  | logs {f : Frame} {s : Option Workspace} (entry : LogEntry) :
      Touch .logs ⟨f, s⟩ ⟨f.addLog entry, s⟩
  | output {f : Frame} {s : Option Workspace} (data : Bytes) :
      Touch .output ⟨f, s⟩ ⟨f.setOutput data, s⟩
  | verdict {f : Frame} {s : Option Workspace} (verdict : Verdict) (exitsCall : Bool) :
      Touch .verdict ⟨f, s⟩
        ⟨{ f with verdict := verdict, exitsCall := exitsCall, running := false }, s⟩
  | lastReturn {f : Frame} {s : Option Workspace} (data : Bytes) :
      Touch .lastReturn ⟨f, s⟩ ⟨f.setLastReturn data, s⟩
  | staged {f : Frame} {s : Option Workspace} :
      Touch .staged ⟨f, s⟩ ⟨{ f with staged := .empty }, s⟩

/-- Any number of changes to the given parts. -/
def Touches (parts : List Part) : Activation → Activation → Prop :=
  Relation.ReflTransGen fun a b => ∃ part ∈ parts, Touch part a b

/-- The action changes nothing but the given parts, whether it succeeds or not. -/
def Exec.Within {α : Type} (parts : List Part) (act : Exec α) : Prop :=
  ∀ a : Activation, Touches parts a (Action.after act a)

namespace Exec.Within

variable {α β : Type} {parts : List Part}

/-- An action that leaves the activation alone. -/
theorem of_same {act : Exec α} (h : ∀ a, Action.after act a = a) : Within parts act := by
  intro a
  rw [h a]
  exact .refl

/-- A single touch. -/
theorem of_touch {act : Exec α} {part : Part} (hpart : part ∈ parts)
    (h : ∀ a, Action.after act a = a ∨ Touch part a (Action.after act a)) : Within parts act := by
  intro a
  rcases h a with hsame | htouch
  · rw [hsame]
    exact .refl
  · exact .single ⟨part, hpart, htouch⟩

/-- One action after another. If the first is refused the second does not take place. -/
theorem bind {act : Exec α} {next : α → Exec β} (h : Within parts act)
    (hnext : ∀ r, Within parts (next r)) : Within parts (act >>= next) := by
  intro a
  have hfirst := h a
  cases hact : act a with
  | error e b =>
      rw [Action.after_error hact] at hfirst
      rw [Action.after_error (Action.bind_error hact)]
      exact hfirst
  | ok r b =>
      rw [Action.after_ok hact] at hfirst
      have hafter : Action.after (act >>= next) a = Action.after (next r) b := by
        rw [Action.after, Action.after, Action.bind_ok hact]
      rw [hafter]
      exact hfirst.trans (hnext r b)

theorem pure (r : α) : Within parts (Pure.pure r : Exec α) :=
  of_same fun _ => rfl

/-- A refusal touches nothing. -/
theorem refuse (cause : Fault) : Within parts (Action.refuse cause : Exec α) :=
  of_same fun _ => rfl

/-- An overflow touches nothing. -/
theorem of_checked (result : Option α) : Within parts (Action.ofChecked result : Exec α) := by
  refine of_same fun a => ?_
  cases result <;> rfl

theorem frame : Within parts Exec.frame :=
  of_same fun _ => rfl

theorem ite {c : Prop} [Decidable c] {act other : Exec α} (h : Within parts act)
    (hother : Within parts other) : Within parts (if c then act else other) := by
  split
  · exact h
  · exact hother

/-- An action that is taken only under a condition, before the rest. -/
theorem when {c : Prop} [Decidable c] {act : Exec Unit} {rest : Unit → Exec α}
    (h : Within parts act) (hrest : ∀ r, Within parts (rest r)) :
    Within parts (if c then act >>= rest else rest ()) :=
  ite (h.bind hrest) (hrest ())

/-! ## The frame -/

/-- Debiting gas touches the gas. -/
theorem consume_gas (hgas : Part.gas ∈ parts) (amount : Nat) :
    Within parts (Exec.consumeGas amount) := by
  refine of_touch hgas fun a => ?_
  obtain ⟨f, s⟩ := a
  by_cases hrun : f.running = true
  · by_cases hlt : f.gas.remaining < amount
    · refine .inl ?_
      simp [Action.after, Exec.consumeGas, onFrame, Frame.consumeGas, GasMeter.consume, hrun, hlt]
    · refine .inr ?_
      simpa [Action.after, Exec.consumeGas, onFrame, Frame.consumeGas, GasMeter.consume, hrun, hlt]
        using Touch.gas hrun (Nat.le_of_not_lt hlt)
  · refine .inl ?_
    simp [Action.after, Exec.consumeGas, onFrame, Frame.consumeGas, hrun]

/-- Moving on touches the program counter. -/
theorem advance (hpc : Part.pc ∈ parts) (count : Nat) :
    Within parts (Exec.update (Frame.advance count)) := by
  refine of_touch hpc fun a => ?_
  obtain ⟨f, s⟩ := a
  show Activation.mk (f.advance count) s = ⟨f, s⟩ ∨ Touch .pc ⟨f, s⟩ ⟨f.advance count, s⟩
  unfold Frame.advance
  split
  · exact .inr (.pc _)
  · exact .inl rfl

/-- Jumping touches the program counter. -/
theorem jump (hpc : Part.pc ∈ parts) (dest : Nat) : Within parts (Exec.jump dest) := by
  refine frame.bind fun f => ite ?_ (refuse _)
  refine of_touch hpc fun a => ?_
  obtain ⟨f, s⟩ := a
  show Activation.mk (f.setPc dest) s = ⟨f, s⟩ ∨ Touch .pc ⟨f, s⟩ ⟨f.setPc dest, s⟩
  unfold Frame.setPc
  split
  · exact .inr (.pc _)
  · exact .inl rfl

/-- Ending normally touches the verdict. -/
theorem stop (hverdict : Part.verdict ∈ parts) : Within parts (Exec.update Frame.stop) := by
  refine of_touch hverdict fun a => .inr ?_
  obtain ⟨f, s⟩ := a
  by_cases hkind : f.call.kind = .internal
  · simpa [Action.after, Exec.update, Frame.stop, Frame.markSuccess, Frame.halt, hkind]
      using Touch.verdict f.verdict.succeed true
  · simpa [Action.after, Exec.update, Frame.stop, Frame.markSuccess, Frame.halt, hkind]
      using Touch.verdict f.verdict.succeed f.exitsCall

theorem set_output (houtput : Part.output ∈ parts) (data : Bytes) :
    Within parts (Exec.update (Frame.setOutput data)) :=
  of_touch houtput fun _ => .inr (.output data)

theorem set_last_return (hlast : Part.lastReturn ∈ parts) (data : Bytes) :
    Within parts (Exec.update (Frame.setLastReturn data)) :=
  of_touch hlast fun _ => .inr (.lastReturn data)

/-! ## The containers -/

/-- An action on the stack that changes only its items. -/
theorem on_stack (hstack : Part.stack ∈ parts) {act : Action Stack α}
    (h : ∀ s : Stack, Action.after act s = { s with items := (Action.after act s).items }) :
    Within parts (Exec.onStack act) := by
  refine of_touch hstack fun a => ?_
  obtain ⟨f, _ | ⟨stack, memory, storage, pending⟩⟩ := a
  · exact .inl rfl
  · have hstep := h stack
    have hafter : Action.after (Exec.onStack act) ⟨f, some ⟨stack, memory, storage, pending⟩⟩ =
        ⟨f, some ⟨Action.after act stack, memory, storage, pending⟩⟩ := by
      cases hact : act stack <;> simp [Action.after, Exec.onStack, hact]
    rw [hafter, hstep]
    exact .inr (.stack _)

theorem push (hstack : Part.stack ∈ parts) (word : Word) : Within parts (Exec.push word) := by
  refine on_stack hstack fun s => ?_
  by_cases hfull : s.limit ≤ s.size <;> simp [Action.after, Stack.push, hfull]

theorem pop (hstack : Part.stack ∈ parts) : Within parts Exec.pop := by
  refine on_stack hstack fun s => ?_
  cases hitems : s.items.toList <;> simp [Action.after, Stack.pop, hitems]

theorem pop_amount (hstack : Part.stack ∈ parts) : Within parts Exec.popAmount := by
  refine on_stack hstack fun s => ?_
  cases hitems : s.items.toList <;> simp [Action.after, Stack.popAmount, Stack.pop, hitems]

theorem pop_many (hstack : Part.stack ∈ parts) (n : Nat) : Within parts (Exec.popMany n) := by
  induction n with
  | zero => exact pure []
  | succ n ih => exact (pop hstack).bind fun _ => ih.bind fun _ => pure _

theorem dup (hstack : Part.stack ∈ parts) (n : Nat) :
    Within parts (Exec.onStack (Stack.dup n)) := by
  refine on_stack hstack fun s => ?_
  cases n with
  | zero => rfl
  | succ m =>
      cases hget : s.items.get? m with
      | none => simp [Action.after, Stack.dup, hget]
      | some w =>
          by_cases hfull : s.limit ≤ s.size <;>
            simp [Action.after, Stack.dup, Stack.push, hget, hfull]

theorem swap (hstack : Part.stack ∈ parts) (n : Nat) :
    Within parts (Exec.onStack (Stack.swap n)) := by
  refine on_stack hstack fun s => ?_
  obtain ⟨limit, ⟨items, size, hsize⟩, copies⟩ := s
  rcases n with _ | m
  · rfl
  · rcases items with _ | ⟨top, rest⟩
    · rfl
    · cases hget : rest[m]? <;> simp [Action.after, Stack.swap, hget]

/-- Reading a container touches nothing. -/
theorem read_memory_with (g : Memory → α) : Within parts (Exec.onMemory (Action.read g)) := by
  refine of_same fun a => ?_
  obtain ⟨f, _ | w⟩ := a <;> rfl

theorem read_storage_with (g : Storage → α) : Within parts (Exec.onStorage (Action.read g)) := by
  refine of_same fun a => ?_
  obtain ⟨f, _ | w⟩ := a <;> rfl

/-- A refused growth changes nothing. -/
theorem expand_error {offset size : Nat} {m m' : Memory} {e : Abort}
    (h : Memory.expand offset size m = .error e m') : m' = m := by
  unfold Memory.expand at h
  split at h
  · cases h
  · split at h
    · cases h
      rfl
    · split at h
      · cases h
      · split at h
        · cases h
          rfl
        · cases hfit : fit? (wordsFor (offset + size) * 32) with
          | none =>
              simp only [hfit] at h
              cases h
              rfl
          | some newSize => simp [hfit] at h

/-- A refused write changes nothing. -/
theorem write_error {offset : Nat} {part : Bytes} {m m' : Memory} {e : Abort}
    (h : Memory.write offset part m = .error e m') : m' = m := by
  unfold Memory.write at h
  split at h
  · cases h
  · cases hexpand : Memory.expand offset part.size m with
    | ok added grown => simp [hexpand] at h
    | error cause same =>
        simp only [hexpand] at h
        cases h
        exact expand_error hexpand

theorem expand (hmemory : Part.memory ∈ parts) (offset size : Nat) :
    Within parts (Exec.onMemory (Memory.expand offset size)) := by
  refine of_touch hmemory fun a => ?_
  obtain ⟨f, _ | ⟨stack, memory, storage, pending⟩⟩ := a
  · exact .inl rfl
  · cases h : Memory.expand offset size memory with
    | ok added m =>
        refine .inr ?_
        simpa [Action.after, Exec.onMemory, h] using
          Touch.expand (w := ⟨stack, memory, storage, pending⟩) h
    | error e m =>
        refine .inl ?_
        simp [Action.after, Exec.onMemory, h, expand_error h]

theorem write (hmemory : Part.memory ∈ parts) (offset : Nat) (part : Bytes) :
    Within parts (Exec.onMemory (Memory.write offset part)) := by
  refine of_touch hmemory fun a => ?_
  obtain ⟨f, _ | ⟨stack, memory, storage, pending⟩⟩ := a
  · exact .inl rfl
  · cases h : Memory.write offset part memory with
    | ok added m =>
        refine .inr ?_
        simpa [Action.after, Exec.onMemory, h] using
          Touch.write (w := ⟨stack, memory, storage, pending⟩) h
    | error e m =>
        refine .inl ?_
        simp [Action.after, Exec.onMemory, h, write_error h]

theorem store (hslots : Part.slots ∈ parts) (key value : Word) :
    Within parts (Exec.onStorage (Action.ofTotal (Storage.store key value))) := by
  refine of_touch hslots fun a => ?_
  obtain ⟨f, _ | w⟩ := a
  · exact .inl rfl
  · exact .inr (.slots key value)

/-- Growing the memory and paying for it. -/
theorem charge_memory (hmemory : Part.memory ∈ parts) (hgas : Part.gas ∈ parts)
    (offset size : Nat) : Within parts (Exec.chargeMemory offset size) := by
  refine ite ?_ (pure _)
  refine (read_memory_with _).bind fun old => (expand hmemory offset size).bind fun _ => ?_
  refine (read_memory_with _).bind fun new => (of_checked _).bind fun cost => ?_
  exact consume_gas hgas cost

/-- Ending with an output. -/
theorem complete_return (hgas : Part.gas ∈ parts) (houtput : Part.output ∈ parts)
    (hverdict : Part.verdict ∈ parts) (maxCodeSize : Nat) (data : Bytes) :
    Within parts (Exec.completeReturn maxCodeSize data) := by
  have hend : ∀ _ : Unit, Within parts (do
      Exec.update (Frame.setOutput data)
      Exec.update Frame.stop) := fun _ => (set_output houtput data).bind fun _ => stop hverdict
  refine frame.bind fun f => ite ?_ (hend ())
  refine when (refuse _) fun _ => ?_
  exact (of_checked _).bind fun deposit => (consume_gas hgas deposit).bind hend

end Exec.Within
end CallTree
