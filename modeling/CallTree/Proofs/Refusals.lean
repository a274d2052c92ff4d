import CallTree.Proofs.Operands

/-!
# What operands are refused

When an instruction is refused because of the numbers that its operands spell: a region that has no room
in the memory, a jump target that is no jump destination, return data that is not there
(`Instruction.operands_exact`). The conditions are those of unbounded numbers, for all words of 256 bits.

`Exec.Decides` says of an action that it is refused for a given kind of cause exactly under a condition;
there is one rule for each of the ways in which instructions are put together.
-/

namespace CallTree

/-! ## Kinds of causes -/

namespace Fault

/-- A region has no room in the memory. -/
def OfMemory : Fault → Prop
  | .memoryLimitExceeded _ _ => True
  | _ => False

/-- A jump goes to no jump destination. -/
def OfJump : Fault → Prop
  | .invalidJump _ => True
  | _ => False

/-- A copy reaches past the end of the return data. -/
def OfReturnData : Fault → Prop
  | .returnDataOutOfBounds _ _ _ => True
  | _ => False

/-- A code is too large. -/
def OfCodeSize : Fault → Prop
  | .codeSizeExceeded _ _ => True
  | _ => False

/-- No fault that any instruction may raise, whatever its operands are, is of the kind. -/
structure Special (kind : Fault → Prop) : Prop where
  outOfGas : ¬kind .outOfGas
  halted : ¬kind .frameHalted
  overflow : ¬kind .stackOverflow
  dangling : ∀ container, ¬kind (.danglingHandle container)

theorem OfMemory.special : Special OfMemory :=
  ⟨id, id, id, fun _ => id⟩

theorem OfJump.special : Special OfJump :=
  ⟨id, id, id, fun _ => id⟩

theorem OfReturnData.special : Special OfReturnData :=
  ⟨id, id, id, fun _ => id⟩

theorem OfCodeSize.special : Special OfCodeSize :=
  ⟨id, id, id, fun _ => id⟩

end Fault

/-! ## Regions -/

namespace Memory

/-- The region is empty, or it ends within the length or the limit of the memory. -/
def Admits (m : Memory) (region : Region) : Prop :=
  region.size = 0 ∨ region.offset + region.size ≤ max m.size m.limit

instance (m : Memory) (region : Region) : Decidable (m.Admits region) :=
  inferInstanceAs (Decidable (_ ∨ _))

/-- The memory with room for a region. -/
def covering (region : Region) (m : Memory) : Memory :=
  if region.size = 0 then m else m.grown (region.offset + region.size)

/-- What it costs to make room for a region. -/
def price (region : Region) (m : Memory) : Nat :=
  Exact.memoryCost (m.covering region).words - Exact.memoryCost m.words

theorem price_eq {m : Memory} {offset size : Nat} (h : size ≠ 0) :
    m.price ⟨offset, size⟩ =
      Exact.memoryCost (max m.words (wordsFor (offset + size))) - Exact.memoryCost m.words := by
  rw [price, covering, if_neg h, words_grown]

/-- When regions are made room for one after another, one of them has no room and the gas suffices for
those before it. -/
def Overreaches (m : Memory) (gas : Nat) : List Region → Prop
  | [] => False
  | region :: rest =>
    ¬m.Admits region ∨
      m.price region ≤ gas ∧ (m.covering region).Overreaches (gas - m.price region) rest

/-- A single region. -/
theorem overreaches_one (m : Memory) (gas : Nat) (region : Region) :
    m.Overreaches gas [region] ↔ ¬m.Admits region := by
  simp [Overreaches]

end Memory

/-- The regions that an instruction makes room for with the operands it finds, topmost first. -/
inductive Opcode.Regions (limits : Limits) (isStatic : Bool) : Opcode → List Word → List Region → Prop
  | mload {offset : Word} {rest : List Word} :
      Regions limits isStatic .mload (offset :: rest) [⟨offset.toNat, 32⟩]
  | mstore {offset value : Word} {rest : List Word} :
      Regions limits isStatic .mstore (offset :: value :: rest) [⟨offset.toNat, 32⟩]
  | mstore8 {offset value : Word} {rest : List Word} :
      Regions limits isStatic .mstore8 (offset :: value :: rest) [⟨offset.toNat, 1⟩]
  | log {offset size : Word} {topics rest : List Word} :
      Regions limits isStatic (.log topics.length) (offset :: size :: (topics ++ rest))
        [⟨offset.toNat, size.toNat⟩]
  | ret {offset size : Word} {rest : List Word} :
      Regions limits isStatic .ret (offset :: size :: rest) [⟨offset.toNat, size.toNat⟩]
  | revert {offset size : Word} {rest : List Word} :
      Regions limits isStatic .revert (offset :: size :: rest) [⟨offset.toNat, size.toNat⟩]
  | call {gas callee value argsOffset argsSize retOffset retSize : Word} {rest : List Word}
      (hsend : isStatic = true → value = 0) :
      Regions limits isStatic .call
        (gas :: callee :: value :: argsOffset :: argsSize :: retOffset :: retSize :: rest)
        [⟨argsOffset.toNat, argsSize.toNat⟩, ⟨retOffset.toNat, retSize.toNat⟩]
  | staticCall {gas callee argsOffset argsSize retOffset retSize : Word} {rest : List Word} :
      Regions limits isStatic .staticCall
        (gas :: callee :: argsOffset :: argsSize :: retOffset :: retSize :: rest)
        [⟨argsOffset.toNat, argsSize.toNat⟩, ⟨retOffset.toNat, retSize.toNat⟩]
  | create {value offset size : Word} {rest : List Word}
      (hsize : size.toNat ≤ limits.maxInitCodeSize) :
      Regions limits isStatic .create (value :: offset :: size :: rest)
        [⟨offset.toNat, size.toNat⟩]

namespace Exec

open CallTree.Action (Triple)

variable {α β : Type} {kind : Fault → Prop} {P : Activation → Prop} {c c' : Prop}

/-- The action is refused for a cause of the kind. -/
def RefusedBy (kind : Fault → Prop) (result : EStateM.Result Abort Activation α) : Prop :=
  ∃ cause x, result = .error (.fault cause) x ∧ kind cause

/-- From `P` the action is refused for a cause of the kind exactly under the condition. -/
def Decides (kind : Fault → Prop) (P : Activation → Prop) (act : Exec α) (c : Prop) : Prop :=
  ∀ x, P x → (RefusedBy kind (act x) ↔ c)

/-- The action is never refused for a cause of the kind. -/
def Spares (kind : Fault → Prop) (act : Exec α) : Prop :=
  ∀ x, ¬RefusedBy kind (act x)

namespace Spares

theorem pure (r : α) : Spares kind (Pure.pure r : Exec α) := by
  rintro x ⟨_, _, h, _⟩
  exact nomatch h

theorem refuse {cause : Fault} (h : ¬kind cause) : Spares kind (Action.refuse cause : Exec α) := by
  rintro x ⟨_, _, hrefused, hkind⟩
  cases hrefused
  exact h hkind

theorem bind {act : Exec β} {next : β → Exec α} (h : Spares kind act)
    (hnext : ∀ r, Spares kind (next r)) : Spares kind (act >>= next) := by
  rintro x ⟨cause, y, hrefused, hkind⟩
  cases hact : act x with
  | ok r y =>
      rw [Action.bind_ok hact] at hrefused
      exact hnext r y ⟨cause, _, hrefused, hkind⟩
  | error e y =>
      rw [Action.bind_error hact] at hrefused
      cases hrefused
      exact h x ⟨cause, _, hact, hkind⟩

theorem ite {p : Prop} [Decidable p] {act other : Exec α} (h : Spares kind act)
    (hother : Spares kind other) : Spares kind (if p then act else other) := by
  split
  · exact h
  · exact hother

/-- An action that is taken only under a condition, before the rest. -/
theorem when {p : Prop} [Decidable p] {act : Exec Unit} {rest : Unit → Exec α}
    (h : Spares kind act) (hrest : ∀ r, Spares kind (rest r)) :
    Spares kind (if p then act >>= rest else rest ()) :=
  ite (h.bind hrest) (hrest ())

theorem frame : Spares kind Exec.frame := by
  rintro x ⟨_, _, h, _⟩
  exact nomatch h

theorem update (g : Frame → Frame) : Spares kind (Exec.update g) := by
  rintro x ⟨_, _, h, _⟩
  exact nomatch h

theorem consume_gas (hkind : Fault.Special kind) (amount : Nat) : Spares kind (Exec.consumeGas amount) := by
  rintro ⟨f, s⟩ ⟨cause, y, hrefused, hcause⟩
  unfold consumeGas onFrame Frame.consumeGas at hrefused
  by_cases hrunning : f.running = true
  · by_cases hlt : f.gas.remaining < amount
    · simp only [hrunning, if_true, GasMeter.consume, hlt] at hrefused
      cases hrefused
      exact hkind.outOfGas hcause
    · simp [hrunning, GasMeter.consume, hlt] at hrefused
  · simp only [hrunning] at hrefused
    cases hrefused
    exact hkind.halted hcause

/-- What every memory does is refused only where there is none. -/
theorem on_memory (hkind : Fault.Special kind) {act : Action Memory α}
    (h : ∀ m, ∃ r m', act m = .ok r m') : Spares kind (Exec.onMemory act) := by
  rintro ⟨f, _ | w⟩ ⟨cause, y, hrefused, hcause⟩
  · cases hrefused
    exact hkind.dangling _ hcause
  · obtain ⟨r, m', hact⟩ := h w.memory
    simp [onMemory, hact] at hrefused

theorem push (hkind : Fault.Special kind) (word : Word) : Spares kind (Exec.push word) := by
  rintro ⟨f, _ | w⟩ ⟨cause, y, hrefused, hcause⟩
  · cases hrefused
    exact hkind.dangling _ hcause
  · unfold Exec.push onStack Stack.push at hrefused
    by_cases hfull : w.stack.limit ≤ w.stack.size
    · simp only [hfull, if_true] at hrefused
      cases hrefused
      exact hkind.overflow hcause
    · simp [hfull] at hrefused

theorem read_memory (hkind : Fault.Special kind) (offset size : Nat) :
    Spares kind (Exec.readMemory offset size) :=
  on_memory hkind fun _ => ⟨_, _, rfl⟩

/-- Making room for a region. -/
theorem charge_memory (hkind : Fault.Special kind)
    (hmemory : ∀ requested max, ¬kind (.memoryLimitExceeded requested max)) (offset size : Nat) :
    Spares kind (Exact.chargeMemory offset size) := by
  refine .ite ?_ (.pure _)
  refine (on_memory hkind fun _ => ⟨_, _, rfl⟩).bind fun m => .when (.refuse (hmemory _ _)) fun _ => ?_
  exact (on_memory hkind fun _ => ⟨_, _, rfl⟩).bind fun _ => .consume_gas hkind _

theorem put (hkind : Fault.Special kind) (offset : Nat) (part : Bytes) :
    Spares kind (Exact.put offset part) :=
  on_memory hkind fun _ => ⟨_, _, rfl⟩

end Spares
end Exec

/-- A running activation of a frame, with the given gas, operands and memory. -/
structure Activation.Shows (f : Frame) (limit gas : Nat) (items : List Word) (m : Memory)
    (x : Activation) : Prop where
  running : x.frame.running = true
  call : x.frame.call = f.call
  program : x.frame.program = f.program
  lastReturn : x.frame.lastReturn = f.lastReturn
  gas : x.frame.gas.remaining = gas
  space : ∃ w, x.space = some w ∧ w.stack.limit = limit ∧ w.stack.items.toList = items ∧
    w.memory = m

namespace Exec

variable {α β : Type} {kind : Fault → Prop} {P : Activation → Prop} {c c' : Prop}
variable {f : Frame} {limit gas : Nat} {items : List Word} {m : Memory} {x : Activation}

/-- The topmost operand is taken. -/
theorem pop_shows {word : Word} (hx : x.Shows f limit gas (word :: items) m) :
    ∃ y, pop x = .ok word y ∧ y.Shows f limit gas items m := by
  obtain ⟨g, s⟩ := x
  obtain ⟨hrunning, hcall, hprogram, hlast, hgas, w, hw, hlimit, hitems, hm⟩ := hx
  cases hw
  have hpop : pop ⟨g, some w⟩ =
      .ok word ⟨g, some { w with stack.items := w.stack.items.drop 1 }⟩ := by
    simp [pop, onStack, Stack.pop, hitems]
  refine ⟨_, hpop, hrunning, hcall, hprogram, hlast, hgas, _, rfl, hlimit, ?_, hm⟩
  simp [Pile.drop, hitems]

/-- A debit that the gas suffices for. -/
theorem consume_gas_shows {amount : Nat} (hx : x.Shows f limit gas items m) (hle : amount ≤ gas) :
    ∃ y, consumeGas amount x = .ok () y ∧ y.Shows f limit (gas - amount) items m := by
  obtain ⟨g, s⟩ := x
  obtain ⟨hrunning, hcall, hprogram, hlast, rfl, hspace⟩ := hx
  replace hrunning : g.running = true := hrunning
  replace hle : ¬g.gas.remaining < amount := Nat.not_lt.2 hle
  have hpay : consumeGas amount ⟨g, s⟩ = .ok () ⟨{ g with gas := { g.gas with
      remaining := g.gas.remaining - amount, used := satAdd g.gas.used amount } }, s⟩ := by
    simp [consumeGas, onFrame, Frame.consumeGas, GasMeter.consume, hrunning, hle]
  exact ⟨_, hpay, hrunning, hcall, hprogram, hlast, rfl, hspace⟩

/-- A debit that it does not suffice for. -/
theorem consume_gas_refused {amount : Nat} (hx : x.Shows f limit gas items m) (hlt : gas < amount) :
    consumeGas amount x = .error (.fault .outOfGas) x := by
  obtain ⟨g, s⟩ := x
  obtain ⟨hrunning, _, _, _, rfl, _⟩ := hx
  replace hrunning : g.running = true := hrunning
  replace hlt : g.gas.remaining < amount := hlt
  simp [consumeGas, onFrame, Frame.consumeGas, GasMeter.consume, hrunning, hlt]

namespace Decides

/-- A refusal that does not happen. -/
theorem never {act : Exec α} (h : Spares kind act) (hc : ¬c) : Decides kind P act c :=
  fun x _ => iff_of_false (h x) hc

/-- The same condition, put differently. -/
theorem iff {act : Exec α} (h : Decides kind P act c) (hc : c ↔ c') : Decides kind P act c' :=
  fun x hx => (h x hx).trans hc

/-- An action that is completed comes first. -/
theorem first {R : Activation → Prop} {act : Exec β} {r : β} {next : β → Exec α}
    (hact : ∀ x, P x → ∃ y, act x = .ok r y ∧ R y) (h : Decides kind R (next r) c) :
    Decides kind P (act >>= next) c := by
  intro x hx
  obtain ⟨y, hdone, hy⟩ := hact x hx
  rw [Action.bind_ok hdone]
  exact h y hy

/-- What comes last does not matter. -/
theorem last {act : Exec β} {next : β → Exec α} (h : Decides kind P act c)
    (hnext : ∀ r, Spares kind (next r)) : Decides kind P (act >>= next) c := by
  intro x hx
  rw [← h x hx]
  cases hact : act x with
  | ok r y =>
      rw [Action.bind_ok hact]
      refine ⟨fun hrefused => absurd hrefused (hnext r y), ?_⟩
      rintro ⟨_, _, hrefused, _⟩
      exact nomatch hrefused
  | error e y =>
      rw [Action.bind_error hact]
      constructor <;> rintro ⟨cause, z, hrefused, hcause⟩ <;> cases hrefused <;>
        exact ⟨cause, y, rfl, hcause⟩

/-- A refusal under a condition, before the rest. -/
theorem guard {p : Prop} [Decidable p] {cause : Fault} {rest : Unit → Exec α}
    (h : ¬p → Decides kind P (rest ()) c) (hc : p → (kind cause ↔ c)) :
    Decides kind P (if p then Action.refuse cause >>= rest else rest ()) c := by
  intro x hx
  by_cases hp : p
  · have hrefused : (Action.refuse cause : Exec Unit) x = .error (.fault cause) x := rfl
    rw [if_pos hp, Action.bind_error hrefused, ← hc hp]
    refine ⟨?_, fun hcause => ⟨cause, x, rfl, hcause⟩⟩
    rintro ⟨_, _, hsame, hcause⟩
    cases hsame
    exact hcause
  · rw [if_neg hp]
    exact h hp x hx

theorem pop {word : Word} {next : Word → Exec α}
    (h : Decides kind (Activation.Shows f limit gas items m) (next word) c) :
    Decides kind (Activation.Shows f limit gas (word :: items) m) (Exec.pop >>= next) c :=
  first (fun _ hx => pop_shows hx) h

theorem pop_nat {word : Word} {next : Nat → Exec α}
    (h : Decides kind (Activation.Shows f limit gas items m) (next word.toNat) c) :
    Decides kind (Activation.Shows f limit gas (word :: items) m) (Exact.popNat >>= next) c := by
  refine first (fun x hx => ?_) h
  obtain ⟨y, hpop, hy⟩ := pop_shows hx
  exact ⟨y, Action.bind_ok hpop, hy⟩

theorem pop_many {words : List Word} {next : List Word → Exec α}
    (h : Decides kind (Activation.Shows f limit gas items m) (next words) c) :
    Decides kind (Activation.Shows f limit gas (words ++ items) m)
      (Exec.popMany words.length >>= next) c := by
  refine first ?_ h
  clear h
  induction words with
  | nil => exact fun x hx => ⟨x, rfl, hx⟩
  | cons word words ih =>
      intro x hx
      obtain ⟨y, hpop, hy⟩ := pop_shows hx
      obtain ⟨z, hrest, hz⟩ := ih y hy
      refine ⟨z, ?_, hz⟩
      show (Exec.pop >>= fun w => Exec.popMany words.length >>= fun rest => pure (w :: rest)) x = _
      rw [Action.bind_ok hpop, Action.bind_ok hrest]
      rfl

/-- The value of a message, which only some of them carry. -/
theorem pop_value {withValue : Bool} {value : Word} {next : Word → Exec α}
    (hvalue : withValue = false → value = 0)
    (h : Decides kind (Activation.Shows f limit gas items m) (next value) c) :
    Decides kind (Activation.Shows f limit gas ((if withValue then [value] else []) ++ items) m)
      (if withValue then Exec.pop >>= next else Pure.pure 0 >>= next) c := by
  cases withValue with
  | true => exact pop h
  | false =>
      obtain rfl := hvalue rfl
      exact first (fun x hx => ⟨x, rfl, hx⟩) h

theorem advance {count : Nat} {next : Unit → Exec α}
    (h : Decides kind (Activation.Shows f limit gas items m) (next ()) c) :
    Decides kind (Activation.Shows f limit gas items m)
      (Exec.update (Frame.advance count) >>= next) c := by
  refine first (fun x hx => ⟨_, rfl, ?_⟩) h
  obtain ⟨hrunning, hcall, hprogram, hlast, hgas, hspace⟩ := hx
  unfold Frame.advance
  rw [if_pos hrunning]
  exact ⟨hrunning, hcall, hprogram, hlast, hgas, hspace⟩

/-- The frame is read. -/
theorem frame {next : Frame → Exec α}
    (h : ∀ g : Frame, g.call = f.call → g.program = f.program → g.lastReturn = f.lastReturn →
      Decides kind (Activation.Shows f limit gas items m) (next g) c) :
    Decides kind (Activation.Shows f limit gas items m) (Exec.frame >>= next) c := by
  intro x hx
  have hread : Exec.frame x = .ok x.frame x := rfl
  rw [Action.bind_ok hread]
  exact h x.frame hx.call hx.program hx.lastReturn x hx

/-- Making room for a region is refused where the memory does not admit it; otherwise it has to be paid
for before the rest. -/
theorem charge_memory {offset size : Nat} {next : Unit → Exec α}
    (h : Decides Fault.OfMemory
      (Activation.Shows f limit (gas - m.price ⟨offset, size⟩) items (m.covering ⟨offset, size⟩))
      (next ()) c) :
    Decides Fault.OfMemory (Activation.Shows f limit gas items m)
      (Exact.chargeMemory offset size >>= next)
      (¬m.Admits ⟨offset, size⟩ ∨ m.price ⟨offset, size⟩ ≤ gas ∧ c) := by
  intro x hx
  by_cases hsize : size = 0
  · subst hsize
    have hprice : m.price ⟨offset, 0⟩ = 0 := Nat.sub_self _
    have hadmits : m.Admits ⟨offset, 0⟩ := .inl rfl
    have hnone : Exact.chargeMemory offset 0 x = .ok () x := rfl
    rw [hprice] at h ⊢
    rw [Action.bind_ok hnone, h x hx]
    simp [hadmits]
  obtain ⟨g, s⟩ := x
  obtain ⟨hrunning, hcall, hprogram, hlast, hgas, w, hw, hlimit, hitems, rfl⟩ := hx
  cases hw
  have hcharge := Exact.charge_memory_eq (f := g) (w := w) offset hsize
  have hadmits : w.memory.Admits ⟨offset, size⟩ ↔
      ¬max w.memory.size w.memory.limit < offset + size :=
    ⟨fun h => Nat.not_lt.2 (h.resolve_left hsize), fun h => .inr (Nat.not_lt.1 h)⟩
  by_cases hbeyond : max w.memory.size w.memory.limit < offset + size
  · rw [if_pos hbeyond] at hcharge
    rw [Action.bind_error hcharge]
    refine ⟨fun _ => .inl fun h => hadmits.1 h hbeyond, fun _ => ⟨_, _, rfl, trivial⟩⟩
  · have hgrown : Activation.Shows f limit gas items (w.memory.covering ⟨offset, size⟩)
        ⟨g, some { w with memory := w.memory.grown (offset + size) }⟩ :=
      ⟨hrunning, hcall, hprogram, hlast, hgas, _, rfl, hlimit, hitems, (if_neg hsize).symm⟩
    rw [if_neg hbeyond, ← Memory.price_eq hsize] at hcharge
    by_cases hle : w.memory.price ⟨offset, size⟩ ≤ gas
    · obtain ⟨y, hpay, hy⟩ := consume_gas_shows hgrown hle
      rw [Action.bind_ok (hcharge.trans hpay), h y hy]
      simp [hadmits, hbeyond, hle]
    · rw [Action.bind_error (hcharge.trans (consume_gas_refused hgrown (Nat.not_le.1 hle)))]
      constructor
      · rintro ⟨_, _, hrefused, hcause⟩
        cases hrefused
        exact hcause.elim
      · simp [hadmits, hbeyond, hle]

/-- The instructions that neither call nor create and have no immediate. -/
theorem execute_local {limits : Limits} {op : Opcode} (hop : op.immediateSize = 0)
    (h : ∀ pc, Decides kind (Activation.Shows f limit gas items m) (Exact.body limits pc 0 op) c) :
    Decides kind (Activation.Shows f limit gas items m)
      (do Exact.executeLocal limits op; return Request.proceed) c := by
  refine last (frame fun g _ _ _ => frame fun g' _ _ _ => ?_) fun _ => .pure _
  rw [hop]
  exact first (fun x hx => ⟨x, rfl, hx⟩) (advance (h g.pc))

/-! ### Regions -/

/-- A region is made room for, and what follows is refused for other causes only. -/
theorem one_region {offset size : Nat} {next : Unit → Exec α}
    (h : Spares Fault.OfMemory (next ())) :
    Decides Fault.OfMemory (Activation.Shows f limit gas items m)
      (Exact.chargeMemory offset size >>= next) (m.Overreaches gas [⟨offset, size⟩]) :=
  charge_memory (never h id)

theorem complete_return_spares (maxCodeSize : Nat) (data : Bytes) :
    Spares Fault.OfMemory (Exact.completeReturn maxCodeSize data) := by
  refine Spares.frame.bind fun g => .ite (.when (.refuse id) fun _ => ?_) ?_
  · refine (Spares.consume_gas Fault.OfMemory.special _).bind fun _ => ?_
    exact (Spares.update _).bind fun _ => .update _
  · exact (Spares.update _).bind fun _ => .update _

/-- What follows in a message once the regions have been made room for. -/
theorem request_message_regions (env : Surroundings) (withValue : Bool) {requested callee value : Word}
    {argsOffset argsSize retOffset retSize : Word} {rest : List Word}
    (hvalue : withValue = false → value = 0) (hsend : f.call.isStatic = true → value = 0) :
    Decides Fault.OfMemory (Activation.Shows f limit gas (requested :: callee ::
        ((if withValue then [value] else []) ++
          argsOffset :: argsSize :: retOffset :: retSize :: rest)) m)
      (Exact.requestMessage env withValue)
      (m.Overreaches gas
        [⟨argsOffset.toNat, argsSize.toNat⟩, ⟨retOffset.toNat, retSize.toNat⟩]) := by
  have hkind := Fault.OfMemory.special
  refine pop_nat (pop (pop_value hvalue ?_))
  refine pop_nat (pop_nat (pop_nat (pop_nat (advance (frame fun g hcall _ _ => ?_)))))
  refine guard (fun _ => ?_) fun hrefused => absurd (hsend (hcall ▸ hrefused.1)) hrefused.2
  refine charge_memory (one_region (.when (.consume_gas hkind _) fun _ => ?_))
  refine (Spares.update _).bind fun _ => .ite ((Spares.push hkind _).bind fun _ => .pure _) ?_
  refine Spares.frame.bind fun g => (Spares.consume_gas hkind _).bind fun _ => ?_
  exact (Spares.read_memory hkind _ _).bind fun _ => Spares.frame.bind fun _ => .pure _

theorem request_create_regions {env : Surroundings} {value offset size : Word} {rest : List Word}
    (hsize : size.toNat ≤ env.limits.maxInitCodeSize) :
    Decides Fault.OfMemory (Activation.Shows f limit gas (value :: offset :: size :: rest) m)
      (Exact.requestCreate env) (m.Overreaches gas [⟨offset.toNat, size.toNat⟩]) := by
  have hkind := Fault.OfMemory.special
  refine pop (pop_nat (pop_nat (advance (guard (fun _ => ?_) fun hlarge => ?_))))
  · refine one_region ((Spares.consume_gas hkind _).bind fun _ => (Spares.update _).bind fun _ => ?_)
    refine .ite ((Spares.push hkind _).bind fun _ => .pure _) ?_
    exact (Spares.read_memory hkind _ _).bind fun _ => Spares.frame.bind fun _ => .pure _
  · omega

/-- The instructions that make room for regions. -/
theorem dispatch_regions {env : Surroundings} {op : Opcode} {regions : List Region}
    (h : op.Regions env.limits f.call.isStatic items regions) :
    Decides Fault.OfMemory (Activation.Shows f limit gas items m) (Exact.dispatch env op)
      (m.Overreaches gas regions) := by
  have hkind := Fault.OfMemory.special
  have hregion : ∀ {offset size : Word} {rest : List Word} {next : Bytes → Exec Unit},
      (∀ data, Spares Fault.OfMemory (next data)) →
      Decides Fault.OfMemory (Activation.Shows f limit gas (offset :: size :: rest) m)
        (Exact.popRegion >>= next) (m.Overreaches gas [⟨offset.toNat, size.toNat⟩]) := by
    intro offset size rest next hnext
    refine last (pop_nat (pop_nat (one_region ?_))) hnext
    exact .read_memory hkind _ _
  cases h with
  | mload =>
      refine execute_local rfl fun pc => pop_nat (one_region ?_)
      exact (Spares.read_memory hkind _ _).bind fun _ => .push hkind _
  | mstore => exact execute_local rfl fun pc => pop_nat (pop (one_region (.put hkind _ _)))
  | mstore8 => exact execute_local rfl fun pc => pop_nat (pop (one_region (.put hkind _ _)))
  | log =>
      refine execute_local rfl fun pc => pop_nat (pop_nat (pop_many (one_region ?_)))
      refine (Spares.consume_gas hkind _).bind fun _ => ?_
      exact (Spares.read_memory hkind _ _).bind fun _ => .update _
  | ret => exact execute_local rfl fun pc => hregion fun data => complete_return_spares _ data
  | revert => exact execute_local rfl fun pc => hregion fun data => .update _
  | call hsend => exact request_message_regions env true nofun hsend
  | staticCall => exact request_message_regions env false (fun _ => rfl) fun _ => rfl
  | create hsize => exact request_create_regions hsize

/-! ### Return data, code and jumps -/

/-- A copy of return data. -/
theorem dispatch_return_data {env : Surroundings} {dest offset size : Word} {rest : List Word} :
    Decides Fault.OfReturnData (Activation.Shows f limit gas (dest :: offset :: size :: rest) m)
      (Exact.dispatch env .returnDataCopy) (f.lastReturn.size < offset.toNat + size.toNat) := by
  have hkind := Fault.OfReturnData.special
  refine execute_local rfl fun pc => pop_nat (pop_nat (pop_nat (frame fun g _ _ hlast => ?_)))
  rw [hlast]
  refine guard (fun hinside => never ?_ hinside) fun hbeyond => iff_of_true trivial hbeyond
  refine (Spares.charge_memory hkind (fun _ _ => id) _ _).bind fun _ => ?_
  exact (Spares.consume_gas hkind _).bind fun _ => .put hkind _ _

/-- The size of init code. -/
theorem request_create_size {env : Surroundings} {value offset size : Word} {rest : List Word} :
    Decides Fault.OfCodeSize (Activation.Shows f limit gas (value :: offset :: size :: rest) m)
      (Exact.requestCreate env) (env.limits.maxInitCodeSize < size.toNat) := by
  have hkind := Fault.OfCodeSize.special
  refine pop (pop_nat (pop_nat (advance ?_)))
  refine guard (fun hfits => never ?_ hfits) fun hlarge => iff_of_true trivial hlarge
  refine (Spares.charge_memory hkind (fun _ _ => id) _ _).bind fun _ => ?_
  refine (Spares.consume_gas hkind _).bind fun _ => (Spares.update _).bind fun _ => ?_
  refine .ite ((Spares.push hkind _).bind fun _ => .pure _) ?_
  exact (Spares.read_memory hkind _ _).bind fun _ => Spares.frame.bind fun _ => .pure _

theorem jump (dest : Nat) :
    Decides Fault.OfJump (Activation.Shows f limit gas items m) (Exact.jump dest)
      (dest ∉ jumpDestinations f.program.code) := by
  refine frame fun g _ hprogram _ => ?_
  rw [hprogram]
  intro x _
  by_cases hdest : dest ∈ jumpDestinations f.program.code
  · rw [if_pos hdest]
    refine ⟨?_, fun h => absurd hdest h⟩
    rintro ⟨_, _, h, _⟩
    exact nomatch h
  · rw [if_neg hdest]
    exact ⟨fun _ => hdest, fun _ => ⟨_, _, rfl, trivial⟩⟩

theorem dispatch_jump {env : Surroundings} {dest : Word} {rest : List Word} :
    Decides Fault.OfJump (Activation.Shows f limit gas (dest :: rest) m) (Exact.dispatch env .jump)
      (dest.toNat ∉ jumpDestinations f.program.code) :=
  execute_local rfl fun _ => pop_nat (jump _)

/-- A jump under a condition. -/
theorem dispatch_jump_if {env : Surroundings} {dest condition : Word} {rest : List Word} :
    Decides Fault.OfJump (Activation.Shows f limit gas (dest :: condition :: rest) m)
      (Exact.dispatch env .jumpIf)
      (condition ≠ 0 ∧ dest.toNat ∉ jumpDestinations f.program.code) := by
  refine execute_local rfl fun _ => pop_nat (pop ?_)
  by_cases hcondition : condition ≠ 0
  · rw [if_pos hcondition]
    exact (jump _).iff (and_iff_right hcondition).symm
  · rw [if_neg hcondition]
    exact never (.pure _) fun h => hcondition h.1

/-- The target of an internal call. -/
theorem dispatch_internal {env : Surroundings} {target requested : Word} {rest : List Word} :
    Decides Fault.OfJump (Activation.Shows f limit gas (target :: requested :: rest) m)
      (Exact.dispatch env .callInternal) (target.toNat ∉ jumpDestinations f.program.code) := by
  refine pop_nat (pop_nat (advance (frame fun g _ hprogram _ => ?_)))
  rw [hprogram]
  refine guard (fun hvalid => never ?_ hvalid) fun hinvalid => iff_of_true trivial hinvalid
  refine .when (.refuse id) fun _ => ?_
  exact (Spares.consume_gas Fault.OfJump.special _).bind fun _ => .pure _

end Decides

/-- A word is put on a stack that has room for it. -/
theorem push_shows (word : Word) (hx : x.Shows f limit gas items m) (hroom : items.length < limit) :
    ∃ y, push word x = .ok () y ∧ y.Shows f limit gas (word :: items) m := by
  obtain ⟨g, s⟩ := x
  obtain ⟨hrunning, hcall, hprogram, hlast, hgas, w, hw, rfl, rfl, hm⟩ := hx
  cases hw
  have hfits : ¬w.stack.limit ≤ w.stack.size := by
    rw [Stack.size, w.stack.items.size_eq]
    omega
  have hpush : push word ⟨g, some w⟩ =
      .ok () ⟨g, some { w with stack.items := w.stack.items.push word }⟩ := by
    simp [push, onStack, Stack.push, hfits]
  exact ⟨_, hpush, hrunning, hcall, hprogram, hlast, hgas, _, rfl, rfl, rfl, hm⟩

end Exec

/-! ## The instruction at the program counter -/

namespace Exact

open Exec

variable (env : Surroundings) {f : Frame} {w : Workspace} {x : Activation}

/-- An instruction that is allowed and can be paid for takes its operands next. -/
theorem fetch_shows (hop : f.currentOp ≠ .undefined) (hrunning : f.running = true)
    (hgas : Gas.static f.currentOp ≤ f.gas.remaining)
    (hallowed : f.call.isStatic = true → f.currentOp.isStateModifying = false) :
    ∃ y, y.Shows f w.stack.limit (f.gas.remaining - Gas.static f.currentOp) w.stack.items.toList w.memory ∧
      fetchAndDispatch env ⟨f, some w⟩ = dispatch env f.currentOp y := by
  have hstart : Activation.Shows f w.stack.limit f.gas.remaining w.stack.items.toList w.memory
      ⟨f, some w⟩ := ⟨hrunning, rfl, rfl, rfl, rfl, w, rfl, rfl, rfl, rfl⟩
  obtain ⟨y, hpay, hy⟩ := consume_gas_shows hstart hgas
  refine ⟨y, hy, ?_⟩
  have hframe : Exec.frame ⟨f, some w⟩ = .ok f ⟨f, some w⟩ := rfl
  have hopen : (f.call.isStatic && f.currentOp.isStateModifying) = false := by
    cases hstatic : f.call.isStatic with
    | false => rfl
    | true => exact hallowed hstatic
  have hrest : ∀ op, (f.call.isStatic && op.isStateModifying) = false →
      consumeGas (Gas.static op) ⟨f, some w⟩ = .ok () y →
      (do
        if (← Exec.frame).call.isStatic && op.isStateModifying then
          Action.refuse .writeInStaticContext
        else
          consumeGas (Gas.static op)
          dispatch env op : Exec Request) ⟨f, some w⟩ = dispatch env op y := fun op hopen hpay => by
    rw [Action.bind_ok hframe, hopen, if_neg (by decide), Action.bind_ok hpay]
  rw [fetchAndDispatch, Action.bind_ok hframe]
  cases hcurrent : f.currentOp with
  | undefined => exact absurd hcurrent hop
  | _ => exact hrest _ (hcurrent ▸ hopen) (hcurrent ▸ hpay)

/-- Unless a creation has too much init code, both readings are the same. -/
theorem fetch_eq (hx : x.Bounded)
    (hsize : x.frame.currentOp = .create → ¬RefusedBy Fault.OfCodeSize (fetchAndDispatch env x)) :
    Instruction.fetchAndDispatch env x = fetchAndDispatch env x := by
  rcases fetch_agrees env hx with hsame | ⟨⟨hcreate, _⟩, _, size, max, y, _, hrefused⟩
  · exact hsame
  · exact absurd ⟨_, y, hrefused, trivial⟩ (hsize hcreate)

/-- The kind of a refusal can be read off the other reading, unless a creation has too much code. -/
theorem refused_iff {kind : Fault → Prop} {c : Prop} (hx : Activation.Bounded ⟨f, some w⟩)
    (hop : f.currentOp ≠ .undefined) (hrunning : f.running = true)
    (hgas : Gas.static f.currentOp ≤ f.gas.remaining)
    (hallowed : f.call.isStatic = true → f.currentOp.isStateModifying = false)
    (hsize : f.currentOp = .create → Decides Fault.OfCodeSize (Activation.Shows f w.stack.limit
      (f.gas.remaining - Gas.static f.currentOp) w.stack.items.toList w.memory)
      (requestCreate env) False)
    (h : Decides kind (Activation.Shows f w.stack.limit (f.gas.remaining - Gas.static f.currentOp)
      w.stack.items.toList w.memory) (dispatch env f.currentOp) c) :
    RefusedBy kind (Instruction.fetchAndDispatch env ⟨f, some w⟩) ↔ c := by
  obtain ⟨y, hy, hdispatch⟩ := fetch_shows env hop hrunning hgas hallowed
  rw [fetch_eq env hx fun hcreate => ?_, hdispatch]
  · exact h y hy
  · replace hcreate : f.currentOp = .create := hcreate
    have hrequest : dispatch env f.currentOp y = requestCreate env y := by rw [hcreate]; rfl
    rw [hdispatch, hrequest]
    exact (hsize hcreate y hy).1

/-- The word at an offset of the input takes the place of the offset. -/
theorem call_data_load_shows {limit gas : Nat} {offset : Word} {rest : List Word} {m : Memory}
    (hx : x.Shows f limit gas (offset :: rest) m) (hroom : rest.length < limit) :
    ∃ y, dispatch env .callDataLoad x = .ok .proceed y ∧
      y.Shows f limit gas (Word.ofBytes (f.call.input.window offset.toNat 32) :: rest) m := by
  obtain ⟨g, s⟩ := x
  have hadvanced : Activation.Shows f limit gas (offset :: rest) m ⟨g.advance 1, s⟩ := by
    obtain ⟨hrunning, hcall, hprogram, hlast, hgas, hspace⟩ := hx
    unfold Frame.advance
    rw [if_pos hrunning]
    exact ⟨hrunning, hcall, hprogram, hlast, hgas, hspace⟩
  obtain ⟨y, hpop, hy⟩ := pop_shows hadvanced
  obtain ⟨z, hpush, hz⟩ := push_shows (Word.ofBytes (f.call.input.window offset.toNat 32)) hy hroom
  refine ⟨z, ?_, hz⟩
  have hnat : popNat ⟨g.advance 1, s⟩ = .ok offset.toNat y := Action.bind_ok hpop
  have hframe : Exec.frame y = .ok y.frame y := rfl
  have hbody : body env.limits g.pc 0 .callDataLoad ⟨g.advance 1, s⟩ = .ok () z := by
    rw [body, Action.bind_ok hnat, Action.bind_ok hframe, hy.call]
    exact hpush
  have hlocal : executeLocal env.limits .callDataLoad ⟨g, s⟩ = .ok () z := hbody
  exact Action.bind_ok hlocal

end Exact

namespace Instruction

open Exec

/-- Oversized operands behave as the numbers that they spell. An instruction does what it does on numbers
of any size; where no amount is more than the limit on init code, a creation with more is refused for
another cause. A running frame that is allowed to execute its instruction and can pay for it is refused

* for a region, exactly when that is not empty and ends beyond both the length and the limit of the
  memory (and before for want of the gas for an earlier region),
* for a creation, whenever the init code is too large,
* for return data, exactly when the copy ends past it, even if it is empty,
* for a jump that is taken or for an internal call, exactly when its target is no jump destination.

The word that is loaded from the input is the one that starts at the offset, and zero past the end. -/
theorem operands_exact (env : Surroundings) {x : Activation} (hx : x.Bounded) :
    let result := fetchAndDispatch env x
    let f := x.frame
    Exact.Agree (f.currentOp = .create ∧ maxAmount ≤ env.limits.maxInitCodeSize) result
        (Exact.fetchAndDispatch env x) ∧
      ∀ w, x.space = some w → f.running = true → Gas.static f.currentOp ≤ f.gas.remaining →
        (f.call.isStatic = true → f.currentOp.isStateModifying = false) →
        let items := w.stack.items.toList
        (∀ regions, f.currentOp.Regions env.limits f.call.isStatic items regions →
          (RefusedBy Fault.OfMemory result ↔
            w.memory.Overreaches (f.gas.remaining - Gas.static f.currentOp) regions)) ∧
        (∀ value offset size rest, f.currentOp = .create → items = value :: offset :: size :: rest →
          env.limits.maxInitCodeSize < size.toNat →
            ∃ cause y, result = .error (.fault cause) y) ∧
        (∀ dest offset size rest, f.currentOp = .returnDataCopy →
          items = dest :: offset :: size :: rest →
            (RefusedBy Fault.OfReturnData result ↔
              f.lastReturn.size < offset.toNat + size.toNat)) ∧
        (∀ offset rest, f.currentOp = .callDataLoad → items = offset :: rest →
          w.stack.items.size ≤ w.stack.limit →
            let word := Word.ofBytes (f.call.input.window offset.toNat 32)
            (∃ y w', result = .ok .proceed y ∧ y.space = some w' ∧
              w'.stack.items.toList = word :: rest) ∧
            (f.call.input.size ≤ offset.toNat → word = 0)) ∧
        (∀ dest rest, f.currentOp = .jump → items = dest :: rest →
          (RefusedBy Fault.OfJump result ↔ dest.toNat ∉ jumpDestinations f.program.code)) ∧
        (∀ dest condition rest, f.currentOp = .jumpIf → items = dest :: condition :: rest →
          (RefusedBy Fault.OfJump result ↔
            condition ≠ 0 ∧ dest.toNat ∉ jumpDestinations f.program.code)) ∧
        ∀ target requested rest, f.currentOp = .callInternal → items = target :: requested :: rest →
          (RefusedBy Fault.OfJump result ↔ target.toNat ∉ jumpDestinations f.program.code) := by
  obtain ⟨f, s⟩ := x
  refine ⟨Exact.fetch_agrees env hx, ?_⟩
  rintro w ⟨⟩ hrunning hgas hallowed
  have hrefused {kind : Fault → Prop} {c : Prop} {op : Opcode} (hop : f.currentOp = op)
      (hplain : op ≠ .undefined ∧ op ≠ .create)
      (h : Decides kind (Activation.Shows f w.stack.limit (f.gas.remaining - Gas.static f.currentOp)
        w.stack.items.toList w.memory) (Exact.dispatch env f.currentOp) c) :
      RefusedBy kind (fetchAndDispatch env ⟨f, some w⟩) ↔ c :=
    Exact.refused_iff env hx (hop ▸ hplain.1) hrunning hgas hallowed
      (fun hcreate => absurd (hop.symm.trans hcreate) hplain.2) h
  refine ⟨fun regions hregions => ?_, fun value offset size rest hop hitems hlarge => ?_,
    fun dest offset size rest hop hitems => ?_,
    fun offset rest hop hitems hroom => ⟨?_, fun hpast => ?_⟩,
    fun dest rest hop hitems => ?_, fun dest condition rest hop hitems => ?_,
    fun target requested rest hop hitems => ?_⟩
  · have hop : f.currentOp ≠ .undefined := fun hop => by
      rw [hop] at hregions
      cases hregions
    refine Exact.refused_iff env hx hop hrunning hgas hallowed (fun hcreate => ?_)
      (Decides.dispatch_regions hregions)
    rw [hcreate] at hregions
    generalize w.stack.items.toList = items at hregions
    cases hregions with
    | create hsize => exact Decides.request_create_size.iff (iff_of_false (Nat.not_lt.2 hsize) id)
  · obtain ⟨y, hy, hdispatch⟩ := Exact.fetch_shows env (w := w) (by rw [hop]; decide) hrunning
      hgas hallowed
    rw [hitems] at hy
    have hrequest : Exact.dispatch env f.currentOp y = Exact.requestCreate env y := by rw [hop]; rfl
    obtain ⟨cause, z, hexact, _⟩ := (Decides.request_create_size y hy).2 hlarge
    have hexact' := hdispatch.trans (hrequest.trans hexact)
    rcases Exact.fetch_agrees env hx with hsame | ⟨_, cause', _, _, y', hresult, _⟩
    · exact ⟨cause, z, hsame.trans hexact'⟩
    · exact ⟨cause', y', hresult⟩
  · refine hrefused hop (by decide) ?_
    rw [hop, hitems]
    exact Decides.dispatch_return_data
  · obtain ⟨y, hy, hdispatch⟩ := Exact.fetch_shows env (w := w) (by rw [hop]; decide) hrunning
      hgas hallowed
    rw [hitems] at hy
    have hfits : rest.length < w.stack.limit := by
      rw [w.stack.items.size_eq, hitems, List.length_cons] at hroom
      omega
    obtain ⟨z, hload, hz⟩ := Exact.call_data_load_shows env hy hfits
    obtain ⟨w', hw', _, hitems', _⟩ := hz.space
    refine ⟨z, w', ?_, hw', hitems'⟩
    show fetchAndDispatch env ⟨f, some w⟩ = _
    rw [Exact.fetch_eq env hx fun hcreate => absurd (hop.symm.trans hcreate) (by decide), hdispatch, hop]
    exact hload
  · have hzero : f.call.input.window offset.toNat 32 = Bytes.zeros 32 :=
      if_neg (Nat.not_lt.2 hpast)
    rw [hzero]
    decide
  · refine hrefused hop (by decide) ?_
    rw [hop, hitems]
    exact Decides.dispatch_jump
  · refine hrefused hop (by decide) ?_
    rw [hop, hitems]
    exact Decides.dispatch_jump_if
  · refine hrefused hop (by decide) ?_
    rw [hop, hitems]
    exact Decides.dispatch_internal

/-- A frame that is about to load a word from an offset that is no amount. -/
def distantLoad : Activation where
  frame := .new ⟨#[0x51]⟩ 100 (.transaction 1 2 0 ByteArray.empty) (.owned 0)
  space := some { stack := { items := Pile.empty.push (.ofNat (2 ^ 200)) }, memory := .withLimit 64 }

/-- No memory has room for it. -/
theorem distant_load_refused : distantLoad.Bounded ∧
    RefusedBy Fault.OfMemory (fetchAndDispatch ⟨{}, 1, 1⟩ distantLoad) := by
  have hmemory : ∀ w, distantLoad.space = some w → w.memory.Bounded := by
    rintro _ ⟨⟩
    exact ⟨64, by decide, .with_limit 64⟩
  have hbounded : distantLoad.Bounded :=
    ⟨⟨by decide, by decide, by decide, by decide⟩, hmemory⟩
  obtain ⟨_, hspace⟩ := operands_exact ⟨{}, 1, 1⟩ hbounded
  obtain ⟨hregions, _⟩ := hspace _ rfl rfl (by decide) (by decide)
  refine ⟨hbounded, (hregions _ .mload).2 ?_⟩
  rw [Memory.overreaches_one]
  decide

end Instruction
end CallTree
