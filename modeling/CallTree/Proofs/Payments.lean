import CallTree.Proofs.Triples

/-!
# What instructions pay

Work in a frame never adds to its gas: it only moves gas from what remains to what is used
(`Touches.debited`). `Instruction.fetch_due` says how much has been paid when an instruction is
completed. One that asks for nothing has paid something or has halted the frame. One that asks for
a frame has paid its own price and all the gas that the frame gets; the stipend of a message with
value is smaller than the surcharge that was paid for it.
-/

namespace CallTree

/-! ## Meters -/

/-- The meter after some payments. Refunds may have been counted. -/
structure GasMeter.Debited (m m' : GasMeter) : Prop where
  remaining : m'.remaining ≤ m.remaining
  total : m.remaining + m.used ≤ maxAmount → m'.remaining + m'.used = m.remaining + m.used
  refunds : m.refunds ≤ maxAmount → m'.refunds ≤ maxAmount

namespace GasMeter.Debited

theorem refl (m : GasMeter) : Debited m m :=
  ⟨Nat.le_refl _, fun _ => rfl, fun h => h⟩

theorem trans {m m' m'' : GasMeter} (h : Debited m m') (h' : Debited m' m'') : Debited m m'' := by
  refine ⟨Nat.le_trans h'.remaining h.remaining, fun hle => ?_, fun hle => h'.refunds (h.refunds hle)⟩
  have htotal := h.total hle
  rw [h'.total (by omega), htotal]

/-- A debit that the meter can pay. -/
theorem consume {m : GasMeter} {amount : Nat} (hle : amount ≤ m.remaining) :
    Debited m
      { m with remaining := m.remaining - amount, used := satAdd m.used amount } := by
  refine ⟨Nat.sub_le _ _, fun htotal => ?_, fun h => h⟩
  show m.remaining - amount + satAdd m.used amount = m.remaining + m.used
  rw [satAdd_eq_add (by omega)]
  omega

/-- Spending all that remains. -/
theorem burn (m : GasMeter) : Debited m m.burn := by
  refine ⟨Nat.zero_le _, fun htotal => ?_, fun h => h⟩
  show 0 + satAdd m.used m.remaining = m.remaining + m.used
  rw [satAdd_eq_add (by omega)]
  omega

end GasMeter.Debited

/-- Work in a frame only pays. -/
theorem Touches.debited {parts : List Part} {a b : Activation} (h : Touches parts a b) :
    a.frame.gas.Debited b.frame.gas := by
  refine h.preserves (P := fun x => a.frame.gas.Debited x.frame.gas) ?_ (.refl _)
  intro part _ x y htouch hx
  cases htouch with
  | gas _ hle => exact hx.trans (.consume hle)
  | refunds amount => exact hx.trans ⟨Nat.le_refl _, fun _ => rfl, fun _ => satAdd_le _ _⟩
  | _ => exact hx

/-- Halting because of a fault only pays. -/
theorem Frame.debited_fail (cause : Fault) (f : Frame) : f.gas.Debited (f.fail cause).gas := by
  unfold Frame.fail
  by_cases hrunning : f.running = true
  · by_cases hall : cause.consumesAllGas = true
    · simpa [hrunning, hall] using GasMeter.Debited.burn f.gas
    · simpa [hrunning, hall] using GasMeter.Debited.refl f.gas
  · simpa [hrunning] using GasMeter.Debited.refl f.gas

/-! ## Prices of calls -/

namespace CallData

/-- The surcharge that is paid for a call. -/
def surcharge (call : CallData) : Nat :=
  if call.kind = .external ∧ call.value ≠ 0 then Gas.callValue else 0

/-- What the frame of a call gets on top of the gas that is handed to it. -/
def stipend (call : CallData) : Nat :=
  if call.kind = .external ∧ call.value ≠ 0 then Gas.callStipend else 0

/-- The gas of the frame of a call. -/
def granted (call : CallData) (forwarded : Nat) : Nat :=
  if call.kind = .external ∧ call.value ≠ 0 then satAdd forwarded Gas.callStipend else forwarded

/-- The stipend is part of the surcharge. -/
theorem stipend_le_surcharge (call : CallData) : call.stipend ≤ call.surcharge := by
  unfold stipend surcharge
  split
  · decide
  · exact Nat.le_refl 0

theorem granted_le (call : CallData) (forwarded : Nat) :
    call.granted forwarded ≤ forwarded + call.stipend := by
  unfold granted stipend
  split
  · exact Nat.min_le_left _ _
  · exact Nat.le_add_right _ _

/-- The addition of the stipend does not saturate where the sum is an amount. -/
theorem granted_eq {call : CallData} {forwarded : Nat} (h : forwarded + call.stipend ≤ maxAmount) :
    call.granted forwarded = forwarded + call.stipend := by
  unfold stipend at h
  unfold granted stipend
  split
  · rename_i hvalue
    rw [if_pos hvalue] at h
    exact satAdd_eq_add h
  · rfl

end CallData

/-- The calls that an instruction can make, by what its own frame was asked to do. -/
inductive Opcode.Makes (caller : CallData) : Opcode → CallData → Prop
  | internal {call : CallData} (hkind : call.kind = .internal)
      (hstatic : call.isStatic = caller.isStatic) (hvalue : call.value = caller.value) :
      Makes caller .callInternal call
  | readOnly {op : Opcode} {call : CallData} (hop : op = .call ∨ op = .staticCall)
      (hkind : call.kind = .static) (hstatic : call.isStatic = true) (hvalue : call.value = 0) :
      Makes caller op call
  | external {call : CallData} (hcaller : caller.isStatic = false) (hkind : call.kind = .external)
      (hstatic : call.isStatic = false) : Makes caller .call call
  | create {call : CallData} (hcaller : caller.isStatic = false) (hkind : call.kind = .create) :
      Makes caller .create call

/-- What is known about a request when the instruction that makes it is completed in the activation
`x`: of `gas`, its frame has paid the price of the instruction and what the child gets. A creation
pays for the child later. -/
def Request.Due (op : Opcode) (caller : CallData) (gas : Nat) (x : Activation) : Request → Prop
  | .proceed => x.frame.running = true → x.frame.gas.remaining < gas
  | .internal _ forwarded =>
    op = .callInternal ∧ x.frame.gas.remaining + forwarded + Gas.static op ≤ gas
  | .message call granted _ =>
    op.Makes caller call ∧ ∃ forwarded, granted = call.granted forwarded ∧
      x.frame.gas.remaining + forwarded + call.surcharge + Gas.static op ≤ gas
  | .create _ _ _ => op = .create ∧ x.frame.gas.remaining + Gas.static op ≤ gas

/-- The least price of a call is that of an internal one. -/
theorem Opcode.Makes.price {op : Opcode} {caller call : CallData} (h : op.Makes caller call) :
    Gas.callInternal ≤ Gas.static op := by
  cases h with
  | internal | external | create => decide
  | readOnly hop => rcases hop with rfl | rfl <;> decide

/-- Only instructions that end the frame or are refused come without a price, and a write, which is
charged by what it changes. -/
theorem Gas.static_pos {op : Opcode} (h : op ∉ [.stop, .ret, .revert, .invalid, .undefined, .sstore]) :
    0 < Gas.static op := by
  cases op with
  | stop | ret | revert | invalid | undefined | sstore => simp at h
  | push n => cases n <;> exact Nat.zero_lt_succ _
  | _ => exact Nat.zero_lt_succ _

/-- A frame that goes on has paid something. -/
theorem Request.Due.lt {op : Opcode} {caller : CallData} {gas : Nat} {x : Activation}
    {request : Request} (h : request.Due op caller gas x) (hrunning : x.frame.running = true) :
    x.frame.gas.remaining < gas := by
  have hpos : 0 < Gas.callInternal := by decide
  cases request with
  | proceed => exact h hrunning
  | internal target forwarded =>
      obtain ⟨rfl, hpaid⟩ := h
      have hprice : 0 < Gas.static .callInternal := by decide
      omega
  | message call granted region =>
      obtain ⟨hmakes, forwarded, _, hpaid⟩ := h
      have hprice := hmakes.price
      omega
  | create value initCode granted =>
      obtain ⟨rfl, hpaid⟩ := h
      have hprice : 0 < Gas.static .create := by decide
      omega

/-! ## Payments of one instruction -/

/-- Any refusal. -/
def Abort.Any {σ : Type} (_ : Abort) (_ : σ) : Prop :=
  True

/-- The frame was asked to do `call`, and of `gas` it has paid at least `paid`. -/
structure Activation.Paid (call : CallData) (gas paid : Nat) (x : Activation) : Prop where
  call : x.frame.call = call
  gas : x.frame.gas.remaining + paid ≤ gas

namespace Exec

open CallTree.Action (Triple)
open Instruction

variable {α : Type} {call : CallData} {gas paid : Nat} {parts : List Part}

/-- What was paid stays paid. -/
theorem Within.pays {act : Exec α} (h : Within parts act) :
    Triple (Activation.Paid call gas paid) act (fun _ => Activation.Paid call gas paid)
      Abort.Any := by
  refine (h.triple fun part _ x y htouch hx => ⟨?_, ?_⟩).weaken (fun _ hx => hx)
    (fun _ _ hx => hx) fun _ _ _ => trivial
  · rw [← hx.call]
    cases htouch <;> rfl
  · have hle := (Touches.debited (.single ⟨part, List.mem_singleton_self part, htouch⟩)).remaining
    have := hx.gas
    omega

/-- A debit is paid. -/
theorem consume_gas_pays (amount : Nat) :
    Triple (Activation.Paid call gas paid) (Exec.consumeGas amount)
      (fun _ => Activation.Paid call gas (paid + amount)) Abort.Any := by
  refine .of_results (fun a _ b ha hact => ?_) fun _ _ _ _ _ => trivial
  obtain ⟨f, s⟩ := a
  unfold Exec.consumeGas onFrame Frame.consumeGas at hact
  by_cases hrunning : f.running = true
  · by_cases hlt : f.gas.remaining < amount
    · simp [hrunning, GasMeter.consume, hlt] at hact
    · simp only [hrunning, if_true, GasMeter.consume, hlt, if_false] at hact
      cases hact
      have := ha.gas
      refine ⟨ha.call, ?_⟩
      show f.gas.remaining - amount + (paid + amount) ≤ gas
      simp only at this
      omega
  · simp [hrunning] at hact

/-- Ending with an output halts the frame. -/
theorem complete_return_halts {P : Activation → Prop} (maxCodeSize : Nat) (data : Bytes) :
    Triple P (Exec.completeReturn maxCodeSize data) (fun _ x => x.frame.running = false)
      Abort.Any := by
  have hany : ∀ {β : Type} {Q : Activation → Prop} (act : Exec β),
      Triple Q act (fun _ _ => True) Abort.Any := fun act =>
    .of_results (fun _ _ _ _ _ => trivial) fun _ _ _ _ _ => trivial
  have hend : ∀ _ : Unit, Triple (fun _ => True) (do
      Exec.update (Frame.setOutput data)
      Exec.update Frame.stop) (fun _ x => x.frame.running = false) Abort.Any := fun _ =>
    (hany _).bind fun _ => update_triple fun x _ => rfl
  refine Triple.bind (hany _) fun f => .ite (fun _ => ?_) fun _ => hend ()
  refine .when (fun _ => hany _) (fun _ _ h => h) fun _ => ?_
  exact (hany _).bind fun deposit => (hany _).bind hend

end Exec

namespace Instruction

open CallTree.Action (Triple)
open Exec

variable {call : CallData} {gas paid : Nat} {env : Surroundings}

/-- A write costs something. -/
theorem storage_store_pays :
    Triple (Activation.Paid call gas 0) storageStore
      (fun _ x => x.frame.gas.remaining < gas) Abort.Any := by
  have hstack : Part.stack ∈ Opcode.sstore.touches := by decide
  refine (Within.pop hstack).pays.bind fun key => (Within.pop hstack).pays.bind fun value => ?_
  refine (Within.read_storage_with _ : Within Opcode.sstore.touches _).pays.bind fun current => ?_
  refine (consume_gas_pays _).bind fun _ => ?_
  have hprice : 0 < Gas.storageStore (current == 0) (value == 0) := by
    unfold Gas.storageStore
    split <;> decide
  have hrest : Exec.Within Opcode.sstore.touches (do
      let _ ← Exec.onStorage (Action.ofTotal (Storage.store key value))) :=
    (Within.store (by decide) key value).bind fun _ => .pure _
  refine ((Within.when (Within.of_touch (by decide : Part.refunds ∈ _) fun _ => .inr (.refunds _))
    fun _ => hrest).pays).post fun _ x hx => ?_
  have := hx.gas
  omega

/-- A completed instruction that neither calls nor creates has paid or has halted the frame. -/
theorem body_pays (limits : Limits) (pc : Nat) (immediate : Word) (op : Opcode) :
    Triple (Activation.Paid call gas (Gas.static op)) (body limits pc immediate op)
      (fun _ x => x.frame.running = true → x.frame.gas.remaining < gas) Abort.Any := by
  have hhalts : ∀ {P : Activation → Prop} {act : Exec Unit},
      Triple P act (fun _ x => x.frame.running = false) Abort.Any →
      Triple P act (fun _ x => x.frame.running = true → x.frame.gas.remaining < gas)
        Abort.Any := fun h =>
    h.post fun _ x hx hrunning => absurd hrunning (by simp [hx])
  have hcharged : 0 < Gas.static op → Triple (Activation.Paid call gas (Gas.static op))
      (body limits pc immediate op)
      (fun _ x => x.frame.running = true → x.frame.gas.remaining < gas) Abort.Any := by
    intro hpos
    refine (Within.body limits pc immediate op).pays.post fun _ x hx _ => ?_
    have := hx.gas
    omega
  have hregion : Triple (Activation.Paid call gas 0) popRegion
      (fun _ => Activation.Paid call gas 0) Abort.Any :=
    (Within.pop_region (by decide) (by decide) (by decide) : Within Part.common popRegion).pays
  by_cases hfree : op ∈ [.stop, .ret, .revert, .invalid, .undefined, .sstore]
  · simp only [List.mem_cons, List.not_mem_nil, or_false] at hfree
    rcases hfree with rfl | rfl | rfl | rfl | rfl | rfl
    · exact hhalts (update_triple fun x _ => rfl)
    · exact hhalts (hregion.bind fun data => complete_return_halts _ data)
    · exact hhalts (hregion.bind fun data => update_triple fun x _ => rfl)
    · exact .refuse fun _ _ => trivial
    · exact .refuse fun _ _ => trivial
    · exact storage_store_pays.post fun _ _ hlt _ => hlt
  · exact hcharged (Gas.static_pos hfree)

/-- An internal call has paid for the gas of its frame. -/
theorem request_internal_due :
    Triple (Activation.Paid call gas (Gas.static .callInternal)) (requestInternal env)
      (fun request x => request.Due .callInternal call gas x) Abort.Any := by
  have hstack : Part.stack ∈ Part.common := by decide
  refine (Within.pop_amount hstack).pays.bind fun target => ?_
  refine (Within.pop_amount hstack).pays.bind fun requested => ?_
  refine (Within.advance (by decide : Part.pc ∈ Part.common) 1).pays.bind fun _ => ?_
  refine (Within.frame : Within Part.common Exec.frame).pays.bind fun f => ?_
  refine .guard (fun _ _ _ => trivial) fun _ => .guard (fun _ _ _ => trivial) fun _ => ?_
  refine (consume_gas_pays _).bind fun _ => .pure fun x hx => ⟨rfl, ?_⟩
  have := hx.gas
  omega

/-- The data of a message, by who sends it and how. -/
theorem message_makes {op : Opcode} {withValue : Bool} {value : Word} {data : CallData}
    (hop : op = if withValue then .call else .staticCall)
    (hvalue : call.isStatic = true ∨ withValue = false → value = 0)
    (hdata : if call.isStatic || !withValue then
        data.kind = .static ∧ data.isStatic = true ∧ data.value = 0
      else data.kind = .external ∧ data.isStatic = false ∧ data.value = value) :
    op.Makes call data ∧ (data.kind = .external ∧ data.value ≠ 0 ↔ value ≠ 0) := by
  by_cases hread : (call.isStatic || !withValue) = true
  · rw [if_pos hread] at hdata
    obtain ⟨hkind, hstatic, hzero⟩ := hdata
    have hnone : value = 0 := hvalue (by simpa using hread)
    refine ⟨.readOnly ?_ hkind hstatic hzero, by simp [hkind, hnone]⟩
    cases withValue
    · exact .inr hop
    · exact .inl hop
  · rw [if_neg hread] at hdata
    obtain ⟨hkind, hstatic, hsame⟩ := hdata
    simp only [Bool.or_eq_true, Bool.not_eq_true', not_or, Bool.not_eq_true,
      Bool.not_eq_false] at hread
    obtain ⟨hcaller, rfl⟩ := hread
    subst hop
    exact ⟨.external hcaller hkind hstatic, by simp [hkind, hsame]⟩

/-- A message that a read-only frame sends, or that is sent to read, is read-only. -/
theorem sent_data {caller : CallData} (hcaller : caller = call) (origin callee : Address)
    (value : Word) (input : Bytes) (region : Region) {withValue : Bool} :
    let sent := if caller.isStatic || !withValue then
        CallData.static origin caller.contract callee input
      else CallData.external origin caller.contract callee value input
    let data := { sent with region := region }
    if call.isStatic || !withValue then
      data.kind = .static ∧ data.isStatic = true ∧ data.value = 0
    else data.kind = .external ∧ data.isStatic = false ∧ data.value = value := by
  subst hcaller
  by_cases hread : (caller.isStatic || !withValue) = true
  · simp only [hread, if_true]
    exact ⟨rfl, rfl, rfl⟩
  · simp only [hread]
    exact ⟨rfl, rfl, rfl⟩

/-- A message has paid for the gas that is handed to its frame, and the surcharge if it carries
value. -/
theorem request_message_due {withValue : Bool} {op : Opcode}
    (hop : op = if withValue then .call else .staticCall) :
    Triple (Activation.Paid call gas (Gas.static op)) (requestMessage env withValue)
      (fun request x => request.Due op call gas x) Abort.Any := by
  have hstack : Part.stack ∈ Part.lastReturn :: Part.common := by decide
  have hprice : 0 < Gas.static op := by
    subst hop
    cases withValue <;> decide
  refine (Within.pop_amount hstack).pays.bind fun requested => ?_
  refine (Within.pop hstack).pays.bind fun callee => ?_
  refine .choose (R := fun value x => (withValue = false → value = 0) ∧
      Activation.Paid call gas (Gas.static op) x)
    (fun hw => (Within.pop hstack).pays.post fun value x hx => ⟨by simp [hw], hx⟩)
    (fun _ => .pure fun x hx => ⟨fun _ => rfl, hx⟩) fun value => .assume fun hvalue => ?_
  refine (Within.pop_amount hstack).pays.bind fun argsOffset => ?_
  refine (Within.pop_amount hstack).pays.bind fun argsSize => ?_
  refine (Within.pop_amount hstack).pays.bind fun retOffset => ?_
  refine (Within.pop_amount hstack).pays.bind fun retSize => ?_
  refine (Within.advance (by decide : Part.pc ∈ Part.common) 1).pays.bind fun _ => ?_
  -- A read-only frame goes on only if it sends no value.
  refine frame_triple.bind fun f => ?_
  refine .guard (fun _ _ _ => trivial) fun hallowed => ?_
  have hsent : ∀ x, Activation.Paid call gas (Gas.static op) x ∧ f = x.frame →
      (call.isStatic = true → value = 0) ∧ Activation.Paid call gas (Gas.static op) x := by
    rintro x ⟨hx, rfl⟩
    refine ⟨fun hstatic => Decidable.byContradiction fun hne => ?_, hx⟩
    exact hallowed ⟨hx.call ▸ hstatic, hne⟩
  refine Triple.pre (.assume fun hread => ?_) hsent
  have hmemory : ∀ offset size, Within Part.common (chargeMemory offset size) := fun _ _ =>
    .charge_memory (by decide) (by decide) _ _
  refine (hmemory argsOffset argsSize).pays.bind fun _ => ?_
  refine (hmemory retOffset retSize).pays.bind fun _ => ?_
  let surcharge := if value ≠ 0 then Gas.callValue else 0
  refine .when (R := Activation.Paid call gas (Gas.static op + surcharge)) (fun hne => ?_)
    (fun hzero x hx => ?_) fun _ => ?_
  · rw [show surcharge = Gas.callValue from if_pos hne]
    exact consume_gas_pays _
  · rw [show surcharge = 0 from if_neg hzero]
    exact hx
  have hlast : Within (.lastReturn :: Part.common)
      (Exec.update (Frame.setLastReturn ByteArray.empty)) := .set_last_return (by decide) _
  refine hlast.pays.bind fun _ => .ite (fun _ => ?_) fun _ => ?_
  · refine (Within.push hstack 0).pays.bind fun _ => .pure fun x hx _ => ?_
    have := hx.gas
    omega
  refine (Within.frame : Within Part.common Exec.frame).pays.bind fun f => ?_
  refine (consume_gas_pays _).bind fun _ => ?_
  refine (Within.read_memory_with _ : Within Part.common (readMemory argsOffset argsSize)).pays.bind
    fun input => ?_
  refine frame_triple.bind fun g => .pure ?_
  rintro x ⟨hx, rfl⟩
  obtain ⟨hmakes, hcarries⟩ := message_makes hop (fun h => h.elim hread hvalue)
    (sent_data hx.call env.origin (Address.ofWord callee) value input
      ⟨argsOffset, argsSize⟩)
  refine ⟨hmakes, Gas.forwarded f.gas.remaining requested, ?_, ?_⟩
  · show (if value = 0 then _ else _) = CallData.granted _ _
    simp only [CallData.granted, hcarries]
    by_cases hzero : value = 0 <;> simp [hzero]
  · have hpaid := hx.gas
    simp only [CallData.surcharge, hcarries]
    omega

/-- A creation has paid its own price. -/
theorem request_create_due :
    Triple (Activation.Paid call gas (Gas.static .create)) (requestCreate env)
      (fun request x => request.Due .create call gas x) Abort.Any := by
  have hstack : Part.stack ∈ Part.lastReturn :: Part.common := by decide
  refine (Within.pop hstack).pays.bind fun value => ?_
  refine (Within.pop_amount hstack).pays.bind fun offset => ?_
  refine (Within.pop_amount hstack).pays.bind fun size => ?_
  refine (Within.advance (by decide : Part.pc ∈ Part.common) 1).pays.bind fun _ => ?_
  refine .guard (fun _ _ _ => trivial) fun _ => ?_
  have hmemory : Within Part.common (chargeMemory offset size) :=
    .charge_memory (by decide) (by decide) _ _
  have hgas : Within Part.common (consumeGas (Gas.initCode size)) := .consume_gas (by decide) _
  have hlast : Within (.lastReturn :: Part.common)
      (Exec.update (Frame.setLastReturn ByteArray.empty)) := .set_last_return (by decide) _
  refine hmemory.pays.bind fun _ => hgas.pays.bind fun _ => hlast.pays.bind fun _ => ?_
  refine .ite (fun _ => ?_) fun _ => ?_
  · refine (Within.push hstack 0).pays.bind fun _ => .pure fun x hx _ => ?_
    have hprice : 0 < Gas.static .create := by decide
    have := hx.gas
    omega
  · refine (Within.read_memory_with _ : Within Part.common (readMemory offset size)).pays.bind
      fun initCode => ?_
    refine (Within.frame : Within Part.common Exec.frame).pays.bind fun f => ?_
    exact .pure fun x hx => ⟨rfl, hx.gas⟩

/-- What is due when an instruction is completed that has been charged for. -/
theorem dispatch_due (env : Surroundings) (op : Opcode) :
    Triple (Activation.Paid call gas (Gas.static op)) (dispatch env op)
      (fun request x => request.Due op call gas x) Abort.Any := by
  have hlocal : Triple (Activation.Paid call gas (Gas.static op))
      (do executeLocal env.limits op; return Request.proceed)
      (fun request x => request.Due op call gas x) Abort.Any := by
    refine Triple.bind (R := fun _ x => x.frame.running = true → x.frame.gas.remaining < gas) ?_
      fun _ => .pure fun _ hx hrunning => hx hrunning
    refine (Within.frame : Within Part.common Exec.frame).pays.bind fun f => ?_
    refine (Within.frame : Within Part.common Exec.frame).pays.bind fun g => ?_
    refine (Within.of_checked _ : Within Part.common _).pays.bind fun immediate => ?_
    refine (Within.advance (by decide : Part.pc ∈ Part.common) _).pays.bind fun _ => ?_
    exact body_pays env.limits f.pc immediate op
  cases op with
  | callInternal => exact request_internal_due
  | call => exact request_message_due rfl
  | staticCall => exact request_message_due rfl
  | create => exact request_create_due
  | _ => exact hlocal

variable {a b : Activation}

/-- A read-only frame refuses every instruction that writes, and is left as it was. -/
theorem fetch_static (env : Surroundings) (hstatic : a.frame.call.isStatic = true)
    (hwrites : a.frame.currentOp.isStateModifying = true) :
    fetchAndDispatch env a = .error (.fault .writeInStaticContext) a := by
  have hframe : Exec.frame a = .ok a.frame a := rfl
  have hop : ∀ op, a.frame.currentOp = op → op.isStateModifying = true →
      fetchAndDispatch env a = .error (.fault .writeInStaticContext) a := by
    intro op hcur hwrites
    rw [fetchAndDispatch, Action.bind_ok hframe, hcur]
    cases op with
    | sstore | log topics | create =>
        refine (Action.bind_ok hframe).trans ?_
        rw [if_pos (by simp [hstatic, Opcode.isStateModifying])]
        rfl
    | _ => cases hwrites
  exact hop _ rfl hwrites

/-- A read-only frame completes no instruction that writes. -/
theorem fetch_allowed {request : Request} (h : fetchAndDispatch env a = .ok request b)
    (hstatic : a.frame.call.isStatic = true) : a.frame.currentOp.isStateModifying = false := by
  refine Bool.eq_false_iff.2 fun hwrites => ?_
  rw [fetch_static env hstatic hwrites] at h
  cases h

/-- What a completed instruction has paid. -/
theorem fetch_due {request : Request} (h : fetchAndDispatch env a = .ok request b) :
    request.Due a.frame.currentOp a.frame.call a.frame.gas.remaining b := by
  by_cases hop : a.frame.currentOp = .undefined
  · have hframe : Exec.frame a = .ok a.frame a := rfl
    rw [fetchAndDispatch, Action.bind_ok hframe, hop] at h
    obtain ⟨f, y, hread, h⟩ := Action.bind_eq_ok h
    cases hread
    cases hbyte : a.frame.currentByte? with
    | none =>
        -- Past the end of the code the frame stops.
        simp only [hbyte] at h
        obtain ⟨_, x, hstop, h⟩ := Action.bind_eq_ok h
        cases hstop
        cases h
        intro hrunning
        cases hrunning
    | some byte =>
        simp only [hbyte] at h
        cases h
  · obtain ⟨x, hgas, h⟩ := fetch_ok h hop
    have hstart : Activation.Paid a.frame.call a.frame.gas.remaining 0 a := ⟨rfl, Nat.le_refl _⟩
    have hpaid := (consume_gas_pays _).ok hstart hgas
    rw [Nat.zero_add] at hpaid
    exact (dispatch_due env _).ok hpaid h

end Instruction

/-! ## Refused instructions -/

/-- The frame has not halted. -/
def Activation.Running (x : Activation) : Prop :=
  x.frame.running = true

namespace Exec

open CallTree.Action (Triple)
open Instruction

variable {α : Type} {parts : List Part}

/-- A frame goes on running while its verdict is not touched. -/
theorem Within.runs {act : Exec α} (h : Within parts act) (hparts : Part.verdict ∉ parts) :
    Triple Activation.Running act (fun _ => Activation.Running) fun _ => Activation.Running :=
  h.triple fun part hpart x y htouch hx => by
    have hsingle : Touches [part] x y := .single ⟨part, List.mem_singleton_self part, htouch⟩
    refine (hsingle.running_eq fun hverdict => hparts ?_).trans hx
    rwa [← List.mem_singleton.1 hverdict] at hpart

/-- The end of a frame is the last thing it does, so what is refused before finds it running. -/
theorem complete_return_runs (maxCodeSize : Nat) (data : Bytes) :
    Triple Activation.Running (Exec.completeReturn maxCodeSize data) (fun _ _ => True)
      fun _ => Activation.Running := by
  have hend : ∀ _ : Unit, Triple Activation.Running (do
      Exec.update (Frame.setOutput data)
      Exec.update Frame.stop) (fun _ _ => True) fun _ => Activation.Running := fun _ =>
    ((Within.set_output (by decide) data : Within [.output] _).runs (by decide)).bind fun _ =>
      update_triple fun _ _ => trivial
  refine Triple.bind ((Within.frame : Within [] Exec.frame).runs (by decide)) fun f => ?_
  refine .ite (fun _ => ?_) fun _ => hend ()
  refine .guard (fun _ _ h => h) fun _ => ?_
  refine Triple.bind ((Within.of_checked _ : Within [] _).runs (by decide)) fun deposit => ?_
  exact ((Within.consume_gas (by decide) deposit : Within [.gas] _).runs (by decide)).bind hend

/-- A frame that cannot take up the result of a child is still running. -/
theorem resume_runs (limits : Limits) (finished : FinishedCall) :
    Triple Activation.Running (Exec.resume limits finished) (fun _ _ => True)
      fun _ => Activation.Running := by
  have hstack : ∀ word, Triple Activation.Running (Exec.push word) (fun _ _ => True)
      fun _ => Activation.Running := fun word =>
    ((Within.push (by decide) word : Within [.stack] _).runs (by decide)).post fun _ _ _ => trivial
  have hlast : ∀ data, Triple Activation.Running (Exec.update (Frame.setLastReturn data))
      (fun _ => Activation.Running) fun _ => Activation.Running := fun data =>
    (Within.set_last_return (by decide) data : Within [.lastReturn] _).runs (by decide)
  have hcopy : ∀ region data, Triple Activation.Running (copyOutput region data)
      (fun _ => Activation.Running) fun _ => Activation.Running := fun region data =>
    (Within.copy_output (by decide) region data : Within [.memory] _).runs (by decide)
  refine Triple.bind (R := fun _ => Activation.Running) (fun x hx => hx) fun staged => ?_
  split
  · exact .refuse fun _ h => h
  · exact ((Within.set_output (by decide) _ : Within [.output] _).runs (by decide)).bind fun _ =>
      .refuse fun _ h => h
  · exact .ite (fun _ => complete_return_runs _ _) fun _ => .pure fun _ _ => trivial
  · exact hstack _
  · exact (hlast _).bind fun _ => hstack _
  · exact (hcopy _ _).bind fun _ => (hlast _).bind fun _ => hstack _
  · exact (hcopy _ _).bind fun _ => (hlast _).bind fun _ => hstack _

end Exec

namespace Instruction

open CallTree.Action (Triple)
open Exec

variable {env : Surroundings} {a b : Activation}

/-- An instruction that neither calls nor creates is refused before it ends the frame. -/
theorem body_runs (limits : Limits) (pc : Nat) (immediate : Word) (op : Opcode) :
    Triple Activation.Running (body limits pc immediate op) (fun _ _ => True)
      fun _ => Activation.Running := by
  have hregion : Triple Activation.Running popRegion (fun _ => Activation.Running)
      fun _ => Activation.Running :=
    (Within.pop_region (by decide) (by decide) (by decide) : Within Part.common popRegion).runs
      (by decide)
  by_cases hverdict : Part.verdict ∈ op.touches
  · cases op with
    | stop => exact update_triple fun _ _ => trivial
    | returnInternal =>
        refine Triple.bind ((Within.frame : Within [] Exec.frame).runs (by decide)) fun f => ?_
        exact .ite (fun _ => update_triple fun _ _ => trivial) fun _ => .refuse fun _ h => h
    | ret => exact hregion.bind fun data => complete_return_runs _ data
    | revert => exact hregion.bind fun data => update_triple fun _ _ => trivial
    | undefined => exact .refuse fun _ h => h
    | _ => simp [Opcode.touches, Part.common] at hverdict
  · exact ((Within.body limits pc immediate op).runs hverdict).post fun _ _ _ => trivial

/-- An instruction is refused before it ends the frame. -/
theorem fetch_refused_running {e : Abort} (h : fetchAndDispatch env a = .error e b)
    (hrunning : a.frame.running = true) : b.frame.running = true := by
  have hframe : Exec.frame a = .ok a.frame a := rfl
  have hread : Triple Activation.Running Exec.frame (fun _ => Activation.Running)
      fun _ => Activation.Running := (Within.frame : Within [] Exec.frame).runs (by decide)
  have hgas : ∀ amount, Triple Activation.Running (Exec.consumeGas amount)
      (fun _ => Activation.Running) fun _ => Activation.Running := fun amount =>
    (Within.consume_gas (by decide) amount : Within [.gas] _).runs (by decide)
  have hdispatch : ∀ op, Triple Activation.Running (dispatch env op) (fun _ _ => True)
      fun _ => Activation.Running := by
    intro op
    have hlocal : Triple Activation.Running (do executeLocal env.limits op; return Request.proceed)
        (fun _ _ => True) fun _ => Activation.Running := by
      refine Triple.bind (R := fun _ _ => True) ?_ fun _ => .pure fun _ _ => trivial
      refine hread.bind fun f => hread.bind fun g => ?_
      refine Triple.bind ((Within.of_checked _ : Within [] _).runs (by decide)) fun immediate => ?_
      refine Triple.bind ((Within.advance (by decide) _ : Within [.pc] _).runs (by decide))
        fun _ => body_runs _ _ _ _
    cases op with
    | callInternal | call | staticCall | create =>
        exact ((Within.dispatch env _).runs (by decide)).post fun _ _ _ => trivial
    | _ => exact hlocal
  have hop : ∀ op, a.frame.currentOp = op → b.frame.running = true := by
    intro op hcur
    rw [fetchAndDispatch, Action.bind_ok hframe, hcur] at h
    cases op with
    | undefined =>
        refine Triple.error (Q := fun _ _ => True) (E := fun _ => Activation.Running)
          (hread.bind fun f => ?_) hrunning h
        split
        · exact Triple.bind (R := fun _ _ => True) (update_triple fun _ _ => trivial) fun _ =>
            .pure fun _ _ => trivial
        · exact .refuse fun _ hx => hx
    | _ =>
        refine Triple.error (Q := fun _ _ => True) (E := fun _ => Activation.Running)
          (hread.bind fun f => .ite (fun _ => .refuse fun _ h => h) fun _ => ?_) hrunning h
        exact (hgas _).bind fun _ => hdispatch _
  exact hop _ rfl

end Instruction
end CallTree
