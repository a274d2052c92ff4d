import CallTree.Proofs.Sizes

/-!
# Instructions without overflow

An action fits (`Exec.Fits`) if it keeps an activation within the bounds on sizes and never overflows.
There is one rule for every way to put actions together and one lemma for every instruction.
`Instruction.fetch_fits` is the result on instructions, and `Exec.resume_fits` that on taking up the
result of a child.
-/

namespace CallTree

/-! ## Actions -/

/-- A touch that gives no output keeps the sizes. -/
theorem Touch.sized {part : Part} {x y : Activation} (h : Touch part x y) (hpart : part ≠ .output)
    (hx : x.Sized) : y.Sized := by
  obtain ⟨⟨hcode, houtput, hstaged⟩, hspace⟩ := hx
  cases h with
  | output data => exact absurd rfl hpart
  | staged => exact ⟨⟨hcode, houtput, Nat.zero_le _⟩, hspace⟩
  | stack items =>
      refine ⟨⟨hcode, houtput, hstaged⟩, ?_⟩
      rintro _ ⟨⟩
      exact ⟨(hspace _ rfl).memory, (hspace _ rfl).pending⟩
  | expand hexpand =>
      refine ⟨⟨hcode, houtput, hstaged⟩, ?_⟩
      rintro _ ⟨⟩
      exact ⟨((Memory.expand_sized _ _).ok (hspace _ rfl).memory hexpand).2, (hspace _ rfl).pending⟩
  | write hwrite =>
      refine ⟨⟨hcode, houtput, hstaged⟩, ?_⟩
      rintro _ ⟨⟩
      exact ⟨(Memory.write_sized _ _).ok (hspace _ rfl).memory hwrite, (hspace _ rfl).pending⟩
  | slots key value =>
      refine ⟨⟨hcode, houtput, hstaged⟩, ?_⟩
      rintro _ ⟨⟩
      exact ⟨(hspace _ rfl).memory, (hspace _ rfl).pending⟩
  | _ => exact ⟨⟨hcode, houtput, hstaged⟩, hspace⟩

namespace Exec

open CallTree.Action (Triple)

variable {α β : Type} {parts : List Part} {Q : α → Prop}

/-- The action keeps the sizes, never overflows, and gives a result with `Q` if it is completed. -/
def Fits (act : Exec α) (Q : α → Prop) : Prop :=
  Triple Activation.Sized act (fun r x => Q r ∧ x.Sized) (Refused Activation.Sized)

namespace Fits

/-- An action that cannot overflow and gives no output. -/
theorem of_safe {act : Exec α} (h : Within parts act) (hsafe : Safe act)
    (hparts : Part.output ∉ parts) : Fits act fun _ => True := by
  have hkept := h.triple (P := Activation.Sized) fun part hpart x y htouch hx =>
    htouch.sized (fun he => hparts (he ▸ hpart)) hx
  refine .of_results (fun x r y hx hact => ⟨trivial, hkept.ok hx hact⟩) fun x e y hx hact => ?_
  exact ⟨hsafe x e y hact, hkept.error hx hact⟩

theorem pure {r : α} (h : Q r) : Fits (Pure.pure r : Exec α) Q :=
  Triple.pure fun _ hx => ⟨h, hx⟩

theorem refuse (cause : Fault) : Fits (Action.refuse cause : Exec α) Q :=
  Triple.refuse fun _ hx => ⟨by simp, hx⟩

/-- One action after another. -/
theorem bind {R : β → Prop} {act : Exec β} {next : β → Exec α} (h : Fits act R)
    (hnext : ∀ r, R r → Fits (next r) Q) : Fits (act >>= next) Q :=
  Triple.bind h fun r => .assume (hnext r)

theorem ite {c : Prop} [Decidable c] {act other : Exec α} (h : Fits act Q)
    (hother : Fits other Q) : Fits (if c then act else other) Q :=
  Triple.ite (fun _ => h) fun _ => hother

/-- An action that is taken only under a condition, before the rest. -/
theorem when {c : Prop} [Decidable c] {act : Exec Unit} {rest : Unit → Exec α}
    (h : Fits act fun _ => True) (hrest : ∀ r, Fits (rest r) Q) :
    Fits (if c then act >>= rest else rest ()) Q :=
  ite (h.bind fun r _ => hrest r) (hrest ())

/-- A number that is an amount. -/
theorem of_checked {result : Option α} (h : ∃ r, result = some r) :
    Fits (Action.ofChecked result : Exec α) fun _ => True := by
  obtain ⟨r, rfl⟩ := h
  exact fun x hx => ⟨trivial, hx⟩

/-! ### The frame -/

theorem frame : Fits Exec.frame fun _ => True :=
  fun _ hx => ⟨trivial, hx⟩

/-- A change to the frame. -/
theorem update {g : Frame → Frame} (h : ∀ f, f.Sized → (g f).Sized) :
    Fits (Exec.update g) fun _ => True :=
  fun x hx => ⟨trivial, h x.frame hx.frame, hx.space⟩

theorem advance (count : Nat) : Fits (Exec.update (Frame.advance count)) fun _ => True := by
  refine update fun f hf => ?_
  unfold Frame.advance
  split
  · exact ⟨hf.code, hf.output, hf.staged⟩
  · exact hf

theorem jump (dest : Nat) : Fits (Exec.jump dest) fun _ => True := by
  refine frame.bind fun f _ => .ite (update fun f hf => ?_) (.refuse _)
  unfold Frame.setPc
  split
  · exact ⟨hf.code, hf.output, hf.staged⟩
  · exact hf

theorem stop : Fits (Exec.update Frame.stop) fun _ => True := by
  refine update fun f hf => ?_
  simp only [Frame.stop]
  split
  · exact ⟨hf.code, hf.output, hf.staged⟩
  · exact ⟨hf.code, hf.output, hf.staged⟩

theorem set_output {data : Bytes} (hdata : data.size ≤ largestMemory) :
    Fits (Exec.update (Frame.setOutput data)) fun _ => True :=
  update fun _ hf => ⟨hf.code, hdata, hf.staged⟩

theorem set_last_return (data : Bytes) :
    Fits (Exec.update (Frame.setLastReturn data)) fun _ => True :=
  update fun _ hf => ⟨hf.code, hf.output, hf.staged⟩

theorem record_refund (amount : Nat) :
    Fits (Exec.update (Frame.recordRefund amount)) fun _ => True :=
  update fun _ hf => ⟨hf.code, hf.output, hf.staged⟩

theorem consume_gas (amount : Nat) : Fits (Exec.consumeGas amount) fun _ => True :=
  of_safe (.consume_gas (List.mem_singleton_self _) amount) (.consume_gas amount) (by decide)

/-! ### The containers -/

theorem push (word : Word) : Fits (Exec.push word) fun _ => True :=
  of_safe (.push (List.mem_singleton_self _) word) (.push word) (by decide)

theorem pop : Fits Exec.pop fun _ => True :=
  of_safe (.pop (List.mem_singleton_self _)) .pop (by decide)

theorem pop_amount : Fits Exec.popAmount fun _ => True :=
  of_safe (.pop_amount (List.mem_singleton_self _)) .pop_amount (by decide)

theorem pop_many (n : Nat) : Fits (Exec.popMany n) fun _ => True := by
  induction n with
  | zero => exact .pure trivial
  | succ n ih => exact pop.bind fun _ _ => ih.bind fun _ _ => .pure trivial

theorem dup (n : Nat) : Fits (Exec.onStack (Stack.dup n)) fun _ => True :=
  of_safe (.dup (List.mem_singleton_self _) n) (.dup n) (by decide)

theorem swap (n : Nat) : Fits (Exec.onStack (Stack.swap n)) fun _ => True :=
  of_safe (.swap (List.mem_singleton_self _) n) (.swap n) (by decide)

theorem read_storage_with (g : Storage → α) :
    Fits (Exec.onStorage (Action.read g)) fun _ => True :=
  of_safe (.read_storage_with g : Within [] _) (.read_storage_with g) (by decide)

theorem store (key value : Word) :
    Fits (Exec.onStorage (Action.ofTotal (Storage.store key value))) fun _ => True :=
  of_safe (.store (List.mem_singleton_self _) key value) (.store key value) (by decide)

/-- An action on the memory. -/
theorem on_memory {act : Action Memory α}
    (h : Triple Memory.Sized act (fun r m => Q r ∧ m.Sized) (Refused Memory.Sized)) :
    Fits (Exec.onMemory act) Q := by
  rintro ⟨f, _ | ⟨stack, memory, storage, pending⟩⟩ ⟨hf, hspace⟩
  · exact ⟨by simp, hf, hspace⟩
  · have hw := hspace _ rfl
    have hend := h memory hw.memory
    have hgoes : ∀ m : Memory, m.Sized →
        Activation.Sized ⟨f, some ⟨stack, m, storage, pending⟩⟩ := by
      intro m hm
      refine ⟨hf, ?_⟩
      rintro _ ⟨⟩
      exact ⟨hm, hw.pending⟩
    cases hact : act memory with
    | ok r m =>
        rw [hact] at hend
        simp only [Exec.onMemory, hact]
        exact ⟨hend.1, hgoes m hend.2⟩
    | error e m =>
        rw [hact] at hend
        simp only [Exec.onMemory, hact]
        exact ⟨hend.1, hgoes m hend.2⟩

/-- What is read from the memory. -/
theorem read_memory_with {g : Memory → α} (h : ∀ m, m.Sized → Q (g m)) :
    Fits (Exec.onMemory (Action.read g)) Q :=
  on_memory fun m hm => ⟨h m hm, hm⟩

/-- What is read is as large as it was asked for. -/
theorem read_memory (offset size : Nat) :
    Fits (Exec.readMemory offset size) fun data => data.size = size :=
  read_memory_with fun m _ => Bytes.size_window m.data offset size

theorem write (offset : Nat) (part : Bytes) :
    Fits (Exec.onMemory (Memory.write offset part)) fun _ => True :=
  on_memory ((Memory.write_sized offset part).post fun _ _ hm => ⟨trivial, hm⟩)

/-- Growing the memory and paying for it. A region that lies inside the memory is no larger. -/
theorem charge_memory (offset size : Nat) :
    Fits (Exec.chargeMemory offset size) fun _ => size ≤ largestMemory := by
  have hwords : Fits (Exec.onMemory (Action.read (·.words))) (· < 2 ^ 32) :=
    read_memory_with fun m hm => hm.words_lt
  unfold chargeMemory
  by_cases hzero : size = 0
  · rw [if_neg (not_not_intro hzero)]
    exact .pure (hzero ▸ Nat.zero_le _)
  rw [if_pos hzero]
  refine hwords.bind fun old _ => ?_
  refine (on_memory (Memory.expand_sized offset size)).bind fun _ hsize => ?_
  refine hwords.bind fun new hnew => ?_
  refine (of_checked (Gas.memory_growth_fits old hnew)).bind fun cost _ => ?_
  exact (consume_gas cost).post fun _ _ hx => ⟨hsize, hx.2⟩

/-- Ending with an output. -/
theorem complete_return (maxCodeSize : Nat) {data : Bytes} (hdata : data.size ≤ largestMemory) :
    Fits (Exec.completeReturn maxCodeSize data) fun _ => True := by
  have hend : ∀ _ : Unit, Fits (do
      Exec.update (Frame.setOutput data)
      Exec.update Frame.stop) fun _ => True := fun _ => (set_output hdata).bind fun _ _ => stop
  refine frame.bind fun f _ => .ite ?_ (hend ())
  refine .when (.refuse _) fun _ => ?_
  refine (of_checked (Gas.code_deposit_fits hdata)).bind fun deposit _ => ?_
  exact (consume_gas deposit).bind fun _ _ => hend ()

end Fits
end Exec

/-! ## Instructions -/

/-- No instruction logs more than four topics. -/
theorem Opcode.topics_le {byte : UInt8} {topics : Nat} (h : ofByte byte = .log topics) :
    topics ≤ 4 := by
  simp only [ofByte] at h
  split at h
  · cases h
  split at h
  · cases h
  split at h
  · cases h
  split at h
  · have hlog := Opcode.log.inj h
    omega
  · split at h <;> cases h

namespace Frame

variable {f : Frame}

/-- Past the end of the code there is no instruction. -/
theorem pc_lt_of_op (h : f.currentOp ≠ .undefined) : f.pc < f.program.code.size := by
  by_cases hlt : f.pc < f.program.code.size
  · exact hlt
  · exact absurd (dif_neg hlt) h

theorem topics_le {topics : Nat} (h : f.currentOp = .log topics) : topics ≤ 4 := by
  have hlt : f.pc < f.program.code.size := pc_lt_of_op (by simp [h])
  exact Opcode.topics_le ((dif_pos hlt).symm.trans h)

/-- The bytes after an instruction lie at offsets that are amounts. -/
theorem immediate_fits (hcode : f.program.code.size ≤ largestCode)
    (hpc : f.pc < f.program.code.size) (size : Nat) : ∃ word, f.immediate? size = some word := by
  have hstart : satAdd f.pc 1 ≤ f.pc + 1 := Nat.min_le_left _ _
  have hsize : min size 32 ≤ 32 := Nat.min_le_right _ _
  unfold immediate?
  split
  · exact ⟨0, rfl⟩
  · rename_i n hn
    unfold largestCode at hcode
    have hend : satAdd f.pc 1 + n ≤ maxAmount := by
      unfold maxAmount
      omega
    simp only [if_pos hend]
    exact ⟨_, rfl⟩

end Frame

/-- The init code of a creation is no larger than code can be. -/
def Request.Sized : Request → Prop
  | .create _ initCode _ => initCode.size ≤ largestCode
  | _ => True

/-- The input of a message comes from a memory. -/
def Request.Brief : Request → Prop
  | .message call _ _ => call.input.size ≤ largestMemory
  | _ => True

namespace Instruction

open CallTree.Action (Triple)
open Exec

theorem return_data_copy_fits : Fits returnDataCopy fun _ => True := by
  refine Fits.pop_amount.bind fun dest _ => Fits.pop_amount.bind fun offset _ => ?_
  refine Fits.pop_amount.bind fun size _ => Fits.frame.bind fun f _ => ?_
  refine .when (.refuse _) fun _ => ?_
  refine (Fits.charge_memory dest size).bind fun _ _ => (Fits.consume_gas _).bind fun _ _ => ?_
  exact (Fits.write dest _).bind fun _ _ => .pure trivial

theorem storage_store_fits : Fits storageStore fun _ => True := by
  refine Fits.pop.bind fun key _ => Fits.pop.bind fun value _ => ?_
  refine (Fits.read_storage_with _).bind fun current _ => (Fits.consume_gas _).bind fun _ _ => ?_
  exact .when (.record_refund _) fun _ => (Fits.store key value).bind fun _ _ => .pure trivial

/-- There are at most four topics. -/
theorem log_fits {topics : Nat} (htopics : topics ≤ 4) : Fits (log topics) fun _ => True := by
  refine Fits.pop_amount.bind fun offset _ => Fits.pop_amount.bind fun size _ => ?_
  refine (Fits.pop_many topics).bind fun words _ => ?_
  refine (Fits.charge_memory offset size).bind fun _ hsize => ?_
  refine (Fits.of_checked (Gas.log_data_fits hsize htopics)).bind fun cost _ => ?_
  refine (Fits.consume_gas cost).bind fun _ _ => (Fits.read_memory offset size).bind fun data _ => ?_
  exact .update fun f hf => ⟨hf.code, hf.output, hf.staged⟩

/-- What is read from a memory that was grown for it is no larger than a memory. -/
theorem pop_region_fits : Fits popRegion fun data => data.size ≤ largestMemory := by
  refine Fits.pop_amount.bind fun offset _ => Fits.pop_amount.bind fun size _ => ?_
  refine (Fits.charge_memory offset size).bind fun _ hsize => ?_
  exact (Fits.read_memory offset size).post fun data _ hx =>
    ⟨Nat.le_trans (Nat.le_of_eq hx.1) hsize, hx.2⟩

/-- The instructions that neither call nor create. -/
theorem body_fits (limits : Limits) (pc : Nat) (immediate : Word) {op : Opcode}
    (htopics : ∀ topics, op = .log topics → topics ≤ 4) :
    Fits (body limits pc immediate op) fun _ => True := by
  cases op with
  | stop => exact .stop
  | add | mul | sub | lt | gt | eq =>
      exact Fits.pop.bind fun _ _ => Fits.pop.bind fun _ _ => .push _
  | isZero => exact Fits.pop.bind fun _ _ => .push _
  | caller | callValue | callDataSize | returnDataSize | gas =>
      exact Fits.frame.bind fun _ _ => .push _
  | callDataLoad => exact Fits.pop_amount.bind fun _ _ => Fits.frame.bind fun _ _ => .push _
  | returnDataCopy => exact return_data_copy_fits
  | pop => exact Fits.pop.bind fun _ _ => .pure trivial
  | mload =>
      refine Fits.pop_amount.bind fun offset _ => (Fits.charge_memory offset 32).bind fun _ _ => ?_
      exact (Fits.read_memory offset 32).bind fun _ _ => .push _
  | mstore | mstore8 =>
      refine Fits.pop_amount.bind fun offset _ => Fits.pop.bind fun value _ => ?_
      refine (Fits.charge_memory offset _).bind fun _ _ => ?_
      exact (Fits.write offset _).bind fun _ _ => .pure trivial
  | sload => exact Fits.pop.bind fun key _ => (Fits.read_storage_with _).bind fun _ _ => .push _
  | sstore => exact storage_store_fits
  | jump => exact Fits.pop_amount.bind fun dest _ => .jump dest
  | jumpIf =>
      refine Fits.pop_amount.bind fun dest _ => Fits.pop.bind fun condition _ => ?_
      exact .ite (.jump dest) (.pure trivial)
  | pc | push => exact .push _
  | msize =>
      exact (Fits.read_memory_with (Q := fun _ => True) fun _ _ => trivial).bind fun _ _ => .push _
  | jumpDest => exact .pure trivial
  | dup n => exact .dup n
  | swap n => exact .swap n
  | log topics => exact log_fits (htopics topics rfl)
  | returnInternal =>
      refine Fits.frame.bind fun f _ => .ite (.update fun f hf => ?_) (.refuse _)
      exact ⟨hf.code, hf.output, hf.staged⟩
  | ret => exact pop_region_fits.bind fun data hdata => .complete_return _ hdata
  | revert =>
      refine pop_region_fits.bind fun data hdata => .update fun f hf => ?_
      exact ⟨hf.code, hdata, hf.staged⟩
  | invalid | callInternal | call | staticCall | create | undefined => exact .refuse _

theorem request_internal_fits (env : Surroundings) : Fits (requestInternal env) Request.Sized := by
  refine Fits.pop_amount.bind fun target _ => Fits.pop_amount.bind fun requested _ => ?_
  refine (Fits.advance 1).bind fun _ _ => Fits.frame.bind fun f _ => ?_
  refine .when (.refuse _) fun _ => .when (.refuse _) fun _ => ?_
  exact (Fits.consume_gas _).bind fun _ _ => .pure trivial

theorem request_message_fits (env : Surroundings) (withValue : Bool) :
    Fits (requestMessage env withValue) fun request => request.Sized ∧ request.Brief := by
  refine Fits.pop_amount.bind fun requested _ => Fits.pop.bind fun callee _ => ?_
  refine .ite (Fits.pop.bind ?hrest) (Fits.bind (.pure trivial) ?hrest)
  intro value _
  refine Fits.pop_amount.bind fun argsOffset _ => Fits.pop_amount.bind fun argsSize _ => ?_
  refine Fits.pop_amount.bind fun retOffset _ => Fits.pop_amount.bind fun retSize _ => ?_
  refine (Fits.advance 1).bind fun _ _ => Fits.frame.bind fun f _ => ?_
  refine .when (.refuse .writeInStaticContext) fun _ => ?_
  refine (Fits.charge_memory argsOffset argsSize).bind fun _ hsize => ?_
  refine (Fits.charge_memory retOffset retSize).bind fun _ _ => ?_
  refine .when (.consume_gas Gas.callValue) fun _ => ?_
  refine (Fits.set_last_return ByteArray.empty).bind fun _ _ => ?_
  refine .ite ((Fits.push 0).bind fun _ _ => .pure ⟨trivial, trivial⟩) ?_
  refine Fits.frame.bind fun f _ => (Fits.consume_gas _).bind fun _ _ => ?_
  refine (Fits.read_memory argsOffset argsSize).bind fun input hinput => ?_
  refine Fits.frame.bind fun f _ => .pure ⟨trivial, ?_⟩
  show (CallData.input (if _ then _ else _)).size ≤ largestMemory
  split
  · exact Nat.le_trans (Nat.le_of_eq hinput) hsize
  · exact Nat.le_trans (Nat.le_of_eq hinput) hsize

theorem request_create_fits (env : Surroundings) : Fits (requestCreate env) Request.Sized := by
  refine Fits.pop.bind fun value _ => Fits.pop_amount.bind fun offset _ => ?_
  refine Fits.pop_amount.bind fun size _ => (Fits.advance 1).bind fun _ _ => ?_
  refine .when (.refuse _) fun _ => ?_
  refine (Fits.charge_memory offset size).bind fun _ hsize => ?_
  refine (Fits.consume_gas _).bind fun _ _ => ?_
  refine (Fits.set_last_return ByteArray.empty).bind fun _ _ => ?_
  refine .ite ((Fits.push 0).bind fun _ _ => .pure trivial) ?_
  refine (Fits.read_memory offset size).bind fun initCode hinit => Fits.frame.bind fun f _ => ?_
  have hmemory : largestMemory ≤ largestCode := by decide
  refine .pure ?_
  show initCode.size ≤ largestCode
  omega

/-- The activation is within the sizes and stands at the given instruction. -/
structure Stands (op : Opcode) (x : Activation) : Prop where
  sized : x.Sized
  op : x.frame.currentOp = op

theorem execute_local_fits (limits : Limits) {op : Opcode} (hop : op ≠ .undefined) :
    Triple (Stands op) (executeLocal limits op) (fun _ => Activation.Sized)
      (Refused Activation.Sized) := by
  rintro x ⟨hx, rfl⟩
  obtain ⟨immediate, himmediate⟩ := Frame.immediate_fits hx.frame.code (Frame.pc_lt_of_op hop)
    x.frame.currentOp.immediateSize
  have hframe : Exec.frame x = .ok x.frame x := rfl
  have hfetched : (Action.ofChecked (x.frame.immediate? x.frame.currentOp.immediateSize) :
      Exec Word) x = .ok immediate x := by
    rw [himmediate]
    rfl
  rw [executeLocal, Action.bind_ok hframe, Action.bind_ok hframe, Action.bind_ok hfetched]
  refine (((Fits.advance _).bind fun _ _ => body_fits limits _ immediate ?_).post
    fun _ _ hy => hy.2) x hx
  exact fun topics htopics => Frame.topics_le htopics

theorem dispatch_fits (env : Surroundings) {op : Opcode} (hop : op ≠ .undefined) :
    Triple (Stands op) (dispatch env op) (fun request x => request.Sized ∧ x.Sized)
      (Refused Activation.Sized) := by
  have hlocal : Triple (Stands op) (do executeLocal env.limits op; return Request.proceed)
      (fun request x => request.Sized ∧ x.Sized) (Refused Activation.Sized) :=
    (execute_local_fits env.limits hop).bind fun _ => .pure fun _ hx => ⟨trivial, hx⟩
  have hmessage : ∀ withValue, Fits (requestMessage env withValue) Request.Sized := fun withValue =>
    (request_message_fits env withValue).post fun _ _ hx => ⟨hx.1.1, hx.2⟩
  cases op with
  | callInternal => exact (request_internal_fits env).pre fun _ hx => hx.sized
  | call => exact (hmessage true).pre fun _ hx => hx.sized
  | staticCall => exact (hmessage false).pre fun _ hx => hx.sized
  | create => exact (request_create_fits env).pre fun _ hx => hx.sized
  | _ => exact hlocal

/-- Paying does not move the frame on. -/
theorem pay_stands {op : Opcode} (amount : Nat) :
    Triple (Stands op) (consumeGas amount) (fun _ => Stands op) (Refused Activation.Sized) := by
  have hwithin : Within [.gas] (consumeGas amount) := .consume_gas (by decide) amount
  have hkept : ∀ part ∈ [Part.gas], ∀ x y, Touch part x y → Stands op x → Stands op y := by
    intro part hpart x y htouch hx
    cases List.mem_singleton.1 hpart
    refine ⟨htouch.sized (by simp) hx.sized, ?_⟩
    rw [← hx.op]
    cases htouch
    rfl
  refine .of_results (fun x r y hx hact => (hwithin.triple hkept).ok hx hact) ?_
  exact fun x e y hx hact => (Fits.consume_gas amount).error hx.sized hact

/-- No instruction overflows. -/
theorem fetch_fits (env : Surroundings) : Fits (fetchAndDispatch env) Request.Sized := by
  refine Triple.bind frame_triple fun f => ?_
  cases hop : f.currentOp with
  | undefined =>
      refine Triple.pre (Fits.frame.bind fun f _ => ?_) fun x hx => hx.1
      split
      · exact Fits.stop.bind fun _ _ => .pure trivial
      · exact .refuse _
  | _ =>
      refine Triple.pre (Triple.bind frame_triple fun g => ?_)
        fun x hx => (⟨hx.1, hx.2 ▸ hop⟩ : Stands _ x)
      refine .ite (fun _ => .refuse fun y hy => ⟨by simp, hy.1.sized⟩) fun _ => ?_
      refine ((pay_stands _).pre fun y hy => hy.1).bind fun _ => ?_
      exact dispatch_fits env (by simp)

end Instruction

/-- Neither does taking up the result of a child. -/
theorem Exec.resume_fits (limits : Limits) (finished : FinishedCall) :
    Fits (Exec.resume limits finished) fun _ => True := by
  have htake : Fits (Exec.onFrame (Action.ofTotal Frame.takeStaged))
      fun staged => staged.data.size ≤ largestMemory := fun x hx =>
    ⟨hx.frame.staged, ⟨hx.frame.code, hx.frame.output, Nat.zero_le _⟩, hx.space⟩
  have hcopy : ∀ region data, Fits (copyOutput region data) fun _ => True := fun region data =>
    (Fits.write region.offset _).bind fun _ _ => .pure trivial
  refine htake.bind fun staged hstaged => ?_
  split
  · exact .refuse _
  · exact (Fits.set_output hstaged).bind fun _ _ => .refuse _
  · exact .ite (.complete_return _ hstaged) (.pure trivial)
  · exact .push _
  · exact (Fits.set_last_return _).bind fun _ _ => .push _
  · refine (hcopy _ _).bind fun _ _ => (Fits.set_last_return _).bind fun _ _ => .push _
  · refine (hcopy _ _).bind fun _ _ => (Fits.set_last_return _).bind fun _ _ => .push _

end CallTree
