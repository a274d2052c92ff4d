import CallTree.Proofs.Boundaries
import CallTree.Proofs.Conservation
import CallTree.Proofs.Encodings
import CallTree.Proofs.Exact

/-!
# Arithmetic on amounts

Most results that could leave the 64-bit range are tested where they are computed, and one that is no
amount stops the run. The calculations that the definitions carry out without a test are listed here by
what they start from: a memory, a workspace, a frame or the whole call stack
(`Context.Calculates`). Each entry says what is known where the calculation is carried out; that the
definitions make sure of it first is shown where they are related to the entries
(`Frame.consume_gas_calculates` and its like).

Within the bounds on sizes all of them are exact (`Context.Sound.exact`): a memory keeps the
regions that its undo journal holds inside it, inputs come from memories, and there are never more frames
than gas can pay for.
-/

namespace CallTree

/-- An operation on two amounts. -/
inductive Calculation where
  | sum (a b : Nat)
  | difference (a b : Nat)
  | product (a b : Nat)

/-- The result is an amount again. -/
def Calculation.Exact : Calculation → Prop
  | sum a b => a + b ≤ maxAmount
  | difference a b => b ≤ a
  | product a b => a * b ≤ maxAmount

/-! ## What is calculated -/

/-- What is calculated from a memory. -/
inductive Memory.Calculates (m : Memory) : Calculation → Prop
  /-- How many bytes there are from an offset on. -/
  | readRest {offset : Nat} (hinside : offset < m.size) : m.Calculates (.difference m.size offset)
  /-- Where the bytes end that are read from there. -/
  | readEnd {offset : Nat} (size : Nat) (hinside : offset < m.size) :
      m.Calculates (.sum offset (min (m.size - offset) size))
  /-- How many words are added for a region that ends past the last byte. -/
  | wordsAdded {reach : Nat} (hbeyond : m.size < reach) :
      m.Calculates (.difference (wordsFor reach) m.words)
  /-- Where the bytes end that are written, once the memory has grown for them. -/
  | writeEnd {offset added : Nat} {part : Bytes} {grown : Memory} (hpart : part.size ≠ 0)
      (hgrown : expand offset part.size m = .ok added grown) :
      m.Calculates (.sum offset part.size)
  /-- Where the bytes end that are put back. -/
  | undoEnd {entry : Overwrite} (hentry : entry ∈ m.journal.entries.toList) :
      m.Calculates (.sum entry.offset entry.previous.size)

/-- What is calculated from a workspace. -/
inductive Workspace.Calculates (w : Workspace) : Calculation → Prop
  | memory {calculation : Calculation} (h : w.memory.Calculates calculation) :
      w.Calculates calculation
  /-- Where an operand lies that is counted from the top. -/
  | operand {n : Nat} (hn : n < w.stack.size) : w.Calculates (.difference w.stack.size (n + 1))
  /-- The handle of a checkpoint that was opened after others. -/
  | handle (others : Nat) : w.Calculates (.difference (others + 1) 1)

/-- What is calculated from a frame. -/
inductive Frame.Calculates (f : Frame) : Calculation → Prop
  /-- What is left after a debit that is not refused. -/
  | debit {amount : Nat} (henough : amount ≤ f.gas.remaining) :
      f.Calculates (.difference f.gas.remaining amount)
  /-- All but one part in 64 of what is left. -/
  | forwarded : f.Calculates (.difference f.gas.remaining (f.gas.remaining / 64))
  /-- The length of an instruction with its immediate. -/
  | length : f.Calculates (.sum 1 f.currentOp.immediateSize)
  /-- How many bytes of a word lie before an immediate of some size. -/
  | padding (size : Nat) : f.Calculates (.difference 32 (min size 32))
  /-- Where the walk over the code goes on after an instruction. -/
  | walk {i : Nat} (hi : i < f.program.code.size) :
      f.Calculates (.sum i (1 + (Opcode.ofByte f.program.code[i]).immediateSize))
  /-- How many bytes of the input there are from an offset on. -/
  | inputRest {offset : Nat} (hinside : offset < f.call.input.size) :
      f.Calculates (.difference f.call.input.size offset)
  /-- Where the bytes end that are loaded from there. -/
  | inputEnd {offset : Nat} (hinside : offset < f.call.input.size) :
      f.Calculates (.sum offset (min (f.call.input.size - offset) 32))
  /-- Where a text ends whose length, as it is spelled, is no larger than the output. -/
  | reasonEnd {length : Nat} (hlength : length ≤ f.output.size) :
      f.Calculates (.sum RevertReason.textStart length)
  /-- The cost of copying. -/
  | copy {size : Nat} (hsize : size ≤ maxAmount) :
      f.Calculates (.product Gas.copyWord (wordsFor size))
  /-- The cost of init code. -/
  | initCode {size : Nat} (hsize : size ≤ maxAmount) :
      f.Calculates (.product Gas.initCodeWord (wordsFor size))

/-- What is calculated from a call stack. The nonces and the number of instructions so far are taken to
be below the largest amount. -/
inductive Context.Calculates (c : Context) : Calculation → Prop
  | workspace {cell : Nat} {w : Workspace} {calculation : Calculation}
      (hw : c.pool.get? cell = some w) (h : w.Calculates calculation) : c.Calculates calculation
  | frame {f : Frame} {calculation : Calculation} (hf : f ∈ c.frames.toList)
      (h : f.Calculates calculation) : c.Calculates calculation
  /-- The depth with one more frame. -/
  | depth : c.Calculates (.sum c.depth 1)
  /-- The number of instructions with one more. -/
  | steps {steps : Nat} (hsteps : steps < maxAmount) : c.Calculates (.sum steps 1)
  /-- The next nonce of an account. -/
  | nonce {creator : Address} (hnonce : c.world.nonce creator < maxAmount) :
      c.Calculates (.sum (c.world.nonce creator) 1)
  /-- How many bytes of the next nonce there are from the first on that is not zero. -/
  | nonceBytes (creator : Address) : c.Calculates (.difference 8
      (((Bytes.ofNat 8 (c.world.nonce creator)).data.toList.findIdx? (· != 0)).getD 7))
  /-- The length of what is hashed into an address, with its header. -/
  | preimage {creator : Address} (hnonce : c.world.nonce creator < maxAmount) :
      c.Calculates (.sum (Rlp.string creator.toBytes.data.toList ++
        Rlp.number (c.world.nonce creator)).length 1)

/-! ## Addresses -/

namespace Rlp

/-- A short string gets a header of one byte at most. -/
theorem length_string_le {content : List UInt8} (h : content.length ≤ 55) :
    (string content).length ≤ content.length + 1 := by
  have hheader : ∀ length ≤ 55, (header 0x80 length).length = 1 := by
    intro length hlength
    simp [header, hlength]
  unfold string
  split
  · split
    · simp
    · simp [hheader 1 (by decide)]
  · simp [hheader content.length h]
    omega

/-- What is hashed into an address is short. -/
theorem length_preimage_le (creator : Address) {nonce : Nat} (hnonce : nonce ≤ maxAmount) :
    (string creator.toBytes.data.toList ++ number nonce).length ≤ 30 := by
  have hcreator : creator.toBytes.data.toList.length = 20 := Bytes.size_of_nat 20 creator.toNat
  have hdigits : (digits nonce).length ≤ 8 := by
    refine length_digits_le ?_
    unfold maxAmount at hnonce
    omega
  have hfirst := @length_string_le creator.toBytes.data.toList (by omega)
  have hsecond := @length_string_le (digits nonce) (by omega)
  rw [List.length_append, number]
  omega

end Rlp

/-- The first byte of a nonce that is not zero is one of its eight. -/
theorem first_byte_le (nonce : Nat) :
    ((Bytes.ofNat 8 nonce).data.toList.findIdx? (· != 0)).getD 7 ≤ 8 := by
  cases hfirst : (Bytes.ofNat 8 nonce).data.toList.findIdx? (· != 0) with
  | none => decide
  | some start =>
      have hlength : (Bytes.ofNat 8 nonce).data.toList.length = 8 := Bytes.size_of_nat 8 nonce
      obtain ⟨hlt, -⟩ := List.findIdx?_eq_some_iff_getElem.1 hfirst
      exact Nat.le_of_lt (hlength ▸ hlt)

/-! ## Memories -/

/-- What is calculated from a bounded memory is exact. -/
theorem Memory.Bounded.exact {m : Memory} (h : m.Bounded) {calculation : Calculation}
    (hcalculates : m.Calculates calculation) : calculation.Exact := by
  obtain ⟨_, hsize, _⟩ := h.small
  have hmax : largestMemory ≤ maxAmount := by decide
  cases hcalculates with
  | readRest hinside => exact Nat.le_of_lt hinside
  | @readEnd offset size hinside =>
      have hle : offset + min (m.size - offset) size ≤ m.size := by omega
      exact Nat.le_trans hle (Nat.le_trans hsize hmax)
  | wordsAdded hbeyond => exact Nat.div_le_div_right (Nat.add_le_add_right (Nat.le_of_lt hbeyond) 31)
  | @writeEnd offset added part grown hpart hgrown =>
      -- A region whose end is no amount is refused before the memory grows.
      have hend : ¬maxAmount < offset + part.size := by
        intro hfar
        rw [expand, if_neg hpart, if_pos hfar] at hgrown
        cases hgrown
      exact Nat.le_of_not_lt hend
  | undoEnd hentry =>
      exact Nat.le_trans (h.entry_fits hentry) (Nat.le_trans hsize hmax)

/-- What is calculated from a workspace is exact if its memory is bounded. -/
theorem Workspace.Calculates.exact {w : Workspace} {calculation : Calculation}
    (h : w.Calculates calculation) (hmemory : w.memory.Bounded) : calculation.Exact := by
  cases h with
  | memory h => exact hmemory.exact h
  | operand hn => exact hn
  | handle others => exact Nat.le_add_left 1 others

/-! ## Frames -/

/-- What is calculated from a frame is exact if its code, its input and its output are within the
bounds. -/
theorem Frame.Calculates.exact {f : Frame} {calculation : Calculation} (h : f.Calculates calculation)
    (hsized : f.Sized) (hinput : f.call.input.size ≤ largestCode) : calculation.Exact := by
  have hlength : ∀ i, (hi : i < f.program.code.size) →
      (Opcode.ofByte f.program.code[i]).immediateSize ≤ 32 := fun i hi =>
    Opcode.immediate_size_le _
  have hwords : ∀ size ≤ maxAmount, 3 * wordsFor size ≤ maxAmount := by
    intro size hsize
    unfold wordsFor
    unfold maxAmount at hsize ⊢
    omega
  cases h with
  | debit henough => exact henough
  | forwarded => exact Nat.div_le_self _ _
  | length =>
      have hle : f.currentOp.immediateSize ≤ 32 := by
        unfold currentOp Program.opAt
        split
        · exact Opcode.immediate_size_le _
        · exact Nat.zero_le _
      show 1 + f.currentOp.immediateSize ≤ maxAmount
      unfold maxAmount
      omega
  | padding size => exact Nat.min_le_right size 32
  | @walk i hi =>
      have hcode := hsized.code
      have hle := hlength i hi
      show i + (1 + (Opcode.ofByte f.program.code[i]).immediateSize) ≤ maxAmount
      unfold largestCode at hcode
      unfold maxAmount
      omega
  | inputRest hinside => exact Nat.le_of_lt hinside
  | @inputEnd offset hinside =>
      show offset + min (f.call.input.size - offset) 32 ≤ maxAmount
      unfold largestCode at hinput
      unfold maxAmount
      omega
  | @reasonEnd length hlength =>
      have houtput := hsized.output
      show RevertReason.textStart + length ≤ maxAmount
      unfold largestMemory at houtput
      unfold RevertReason.textStart maxAmount
      omega
  | @copy size hsize => exact hwords size hsize
  | @initCode size hsize =>
      have hle := hwords size hsize
      show 2 * wordsFor size ≤ maxAmount
      omega

/-! ## Inputs -/

/-- The input of a message that an instruction asks for comes from a memory. -/
theorem Instruction.fetch_brief (env : Surroundings) :
    Exec.Fits (fetchAndDispatch env) Request.Brief := by
  refine .of_results (fun x request y hx hact => ⟨?_, ((fetch_fits env).ok hx hact).2⟩)
    fun x e y hx hact => (fetch_fits env).error hx hact
  cases request with
  | message call gas region =>
      have hasks : x.frame.currentOp.Asks (.message call gas region) := fetch_request hact
      have hdefined : x.frame.currentOp ≠ .undefined := by
        rcases hasks.1 with hop | hop <;> simp [hop]
      obtain ⟨x₁, hpay, hdispatch⟩ := fetch_ok hact hdefined
      have hx₁ := ((Exec.Fits.consume_gas _).ok hx hpay).2
      rcases hasks.1 with hop | hop
      · rw [hop] at hdispatch
        exact ((request_message_fits env true).ok hx₁ hdispatch).1.2
      · rw [hop] at hdispatch
        exact ((request_message_fits env false).ok hx₁ hdispatch).1.2
  | _ => trivial

/-- A frame that a request opens is given its input by the request, if it has one. -/
theorem Request.Opens.input {request : Request} {f parent child : Frame} (hrequest : request.Brief)
    (h : request.Opens f parent child) :
    parent.call = f.call ∧ child.call.input.size ≤ largestCode := by
  have hmemory : largestMemory ≤ largestCode := by decide
  cases request with
  | proceed => exact h.elim
  | internal target gas =>
      obtain ⟨rfl, origin, marks, rfl⟩ := h
      exact ⟨rfl, Nat.zero_le _⟩
  | message call gas region =>
      obtain ⟨rfl, code, home, rfl⟩ := h
      exact ⟨rfl, Nat.le_trans hrequest hmemory⟩
  | create value initCode gas =>
      obtain ⟨hpays, _, origin, address, home, rfl⟩ := h
      exact ⟨congrArg Site.call hpays.stays.site, Nat.zero_le _⟩

/-- The input is no larger than a machine can address. -/
def Frame.Briefed (f : Frame) : Prop :=
  f.call.input.size ≤ largestCode

/-- A frame keeps its input. -/
theorem Frame.Briefed.same {f g : Frame} (h : f.Briefed) (hcall : g.call = f.call) : g.Briefed := by
  rw [Frame.Briefed, hcall]
  exact h

/-- An instruction gives an input to a new frame only, and one that comes from a memory. -/
theorem Instructed.briefed {env : Surroundings} {a : Activation} {top : List Frame}
    (h : Instructed env a top) (hsized : a.Sized) (ha : a.frame.Briefed) : ∀ f ∈ top, f.Briefed := by
  have hworks := Frame.works_fetch env a
  have hafter : ∀ {b : Activation}, Action.after (Instruction.fetchAndDispatch env) a = b →
      b.frame.Briefed := fun hb => ha.same (hb ▸ congrArg Site.call hworks.site)
  have hfails : ∀ {f : Frame} (e : Fault), f.Briefed → (f.fail e).Briefed := fun e hf =>
    hf.same (congrArg Site.call (Frame.site_fail e _))
  have hpaid : ∀ {f g : Frame}, f.Pays g → f.Briefed → g.Briefed := fun hpays hf =>
    hf.same (congrArg Site.call hpays.stays.site)
  cases h with
  | refused hact =>
      exact List.forall_mem_singleton.2 (hfails _ (hafter (Action.after_error hact)))
  | proceeds hact => exact List.forall_mem_singleton.2 (hafter (Action.after_ok hact))
  | stays hact _ hpays =>
      exact List.forall_mem_singleton.2 (hpaid hpays (hafter (Action.after_ok hact)))
  | declined hact _ hpays =>
      exact List.forall_mem_singleton.2 (hfails _ (hpaid hpays (hafter (Action.after_ok hact))))
  | opens hact hopens =>
      obtain ⟨hparent, hchild⟩ := hopens.input ((Instruction.fetch_brief env).ok hsized hact).1
      have hcaller := (hafter (Action.after_ok hact)).same hparent
      exact List.forall_mem_cons.2 ⟨hchild, List.forall_mem_singleton.2 hcaller⟩

/-! ## Runs -/

variable {limits : Limits} {s t : RunState}

/-- A move that executes no instruction gives no frame an input. -/
theorem FrameMove.briefed {frames frames' : List Frame} (h : FrameMove false frames frames')
    (hs : ∀ f ∈ frames, f.Briefed) : ∀ f ∈ frames', f.Briefed := by
  cases h with
  | @finishes child parent below _ =>
      obtain ⟨_, hs⟩ := List.forall_mem_cons.1 hs
      obtain ⟨hparent, hbelow⟩ := List.forall_mem_cons.1 hs
      have hcall := congrArg Site.call (Frame.site_learn child parent)
      exact List.forall_mem_cons.2 ⟨hparent.same hcall, hbelow⟩
  | resumes hworks =>
      obtain ⟨hf, hbelow⟩ := List.forall_mem_cons.1 hs
      exact List.forall_mem_cons.2 ⟨hf.same (congrArg Site.call hworks.site), hbelow⟩
  | idles => exact hs

/-- Every move keeps the inputs of all frames within the bounds. -/
theorem Move.briefed (h : Move limits s t) (hsized : s.context.Sized)
    (hs : ∀ f ∈ s.context.frames.toList, f.Briefed) : ∀ f ∈ t.context.frames.toList, f.Briefed := by
  cases h with
  | @instruction c c' hrunning hstep =>
      obtain ⟨f, below, hframes, _⟩ := Context.top_of_running hrunning
      obtain ⟨top, hinstructed, hframes'⟩ := Context.step_or_fail_instructed hframes hstep
      have hactivation : (c.activation f).Sized :=
        ⟨hsized.frames f (by simp [hframes]), fun w hw => hsized.pool _ w hw⟩
      rw [hframes] at hs
      obtain ⟨hf, hbelow⟩ := List.forall_mem_cons.1 hs
      rw [hframes']
      exact List.forall_mem_append.2 ⟨hinstructed.briefed hactivation hf, hbelow⟩
  | @finish c c' result hhalted hfinish =>
      have hidle : RunState.executes ⟨c, none⟩ = false := by simp [RunState.executes, hhalted]
      have hmove : Move limits ⟨c, none⟩ ⟨c', some result⟩ := .finish hhalted hfinish
      exact (hidle ▸ hmove.moved.frames).briefed hs
  | @resume c c' result hresume =>
      have hmove : Move limits ⟨c, some result⟩ ⟨c', none⟩ := .resume hresume
      exact hmove.moved.frames.briefed hs

/-- A frame that is opened takes at least five from the gas on the call stack, and no other move adds to
the gas. -/
theorem FrameMove.depth_le {executed : Bool} {frames frames' : List Frame}
    (h : FrameMove executed frames frames') :
    remainingGas frames' + 5 * frames'.length ≤ remainingGas frames + 5 * frames.length := by
  cases h with
  | executes _ hexecutes =>
      cases hexecutes with
      | goes hworks _ => simpa using hworks.gas.remaining
      | @opens parent child hopens =>
          have hle := hopens.remaining_le
          have hprice : 5 ≤ Gas.static _ := hopens.makes.price
          simp only [List.cons_append, List.nil_append, remaining_gas_cons, List.length_cons]
          omega
  | @finishes child parent below _ =>
      have hle := Frame.remaining_learn_le child parent
      simp only [remaining_gas_cons, List.length_cons]
      omega
  | resumes hworks => simpa using hworks.gas.remaining
  | idles => exact Nat.le_refl _

/-- There are never more frames on a call stack than gas can pay for. -/
theorem Reaches.depth_le (h : Reaches limits s t) :
    remainingGas t.context.frames.toList + 5 * t.context.depth ≤
      remainingGas s.context.frames.toList + 5 * s.context.depth := by
  induction h with
  | refl => exact Nat.le_refl _
  | tail _ hmove ih =>
      have hmoved := hmove.moved.frames.depth_le
      rw [← Context.depth_eq, ← Context.depth_eq] at hmoved
      exact Nat.le_trans hmoved ih

/-- The context is within the bounds on sizes, its memories are those that operations lead to, and no
input is larger than a machine can address. -/
structure Context.Sound (c : Context) : Prop where
  sized : c.Sized
  memories : c.pool.All fun w => w.memory.Bounded
  inputs : ∀ f ∈ c.frames.toList, f.Briefed

/-- What is calculated from such a context is exact, as long as its depth is not the largest amount. -/
theorem Context.Sound.exact {c : Context} {calculation : Calculation} (h : c.Sound)
    (hdepth : c.depth < maxAmount) (hcalculates : c.Calculates calculation) : calculation.Exact := by
  cases hcalculates with
  | workspace hw hcalculates => exact hcalculates.exact (h.memories _ _ hw)
  | frame hf hcalculates => exact hcalculates.exact (h.sized.frames _ hf) (h.inputs _ hf)
  | depth => exact hdepth
  | steps hsteps => exact hsteps
  | nonce hnonce => exact hnonce
  | nonceBytes creator => exact first_byte_le _
  | @preimage creator hnonce =>
      have hle := Rlp.length_preimage_le creator (Nat.le_of_lt hnonce)
      exact Nat.le_trans (Nat.add_le_add_right hle 1) (by decide)

/-- Every move keeps a context within the bounds. -/
theorem Move.sound (h : Move limits s t) (hs : s.context.Sound) : t.context.Sound where
  sized := h.sized hs.sized
  memories := (h.holds (Memory.bounded_stable hs.sized.limit) ⟨rfl, hs.memories⟩).pool
  inputs := h.briefed hs.sized hs.inputs

/-- Every run does. -/
theorem Reaches.sound (h : Reaches limits s t) (hs : s.context.Sound) : t.context.Sound := by
  induction h with
  | refl => exact hs
  | tail _ hmove ih => exact hmove.sound ih

/-- In a run of a single frame nothing overflows, and all that is calculated is exact. -/
theorem Reaches.exact {root : Frame} (h : Reaches limits s t) (hs : s.context.Sound)
    (hroot : s.context.frames.toList = [root]) (hgas : root.gas.remaining ≤ maxAmount) :
    ¬t.Overflows limits ∧
      ∀ calculation, t.context.Calculates calculation → calculation.Exact := by
  have hsound := h.sound hs
  have hdepth := h.depth_le
  have hstart : s.context.depth = 1 := by rw [Context.depth_eq, hroot, List.length_singleton]
  rw [hstart, hroot, remaining_gas_cons, show remainingGas [] = 0 from rfl] at hdepth
  refine ⟨hsound.sized.not_overflows, fun calculation => hsound.exact ?_⟩
  unfold maxAmount at hgas ⊢
  omega

end CallTree
