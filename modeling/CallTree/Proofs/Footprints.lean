import CallTree.Proofs.Contents
import CallTree.Proofs.Effects

/-!
# The footprint of every instruction

`Opcode.touches` lists the parts of an activation that an instruction may change, and
`fetch_within` shows that none goes beyond; `Exec.Within.resume` says the same of taking up the
result of a child. The second half reads off what such a footprint leaves alone: who runs and where
(`Touches.site_eq`), what children have left pending, the copies behind the open checkpoints
(`Touches.recalls`), and everything else that is not among the parts.
-/

namespace CallTree

/-- What instructions of every kind may touch. -/
def Part.common : List Part :=
  [.gas, .pc, .stack, .memory]

/-- What an instruction may touch. -/
def Opcode.touches : Opcode → List Part
  | .sstore => .slots :: .refunds :: Part.common
  | .log _ => .logs :: Part.common
  | .stop | .returnInternal | .undefined => .verdict :: Part.common
  | .ret | .revert => .output :: .verdict :: Part.common
  | .call | .staticCall | .create => .lastReturn :: Part.common
  | _ => Part.common

/-- What most instructions may touch once the program counter has moved past them. -/
def Part.plain : List Part :=
  [.gas, .stack]

/-- What instructions that use the memory may touch once the program counter has moved past them. -/
def Part.work : List Part :=
  [.gas, .stack, .memory]

/-- What an instruction that neither calls nor creates may touch once the program counter has moved
past it. Only a jump moves the program counter again. -/
def Opcode.uses : Opcode → List Part
  | .returnDataCopy | .mload | .mstore | .mstore8 => Part.work
  | .sstore => .slots :: .refunds :: Part.plain
  | .log _ => .logs :: Part.work
  | .stop | .returnInternal => .verdict :: Part.plain
  | .ret | .revert => .output :: .verdict :: Part.work
  | .jump | .jumpIf => .pc :: Part.plain
  | _ => Part.plain

/-- What taking up the result of a child may touch. -/
def Part.resumption : List Part :=
  [.staged, .gas, .stack, .memory, .output, .verdict, .lastReturn]

/-- What is settled about a frame when it is opened: what it was asked to do, what it executes and
where it works. -/
structure Site where
  /-- What the frame was asked to do. -/
  call : CallData
  /-- Whether its output becomes the code of a contract. -/
  creation : Bool
  /-- What it executes. -/
  program : Program
  /-- Its workspace. -/
  home : Handle
  /-- The checkpoints it has opened. -/
  marks : Option Marks

/-- What was settled about a frame when it was opened. -/
def Frame.site (f : Frame) : Site :=
  ⟨f.call, f.creation, f.program, f.home, f.marks⟩

theorem Frame.cell_of_site {f g : Frame} (h : f.site = g.site) : f.home.cell = g.home.cell :=
  congrArg (Handle.cell ∘ Site.home) h

theorem Frame.kind_of_site {f g : Frame} (h : f.site = g.site) : f.call.kind = g.call.kind :=
  congrArg (CallData.kind ∘ Site.call) h

/-- More parts allow more. -/
theorem Touches.mono {parts more : List Part} {a b : Activation} (h : Touches parts a b)
    (hsub : ∀ part ∈ parts, part ∈ more) : Touches more a b :=
  Relation.ReflTransGen.mono (fun _ _ htouch =>
    htouch.imp fun _ hpart => ⟨hsub _ hpart.1, hpart.2⟩) _ _ h

namespace Exec.Within

open Instruction

variable {parts : List Part}

/-- The common parts are among those of every instruction. -/
theorem common_sub (op : Opcode) : ∀ part ∈ Part.common, part ∈ op.touches := by
  intro part hpart
  cases op <;> simp [Opcode.touches, hpart]

/-- What is used is touched. -/
theorem uses_sub (op : Opcode) : ∀ part ∈ op.uses, part ∈ op.touches := by
  intro part hpart
  cases op <;> revert part <;>
    simp [Opcode.uses, Opcode.touches, Part.plain, Part.work, Part.common]

/-- Fewer parts are within more. -/
theorem mono {α : Type} {fewer : List Part} {act : Exec α} (h : Within fewer act)
    (hsub : ∀ part ∈ fewer, part ∈ parts) : Within parts act := fun a =>
  Touches.mono (h a) hsub

theorem binary (hstack : Part.stack ∈ parts) (g : Word → Word → Word) :
    Within parts (binary g) :=
  (pop hstack).bind fun _ => (pop hstack).bind fun _ => push hstack _

theorem return_data_copy : Within Part.work returnDataCopy := by
  have hstack : Part.stack ∈ Part.work := by decide
  refine (pop_amount hstack).bind fun dest => (pop_amount hstack).bind fun offset => ?_
  refine (pop_amount hstack).bind fun size => frame.bind fun f => ?_
  refine when (refuse _) fun _ => ?_
  refine (charge_memory (by decide) (by decide) dest size).bind fun _ => ?_
  refine (consume_gas (by decide) _).bind fun _ => ?_
  exact (write (by decide) dest _).bind fun _ => pure _

theorem storage_store : Within Opcode.sstore.uses storageStore := by
  have hstack : Part.stack ∈ Opcode.sstore.uses := by decide
  refine (pop hstack).bind fun key => (pop hstack).bind fun value => ?_
  refine (read_storage_with _).bind fun current => (consume_gas (by decide) _).bind fun _ => ?_
  refine when ?_ fun _ => (store (by decide) key value).bind fun _ => pure _
  exact of_touch (by decide : Part.refunds ∈ _) fun _ => .inr (.refunds _)

theorem log (topics : Nat) : Within (.logs :: Part.work) (Instruction.log topics) := by
  have hstack : Part.stack ∈ Part.logs :: Part.work := by decide
  refine (pop_amount hstack).bind fun offset => (pop_amount hstack).bind fun size => ?_
  refine (pop_many hstack topics).bind fun words => ?_
  refine (charge_memory (by decide) (by decide) offset size).bind fun _ => ?_
  refine (of_checked _).bind fun cost => (consume_gas (by decide) cost).bind fun _ => ?_
  refine (read_memory_with _).bind fun data => ?_
  exact of_touch (by decide : Part.logs ∈ _) fun _ => .inr (.logs _)

theorem pop_region (hstack : Part.stack ∈ parts) (hmemory : Part.memory ∈ parts)
    (hgas : Part.gas ∈ parts) : Within parts popRegion := by
  refine (pop_amount hstack).bind fun offset => (pop_amount hstack).bind fun size => ?_
  exact (charge_memory hmemory hgas offset size).bind fun _ => read_memory_with _

theorem revert : Within Opcode.revert.uses Instruction.revert := by
  refine (pop_region (by decide) (by decide) (by decide)).bind fun data => ?_
  intro a
  -- The output is set first, then the verdict is given and the frame halts.
  have houtput : Touch .output a ⟨a.frame.setOutput data, a.space⟩ := .output data
  exact .tail (.single ⟨.output, by decide, houtput⟩) ⟨.verdict, by decide, .verdict _ _⟩

/-- The instructions that neither call nor create, once the program counter has moved. -/
theorem body_uses (limits : Limits) (pc : Nat) (immediate : Word) (op : Opcode) :
    Within op.uses (Instruction.body limits pc immediate op) := by
  have hstack : Part.stack ∈ Part.plain := by decide
  have hoperand : Part.stack ∈ Part.work := by decide
  have hmemory : Part.memory ∈ Part.work := by decide
  have hgas : Part.gas ∈ Part.work := by decide
  cases op with
  | stop => exact stop (by decide)
  | add | mul | sub | lt | gt | eq => exact binary hstack _
  | isZero => exact (pop hstack).bind fun _ => push hstack _
  | caller | callValue | callDataSize | returnDataSize | gas =>
      exact frame.bind fun _ => push hstack _
  | callDataLoad => exact (pop_amount hstack).bind fun _ => frame.bind fun _ => push hstack _
  | returnDataCopy => exact return_data_copy
  | pop => exact (pop hstack).bind fun _ => pure _
  | mload =>
      refine (pop_amount hoperand).bind fun offset => ?_
      refine (charge_memory hmemory hgas offset 32).bind fun _ => ?_
      exact (read_memory_with _).bind fun _ => push hoperand _
  | mstore | mstore8 =>
      refine (pop_amount hoperand).bind fun offset => (pop hoperand).bind fun value => ?_
      refine (charge_memory hmemory hgas offset _).bind fun _ => ?_
      exact (write hmemory offset _).bind fun _ => pure _
  | sload =>
      refine (pop hstack).bind fun key => (read_storage_with _).bind fun value => ?_
      exact push hstack value
  | sstore => exact storage_store
  | jump => exact (pop_amount (by decide)).bind fun dest => jump (by decide) dest
  | jumpIf =>
      refine (pop_amount (by decide)).bind fun dest => (pop (by decide)).bind fun condition => ?_
      exact ite (jump (by decide) dest) (pure _)
  | pc | push => exact push hstack _
  | msize => exact (read_memory_with _).bind fun _ => push hstack _
  | jumpDest => exact pure _
  | dup n => exact dup hstack n
  | swap n => exact swap hstack n
  | log topics => exact log topics
  | returnInternal =>
      refine frame.bind fun f => ite ?_ (refuse _)
      exact of_touch (by decide : Part.verdict ∈ _) fun _ => .inr (.verdict _ _)
  | ret =>
      refine (pop_region (by decide) (by decide) (by decide)).bind fun data => ?_
      exact complete_return (by decide) (by decide) (by decide) _ data
  | revert => exact revert
  | invalid | callInternal | call | staticCall | create | undefined => exact refuse _

/-- The instructions that neither call nor create. -/
theorem body (limits : Limits) (pc : Nat) (immediate : Word) (op : Opcode) :
    Within op.touches (Instruction.body limits pc immediate op) :=
  (body_uses limits pc immediate op).mono (uses_sub op)

/-- An internal call, in its caller. -/
theorem request_internal (env : Surroundings) : Within (.pc :: Part.plain) (requestInternal env) := by
  have hstack : Part.stack ∈ Part.pc :: Part.plain := by decide
  refine (pop_amount hstack).bind fun target => (pop_amount hstack).bind fun requested => ?_
  refine (advance (by decide) 1).bind fun _ => frame.bind fun f => ?_
  refine when (refuse _) fun _ => when (refuse _) fun _ => ?_
  exact (consume_gas (by decide) _).bind fun _ => pure _

/-- A message, in its caller. -/
theorem request_message (env : Surroundings) (withValue : Bool) :
    Within (.lastReturn :: Part.common) (requestMessage env withValue) := by
  have hstack : Part.stack ∈ Part.lastReturn :: Part.common := by decide
  refine (pop_amount hstack).bind fun requested => (pop hstack).bind fun callee => ?_
  refine ite ((pop hstack).bind ?hrest) ((pure _).bind ?hrest)
  intro value
  refine (pop_amount hstack).bind fun argsOffset => (pop_amount hstack).bind fun argsSize => ?_
  refine (pop_amount hstack).bind fun retOffset => (pop_amount hstack).bind fun retSize => ?_
  refine (advance (by decide) 1).bind fun _ => frame.bind fun f => ?_
  refine when (refuse .writeInStaticContext) fun _ => ?_
  refine (charge_memory (by decide) (by decide) argsOffset argsSize).bind fun _ => ?_
  refine (charge_memory (by decide) (by decide) retOffset retSize).bind fun _ => ?_
  refine when (consume_gas (by decide) Gas.callValue) fun _ => ?_
  refine (set_last_return (by decide) ByteArray.empty).bind fun _ => ?_
  refine ite ((push hstack 0).bind fun _ => pure Request.proceed) ?_
  refine frame.bind fun f => (consume_gas (by decide) _).bind fun _ => ?_
  exact (read_memory_with _).bind fun input => frame.bind fun f => pure _

/-- A creation, in its creator. -/
theorem request_create (env : Surroundings) :
    Within (.lastReturn :: Part.common) (requestCreate env) := by
  have hstack : Part.stack ∈ Part.lastReturn :: Part.common := by decide
  refine (pop hstack).bind fun value => (pop_amount hstack).bind fun offset => ?_
  refine (pop_amount hstack).bind fun size => (advance (by decide) 1).bind fun _ => ?_
  refine when (refuse _) fun _ => ?_
  refine (charge_memory (by decide) (by decide) offset size).bind fun _ => ?_
  refine (consume_gas (by decide) _).bind fun _ => ?_
  refine (set_last_return (by decide) ByteArray.empty).bind fun _ => ?_
  refine ite ((push hstack 0).bind fun _ => pure _) ?_
  exact (read_memory_with _).bind fun initCode => frame.bind fun f => pure _

theorem dispatch (env : Surroundings) (op : Opcode) :
    Within op.touches (dispatch env op) := by
  have hlocal : Within op.touches (do executeLocal env.limits op; return Request.proceed) := by
    refine Within.bind ?_ fun _ => pure _
    refine frame.bind fun f => frame.bind fun g => (of_checked _).bind fun immediate => ?_
    refine (advance (common_sub op _ (by decide)) _).bind fun _ => ?_
    exact body env.limits f.pc immediate op
  cases op with
  | callInternal => exact (request_internal env).mono (by decide)
  | call => exact request_message env true
  | staticCall => exact request_message env false
  | create => exact request_create env
  | _ => exact hlocal

/-- Copying the output of a child touches the memory. -/
theorem copy_output (hmemory : Part.memory ∈ parts) (region : Region) (data : Bytes) :
    Within parts (copyOutput region data) :=
  (write hmemory _ _).bind fun _ => pure _

/-- Taking up the result of a child begins with taking it from where it was staged. -/
theorem resume_rest (limits : Limits) (finished : FinishedCall) :
    ∃ rest : StagedResult → Exec Unit,
      Exec.resume limits finished = Exec.onFrame (Action.ofTotal Frame.takeStaged) >>= rest ∧
      ∀ staged, Within Part.resumption (rest staged) := by
  have hstack : Part.stack ∈ Part.resumption := by decide
  have hmemory : Part.memory ∈ Part.resumption := by decide
  have hlast : Part.lastReturn ∈ Part.resumption := by decide
  refine ⟨_, rfl, fun staged => ?_⟩
  split
  · exact refuse _
  · exact (set_output (by decide) _).bind fun _ => refuse _
  · exact ite (complete_return (by decide) (by decide) (by decide) _ _) (pure _)
  · exact push hstack _
  · exact (set_last_return hlast _).bind fun _ => push hstack _
  · refine (copy_output hmemory _ _).bind fun _ => ?_
    exact (set_last_return hlast _).bind fun _ => push hstack _
  · refine (copy_output hmemory _ _).bind fun _ => ?_
    exact (set_last_return hlast _).bind fun _ => push hstack _

/-- Taking up the result of a child. -/
theorem resume (limits : Limits) (finished : FinishedCall) :
    Within Part.resumption (Exec.resume limits finished) := by
  obtain ⟨rest, hrest, hwithin⟩ := resume_rest limits finished
  rw [hrest]
  exact Within.bind (of_touch (by decide : Part.staged ∈ _) fun _ => .inr .staged) hwithin

end Exec.Within

/-- An instruction changes nothing but its parts. -/
theorem fetch_within (env : Surroundings) (a : Activation) :
    Touches a.frame.currentOp.touches a
      (Action.after (Instruction.fetchAndDispatch env) a) := by
  -- The instruction is read from the frame as it stands, so it is the one the parts belong to.
  have hfetch : ∀ op, a.frame.currentOp = op →
      Touches op.touches a (Action.after (Instruction.fetchAndDispatch env) a) := by
    intro op hop
    have hframe : Exec.frame a = .ok a.frame a := rfl
    rw [Action.after, Instruction.fetchAndDispatch, Action.bind_ok hframe, hop]
    cases op with
    | undefined =>
        refine Exec.Within.bind Exec.Within.frame (fun f => ?_) a
        split
        · exact (Exec.Within.stop (by decide)).bind fun _ => .pure _
        · exact .refuse _
    | _ =>
        refine Exec.Within.bind Exec.Within.frame (fun f => ?_) a
        refine .ite (.refuse _) ?_
        refine (Exec.Within.consume_gas (Exec.Within.common_sub _ _ (by decide)) _).bind fun _ => ?_
        exact Exec.Within.dispatch env _
  exact hfetch _ rfl

namespace Touches

variable {parts : List Part} {a b : Activation}

/-- What every touch keeps is kept. -/
theorem preserves {P : Activation → Prop} (h : Touches parts a b)
    (hstep : ∀ part ∈ parts, ∀ x y, Touch part x y → P x → P y) (ha : P a) : P b := by
  induction h with
  | refl => exact ha
  | tail _ hlast ih =>
      obtain ⟨part, hpart, htouch⟩ := hlast
      exact hstep part hpart _ _ htouch ih

/-- Who runs and where never changes. -/
theorem site_eq (h : Touches parts a b) : b.frame.site = a.frame.site := by
  refine h.preserves (P := fun x => x.frame.site = a.frame.site) ?_ rfl
  intro part _ x y htouch hx
  cases htouch <;> exact hx

/-- A frame keeps its workspace, and the copies behind the open checkpoints can still be brought
back. -/
theorem recalls {w : Workspace} {saved : List Contents} (h : Touches parts a b)
    (hw : a.space = some w) (hsaved : w.Recalls saved) :
    ∃ w', b.space = some w' ∧ w'.Recalls saved := by
  refine h.preserves (P := fun x => ∃ w', x.space = some w' ∧ w'.Recalls saved) ?_ ⟨w, hw, hsaved⟩
  rintro part _ x y htouch ⟨v, hv, hstack, hmemory, hstorage, hpending⟩
  cases htouch with
  | stack items =>
      cases hv
      exact ⟨_, rfl, hstack, hmemory, hstorage, hpending⟩
  | expand hexpand =>
      cases hv
      exact ⟨_, rfl, hstack, hmemory.expand hexpand, hstorage, hpending⟩
  | write hwrite =>
      cases hv
      exact ⟨_, rfl, hstack, hmemory.write hwrite, hstorage, hpending⟩
  | slots key value =>
      cases hv
      exact ⟨_, rfl, hstack, hmemory, hstorage.store key value, hpending⟩
  | _ => exact ⟨v, hv, hstack, hmemory, hstorage, hpending⟩

/-- What children have left pending stays. -/
theorem pending_eq (h : Touches parts a b) :
    b.space.map (·.pending) = a.space.map (·.pending) := by
  refine h.preserves (P := fun x => x.space.map (·.pending) = a.space.map (·.pending)) ?_ rfl
  intro part _ x y htouch hx
  cases htouch <;> exact hx

/-- Slots change only where they are touched. -/
theorem slots_eq (h : Touches parts a b) (hparts : Part.slots ∉ parts) :
    b.space.map (·.storage.slots) = a.space.map (·.storage.slots) := by
  refine h.preserves
    (P := fun x => x.space.map (·.storage.slots) = a.space.map (·.storage.slots)) ?_ rfl
  intro part hpart x y htouch hx
  cases htouch with
  | slots key value => exact absurd hpart hparts
  | _ => exact hx

/-- A frame goes on running where its verdict is not touched. -/
theorem running_eq (h : Touches parts a b) (hparts : Part.verdict ∉ parts) :
    b.frame.running = a.frame.running := by
  refine h.preserves (P := fun x => x.frame.running = a.frame.running) ?_ rfl
  intro part hpart x y htouch hx
  cases htouch with
  | verdict verdict exitsCall => exact absurd hpart hparts
  | _ => exact hx

/-- The program counter moves only where it is touched. -/
theorem pc_eq (h : Touches parts a b) (hparts : Part.pc ∉ parts) : b.frame.pc = a.frame.pc := by
  refine h.preserves (P := fun x => x.frame.pc = a.frame.pc) ?_ rfl
  intro part hpart x y htouch hx
  cases htouch with
  | pc pc => exact absurd hpart hparts
  | _ => exact hx

/-- What was emitted changes only where it is touched. -/
theorem logs_eq (h : Touches parts a b) (hparts : Part.logs ∉ parts) :
    b.frame.logs = a.frame.logs := by
  refine h.preserves (P := fun x => x.frame.logs = a.frame.logs) ?_ rfl
  intro part hpart x y htouch hx
  cases htouch with
  | logs entry => exact absurd hpart hparts
  | _ => exact hx

/-- Refunds are counted only where they are touched. -/
theorem refunds_eq (h : Touches parts a b) (hparts : Part.refunds ∉ parts) :
    b.frame.gas.refunds = a.frame.gas.refunds := by
  refine h.preserves (P := fun x => x.frame.gas.refunds = a.frame.gas.refunds) ?_ rfl
  intro part hpart x y htouch hx
  cases htouch with
  | refunds amount => exact absurd hpart hparts
  | _ => exact hx

/-- An output is set only where it is touched. -/
theorem output_eq (h : Touches parts a b) (hparts : Part.output ∉ parts) :
    b.frame.output = a.frame.output := by
  refine h.preserves (P := fun x => x.frame.output = a.frame.output) ?_ rfl
  intro part hpart x y htouch hx
  cases htouch with
  | output data => exact absurd hpart hparts
  | _ => exact hx

/-- The result of a child is taken only where it is touched. -/
theorem staged_eq (h : Touches parts a b) (hparts : Part.staged ∉ parts) :
    b.frame.staged = a.frame.staged := by
  refine h.preserves (P := fun x => x.frame.staged = a.frame.staged) ?_ rfl
  intro part hpart x y htouch hx
  cases htouch with
  | staged => exact absurd hpart hparts
  | _ => exact hx

/-- No result of a child is staged by the frame itself. -/
theorem staged_empty (h : Touches parts a b) (ha : a.frame.staged = .empty) :
    b.frame.staged = .empty := by
  refine h.preserves (P := fun x => x.frame.staged = .empty) ?_ ha
  intro part _ x y htouch hx
  cases htouch with
  | staged => rfl
  | _ => exact hx

/-- Payments and operands change nothing of a frame but its gas. -/
theorem gas_only {f : Frame} {s : Option Workspace} (h : Touches parts ⟨f, s⟩ b)
    (hparts : ∀ part ∈ parts, part ∈ Part.plain) : ∃ gas, b.frame = { f with gas := gas } := by
  refine h.preserves (P := fun x => ∃ gas, x.frame = { f with gas := gas }) ?_ ⟨f.gas, rfl⟩
  rintro part hpart x y htouch ⟨gas, hx⟩
  cases htouch with
  | gas hrunning hle =>
      subst hx
      exact ⟨_, rfl⟩
  | stack items => exact ⟨gas, hx⟩
  | _ => exact absurd (hparts _ hpart) (by decide)

/-- No stack is given another limit. -/
theorem limit_eq (h : Touches parts a b) :
    b.space.map (·.stack.limit) = a.space.map (·.stack.limit) := by
  refine h.preserves (P := fun x => x.space.map (·.stack.limit) = a.space.map (·.stack.limit)) ?_ rfl
  intro part _ x y htouch hx
  cases htouch <;> exact hx

/-- The memory changes only where it is touched. -/
theorem memory_eq (h : Touches parts a b) (hparts : Part.memory ∉ parts) :
    b.space.map (·.memory) = a.space.map (·.memory) := by
  refine h.preserves (P := fun x => x.space.map (·.memory) = a.space.map (·.memory)) ?_ rfl
  intro part hpart x y htouch hx
  cases htouch with
  | expand hexpand => exact absurd hpart hparts
  | write hwrite => exact absurd hpart hparts
  | _ => exact hx

/-- The workspace changes only where one of its containers is touched. -/
theorem space_eq (h : Touches parts a b)
    (hparts : ∀ part ∈ [Part.stack, Part.memory, Part.slots], part ∉ parts) :
    b.space = a.space := by
  refine h.preserves (P := fun x => x.space = a.space) ?_ rfl
  intro part hpart x y htouch hx
  cases htouch with
  | stack items => exact absurd hpart (hparts _ (by decide))
  | expand hexpand => exact absurd hpart (hparts _ (by decide))
  | write hwrite => exact absurd hpart (hparts _ (by decide))
  | slots key value => exact absurd hpart (hparts _ (by decide))
  | _ => exact hx

/-- Where the output of a frame goes was settled by its caller. -/
theorem return_region_eq (h : Touches parts a b) :
    b.frame.returnRegion = a.frame.returnRegion := by
  refine h.preserves (P := fun x => x.frame.returnRegion = a.frame.returnRegion) ?_ rfl
  intro part _ x y htouch hx
  cases htouch <;> exact hx

end Touches

/-- Once a result was taken up, nothing is staged any more. -/
theorem resume_staged (limits : Limits) (finished : FinishedCall) (a : Activation) :
    (Action.after (Exec.resume limits finished) a).frame.staged = .empty := by
  obtain ⟨rest, hrest, hwithin⟩ := Exec.Within.resume_rest limits finished
  obtain ⟨f, s⟩ := a
  have htake : Exec.onFrame (Action.ofTotal Frame.takeStaged) ⟨f, s⟩ =
      .ok f.staged ⟨{ f with staged := .empty }, s⟩ := rfl
  have hafter := hwithin f.staged ⟨{ f with staged := .empty }, s⟩
  rw [Action.after, hrest, Action.bind_ok htake]
  exact hafter.staged_empty rfl

end CallTree
