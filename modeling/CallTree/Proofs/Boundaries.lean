import CallTree.Proofs.TopFrame
import CallTree.Proofs.Waiting

/-!
# Instruction boundaries

Data of an instruction is never executed. The walk that finds the jump destinations of a code steps
over immediates, so every destination is a boundary (`boundary_of_scan`), and two boundaries never
meet inside an instruction (`Boundary.next_le`). A frame moves its program counter in three ways: past
the instruction that it executes, to a destination, or not at all. `Instruction.fetch_aligned` says
for every instruction that it leads from a boundary to a boundary, whether it is completed or refused,
and that an internal call is asked for only at a boundary. The rest is an induction along the run.

Program counters are amounts and stop at the largest one. This is out of reach for any code that
leaves room for one more instruction below it.
-/

namespace CallTree

open CallTree.Action (Triple)

/-! ## The walk over the code -/

/-- Data takes up at most a word. -/
theorem Opcode.immediate_size_le (byte : UInt8) : (ofByte byte).immediateSize ≤ 32 := by
  unfold ofByte
  dsimp only
  split
  · show byte.toNat - 0x5F ≤ 32
    omega
  · repeat' split
    all_goals exact Nat.zero_le _

namespace Boundary

variable {code : Bytes} {i j : Nat}

/-- After the boundary of an instruction comes the one at its end. The two walks are followed back
until one is at the start of the last instruction of the other. -/
theorem next_le {i j : Nat} (hi : i < code.size) (hstart : Boundary code i) (h : Boundary code j)
    (hlt : i < j) : i + 1 + (Opcode.ofByte code[i]).immediateSize ≤ j := by
  cases h with
  | start => exact absurd hlt (Nat.not_lt_zero i)
  | @next k hk hlast =>
      rcases Nat.lt_trichotomy i k with hik | hik | hik
      · have hle := next_le hi hstart hlast hik
        omega
      · subst hik
        exact Nat.le_refl _
      · have hle := next_le hk hlast hstart hik
        omega
termination_by i + j

/-- No boundary lies in the data of an instruction. -/
theorem not_inside (hi : i < code.size) (hstart : Boundary code i) (h : Boundary code j) :
    ¬(i < j ∧ j ≤ i + (Opcode.ofByte code[i]).immediateSize) := by
  intro hinside
  have hle := next_le hi hstart h hinside.1
  omega

end Boundary

/-- What the walk finds from some offset on are boundaries, if the next instruction starts where it
takes it to start. -/
theorem boundary_of_scan {code : Bytes} {bytes : List UInt8} {offset skip dest : Nat}
    (hbytes : code.data.toList.drop offset = bytes) (hnext : Boundary code (offset + skip))
    (hdest : dest ∈ scanDestinations offset skip bytes) : Boundary code dest := by
  induction bytes generalizing offset skip with
  | nil => exact nomatch hdest
  | cons byte rest ih =>
      have hlt : offset < code.data.toList.length := by
        refine Nat.lt_of_not_le fun hle => ?_
        rw [List.drop_eq_nil_of_le hle] at hbytes
        cases hbytes
      rw [List.drop_eq_getElem_cons hlt, List.cons.injEq] at hbytes
      obtain ⟨hbyte, hrest⟩ := hbytes
      cases skip with
      | succ skip =>
          refine ih hrest ?_ hdest
          rw [Nat.add_right_comm]
          exact hnext
      | zero =>
          have hsize : offset < code.size := hlt
          have hstart : Boundary code offset := hnext
          have hlater : Boundary code (offset + 1 + (Opcode.ofByte byte).immediateSize) := by
            have hget : code[offset] = byte := hbyte
            rw [← hget]
            exact .next hsize hstart
          rw [scanDestinations] at hdest
          split at hdest
          · rcases List.mem_cons.1 hdest with rfl | hdest
            · exact hstart
            · exact ih hrest hlater hdest
          · exact ih hrest hlater hdest

namespace Program

variable {p : Program} {pc : Nat}

/-- A jump leads to a boundary. -/
theorem boundary_of_target {dest : Nat} (h : p.isTarget dest = true) : Boundary p.code dest :=
  boundary_of_scan rfl .start ((isTarget_iff p dest).1 h)

/-- Past the end of the code there is no instruction. -/
theorem op_at_past (h : p.code.size ≤ pc) : p.opAt pc = .undefined :=
  dif_neg (Nat.not_lt.2 h)

theorem byte_at_past (h : p.code.size ≤ pc) : p.byteAt? pc = none :=
  dif_neg (Nat.not_lt.2 h)

/-- An instruction at a boundary is followed by a boundary. -/
theorem boundary_after (hsize : p.code.size + 32 ≤ maxAmount) (hpc : Boundary p.code pc)
    (hop : p.opAt pc ≠ .undefined) :
    Boundary p.code (satAdd pc (1 + (p.opAt pc).immediateSize)) := by
  by_cases hlt : pc < p.code.size
  · have hat : p.opAt pc = Opcode.ofByte p.code[pc] := dif_pos hlt
    have hdata := Opcode.immediate_size_le p.code[pc]
    rw [hat, satAdd_eq_add (by omega), ← Nat.add_assoc]
    exact .next hlt hpc
  · exact absurd (op_at_past (Nat.le_of_not_lt hlt)) hop

end Program

/-! ## Instructions -/

/-- The frame executes the program and stands at such a place. -/
structure Activation.Stands (p : Program) (S : Nat → Prop) (x : Activation) : Prop where
  program : x.frame.program = p
  pc : S x.frame.pc

/-- The frame executes the program and stands at a boundary. -/
abbrev Activation.Aligned (p : Program) : Activation → Prop :=
  Activation.Stands p (Boundary p.code)

/-- An internal call goes to a boundary. -/
def Request.Lands (p : Program) : Request → Prop
  | .internal target _ => Boundary p.code target
  | _ => True

namespace Exec

variable {α : Type} {parts : List Part} {p : Program} {pc : Nat}

/-- What does not touch the program counter leaves the frame where it stands. -/
theorem Within.stands {S : Nat → Prop} {act : Exec α} (h : Within parts act)
    (hparts : Part.pc ∉ parts) :
    Triple (Activation.Stands p S) act (fun _ => Activation.Stands p S)
      (fun _ => Activation.Stands p S) := by
  refine h.triple fun part hpart x y htouch hx => ?_
  cases htouch with
  | pc pc => exact absurd hpart hparts
  | _ => exact ⟨hx.program, hx.pc⟩

/-- A frame that stands at a certain boundary. -/
theorem aligned_of_stands (hpc : Boundary p.code pc) {x : Activation} (h : x.Stands p (· = pc)) :
    x.Aligned p :=
  ⟨h.program, h.pc.symm ▸ hpc⟩

/-- What is done before the program counter moves. -/
theorem Within.starts {act : Exec α} (h : Within parts act) (hparts : Part.pc ∉ parts)
    (hpc : Boundary p.code pc) :
    Triple (Activation.Stands p (· = pc)) act (fun _ => Activation.Stands p (· = pc))
      (fun _ => Activation.Aligned p) :=
  (h.stands hparts).refused fun _ _ hx => aligned_of_stands hpc hx

/-- Moving past an instruction. -/
theorem advance_aligned (hsize : p.code.size + 32 ≤ maxAmount) (hpc : Boundary p.code pc)
    (hop : p.opAt pc ≠ .undefined) {count : Nat} (hcount : count = 1 + (p.opAt pc).immediateSize)
    {E : Abort → Activation → Prop} :
    Triple (Activation.Stands p (· = pc)) (update (Frame.advance count))
      (fun _ => Activation.Aligned p) E := by
  refine update_triple fun x hx => ?_
  unfold Frame.advance
  split
  · refine ⟨hx.program, ?_⟩
    show Boundary p.code (satAdd x.frame.pc count)
    rw [show x.frame.pc = pc from hx.pc, hcount]
    exact Program.boundary_after hsize hpc hop
  · exact aligned_of_stands hpc hx

/-- A jump goes to a boundary or is refused. -/
theorem jump_aligned (dest : Nat) :
    Triple (Activation.Aligned p) (jump dest) (fun _ => Activation.Aligned p)
      (fun _ => Activation.Aligned p) := by
  refine frame_triple.bind fun f => .ite (fun hvalid => ?_) fun _ => .refuse fun x hx => hx.1
  refine update_triple fun x hx => ?_
  obtain ⟨⟨hprogram, hpc⟩, rfl⟩ := hx
  have htarget : Boundary p.code dest := by
    rw [← hprogram]
    exact Program.boundary_of_target hvalid
  unfold Frame.setPc
  split
  · exact ⟨hprogram, htarget⟩
  · exact ⟨hprogram, hpc⟩

end Exec

namespace Instruction

open Exec

variable {p : Program} {pc : Nat} {env : Surroundings}

/-- An instruction that neither calls nor creates, once the program counter has moved past it. -/
theorem body_aligned (limits : Limits) (here : Nat) (immediate : Word) (op : Opcode) :
    Triple (Activation.Aligned p) (body limits here immediate op) (fun _ => Activation.Aligned p)
      (fun _ => Activation.Aligned p) := by
  have hamount : Within Part.plain popAmount := .pop_amount (by decide)
  have hpop : Within Part.plain pop := .pop (by decide)
  cases op with
  | jump => exact (hamount.stands (by decide)).bind fun dest => jump_aligned dest
  | jumpIf =>
      refine (hamount.stands (by decide)).bind fun dest => ?_
      refine (hpop.stands (by decide)).bind fun condition => ?_
      exact .ite (fun _ => jump_aligned dest) fun _ => .pure fun x hx => hx
  | _ =>
      exact (Within.body_uses limits here immediate _).stands
        (by simp [Opcode.uses, Part.plain, Part.work])

section

variable (hsize : p.code.size + 32 ≤ maxAmount) (hpc : Boundary p.code pc)

include hsize hpc

/-- An internal call goes to a boundary. -/
theorem request_internal_aligned (hop : p.opAt pc = .callInternal) :
    Triple (Activation.Stands p (· = pc)) (requestInternal env)
      (fun request x => x.Aligned p ∧ request.Lands p) (fun _ => Activation.Aligned p) := by
  have hamount : Within Part.plain popAmount := .pop_amount (by decide)
  refine (hamount.starts (by decide) hpc).bind fun target => ?_
  refine (hamount.starts (by decide) hpc).bind fun requested => ?_
  refine (advance_aligned hsize hpc (by simp [hop]) (by rw [hop]; rfl)).bind fun _ => ?_
  refine frame_triple.bind fun f => .guard (fun _ x hx => hx.1) fun hvalid => ?_
  refine .guard (fun _ x hx => hx.1) fun _ => ?_
  -- The destination was looked up in the program that the frame executes.
  refine Triple.pre (P := fun x => Boundary p.code target ∧ x.Aligned p) (.assume fun htarget => ?_) ?_
  · have hpay : ∀ amount, Within Part.plain (consumeGas amount) := .consume_gas (by decide)
    exact ((hpay _).stands (by decide)).bind fun _ => .pure fun x hx => ⟨hx, htarget⟩
  · intro x hx
    refine ⟨Program.boundary_of_target ?_, hx.1⟩
    have htarget : f.isValidJump target = true := by simpa using hvalid
    rw [← hx.1.program, ← hx.2]
    exact htarget

/-- A message is sent from behind its instruction. -/
theorem request_message_aligned (withValue : Bool) (hop : p.opAt pc ≠ .undefined)
    (hdata : (p.opAt pc).immediateSize = 0) :
    Triple (Activation.Stands p (· = pc)) (requestMessage env withValue)
      (fun _ => Activation.Aligned p) (fun _ => Activation.Aligned p) := by
  have hamount : Triple (Activation.Stands p (· = pc)) popAmount
      (fun _ => Activation.Stands p (· = pc)) (fun _ => Activation.Aligned p) :=
    (Within.pop_amount (by decide) : Within Part.plain popAmount).starts (by decide) hpc
  have hpop : Triple (Activation.Stands p (· = pc)) pop
      (fun _ => Activation.Stands p (· = pc)) (fun _ => Activation.Aligned p) :=
    (Within.pop (by decide) : Within Part.plain pop).starts (by decide) hpc
  refine hamount.bind fun requested => hpop.bind fun callee => ?_
  refine .choose (R := fun _ => Activation.Stands p (· = pc)) (fun _ => hpop)
    (fun _ => .pure fun x hx => hx) fun value => ?_
  refine hamount.bind fun argsOffset => hamount.bind fun argsSize => ?_
  refine hamount.bind fun retOffset => hamount.bind fun retSize => ?_
  refine (advance_aligned hsize hpc hop (by rw [hdata])).bind fun _ => ?_
  -- From here on the program counter stays.
  refine Within.stands (?_ : Within (.lastReturn :: Part.work) _) (by decide)
  refine Within.frame.bind fun f => .when (.refuse _) fun _ => ?_
  refine (Within.charge_memory (by decide) (by decide) argsOffset argsSize).bind fun _ => ?_
  refine (Within.charge_memory (by decide) (by decide) retOffset retSize).bind fun _ => ?_
  refine .when (.consume_gas (by decide) Gas.callValue) fun _ => ?_
  refine (Within.set_last_return (by decide) ByteArray.empty).bind fun _ => ?_
  refine .ite ((Within.push (by decide) 0).bind fun _ => .pure _) ?_
  refine Within.frame.bind fun f => (Within.consume_gas (by decide) _).bind fun _ => ?_
  exact (Within.read_memory_with _).bind fun input => Within.frame.bind fun f => .pure _

/-- A creation is asked for from behind its instruction. -/
theorem request_create_aligned (hop : p.opAt pc = .create) :
    Triple (Activation.Stands p (· = pc)) (requestCreate env)
      (fun _ => Activation.Aligned p) (fun _ => Activation.Aligned p) := by
  have hamount : Within Part.plain popAmount := .pop_amount (by decide)
  have hpop : Within Part.plain pop := .pop (by decide)
  refine (hpop.starts (by decide) hpc).bind fun value => ?_
  refine (hamount.starts (by decide) hpc).bind fun offset => ?_
  refine (hamount.starts (by decide) hpc).bind fun size => ?_
  refine (advance_aligned hsize hpc (by simp [hop]) (by rw [hop]; rfl)).bind fun _ => ?_
  refine Within.stands (?_ : Within (.lastReturn :: Part.work) _) (by decide)
  refine .when (.refuse _) fun _ => ?_
  refine (Within.charge_memory (by decide) (by decide) offset size).bind fun _ => ?_
  refine (Within.consume_gas (by decide) _).bind fun _ => ?_
  refine (Within.set_last_return (by decide) ByteArray.empty).bind fun _ => ?_
  refine .ite ((Within.push (by decide) 0).bind fun _ => .pure _) ?_
  exact (Within.read_memory_with _).bind fun initCode => Within.frame.bind fun f => .pure _

/-- An instruction that neither calls nor creates moves past itself first. -/
theorem execute_local_aligned (limits : Limits) {op : Opcode} (hop : p.opAt pc = op)
    (hdefined : op ≠ .undefined) :
    Triple (Activation.Stands p (· = pc)) (executeLocal limits op) (fun _ => Activation.Aligned p)
      (fun _ => Activation.Aligned p) := by
  have hframe : Within Part.plain Exec.frame := .frame
  refine (hframe.starts (by decide) hpc).bind fun f => (hframe.starts (by decide) hpc).bind fun g => ?_
  have hchecked : Within Part.plain (Action.ofChecked (g.immediate? op.immediateSize)) := .of_checked _
  refine (hchecked.starts (by decide) hpc).bind fun immediate => ?_
  refine (advance_aligned hsize hpc (hop ▸ hdefined) (by rw [hop])).bind fun _ => ?_
  exact body_aligned limits f.pc immediate op

theorem dispatch_aligned {op : Opcode} (hop : p.opAt pc = op) (hdefined : op ≠ .undefined) :
    Triple (Activation.Stands p (· = pc)) (dispatch env op)
      (fun request x => x.Aligned p ∧ request.Lands p) (fun _ => Activation.Aligned p) := by
  have hother : op ≠ .callInternal → Triple (Activation.Stands p (· = pc)) (dispatch env op)
      (fun _ => Activation.Aligned p) (fun _ => Activation.Aligned p) →
      Triple (Activation.Stands p (· = pc)) (dispatch env op)
        (fun request x => x.Aligned p ∧ request.Lands p) (fun _ => Activation.Aligned p) := by
    intro hne h
    refine .of_results (fun x request y hx hact => ⟨h.ok hx hact, ?_⟩)
      fun x e y hx hact => h.error hx hact
    have hasks : op.Asks request := dispatch_asks env op x request y hact
    cases request with
    | internal target gas => exact absurd hasks hne
    | _ => trivial
  have hdata : p.opAt pc ≠ .undefined := hop ▸ hdefined
  have hlocal : Triple (Activation.Stands p (· = pc))
      (do executeLocal env.limits op; return Request.proceed) (fun _ => Activation.Aligned p)
      (fun _ => Activation.Aligned p) :=
    (execute_local_aligned hsize hpc env.limits hop hdefined).bind fun _ => .pure fun x hx => hx
  cases op with
  | callInternal => exact request_internal_aligned hsize hpc hop
  | call | staticCall =>
      exact hother (by simp) (request_message_aligned hsize hpc _ hdata (by rw [hop]; rfl))
  | create => exact hother (by simp) (request_create_aligned hsize hpc hop)
  | _ => exact hother (by simp) hlocal

/-- Every instruction leads from a boundary to a boundary. -/
theorem fetch_aligned :
    Triple (Activation.Stands p (· = pc)) (fetchAndDispatch env)
      (fun request x => x.Aligned p ∧ request.Lands p) (fun _ => Activation.Aligned p) := by
  have hframe : Within Part.plain Exec.frame := .frame
  refine frame_triple.bind fun f => ?_
  refine Triple.pre (P := fun x => f.currentOp = p.opAt pc ∧ x.Stands p (· = pc))
    (.assume fun hcurrent => ?_) fun x hx => ⟨?_, hx.1⟩
  · cases hop : f.currentOp with
    | undefined =>
        refine (hframe.starts (by decide) hpc).bind fun g => ?_
        split
        · have hstop : Within [.verdict] (update Frame.stop) := .stop (by decide)
          refine (hstop.starts (by decide) hpc).bind fun _ => .pure fun x hx => ?_
          exact ⟨aligned_of_stands hpc hx, trivial⟩
        · exact .refuse fun x hx => aligned_of_stands hpc hx
    | _ =>
        refine (hframe.starts (by decide) hpc).bind fun g => ?_
        refine .ite (fun _ => .refuse fun x hx => aligned_of_stands hpc hx) fun _ => ?_
        have hpay : ∀ amount, Within Part.plain (consumeGas amount) := .consume_gas (by decide)
        refine ((hpay _).starts (by decide) hpc).bind fun _ => ?_
        exact dispatch_aligned hsize hpc (hcurrent.symm.trans hop) (by simp)
  · rw [hx.2, Frame.currentOp, hx.1.program, show x.frame.pc = pc from hx.1.pc]

end

/-- Past the end of the code the frame stops. -/
theorem fetch_past {a : Activation} (hpast : a.frame.program.code.size ≤ a.frame.pc) :
    fetchAndDispatch env a = .ok .proceed ⟨a.frame.stop, a.space⟩ := by
  have hframe : Exec.frame a = .ok a.frame a := rfl
  have hop : a.frame.currentOp = .undefined := Program.op_at_past hpast
  have hbyte : a.frame.currentByte? = none := Program.byte_at_past hpast
  rw [fetchAndDispatch, Action.bind_ok hframe, hop]
  dsimp only
  rw [Action.bind_ok hframe, hbyte]
  rfl

/-- The data of an instruction at a boundary ends below the largest amount, so that it can be read. -/
theorem immediate_of_push {n : Nat} {f : Frame} (hsize : f.program.code.size + 32 ≤ maxAmount)
    (hop : f.currentOp = .push n) : f.pc + 1 + n ≤ maxAmount ∧ ∃ word, f.immediate? n = some word := by
  have hlt : f.pc < f.program.code.size := by
    refine Nat.lt_of_not_le fun hpast => ?_
    rw [Frame.currentOp, Program.op_at_past hpast] at hop
    cases hop
  have hn : n ≤ 32 := by
    have hdata := Opcode.immediate_size_le f.program.code[f.pc]
    rw [show Opcode.ofByte f.program.code[f.pc] = .push n from (dif_pos hlt).symm.trans hop] at hdata
    exact hdata
  refine ⟨by omega, ?_⟩
  unfold Frame.immediate?
  rw [Nat.min_eq_left hn]
  cases n with
  | zero => exact ⟨0, rfl⟩
  | succ n =>
      dsimp only
      rw [satAdd_eq_add (by omega), if_pos (by omega)]
      exact ⟨_, rfl⟩

/-- An instruction that pushes its data ends behind it, unless it is refused. -/
theorem fetch_push {n : Nat} {f : Frame} (hsize : f.program.code.size + 32 ≤ maxAmount)
    (hop : f.currentOp = .push n) :
    Triple (fun x => x.frame = f ∧ f.running = true) (fetchAndDispatch env)
      (fun request x => request = .proceed ∧ x.frame.running = true ∧
        x.frame.program = f.program ∧ x.frame.pc = f.pc + 1 + n)
      (fun e x => e ≠ .overflow ∧ x.frame.running = true) := by
  obtain ⟨hend, word, hword⟩ := immediate_of_push hsize hop
  let At (pc : Nat) (x : Activation) : Prop :=
    x.frame.running = true ∧ x.frame.program = f.program ∧ x.frame.pc = pc
  have hstep : ∀ {α : Type} {part : Part} {act : Exec α} (pc : Nat), Within [part] act → Safe act →
      part = .gas ∨ part = .stack →
      Triple (At pc) act (fun _ => At pc) (fun e x => e ≠ .overflow ∧ x.frame.running = true) := by
    intro α part act pc hwithin hsafe hpart
    have hstable : Triple (At pc) act (fun _ => At pc) (fun _ => At pc) := by
      refine hwithin.triple fun other hother x y htouch hx => ?_
      rw [List.mem_singleton] at hother
      subst hother
      cases htouch with
      | gas | stack => exact hx
      | _ => simp at hpart
    exact .of_results (fun x r y hx hact => hstable.ok hx hact)
      fun x e y hx hact => ⟨hsafe x e y hact, (hstable.error hx hact).1⟩
  refine frame_triple.bind fun g => ?_
  refine Triple.pre (P := fun x => g = f ∧ At f.pc x) (.assume fun hg => ?_) ?_
  · subst hg
    rw [hop]
    refine frame_triple.bind fun g' => .ite (fun hwrites => ?_) fun _ => ?_
    · simp [Opcode.isStateModifying] at hwrites
    refine Triple.bind ((hstep g.pc (.consume_gas (List.mem_singleton.2 rfl) _) (.consume_gas _)
      (.inl rfl)).pre fun x hx => hx.1) fun _ => ?_
    refine Triple.bind (R := fun _ => At (g.pc + 1 + n)) ?_ fun _ => .pure fun x hx => ⟨rfl, hx⟩
    refine frame_triple.bind fun g₁ => frame_triple.bind fun g₂ => ?_
    refine Triple.pre (P := fun x => g₂.immediate? n = some word ∧ At g.pc x)
      (.assume fun hread => ?_) ?_
    · refine Triple.bind (R := fun _ => At g.pc) ?_ fun immediate => ?_
      · show Triple _ (Action.ofChecked (g₂.immediate? n)) _ _
        rw [hread]
        exact fun x hx => hx
      refine Triple.bind (R := fun _ => At (g.pc + 1 + n)) (update_triple fun x hx => ?_) fun _ => ?_
      · obtain ⟨hrunning, hprogram, hpc⟩ := hx
        rw [Frame.advance, if_pos hrunning]
        refine ⟨hrunning, hprogram, ?_⟩
        show satAdd x.frame.pc (1 + n) = g.pc + 1 + n
        rw [hpc, satAdd_eq_add (by omega), Nat.add_assoc]
      · exact hstep _ (.push (List.mem_singleton.2 rfl) _) (.push _) (.inr rfl)
    · intro x hx
      obtain ⟨⟨hat, _⟩, rfl⟩ := hx
      refine ⟨?_, hat⟩
      unfold Frame.immediate? at hword ⊢
      rw [hat.2.1, hat.2.2]
      exact hword
  · intro x hx
    obtain ⟨⟨hframe, hrunning⟩, rfl⟩ := hx
    refine ⟨hframe, ?_⟩
    show x.frame.running = true ∧ x.frame.program = f.program ∧ x.frame.pc = f.pc
    rw [hframe]
    exact ⟨hrunning, rfl, rfl⟩

end Instruction

/-! ## Runs -/

/-- The frame stands at a boundary of its code, as far as program counters reach. -/
def Frame.Aligned (f : Frame) : Prop :=
  f.program.code.size + 32 ≤ maxAmount → Boundary f.program.code f.pc

namespace Frame.Aligned

variable {f f' : Frame}

/-- A frame that has not moved. -/
theorem same (h : f.Aligned) (hsite : f'.site = f.site) (hpc : f'.pc = f.pc) : f'.Aligned := by
  intro hsize
  have hprogram : f'.program = f.program := congrArg Site.program hsite
  rw [hprogram, hpc]
  exact h (hprogram ▸ hsize)

/-- A frame that begins. -/
theorem of_start (h : f.pc = 0) : f.Aligned := by
  intro _
  rw [h]
  exact .start

theorem fail (h : f.Aligned) (cause : Fault) : (f.fail cause).Aligned := by
  refine h.same (site_fail cause f) ?_
  unfold Frame.fail
  split <;> rfl

theorem learn (h : f.Aligned) (child : Frame) : (child.learn f).Aligned := by
  obtain ⟨gas, logs, hlearn⟩ := child.learn_eq f
  rw [hlearn]
  exact h

theorem pays (h : f.Aligned) (hpays : f.Pays f') : f'.Aligned := by
  obtain ⟨gas, rfl⟩ := hpays.same
  exact h

end Frame.Aligned

variable {limits : Limits} {env : Surroundings} {a b : Activation}

/-- What an instruction leaves is aligned, and so is what it asks for. -/
theorem Instruction.aligned_of_ok {request : Request} (ha : a.frame.Aligned)
    (hact : fetchAndDispatch env a = .ok request b) :
    b.frame.Aligned ∧ (b.frame.program.code.size + 32 ≤ maxAmount → request.Lands b.frame.program) := by
  have hsite : b.frame.site = a.frame.site := (Action.after_ok hact ▸ fetch_within env a).site_eq
  have hprogram : b.frame.program = a.frame.program := congrArg Site.program hsite
  have hend (hsize : a.frame.program.code.size + 32 ≤ maxAmount) :=
    (fetch_aligned hsize (ha hsize)).ok ⟨rfl, rfl⟩ hact
  rw [Frame.Aligned, hprogram]
  exact ⟨fun hsize => (hend hsize).1.pc, fun hsize => (hend hsize).2⟩

theorem Instruction.aligned_of_error {e : Abort} (ha : a.frame.Aligned)
    (hact : fetchAndDispatch env a = .error e b) : b.frame.Aligned := by
  have hsite : b.frame.site = a.frame.site := (Action.after_error hact ▸ fetch_within env a).site_eq
  have hprogram : b.frame.program = a.frame.program := congrArg Site.program hsite
  rw [Frame.Aligned, hprogram]
  intro hsize
  exact ((fetch_aligned hsize (ha hsize)).error ⟨rfl, rfl⟩ hact).pc

/-- An instruction leaves aligned frames. -/
theorem Instructed.aligned {top : List Frame} (h : Instructed env a top) (ha : a.frame.Aligned) :
    ∀ f ∈ top, f.Aligned := by
  cases h with
  | refused hact => exact List.forall_mem_singleton.2 ((Instruction.aligned_of_error ha hact).fail _)
  | proceeds hact => exact List.forall_mem_singleton.2 (Instruction.aligned_of_ok ha hact).1
  | stays hact _ hpays =>
      exact List.forall_mem_singleton.2 ((Instruction.aligned_of_ok ha hact).1.pays hpays)
  | declined hact _ hpays =>
      exact List.forall_mem_singleton.2 (((Instruction.aligned_of_ok ha hact).1.pays hpays).fail _)
  | @opens request b parent child hact hopens =>
      obtain ⟨hcaller, hlands⟩ := Instruction.aligned_of_ok ha hact
      refine List.forall_mem_cons.2 ⟨?_, List.forall_mem_singleton.2 ?_⟩
      · cases request with
        | proceed => exact hopens.elim
        | internal target gas =>
            obtain ⟨_, origin, marks, rfl⟩ := hopens
            exact hlands
        | message call gas region =>
            obtain ⟨_, code, home, rfl⟩ := hopens
            exact .of_start rfl
        | create value initCode gas =>
            obtain ⟨_, _, origin, address, home, rfl⟩ := hopens
            exact .of_start rfl
      · cases request with
        | proceed => exact hopens.elim
        | internal target gas => exact hopens.1 ▸ hcaller
        | message call gas region => exact hopens.1 ▸ hcaller
        | create value initCode gas => exact hcaller.pays hopens.1

/-- Taking up a result does not move the frame. -/
theorem Resumed.aligned {result : FinishedCall} {f : Frame} (h : Resumed limits result a f)
    (ha : a.frame.Aligned) : f.Aligned := by
  cases h with
  | refused hact =>
      have htouches := Action.after_error hact ▸ Exec.Within.resume limits result a
      exact (ha.same htouches.site_eq (htouches.pc_eq (by decide))).fail _
  | proceeds hact =>
      have htouches := Action.after_ok hact ▸ Exec.Within.resume limits result a
      exact ha.same htouches.site_eq (htouches.pc_eq (by decide))

/-- Every move keeps all frames aligned. -/
theorem Move.aligned {s t : RunState} (h : Move limits s t)
    (hs : ∀ f ∈ s.context.frames.toList, f.Aligned) : ∀ f ∈ t.context.frames.toList, f.Aligned := by
  cases h with
  | @instruction c c' hrunning hstep =>
      obtain ⟨f, below, hframes, _⟩ := Context.top_of_running hrunning
      obtain ⟨top, hinstructed, hframes'⟩ := Context.step_or_fail_instructed hframes hstep
      rw [hframes] at hs
      obtain ⟨hf, hbelow⟩ := List.forall_mem_cons.1 hs
      rw [hframes']
      exact List.forall_mem_append.2 ⟨hinstructed.aligned hf, hbelow⟩
  | @finish c c' result hhalted hfinish =>
      obtain ⟨child, parent, below, hframes, _, hframes', _⟩ := Context.finish_child_frames hfinish
      rw [hframes] at hs
      obtain ⟨_, hs⟩ := List.forall_mem_cons.1 hs
      obtain ⟨hparent, hbelow⟩ := List.forall_mem_cons.1 hs
      rw [hframes']
      exact List.forall_mem_cons.2 ⟨hparent.learn child, hbelow⟩
  | @resume c c' result hresume =>
      cases hframes : c.frames.toList with
      | nil =>
          have hmoved := (Move.resume hresume).moved.frames
          rw [show RunState.context ⟨c, some result⟩ = c from rfl, hframes] at hmoved
          generalize (RunState.context ⟨c', none⟩).frames.toList = frames' at hmoved ⊢
          cases hmoved with
          | idles => exact fun f hf => nomatch hf
      | cons f below =>
          obtain ⟨f', hresumed, hframes'⟩ := Context.resume_or_fail_resumed hframes hresume
          rw [hframes] at hs
          obtain ⟨hf, hbelow⟩ := List.forall_mem_cons.1 hs
          rw [hframes']
          exact List.forall_mem_cons.2 ⟨hresumed.aligned hf, hbelow⟩

/-- Every run keeps all frames aligned. -/
theorem Reaches.aligned {s t : RunState} (h : Reaches limits s t)
    (hs : ∀ f ∈ s.context.frames.toList, f.Aligned) : ∀ f ∈ t.context.frames.toList, f.Aligned := by
  induction h with
  | refl => exact hs
  | tail _ hmove ih => exact hmove.aligned ih

namespace Context

variable {c : Context} {f : Frame} {below : List Frame}

/-- A running frame past the end of its code stops. -/
theorem move_past (hframes : c.frames.toList = f :: below) (hrunning : f.running = true)
    (hpast : f.program.code.size ≤ f.pc) :
    ∃ c', Move limits ⟨c, none⟩ ⟨c', none⟩ ∧ c'.frames.toList = f.stop :: below :=
  move_of_proceed hframes hrunning (Instruction.fetch_past hpast)

/-- A running frame that pushes data goes on behind the data, or fails. -/
theorem move_push (hframes : c.frames.toList = f :: below) (hrunning : f.running = true)
    (hsize : f.program.code.size + 32 ≤ maxAmount) {n : Nat} (hop : f.currentOp = .push n) :
    ∃ c' f', Move limits ⟨c, none⟩ ⟨c', none⟩ ∧ c'.frames.toList = f' :: below ∧
      (f'.running = false ∧ f'.isReverted = true ∨
        f'.running = true ∧ f'.program = f.program ∧ f'.pc = f.pc + 1 + n) := by
  have hpush := @Instruction.fetch_push (c.surroundings limits) n f hsize hop (c.activation f)
    ⟨rfl, hrunning⟩
  cases hact : Instruction.fetchAndDispatch (c.surroundings limits) (c.activation f) with
  | ok request b =>
      rw [hact] at hpush
      obtain ⟨rfl, hgoes⟩ := hpush
      obtain ⟨c', hmove, hframes'⟩ := move_of_proceed hframes hrunning hact
      exact ⟨c', b.frame, hmove, hframes', .inr hgoes⟩
  | error e b =>
      rw [hact] at hpush
      obtain ⟨hfault, hb⟩ := hpush
      cases e with
      | overflow => exact absurd rfl hfault
      | fault e =>
          obtain ⟨c', hmove, hframes'⟩ := move_of_refused hframes hrunning hact
          refine ⟨c', b.frame.fail e, hmove, hframes', .inl ⟨Frame.running_fail e b.frame, ?_⟩⟩
          simp [Frame.fail, hb, Frame.isReverted, Verdict.reason?]

/-- Data is never executed. In every state of a run from a single frame at the start of its code, every
frame stands at an instruction boundary of its own code, never in the data of an instruction. A running
frame past the end of its code stops with its next move; an instruction that pushes more data than there
is left fails for another reason, or leads past the end, where the frame stops. -/
theorem run_on_boundaries {root : Frame} {s : RunState} (hroot : c.frames.toList = [root])
    (hpc : root.pc = 0) (hreaches : Reaches limits ⟨c, none⟩ s) :
    (∀ f ∈ s.context.frames.toList, f.program.code.size + 32 ≤ maxAmount →
      Boundary f.program.code f.pc ∧
        ∀ i (hi : i < f.program.code.size), Boundary f.program.code i →
          ¬(i < f.pc ∧ f.pc ≤ i + (Opcode.ofByte f.program.code[i]).immediateSize)) ∧
    ∀ f below, s.finished = none → s.context.frames.toList = f :: below → f.running = true →
      (f.program.code.size ≤ f.pc →
        ∃ c', Move limits s ⟨c', none⟩ ∧ c'.frames.toList = f.stop :: below) ∧
      ∀ n, f.program.code.size + 32 ≤ maxAmount → f.currentOp = .push n →
        f.program.code.size ≤ f.pc + n →
        ∃ c' f', Move limits s ⟨c', none⟩ ∧ c'.frames.toList = f' :: below ∧
          (f'.running = false ∧ f'.isReverted = true ∨
            f'.running = true ∧ f'.pc = f.pc + 1 + n ∧
              ∃ c'', Move limits ⟨c', none⟩ ⟨c'', none⟩ ∧
                c''.frames.toList = f'.stop :: below) := by
  have hstart : ∀ f ∈ c.frames.toList, f.Aligned := by
    rw [hroot]
    exact List.forall_mem_singleton.2 (.of_start hpc)
  have haligned := hreaches.aligned hstart
  refine ⟨fun f hf hsize => ⟨haligned f hf hsize, ?_⟩, ?_⟩
  · intro i hi hboundary
    exact hboundary.not_inside hi (haligned f hf hsize)
  · intro f below hnone hframes hrunning
    obtain ⟨c₁, finished⟩ := s
    cases hnone
    refine ⟨move_past hframes hrunning, ?_⟩
    intro n hsize hop htruncated
    obtain ⟨c', f', hmove, hframes', hend⟩ := move_push hframes hrunning hsize hop
    refine ⟨c', f', hmove, hframes', ?_⟩
    rcases hend with hfailed | ⟨hrunning', hprogram, hpc'⟩
    · exact .inl hfailed
    · have hpast : f'.program.code.size ≤ f'.pc := by
        rw [hprogram, hpc']
        omega
      exact .inr ⟨hrunning', hpc', move_past hframes' hrunning' hpast⟩

/-- A run of code that pushes a byte, which would be a jump destination, and then two bytes, of which
only one is there. -/
def truncatedPush : RunState where
  context := launch {} ∅ ⟨#[0x60, 0x5B, 0x61, 0x5B]⟩ 100 (.transaction 1 2 0 ByteArray.empty)
    { txn := ⟨1, 0⟩ }

/-- The second push leads past the end of the code. -/
theorem truncated_push_stops : ∃ c₁ c₂ c₃ f f',
    Reaches {} truncatedPush ⟨c₁, none⟩ ∧ c₁.frames.toList = [f] ∧ f.pc = 2 ∧
      Boundary f.program.code 2 ∧ Move {} ⟨c₁, none⟩ ⟨c₂, none⟩ ∧ c₂.frames.toList = [f'] ∧
      f'.running = true ∧ f'.pc = 5 ∧ Move {} ⟨c₂, none⟩ ⟨c₃, none⟩ ∧
      c₃.frames.toList = [f'.stop] := by
  have hfacts : (truncatedPush.excursion? {} 1 0).any (fun run =>
      run.1.finished == none &&
        run.1.context.frames.toList.map (fun f =>
          (f.running, f.pc, f.program.code.size, f.currentOp)) == [(true, 2, 4, .push 2)] &&
        run.2.1.finished == none && run.2.1.context.frames.toList.map (·.running) == [true]) = true := by
    decide +kernel
  obtain ⟨⟨⟨c₁, _⟩, ⟨c₂, _⟩, s⟩, hrun, hfacts⟩ := (Option.any_eq_true _ _).1 hfacts
  simp only [Bool.and_eq_true, beq_iff_eq] at hfacts
  obtain ⟨⟨⟨rfl, hbefore⟩, rfl⟩, hafter⟩ := hfacts
  obtain ⟨hreaches, hmove, _⟩ := excursion_reaches hrun
  obtain ⟨f, below, hframes, hf, hbelow⟩ := List.map_eq_cons_iff.1 hbefore
  cases List.map_eq_nil_iff.1 hbelow
  simp only [Prod.mk.injEq] at hf
  obtain ⟨hrunning, hpc, hsize, hop⟩ := hf
  obtain ⟨hboundaries, hmoves⟩ := run_on_boundaries (c := truncatedPush.context) rfl rfl hreaches
  have hfits : f.program.code.size + 32 ≤ maxAmount := by
    rw [hsize]
    decide
  obtain ⟨c', f', hmove', hframes', hend⟩ :=
    (hmoves f [] rfl hframes hrunning).2 2 hfits hop (by omega)
  cases Option.some.inj ((move_iff.1 hmove').symm.trans (move_iff.1 hmove))
  have hrunning' : f'.running = true := by
    simpa [hframes'] using hafter
  obtain ⟨hfailed, _⟩ | ⟨_, hpc', c₃, hlast, hframes₃⟩ := hend
  · rw [hrunning'] at hfailed
    cases hfailed
  · have hboundary := (hboundaries f (hframes ▸ List.mem_singleton.2 rfl) hfits).1
    rw [hpc] at hboundary hpc'
    exact ⟨c₁, c₂, c₃, f, f', hreaches, hframes, hpc, hboundary, hmove', hframes', hrunning', hpc',
      hlast, hframes₃⟩

end Context
end CallTree
