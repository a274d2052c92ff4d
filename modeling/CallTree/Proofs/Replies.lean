import CallTree.Proofs.Endings
import CallTree.Proofs.Isolation
import CallTree.Proofs.Solvency

/-!
# Replies to messages

A frame that sends a message waits right behind the instruction
(`Instruction.fetch_message_behind`). While the message is worked on, nothing happens to the frame, to
its workspace or to the region that was settled for the output (`Context.caller_waits`). Then it takes
up the result, and cannot be refused: the region was paid for before the message was sent, so that all
of it lies in the memory, and the operands of the call have made room for one word (`Solvent.answer`).
What the caller sees in the end is `Context.message_answered`. An output that is shorter or longer than
the region, and a region of no bytes somewhere beyond the memory, are no special cases of it.
-/

namespace CallTree

open CallTree.Action (Triple)

/-! ## Sending -/

/-- The frame is running and stands at such a place. -/
structure Activation.At (pc : Nat) (x : Activation) : Prop where
  running : x.frame.running = true
  pc : x.frame.pc = pc

namespace Instruction

open Exec

variable {env : Surroundings} {a b : Activation}

/-- A message is sent from right behind its instruction. -/
theorem request_message_behind (env : Surroundings) (withValue : Bool) (pc : Nat) :
    Triple (Activation.At pc) (requestMessage env withValue)
      (fun _ x => x.frame.pc = satAdd pc 1) Abort.Any := by
  have hstays : ∀ {α : Type} {act : Exec α}, Within Part.plain act →
      Triple (Activation.At pc) act (fun _ => Activation.At pc) Abort.Any := fun h =>
    Triple.refused (h.triple fun part hpart x y htouch hx => by
      cases htouch with
      | gas | stack => exact ⟨hx.running, hx.pc⟩
      | _ => simp [Part.plain] at hpart) fun _ _ _ => trivial
  have hamount := hstays (.pop_amount (by decide))
  have hpop := hstays (.pop (by decide))
  refine hamount.bind fun requested => hpop.bind fun callee => ?_
  refine .choose (R := fun _ => Activation.At pc) (fun _ => hpop) (fun _ => .pure fun x hx => hx)
    fun value => ?_
  refine hamount.bind fun argsOffset => hamount.bind fun argsSize => ?_
  refine hamount.bind fun retOffset => hamount.bind fun retSize => ?_
  refine Triple.bind (R := fun _ x => x.frame.pc = satAdd pc 1)
    (update_triple fun x hx => ?_) fun _ => ?_
  · rw [Frame.advance, if_pos hx.running]
    show satAdd x.frame.pc 1 = satAdd pc 1
    rw [hx.pc]
  -- From here on the program counter stays.
  have hrest : ∀ {act : Exec Request}, Within (.lastReturn :: Part.work) act →
      Triple (fun x => x.frame.pc = satAdd pc 1) act (fun _ x => x.frame.pc = satAdd pc 1) Abort.Any :=
    fun h => Triple.refused (h.triple fun part hpart x y htouch hx => by
      cases htouch with
      | pc pc => simp [Part.work] at hpart
      | _ => exact hx) fun _ _ _ => trivial
  refine hrest (Within.frame.bind fun f => .when (.refuse _) fun _ => ?_)
  refine (Within.charge_memory (by decide) (by decide) argsOffset argsSize).bind fun _ => ?_
  refine (Within.charge_memory (by decide) (by decide) retOffset retSize).bind fun _ => ?_
  refine .when (.consume_gas (by decide) Gas.callValue) fun _ => ?_
  refine (Within.set_last_return (by decide) ByteArray.empty).bind fun _ => ?_
  refine .ite ((Within.push (by decide) 0).bind fun _ => .pure _) ?_
  refine Within.frame.bind fun f => (Within.consume_gas (by decide) _).bind fun _ => ?_
  exact (Within.read_memory_with _).bind fun input => Within.frame.bind fun f => .pure _

/-- A running frame sends a message from right behind the instruction, which lies in its code. -/
theorem fetch_message_behind {call : CallData} {gas : Nat} {region : Region}
    (hrunning : a.frame.running = true)
    (hact : fetchAndDispatch env a = .ok (.message call gas region) b) :
    b.frame.pc = satAdd a.frame.pc 1 ∧ a.frame.pc < a.frame.program.code.size := by
  obtain ⟨hop, _⟩ : (a.frame.currentOp = .call ∨ a.frame.currentOp = .staticCall) ∧ _ :=
    fetch_request hact
  have hdefined : a.frame.currentOp ≠ .undefined := by
    rcases hop with hop | hop <;> simp [hop]
  obtain ⟨a₁, hgas, hdone⟩ := fetch_ok hact hdefined
  have hat : Activation.At a.frame.pc a₁ := by
    have hpay : Within [.gas] (consumeGas (Gas.static a.frame.currentOp)) :=
      .consume_gas (List.mem_singleton.2 rfl) _
    have htouches := Action.after_ok hgas ▸ hpay a
    exact ⟨(htouches.running_eq (by decide)).trans hrunning, htouches.pc_eq (by decide)⟩
  refine ⟨?_, Nat.lt_of_not_le fun hpast => hdefined (Program.op_at_past hpast)⟩
  rcases hop with hop | hop
  · rw [hop] at hdone
    exact (request_message_behind env true _).ok hat hdone
  · rw [hop] at hdone
    exact (request_message_behind env false _).ok hat hdone

end Instruction

/-! ## Taking up -/

namespace Exec

/-- An operand for which there is room is put on the stack. -/
theorem push_inside {f : Frame} {w : Workspace} (word : Word)
    (hfree : w.stack.items.size < w.stack.limit) :
    Exec.push word ⟨f, some w⟩ =
      .ok () ⟨f, some { w with stack := { w.stack with items := w.stack.items.push word } }⟩ := by
  obtain ⟨⟨limit, items, copies⟩, memory, storage, pending⟩ := w
  have hroom : ¬limit ≤ Stack.size ⟨limit, items, copies⟩ := Nat.not_le.2 hfree
  simp only [Exec.push, onStack, Stack.push, if_neg hroom]

/-- Whether a message has succeeded or reverted, its caller takes up the result where there is room
for it. -/
theorem resume_message (limits : Limits) {child : Frame} (parent : Frame) {w : Workspace}
    (hkind : child.call.kind = .external ∨ child.call.kind = .static)
    (hfree : w.stack.items.size < w.stack.limit) (hcovers : w.Covers child.returnRegion) :
    ∃ w', Exec.resume limits child.finished ⟨child.learn parent, some w⟩ =
        .ok () ⟨{ child.learn parent with staged := .empty, lastReturn := child.output }, some w'⟩ ∧
      w'.stack.items = w.stack.items.push (if child.isSuccess then 1 else 0) ∧
      Memory.Receives child.returnRegion child.output w.memory w'.memory := by
  let taken : Frame := { child.learn parent with staged := .empty }
  obtain ⟨m, hcopy, hreceives⟩ := copy_output_inside child.output (f := taken) hcovers
  let answered (word : Word) : Workspace :=
    { w with memory := m, stack := { w.stack with items := w.stack.items.push word } }
  have hlast : ∀ word, (do
      copyOutput child.returnRegion child.output
      Exec.update (Frame.setLastReturn child.output)
      Exec.push word : Exec Unit) ⟨taken, some w⟩ =
        .ok () ⟨taken.setLastReturn child.output, some (answered word)⟩ := by
    intro word
    have hset : Exec.update (Frame.setLastReturn child.output) ⟨taken, some { w with memory := m }⟩ =
        .ok () ⟨taken.setLastReturn child.output, some { w with memory := m }⟩ := rfl
    rw [Action.bind_ok hcopy, Action.bind_ok hset]
    exact push_inside word hfree
  refine ⟨answered (if child.isSuccess then 1 else 0), ?_, rfl, hreceives⟩
  rw [Exec.resume, Action.bind_ok (take_learned child parent (some w)), Frame.result, Frame.finished]
  by_cases hsuccess : child.isSuccess = true
  · rw [if_pos hsuccess, if_pos hsuccess]
    rcases hkind with hkind | hkind
    · simp only [hkind]
      exact hlast 1
    · simp only [hkind]
      exact hlast 1
  · rw [if_neg hsuccess, if_neg hsuccess]
    rcases hkind with hkind | hkind
    · simp only [hkind]
      exact hlast 0
    · simp only [hkind]
      exact hlast 0

end Exec

/-- Only the bytes of the memory before it matter. -/
theorem Memory.Receives.congr {region : Region} {data : Bytes} {m m₁ m' : Memory}
    (h : Memory.Receives region data m m') (hdata : m.data = m₁.data) :
    Memory.Receives region data m₁ m' :=
  ⟨hdata ▸ h.size, hdata ▸ h.get⟩

/-- A halted message is finished, and its caller takes up the result: it learns whether the message has
succeeded, and gets the output. -/
theorem Solvent.answer (limits : Limits) {c : Context} {child parent : Layer} {below : List Layer}
    {saved : List Contents} (h : Solvent c child (parent :: below) saved)
    (hhalted : child.frame.running = false)
    (hkind : child.frame.call.kind = .external ∨ child.frame.call.kind = .static) :
    ∃ c₁ c₂ f w w', Move limits ⟨c, none⟩ ⟨c₁, some child.frame.finished⟩ ∧
      Move limits ⟨c₁, some child.frame.finished⟩ ⟨c₂, none⟩ ∧
      c₂.frames.toList = f :: below.map (·.frame) ∧
      c.pool.get? parent.cell = some w ∧ c₂.pool.get? parent.cell = some w' ∧
      w'.stack.items = w.stack.items.push (if child.frame.isSuccess then 1 else 0) ∧
      Memory.Receives child.frame.returnRegion child.frame.output w.memory w'.memory ∧
      f.lastReturn = child.frame.output ∧ f.running = true ∧ f.pc = parent.frame.pc ∧
      f.site = parent.frame.site := by
  have hother : child.frame.call.kind ≠ .internal := by
    rcases hkind with hkind | hkind <;> simp [hkind]
  have hstopped : c.isRunning = false := h.stands.is_running.trans hhalted
  have hbacked : ∃ w, c.pool.get? parent.cell = some w ∧ w.contents = parent.contents := by
    cases h.stands.chain with
    | internal _ _ _ hinternal => exact absurd hinternal hother
    | own _ _ hbacked =>
        obtain ⟨w, hget, hcontents, _⟩ := hbacked
        exact ⟨w, hget, hcontents⟩
  obtain ⟨w, hget, hcontents⟩ := hbacked
  obtain ⟨c₁, x, saved', hfinish, h₁, hhanded, hawaits⟩ := h.finish hhalted
  obtain ⟨hoperands, hbytes⟩ := hhanded.operands_bytes_eq hother
  let learned : Layer := ⟨child.frame.learn parent.frame, x⟩
  have hcell : learned.cell = parent.cell :=
    Frame.cell_of_site (Frame.site_learn child.frame parent.frame)
  obtain ⟨v, w', f, hget₁, hcontents₁, htouches, hstands, _, hresult⟩ :=
    h₁.stands.on_top (Exec.resume limits child.frame.finished) Part.resumption
      fun v => Exec.Within.resume limits _ ⟨learned.frame, some v⟩
  have hlimit : c₁.operandLimit? parent.cell = some v.stack.limit :=
    hcell ▸ Context.operand_limit_eq hget₁
  have hready := (hawaits _ hlimit).ready hother
  have hitems : v.stack.items = x.operands := congrArg Contents.operands hcontents₁
  have hdata : v.memory.data = x.bytes := congrArg Contents.bytes hcontents₁
  have hfree : v.stack.items.size < v.stack.limit := hitems ▸ hready.operands
  have hcovers : v.Covers child.frame.returnRegion := by
    rw [Workspace.Covers, hdata]
    exact hready.covered
  obtain ⟨w₁, hdone, hpushed, hreceives⟩ := Exec.resume_message limits parent.frame hkind hfree hcovers
  rcases hresult with ⟨_, hact, htop⟩ | ⟨_, hact, _⟩
  · cases hact.symm.trans hdone
    refine ⟨c₁, _, _, w, w', .finish hstopped hfinish, .resume ?_, hstands.frames, hget, ?_, ?_, ?_, rfl,
      ?_, ?_, Frame.site_learn child.frame parent.frame⟩
    · simp only [Context.resumeOrFail, htop]
    · show (c₁.pool.set learned.cell w').get? parent.cell = some w'
      rw [← hcell]
      exact Pool.get_set_same hget₁
    · rw [hpushed, hitems, hoperands, ← hcontents]
      rfl
    · refine hreceives.congr ?_
      rw [hdata, hbytes, ← hcontents]
      rfl
    · exact (Frame.running_learn _ _).trans (h.stands.chain.running_below parent List.mem_cons_self)
    · obtain ⟨gas, logs, hlearn⟩ := child.frame.learn_eq parent.frame
      simp only [hlearn]
  · cases hact.symm.trans hdone

namespace Context

/-- A frame that is opened for a message is opened from right behind the instruction. -/
theorem opened_behind {limits : Limits} {c₁ c₂ : Context} {caller opened parent : Frame}
    {below : List Frame} (hmove : Move limits ⟨c₁, none⟩ ⟨c₂, none⟩) (hdepth : c₂.depth = c₁.depth + 1)
    (hcaller : c₁.top = .ok caller) (hopened : c₂.frames.toList = opened :: parent :: below)
    (hkind : opened.call.kind = .external ∨ opened.call.kind = .static) :
    parent.pc = satAdd caller.pc 1 ∧ caller.pc < caller.program.code.size := by
  cases hmove with
  | instruction hrunning hstep =>
      obtain ⟨f, lower, hframes₁, hf⟩ := top_of_running hrunning
      obtain rfl : f = caller := by
        simpa [hframes₁] using head_of_top hcaller
      obtain ⟨top, hinstructed, hframes₂⟩ := step_or_fail_instructed hframes₁ hstep
      have htwo : top.length = 2 := by
        rw [depth_eq, depth_eq, hframes₁, hframes₂, List.length_append, List.length_cons] at hdepth
        omega
      rw [hopened] at hframes₂
      cases hinstructed with
      | @opens request b _ _ hact hopens =>
          cases hframes₂
          cases request with
          | proceed => exact hopens.elim
          | internal target gas =>
              obtain ⟨_, origin, marks, rfl⟩ := hopens
              simp [Frame.internal] at hkind
          | message call gas region =>
              obtain ⟨rfl, _⟩ := hopens
              exact Instruction.fetch_message_behind hf hact
          | create value initCode gas =>
              obtain ⟨_, _, origin, address, home, rfl⟩ := hopens
              simp [Frame.new, CallData.create] at hkind
      | _ => simp at htwo

section

variable {frameLimits limits : Limits} {slots : Slots} {code : Bytes} {gas : Nat} {call : CallData}
  {base c₁ c₂ c : Context} {opened parent child : Frame} {below : List Frame}

/-- While a frame with a workspace of its own is above it, the caller waits and its workspace stays as it
is. -/
theorem caller_waits
    (hopening : Opening limits c₁.depth ⟨base.launch frameLimits slots code gas call, none⟩ ⟨c, none⟩
      c₁ c₂)
    (hopened : c₂.frames.toList = opened :: parent :: below) (hkind : opened.call.kind ≠ .internal)
    (hdepth : c.depth = c₁.depth + 1) (hchild : c.top = .ok child) :
    c.frames.toList = child :: parent :: below ∧ child.settled = opened.settled ∧
      ∃ w, c₂.pool.get? parent.home.cell = some w ∧ c.pool.get? parent.home.cell = some w := by
  obtain ⟨l₂, lower, saved₂, hstands₂⟩ :=
    hopening.reaches_opened.stands (launch_stands _ _ _ _ _ base)
  obtain ⟨rfl, hlower⟩ := List.cons.inj (hstands₂.frames.symm.trans hopened)
  have hfloor : c₁.depth = lower.length :=
    Nat.succ.inj (hopening.opened.symm.trans hstands₂.depth_eq)
  have habove := hopening.above
  rw [hfloor] at habove hdepth
  have hapart : ∀ m ∈ [l₂], ∀ n ∈ lower, n.cell ≠ m.cell := by
    cases hstands₂.chain with
    | root => simp
    | internal _ _ _ hinternal => exact absurd hinternal hkind
    | own _ _ _ _ _ _ hfresh => simpa using hfresh
  have hbottom : Stands c₂ l₂ ([] ++ lower) saved₂ := hstands₂
  obtain ⟨l, upper, saved, hstands, _, hpool, _⟩ := hbottom.run_apart hapart habove
  cases hstands.upper_eq_nil hdepth
  cases hchild.symm.trans hstands.top_eq
  have hframes : c.frames.toList = l.frame :: parent :: below := hlower ▸ hstands.frames
  refine ⟨hframes, ?_, ?_⟩
  · have hsuffix := hopening.above.settled hopening.opened
    rw [show (RunState.context ⟨c₂, none⟩).frames = c₂.frames from rfl,
      show (RunState.context ⟨c, none⟩).frames = c.frames from rfl, hopened, hframes] at hsuffix
    exact (List.cons.inj (hsuffix.eq_of_length (by simp))).1.symm
  · obtain ⟨waiting, _, rfl, rfl, _⟩ := List.map_eq_cons_iff.1 hlower
    obtain ⟨w, hget⟩ := hstands₂.live waiting (by simp)
    exact ⟨w, hget, hpool waiting (by simp) w hget⟩

end

/-- What a caller sees after a message. Let a run have opened a frame for a message by the move from
`c₁` to `c₂`, and let this frame be topmost again and have halted. Then it is finished, and its caller,
which is still running right behind the instruction, takes up the result. The stack of the caller is
what it was when the frame was opened with one more operand, one if the message has succeeded and zero
if it has reverted. The output of the message is what the caller can copy from, and as much of it as
fits was written to the region that was set aside for it; the memory has the same size and is otherwise
what it was. -/
theorem message_answered (base : Context) {frameLimits limits : Limits} {slots : Slots} {code : Bytes}
    {gas : Nat} {call : CallData} {c₁ c₂ c : Context} {caller opened parent child : Frame}
    {below : List Frame}
    (hopening : Opening limits c₁.depth ⟨base.launch frameLimits slots code gas call, none⟩ ⟨c, none⟩
      c₁ c₂)
    (hcaller : c₁.top = .ok caller) (hopened : c₂.frames.toList = opened :: parent :: below)
    (hkind : opened.call.kind = .external ∨ opened.call.kind = .static)
    (hdepth : c.depth = c₁.depth + 1) (hchild : c.top = .ok child) (hhalted : child.running = false) :
    ∃ c₃ c₄ parent' w w', Move limits ⟨c, none⟩ ⟨c₃, some child.finished⟩ ∧
      Move limits ⟨c₃, some child.finished⟩ ⟨c₄, none⟩ ∧ c₄.frames.toList = parent' :: below ∧
      c₂.pool.get? parent.home.cell = some w ∧ c₄.pool.get? parent'.home.cell = some w' ∧
      w'.stack.items = w.stack.items.push (if child.isSuccess then 1 else 0) ∧
      parent'.lastReturn = child.output ∧
      Memory.Receives opened.returnRegion child.output w.memory w'.memory ∧
      parent'.pc = satAdd caller.pc 1 ∧
      (caller.program.code.size ≤ maxAmount → parent'.pc = caller.pc + 1) ∧
      parent'.running = true := by
  have hother : opened.call.kind ≠ .internal := by
    rcases hkind with hkind | hkind <;> simp [hkind]
  obtain ⟨hframes, hsettled, w, hbefore, hafter⟩ :=
    caller_waits hopening hopened hother hdepth hchild
  obtain ⟨hpc, hinside⟩ := opened_behind hopening.move hopening.opened hcaller hopened hkind
  have hcall : child.call = opened.call := congrArg (Site.call ∘ Prod.fst) hsettled
  have hregion : child.returnRegion = opened.returnRegion := congrArg Prod.snd hsettled
  obtain ⟨l, lower, saved, hsolvent⟩ := ((launch_solvent _ _ _ _ _ _).run hopening.reaches).layers
  obtain ⟨rfl, hlower⟩ := List.cons.inj (hsolvent.stands.frames.symm.trans hframes)
  obtain ⟨waiting, lower, rfl, rfl, rfl⟩ := List.map_eq_cons_iff.1 hlower
  obtain ⟨c₃, c₄, parent', v, w', hfinish, hresume, hframes', hv, hw', hitems, hreceives, hlast,
    hrunning, hpc', hsite⟩ := hsolvent.answer limits hhalted (hcall ▸ hkind)
  cases hafter.symm.trans hv
  have hhome : parent'.home = waiting.frame.home := congrArg Site.home hsite
  refine ⟨c₃, c₄, parent', w, w', hfinish, hresume, hframes', hbefore, hhome ▸ hw', hitems, hlast,
    hregion ▸ hreceives, hpc'.trans hpc, fun hsize => ?_, hrunning⟩
  rw [hpc', hpc, satAdd_eq_add (by omega)]

/-- A run in which the root frame calls a contract that returns a word, for which it has set aside forty
bytes behind the first one. -/
def answeredCall : RunState where
  context := launch {} ∅
    ⟨#[0x60, 40, 0x60, 1, 0x60, 0, 0x60, 0, 0x60, 0, 0x60, 3, 0x61, 0x80, 0, 0xF1]⟩ 100000
    (.transaction 1 2 0 ByteArray.empty)
    { txn := ⟨1, 0⟩
      world := World.setCode 3 ⟨#[0x60, 7, 0x60, 0, 0x52, 0x60, 32, 0x60, 0, 0xF3]⟩ {} }

/-- The last byte of the word is in the memory of the root frame, which goes on behind the call. -/
theorem call_answered : ∃ c₁ c₂ c c₃ c₄ opened waiting child parent w w',
    Opening {} c₁.depth answeredCall ⟨c, none⟩ c₁ c₂ ∧ c₂.frames.toList = [opened, waiting] ∧
      c₂.pool.get? waiting.home.cell = some w ∧ c.top = .ok child ∧ child.running = false ∧
      Move {} ⟨c, none⟩ ⟨c₃, some child.finished⟩ ∧ Move {} ⟨c₃, some child.finished⟩ ⟨c₄, none⟩ ∧
      c₄.frames.toList = [parent] ∧ c₄.pool.get? parent.home.cell = some w' ∧
      w'.stack.items = w.stack.items.push 1 ∧ w'.memory.data.size = w.memory.data.size ∧
      w'.memory.data.data[32]? = some 7 ∧ parent.lastReturn = child.output ∧ parent.pc = 16 ∧
      parent.running = true := by
  have hfacts : (answeredCall.excursion? {} 7 6).any (fun run =>
      run.1.finished == none &&
        run.1.context.frames.toList.map (fun f => (f.pc, f.program.code.size)) == [(15, 16)] &&
        run.2.1.finished == none &&
        run.2.1.context.frames.toList.map (fun f =>
          (f.call.kind, f.returnRegion.offset, f.returnRegion.size)) ==
          [(.external, 1, 40), (.external, 0, 0)] &&
        run.2.2.finished == none &&
        run.2.2.context.frames.toList.map (fun f =>
          (f.running, f.isSuccess, f.output.size, (f.output.data[31]? : Option UInt8))) ==
          [(false, true, 32, some 7), (true, false, 0, none)]) = true := by
    decide +kernel
  obtain ⟨⟨⟨c₁, _⟩, ⟨c₂, _⟩, ⟨c, _⟩⟩, hrun, hfacts⟩ := (Option.any_eq_true _ _).1 hfacts
  simp only [Bool.and_eq_true, beq_iff_eq] at hfacts
  obtain ⟨⟨⟨⟨⟨rfl, hbefore⟩, rfl⟩, hopened⟩, rfl⟩, hends⟩ := hfacts
  obtain ⟨hstart, hopen, habove⟩ := excursion_reaches hrun
  obtain ⟨caller, hcaller, hcode⟩ := top_of_map hbefore
  obtain ⟨child, hchild, hend⟩ := top_of_map hends
  have hdepth₁ : c₁.depth = 1 := depth_of_map hbefore
  have hdepth₂ : c₂.depth = c₁.depth + 1 := (depth_of_map hopened).trans (by rw [hdepth₁]; rfl)
  have hdepth : c.depth = c₁.depth + 1 := (depth_of_map hends).trans (by rw [hdepth₁]; rfl)
  obtain ⟨opened, _, hframes, hregion, hrest⟩ := List.map_eq_cons_iff.1 hopened
  obtain ⟨waiting, _, rfl, _, hrest⟩ := List.map_eq_cons_iff.1 hrest
  cases List.map_eq_nil_iff.1 hrest
  simp only [Prod.mk.injEq] at hcode hregion hend
  obtain ⟨hpc, hsize⟩ := hcode
  obtain ⟨hkind, hoffset, hroom⟩ := hregion
  obtain ⟨hhalted, hsuccess, hlength, hbyte⟩ := hend
  have hopening : Opening {} c₁.depth answeredCall ⟨c, none⟩ c₁ c₂ :=
    ⟨hstart, rfl, hopen, hdepth₂, habove⟩
  obtain ⟨c₃, c₄, parent, w, w', hfinish, hresume, hframes', hw, hw', hitems, hlast, hreceives, _,
    hbehind, hrunning⟩ := message_answered _ hopening hcaller hframes (.inl hkind) hdepth hchild hhalted
  rw [hsuccess] at hitems
  refine ⟨c₁, c₂, c, c₃, c₄, opened, waiting, child, parent, w, w', hopening, hframes, hw, hchild,
    hhalted, hfinish, hresume, hframes', hw', hitems, hreceives.size, ?_, hlast, ?_, hrunning⟩
  · rw [hreceives.get, hoffset, hroom, hlength, if_pos (by decide)]
    exact hbyte
  · rw [hbehind (by rw [hsize]; decide), hpc]

end Context
end CallTree
