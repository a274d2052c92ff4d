import CallTree.Proofs.Conservation
import CallTree.Proofs.Overflow
import CallTree.Proofs.Waiting

/-!
# Call trees end by gas alone

The potential of a call stack is the gas that is left on it and one more for every frame that is
running. An instruction takes at least one from it, and no other move adds to it
(`FrameMove.potential_le`): what an instruction does not pay for, it pays with the end of its frame, and
a new frame counts for less than the price of the call that opens it. A run of a frame with `gas` left
thus executes at most `gas + 1` instructions (`Context.run_ends_by_gas`).

The run still needs that all numbers are amounts. `Context.probing_start_overflows` is a run in which one
is not, within a limit on memories that is itself an amount.
-/

namespace CallTree

/-! ## The potential -/

/-- What is left of the gas on a call stack, and one more for each running frame. -/
def potential (frames : List Frame) : Nat :=
  remainingGas frames + frames.countP (·.running)

@[simp]
theorem potential_nil : potential [] = 0 :=
  rfl

@[simp]
theorem potential_cons (f : Frame) (frames : List Frame) :
    potential (f :: frames) = f.gas.remaining + f.running.toNat + potential frames := by
  have hcount : (f :: frames).countP (·.running) =
      frames.countP (·.running) + f.running.toNat := by
    rw [List.countP_cons]
    cases f.running <;> rfl
  unfold potential
  rw [hcount, remaining_gas_cons]
  omega

theorem potential_append (top below : List Frame) :
    potential (top ++ below) = potential top + potential below := by
  induction top with
  | nil => simp
  | cons f top ih =>
      rw [List.cons_append, potential_cons, potential_cons, ih]
      omega

/-- An instruction takes at least one from the potential: its frame goes on and has paid, or has halted
and no longer counts, or waits for a frame that costs more to open than it counts. -/
theorem Frame.Executes.potential_lt {f : Frame} {top : List Frame} (h : f.Executes top)
    (hrunning : f.running = true) : potential top < f.gas.remaining + 1 := by
  cases h with
  | @goes f' hworks hpaid =>
      have hle := hworks.gas.remaining
      rw [potential_cons, potential_nil]
      cases hend : f'.running with
      | false =>
          show f'.gas.remaining + 0 + 0 < f.gas.remaining + 1
          omega
      | true =>
          have hlt := hpaid hend
          show f'.gas.remaining + 1 + 0 < f.gas.remaining + 1
          omega
  | @opens parent child hopens =>
      have hle := hopens.remaining_le
      have hprice : 5 ≤ Gas.static f.currentOp := hopens.makes.price
      have hparent : parent.running = true := hopens.stays.running.trans hrunning
      rw [potential_cons, potential_cons, potential_nil, hopens.running, hparent]
      show child.gas.remaining + 1 + (parent.gas.remaining + 1 + 0) < f.gas.remaining + 1
      omega

/-- An instruction takes at least one from the potential, and no other move adds to it. -/
theorem FrameMove.potential_le {executed : Bool} {frames frames' : List Frame}
    (h : FrameMove executed frames frames') :
    potential frames' + executed.toNat ≤ potential frames := by
  cases h with
  | @executes f top below hrunning hexecutes =>
      have hlt := hexecutes.potential_lt hrunning
      rw [potential_append, potential_cons, hrunning]
      show potential top + potential below + 1 ≤ f.gas.remaining + 1 + potential below
      omega
  | @finishes child parent below hhalted =>
      have hle := Frame.remaining_learn_le child parent
      rw [potential_cons, potential_cons, potential_cons, hhalted, Frame.running_learn]
      show _ + 0 ≤ child.gas.remaining + 0 + _
      omega
  | @resumes f f' below hworks =>
      have hle := hworks.gas.remaining
      have hcount : f'.running.toNat ≤ f.running.toNat := by
        cases hend : f'.running with
        | false => exact Nat.zero_le _
        | true => exact Nat.le_of_eq (congrArg Bool.toNat (hworks.running hend).symm)
      rw [potential_cons, potential_cons]
      show _ + 0 ≤ _
      omega
  | idles => exact Nat.le_refl _

/-! ## Runs -/

/-- Instructions are executed by running frames, which count. -/
theorem RunState.executes_le (s : RunState) :
    s.executes.toNat ≤ potential s.context.frames.toList := by
  cases hexecutes : s.executes with
  | false => exact Nat.zero_le _
  | true =>
      have hrunning : s.context.isRunning = true := by
        simp only [RunState.executes, Bool.and_eq_true] at hexecutes
        exact hexecutes.2
      obtain ⟨f, below, hframes, hf⟩ := Context.top_of_running hrunning
      rw [hframes, potential_cons, hf]
      show 1 ≤ f.gas.remaining + 1 + potential below
      omega

/-- Every instruction of a run is paid for by the potential it starts with. -/
theorem Trail.potential_le {limits : Limits} {s t : RunState} {states : List RunState}
    (h : Trail limits s states t) :
    potential t.context.frames.toList + instructions states ≤ potential s.context.frames.toList := by
  induction h with
  | nil s => exact Nat.le_refl _
  | @cons s t u states hmove _ ih =>
      have hmoved := hmove.moved.frames.potential_le
      have hcount : instructions (s :: states) = instructions states + s.executes.toNat := by
        unfold instructions
        rw [List.countP_cons]
        cases s.executes <;> rfl
      omega

namespace Context

/-- Every call tree ends by gas alone. On the way from a single frame, an instruction always takes at
least one from the potential and no other move adds to it, so a run counts at most one instruction more
than the frame has gas left. With a budget of that many it ends with the frame halted, never for want of
budget, unless a number is no amount; that cannot happen within the bounds on sizes. -/
theorem run_ends_by_gas (limits : Limits) {c : Context} {root : Frame}
    (hroot : c.frames.toList = [root]) :
    (∀ s t, Reaches limits ⟨c, none⟩ s → Move limits s t →
      potential t.context.frames.toList + s.executes.toNat ≤
        potential s.context.frames.toList) ∧
    (c.run limits).steps ≤ root.gas.remaining + 1 ∧
    (root.gas.remaining + 1 ≤ limits.maxExecutionSteps →
      ((c.run limits).stopped = none ∧
        ∃ root', (c.run limits).context.frames.toList = [root'] ∧ root'.running = false) ∨
      (c.run limits).stopped = some .overflow ∧ ¬c.Sized) := by
  refine ⟨fun s t _ hmove => hmove.moved.frames.potential_le, ?_⟩
  have hstart : potential c.frames.toList ≤ root.gas.remaining + 1 := by
    rw [hroot, potential_cons, potential_nil]
    have := Bool.toNat_le root.running
    omega
  have hends : Ends limits limits.maxExecutionSteps 0 ⟨c, none⟩ (c.run limits) :=
    run_for_ends limits limits.maxExecutionSteps 0 c
  generalize c.run limits = report at hends
  cases hends with
  | @halted states c' root' n htrail hframes hhalted hsteps =>
      have hpaid : potential c'.frames.toList + instructions states ≤ potential c.frames.toList :=
        htrail.potential_le
      refine ⟨?_, fun _ => .inl ⟨rfl, root', hframes, hhalted⟩⟩
      show n ≤ root.gas.remaining + 1
      omega
  | @exhausted states c' n htrail hrunning hcount hsteps =>
      have hpaid : potential c'.frames.toList + instructions states ≤ potential c.frames.toList :=
        htrail.potential_le
      have hcounts : 1 ≤ potential c'.frames.toList := by
        have hle := RunState.executes_le ⟨c', none⟩
        rwa [show RunState.executes ⟨c', none⟩ = true by simp [RunState.executes, hrunning]] at hle
      refine ⟨?_, fun hbudget => ?_⟩
      · show n ≤ root.gas.remaining + 1
        omega
      · -- The frame that is still running would have to count, too.
        omega
  | @blocked states t e c' n htrail hblocked hsteps =>
      obtain ⟨rfl, hover⟩ := blocked_overflows hroot htrail.reaches hblocked
      have hpaid : potential t.context.frames.toList + instructions states ≤
          potential c.frames.toList := htrail.potential_le
      have hcounts := RunState.executes_le t
      refine ⟨?_, fun _ => .inr ⟨rfl, fun hsized => ?_⟩⟩
      · show n ≤ root.gas.remaining + 1
        omega
      · exact (htrail.reaches.sized hsized).not_overflows hover

/-- A frame that jumps back to its start for ever. -/
def loopingStart : Context :=
  launch {} ∅ ⟨#[0x5B, 0x60, 0, 0x56]⟩ 100 (.transaction 1 2 0 ByteArray.empty) { txn := ⟨1, 0⟩ }

/-- It is ended by its gas. -/
theorem looping_start_ends : ∃ root root', loopingStart.frames.toList = [root] ∧
    root.gas.remaining = 100 ∧ loopingStart.Sized ∧
    (loopingStart.run {}).steps ≤ 101 ∧ (loopingStart.run {}).stopped = none ∧
    (loopingStart.run {}).context.frames.toList = [root'] ∧ root'.running = false := by
  have hbase : Sized { txn := ⟨1, 0⟩ } := by
    refine ⟨by decide, ?_, ?_, ?_⟩
    · intro a code hcode
      simp [World.code?] at hcode
    · intro cell w hw
      simp [Pool.get?] at hw
    · intro f hf
      cases hf
  have hsized : loopingStart.Sized := by
    obtain ⟨hroot, hc⟩ := hbase.new_frame {} (.ofSlots ∅) ⟨#[0x5B, 0x60, 0, 0x56]⟩ 100
      (.transaction 1 2 0 ByteArray.empty) (by decide) (by decide)
    exact ⟨hc.limit, hc.codes, hc.pool, List.forall_mem_singleton.2 hroot⟩
  obtain ⟨root, hroot, hgas⟩ : ∃ root, loopingStart.frames.toList = [root] ∧
      root.gas.remaining = 100 := ⟨_, rfl, rfl⟩
  obtain ⟨_, hsteps, hends⟩ := run_ends_by_gas {} hroot
  rw [hgas] at hsteps hends
  rcases hends (by decide) with ⟨hstopped, root', hframes, hhalted⟩ | ⟨_, hlarge⟩
  · exact ⟨root, root', hroot, hgas, hsized, hsteps, hstopped, hframes, hhalted⟩
  · exact absurd hsized hlarge

/-- A frame that reads the last word below `2 ^ 64` that still ends at an amount. -/
def probingStart : Context :=
  launch { maxMemorySize := maxAmount } ∅
    ⟨#[0x67, 0xFF, 0xFF, 0xFF, 0xFF, 0xFF, 0xFF, 0xFF, 0xDF, 0x51]⟩ 100
    (.transaction 1 2 0 ByteArray.empty)
    { txn := ⟨1, 0⟩, limits := { maxMemorySize := maxAmount } }

/-- The region ends within the limit, but rounded up to whole words it does not end at an amount. The
run is stopped by that, although its budget exceeds the gas of its only frame and that frame has not
halted. -/
theorem probing_start_overflows :
    probingStart.frames.toList.map (fun f => (f.running, f.gas.remaining)) = [(true, 100)] ∧
      (probingStart.run { maxMemorySize := maxAmount }).stopped = some .overflow ∧
      (probingStart.run { maxMemorySize := maxAmount }).context.isRunning = true := by
  decide +kernel

end Context
end CallTree
