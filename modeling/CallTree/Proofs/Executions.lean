import CallTree.Proofs.Arithmetic
import CallTree.Proofs.Commit
import CallTree.Proofs.RootRuns

/-!
# Transactions without overflow

Executing a root frame takes a context within the bounds through a few stages: the call stack is cleared,
the slots of the root are seeded, it is pushed, run, taken off and concluded. Each of them keeps the context
within the bounds, so that an execution always has an outcome, leaves a context in which the next one
can begin, and carries out no calculation that is not exact (`Context.execute_exact`).
-/

namespace CallTree

open CallTree.Action (Triple)

namespace Context.Sound

variable {c c' : Context} {root f : Frame}

/-- Frames that are taken from the call stack do not matter to the rest. -/
theorem of_frames (h : c.Sound) {frames : Pile Frame}
    (hframes : ∀ f ∈ frames.toList, f ∈ c.frames.toList) : Sound { c with frames := frames } where
  sized := ⟨h.sized.limit, h.sized.codes, h.sized.pool, fun f hf => h.sized.frames f (hframes f hf)⟩
  memories := h.memories
  inputs f hf := h.inputs f (hframes f hf)

/-- Other workspaces that are within the bounds may take the place of those in the pool. -/
theorem of_pool (h : c.Sound) {pool : Pool Workspace} (hsized : pool.All Workspace.Sized)
    (hmemories : pool.All fun w => w.memory.Bounded) : Sound { c with pool := pool } where
  sized := ⟨h.sized.limit, h.sized.codes, hsized, h.sized.frames⟩
  memories := hmemories
  inputs := h.inputs

theorem release (h : c.Sound) (f : Frame) : (c.release f).Sound :=
  h.of_pool (h.sized.pool.release f.home) (h.memories.release f.home)

theorem foldl_release (h : c.Sound) (frames : List Frame) :
    (frames.foldl (fun c f => c.release f) c).Sound :=
  List.foldlRecOn frames _ (motive := Sound) h fun _ hd f _ => hd.release f

theorem clear (h : c.Sound) : c.clear.Sound :=
  foldl_release (h.of_frames fun _ hf => absurd hf List.not_mem_nil) _

/-- A frame that fails keeps its results and its input. -/
theorem fail_top (h : c.Sound) (cause : Fault) : (c.updateTop (Frame.fail cause)).Sound := by
  have hsized := h.sized.fail_top cause
  obtain ⟨⟨frames, size, hsize⟩, pool, txn, world, own⟩ := c
  cases frames with
  | nil => exact h
  | cons f below =>
      obtain ⟨hf, hbelow⟩ := List.forall_mem_cons.1 h.inputs
      have hcall := congrArg Site.call (Frame.site_fail cause f)
      exact ⟨hsized, h.memories, List.forall_mem_cons.2 ⟨hf.same hcall, hbelow⟩⟩

theorem abandon (h : c.Sound) (cause : Fault) : (c.abandon cause).Sound := by
  refine fail_top (foldl_release (h.of_frames fun f hf => ?_) _) cause
  exact Pile.mem_of_keep hf

theorem pop_frame (h : c.Sound) : c.popFrame.2.Sound := by
  unfold popFrame
  split
  · exact h
  · exact h.of_frames fun f hf => List.mem_of_mem_drop hf

/-- Seeding the slots of a root changes no memory. -/
theorem seeded (h : c.Sound) (root : Frame) : (c.seeded root).Sound := by
  unfold Context.seeded
  split
  · split
    · rename_i w hget
      have hw := h.clear.sized.pool _ w hget
      exact h.clear.of_pool (h.clear.sized.pool.set _ ⟨hw.memory, hw.pending⟩)
        (h.clear.memories.set _ (h.clear.memories _ w hget))
    · exact h.clear
  · exact h.clear

/-- A new frame and its workspace are within the bounds. -/
theorem new_frame (h : c.Sound) {limits : Limits} (storage : Storage) {code : Bytes} (gas : Nat)
    {call : CallData} (hmemory : limits.maxMemorySize ≤ largestMemory)
    (hcode : code.size ≤ largestCode) (hinput : call.input.size ≤ largestCode) :
    (c.newFrame limits storage code gas call).1.Sized ∧
      (c.newFrame limits storage code gas call).1.Briefed ∧
      (c.newFrame limits storage code gas call).2.Sound := by
  obtain ⟨hframe, hcontext⟩ := h.sized.new_frame limits storage code gas call hmemory hcode
  exact ⟨hframe, hinput, hcontext, h.memories.alloc ⟨_, hmemory, .with_limit _⟩, h.inputs⟩

/-- A frame is put on the call stack, or goes away if it would be too deep. -/
theorem push_frame (hsized : root.Sized) (hinput : root.Briefed) :
    Triple Sound (pushFrame root) (fun _ => Sound) (Refused Sound) := by
  intro c hc
  have hend := push_frame_sized hsized c hc.sized
  have hholds := (Memory.bounded_stable hc.sized.limit).push_frame root c ⟨rfl, hc.memories⟩
  cases hpush : pushFrame root c with
  | ok r c' =>
      rw [hpush] at hend hholds
      have hframes : c'.frames = c.frames.push root := by
        unfold pushFrame at hpush
        split at hpush
        · split at hpush <;> cases hpush
        · cases hpush
          rfl
      refine ⟨hend, hholds.pool, ?_⟩
      rw [hframes]
      exact List.forall_mem_cons.2 ⟨hinput, hc.inputs⟩
  | error e c' =>
      rw [hpush] at hend hholds
      refine ⟨hend.1, hend.2, hholds.pool, ?_⟩
      rw [push_frame_error hpush]
      exact hc.inputs

/-- A root frame is run to its end, and taken off. -/
theorem run_root (h : c.Sound) (hroot : c.frames.toList = [root]) :
    ∃ f c', runRoot c = some (some f, c') ∧ f.Sized ∧ c'.Sound := by
  -- Whatever is alone on the call stack is what is taken off.
  have htaken : ∀ {d : Context} {f : Frame}, d.Sound → d.frames.toList = [f] →
      ∃ c', d.popFrame = (some f, c') ∧ f.Sized ∧ c'.Sound := by
    intro d f hd hframes
    refine ⟨d.popFrame.2, ?_, hd.sized.frames f (by simp [hframes]), hd.pop_frame⟩
    simp only [popFrame, hframes]
  have hends : Ends c.limits c.limits.maxExecutionSteps 0 ⟨c, none⟩ (c.run c.limits) :=
    run_for_ends c.limits c.limits.maxExecutionSteps 0 c
  unfold runRoot
  generalize c.run c.limits = report at hends
  cases hends with
  | @halted states c₁ f n htrail hframes hhalted hsteps =>
      obtain ⟨c', hpop, hf, hc'⟩ := htaken (htrail.reaches.sound h) hframes
      exact ⟨f, c', congrArg some hpop, hf, hc'⟩
  | @exhausted states c₁ n htrail hrunning hcount hsteps =>
      have hne : c₁.frames.toList ≠ [] := by
        intro hnil
        simp [isRunning, hnil] at hrunning
      have hsound : c₁.Sound := htrail.reaches.sound h
      have hlast := List.getLast?_eq_some_getLast hne
      obtain ⟨c', hpop, hf, hc'⟩ := htaken (hsound.abandon _) (abandon_last _ hlast)
      exact ⟨_, c', congrArg some hpop, hf, hc'⟩
  | @blocked states t e c' n htrail hblocked hsteps =>
      obtain ⟨_, hover⟩ := blocked_overflows hroot htrail.reaches hblocked
      exact absurd hover (htrail.reaches.sound h).sized.not_overflows

/-- A commit takes over code that is pending or an output. -/
theorem commit_root (hf : f.Sized) :
    Triple Sound (commitRoot f) (fun _ => Sound) (Refused Sound) := by
  intro c hc
  cases hget : c.pool.get? f.home.cell with
  | none =>
      simp only [commitRoot, onPool, Pool.modify, hget]
      exact ⟨by simp, hc⟩
  | some w =>
      have hw := hc.sized.pool _ w hget
      have hmodify := Pool.modify_of_get .storage f.home (fun w : Workspace =>
        ((w.storage.slots, w.pending.accounts), { w with pending := {} })) hget
      have hempty : Pending.Sized {} := by
        refine ⟨fun a code hcode => ?_, fun copy hcopy => ?_⟩
        · simp at hcode
        · simp [Pile.empty] at hcopy
      let cleared : Workspace := { w with pending := {} }
      have hcleared : cleared.Sized := ⟨hw.memory, hempty⟩
      have hmemory : cleared.memory.Bounded := hc.memories _ w hget
      have hpool := hc.of_pool (hc.sized.pool.set f.home.cell hcleared)
        (hc.memories.set f.home.cell hmemory)
      simp only [commitRoot, onPool, hmodify]
      refine ⟨⟨hpool.sized.limit, fun a code hcode => ?_, hpool.sized.pool, hpool.sized.frames⟩,
        hpool.memories, hpool.inputs⟩
      rw [World.code_commit] at hcode
      split at hcode
      · cases hcode
        exact Nat.le_trans hf.output (by decide)
      · cases hpending : w.pending.accounts.code[a]? with
        | some found =>
            rw [hpending] at hcode
            cases hcode
            exact hw.pending.accounts a _ hpending
        | none =>
            rw [hpending] at hcode
            exact hc.sized.codes a code hcode

/-- A root frame that has ended has an outcome: no more is refunded than was used. -/
theorem conclude (h : c.Sound) (hf : f.Sized) :
    ∃ outcome c', Context.conclude f c = some (outcome, c') ∧ c'.Sound := by
  unfold Context.conclude
  by_cases hsuccess : f.isSuccess = true
  · have hend := commit_root hf c h
    simp only [hsuccess, Bool.not_true, Bool.false_eq_true, if_false]
    cases hcommit : commitRoot f c with
    | error e c' =>
        rw [hcommit] at hend
        cases e with
        | overflow => exact absurd rfl hend.1
        | fault e => exact ⟨_, c', rfl, hend.2⟩
    | ok r c' =>
        rw [hcommit] at hend
        have hrefund : Gas.refundPaid f.gas.used f.gas.refunds c'.limits.maxRefundQuotient ≤
            f.gas.used := Nat.le_trans (Nat.min_le_right _ _) (Nat.div_le_self _ _)
        simp only [sub?, if_pos hrefund]
        exact ⟨_, c', rfl, hend⟩
  · simp only [hsuccess]
    exact ⟨_, c, rfl, h⟩

/-- Executing a root frame within the bounds has an outcome and keeps the context within them. -/
theorem execute (h : c.Sound) (hsized : root.Sized) (hinput : root.Briefed) :
    ∃ outcome c', c.execute root = some (outcome, c') ∧ c'.Sound := by
  rw [execute_eq]
  split
  · exact ⟨_, _, rfl, h.clear.release root⟩
  have hend := push_frame hsized hinput (c.seeded root) (h.seeded root)
  cases hpush : pushFrame root (c.seeded root) with
  | error e c' =>
      rw [hpush] at hend
      cases e with
      | overflow => exact absurd rfl hend.1
      | fault e => exact ⟨_, c', rfl, hend.2⟩
  | ok r c₀ =>
      rw [hpush] at hend
      obtain ⟨f, c₁, hrun, hf, hc₁⟩ := hend.run_root (push_seeded_frames hpush).1
      obtain ⟨outcome, c₂, hconclude, hc₂⟩ := hc₁.clear.conclude hf
      refine ⟨outcome, c₂.release f, ?_, hc₂.release f⟩
      simp only [hrun, hconclude, Option.map_some]

end Context.Sound

namespace Context

/-- A context with no frames and no workspaces is within the bounds if its codes and its limit on memories
are. -/
theorem sound_new (txn : Txn) {world : World} {limits : Limits}
    (hlimit : limits.maxMemorySize ≤ largestMemory)
    (hcodes : ∀ a code, world.code? a = some code → code.size ≤ largestCode) :
    Sound { txn := txn, world := world, limits := limits } where
  sized := by
    refine ⟨hlimit, hcodes, fun cell w hw => ?_, fun f hf => ?_⟩
    · simp [Pool.get?] at hw
    · simp [Pile.empty] at hf
  memories cell w hw := by simp [Pool.get?] at hw
  inputs f hf := by simp [Pile.empty] at hf

/-- No arithmetic overflows in an execution. A root frame with any gas and any code is executed to an
outcome, and the context that is left is within the bounds again. In every state of its run, each number
that is tested is an amount, and each calculation that is not tested is exact. Beyond the bounds the same
definitions do overflow: on a memory of one word more than the largest, on a log or a code whose size is the
largest amount, on a program counter that is, and on a memory with that limit. The bounds on the code
and the input are those of any bytes in a machine; the number of instructions and the nonces are taken to be
below the largest amount. -/
theorem execute_exact {base c : Context} {frameLimits : Limits} {storage : Storage} {code : Bytes}
    {gas : Nat} {call : CallData} {root : Frame} (hbase : base.Sound)
    (hmemory : frameLimits.maxMemorySize ≤ largestMemory) (hcode : code.size ≤ largestCode)
    (hinput : call.input.size ≤ largestCode) (hgas : gas ≤ maxAmount)
    (hroot : base.newFrame frameLimits storage code gas call = (root, c)) :
    (∃ outcome c', c.execute root = some (outcome, c') ∧ c'.Sound) ∧
      (∀ c₀ t, Starts root c c₀ → Reaches c.limits ⟨c₀, none⟩ t →
        ¬t.Overflows c.limits ∧
          ∀ calculation, t.context.Calculates calculation → calculation.Exact) ∧
      Gas.memory? (wordsFor largestMemory + 1) = none ∧ Gas.logData? maxAmount 0 = none ∧
      Gas.codeDeposit? maxAmount = none ∧
      (∃ f : Frame, f.pc ≤ maxAmount ∧ f.immediate? 32 = none) ∧
      ∃ m : Memory, Memory.expand 0 maxAmount m = .error .overflow m := by
  have hnew := hbase.new_frame storage gas hmemory hcode hinput
  have hremaining : root.gas.remaining = gas := congrArg (·.1.gas.remaining) hroot.symm
  rw [hroot] at hnew
  obtain ⟨hsized, hbriefed, hsound⟩ := hnew
  refine ⟨hsound.execute hsized hbriefed, fun c₀ t hstarts hreach => ?_, by decide, by decide,
    by decide, ⟨{ root with pc := maxAmount }, Nat.le_refl _, rfl⟩, .withLimit maxAmount, rfl⟩
  have hpushed := Sound.push_frame hsized hbriefed _ (hsound.seeded root)
  rw [hstarts.2] at hpushed
  exact hreach.exact hpushed (push_seeded_frames hstarts.2).1 (hremaining ▸ hgas)

/-- A contract that loads a word from the second byte of its input on. -/
def passingBase : Context :=
  { txn := ⟨1, 0⟩, world := World.setCode 3 ⟨#[0x60, 1, 0x35]⟩ {} }

/-- A root frame with as much gas as there can be, which passes four bytes on to that contract. -/
def passingRoot : Frame × Context :=
  passingBase.newFrame {} {}
    ⟨#[0x60, 0, 0x60, 0, 0x60, 4, 0x60, 0, 0x60, 0, 0x60, 3, 0x61, 0x80, 0, 0xF1]⟩ maxAmount
    (.transaction 1 2 0 ByteArray.empty)

/-- The call stack on which it runs. -/
def passingStart : Context :=
  { passingRoot.2.seeded passingRoot.1 with frames := .ofList [passingRoot.1] }

/-- All that is calculated is exact while the contract runs. -/
theorem passing_root_exact : ∃ outcome c' t,
    passingRoot.2.execute passingRoot.1 = some (outcome, c') ∧ c'.Sound ∧
      Reaches passingRoot.2.limits ⟨passingStart, none⟩ t ∧
      t.context.frames.toList.map (·.call.input.size) = [4, 0] ∧
      ∀ calculation, t.context.Calculates calculation → calculation.Exact := by
  have hcodes : ∀ (a : Address) (code : Bytes), passingBase.world.code? a = some code →
      code.size ≤ largestCode := by
    intro a code hcode
    rw [passingBase, World.code_set_code] at hcode
    split at hcode
    · cases hcode
      decide
    · simp [World.code?] at hcode
  have hbase : passingBase.Sound := sound_new ⟨1, 0⟩ (by decide) hcodes
  obtain ⟨⟨outcome, c', hexecute, hsound⟩, hruns, _⟩ :=
    execute_exact hbase (by decide) (by decide) (by decide) (Nat.le_refl maxAmount)
      (rfl : passingBase.newFrame {} {} _ _ _ = passingRoot)
  have hstarts : Starts passingRoot.1 passingRoot.2 passingStart :=
    ⟨by decide +kernel, push_frame_ok (by decide +kernel)⟩
  have hopened : (RunState.advance? passingRoot.2.limits 0 8 ⟨passingStart, none⟩).any (fun t =>
      t.context.frames.toList.map (·.call.input.size) == [4, 0]) = true := by
    decide +kernel
  obtain ⟨t, hadvance, hinputs⟩ := (Option.any_eq_true _ _).1 hopened
  have hreach := (reaches_above_of_advance hadvance).reaches
  exact ⟨outcome, c', t, hexecute, hsound, hreach, beq_iff_eq.1 hinputs,
    (hruns passingStart t hstarts hreach).2⟩

end Context
end CallTree
