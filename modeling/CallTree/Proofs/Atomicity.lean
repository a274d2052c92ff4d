import CallTree.Proofs.Effects
import CallTree.Proofs.Moves
import CallTree.Transaction

/-!
# Failed transactions

A run works on frames, workspaces and the numbers of contracts that accounts have created. The
committed slots and codes are out of its reach: every action of the interpreter keeps them
(`Context.Keeps.step`, `Context.same_committed_run_for`), and only the commit of a successful root
writes to them. A transaction that fails therefore leaves them as they were, whatever it did before
(`Context.execute_failed`).
-/

namespace CallTree

/-- A frame that has failed does not run. -/
theorem Frame.running_fail (cause : Fault) (f : Frame) : (f.fail cause).running = false := by
  unfold Frame.fail
  split
  · rfl
  · simpa using ‹¬f.running = true›

/-- A frame that has halted without success has a reason. -/
theorem Frame.reason_of_halted {f : Frame} (hhalted : f.running = false)
    (hfail : f.isSuccess = false) : f.revertReason?.isSome = true := by
  cases hverdict : f.verdict with
  | undecided => simp [Frame.isSuccess, hverdict, hhalted] at hfail
  | succeeded => simp [Frame.isSuccess, hverdict] at hfail
  | reverted reason outOfGas => simp [Frame.revertReason?, hverdict, Verdict.reason?]

namespace Context

/-- The committed slots and codes are the same. -/
def SameCommitted (c c' : Context) : Prop :=
  c'.world.storage = c.world.storage ∧ c'.world.code = c.world.code

theorem SameCommitted.refl (c : Context) : SameCommitted c c :=
  ⟨rfl, rfl⟩

theorem SameCommitted.trans {c c' c'' : Context} (h : SameCommitted c c')
    (h' : SameCommitted c' c'') : SameCommitted c c'' :=
  ⟨h'.1.trans h.1, h'.2.trans h.2⟩

/-- The action keeps the committed slots and codes, whether it succeeds or not. -/
def Keeps {α : Type} (act : Action Context α) : Prop :=
  ∀ c, SameCommitted c (Action.after act c)

namespace Keeps

variable {α β : Type}

theorem bind {act : Action Context α} {next : α → Action Context β} (h : Keeps act)
    (hnext : ∀ r, Keeps (next r)) : Keeps (act >>= next) := by
  intro c
  have hfirst := h c
  cases hact : act c with
  | error e c' =>
      rw [Action.after_error hact] at hfirst
      rw [Action.after_error (Action.bind_error hact)]
      exact hfirst
  | ok r c' =>
      rw [Action.after_ok hact] at hfirst
      have hafter : Action.after (act >>= next) c = Action.after (next r) c' := by
        rw [Action.after, Action.after, Action.bind_ok hact]
      rw [hafter]
      exact hfirst.trans (hnext r c')

theorem of_except (result : Except Fault α) :
    Keeps (Action.ofExcept result : Action Context α) := by
  intro c
  cases result <;> exact .refl c

/-- Looking at the context changes nothing. -/
theorem get : Keeps (MonadState.get : Action Context Context) :=
  fun c => .refl c

/-- What is done in the topmost frame. -/
theorem on_top (act : Exec α) : Keeps (onTop act) := by
  intro c
  obtain ⟨⟨frames, size, hsize⟩, pool, txn, world, own⟩ := c
  cases frames with
  | nil => exact .refl _
  | cons f below =>
      cases hact : act.inPool (f, pool) with
      | ok r s => simp [Action.after, onTop, hact, SameCommitted]
      | error e s => simp [Action.after, onTop, hact, SameCommitted]

/-- What is done to the workspaces. -/
theorem on_pool (act : Action (Pool Workspace) α) : Keeps (onPool act) := by
  intro c
  cases hact : act c.pool with
  | ok r pool => simp [Action.after, onPool, hact, SameCommitted]
  | error e pool => simp [Action.after, onPool, hact, SameCommitted]

theorem push_frame (f : Frame) : Keeps (pushFrame f) := by
  intro c
  by_cases hdeep : c.limits.maxCallDepth < c.depth + 1
  · have hpool := on_pool (f.settleShared false) c
    cases hsettle : onPool (f.settleShared false) c with
    | ok r c' =>
        rw [Action.after_ok hsettle] at hpool
        simpa [Action.after, pushFrame, hdeep, hsettle, release, SameCommitted] using hpool
    | error e c' =>
        rw [Action.after_error hsettle] at hpool
        simpa [Action.after, pushFrame, hdeep, hsettle, release, SameCommitted] using hpool
  · simp [Action.after, pushFrame, hdeep, SameCommitted]

theorem prepare_internal (target gas : Nat) : Keeps (prepareInternal target gas) := by
  intro c
  cases htop : c.top with
  | error e => simp [Action.after, prepareInternal, htop, SameCommitted]
  | ok parent =>
      have hpool := on_pool
        (Pool.modify .stack parent.home (Action.ofTotal Workspace.checkpoint)) c
      cases hmodify : onPool (Pool.modify .stack parent.home
          (Action.ofTotal Workspace.checkpoint)) c with
      | ok marks c' =>
          rw [Action.after_ok hmodify] at hpool
          simpa [Action.after, prepareInternal, htop, hmodify] using hpool
      | error e c' =>
          rw [Action.after_error hmodify] at hpool
          simpa [Action.after, prepareInternal, htop, hmodify] using hpool

theorem prepare_external (code : Bytes) (gas : Nat) (call : CallData) :
    Keeps (prepareExternal code gas call) := by
  intro c
  cases hview : c.storageView call.contract with
  | error e => simp [Action.after, prepareExternal, hview, SameCommitted]
  | ok slots => simp [Action.after, prepareExternal, hview, SameCommitted, newFrame]

/-- Opening frames. A creation uses up a number, but changes neither slots nor codes. -/
theorem serve (request : Request) : Keeps (Context.serve request) := by
  cases request with
  | proceed => exact fun c => .refl c
  | internal target gas =>
      exact (prepare_internal target gas).bind fun child => push_frame child
  | message call gas region =>
      refine get.bind fun c => (of_except _).bind fun code => ?_
      exact (prepare_external code gas call).bind fun child => push_frame _
  | create value initCode gas =>
      refine get.bind fun c => (of_except _).bind fun f => ?_
      refine Keeps.bind (fun c => ⟨rfl, rfl⟩) fun address => ?_
      refine get.bind fun c => (of_except _).bind fun existing => (on_top _).bind fun _ => ?_
      split
      · exact on_top _
      · exact get.bind fun c => (prepare_external _ _ _).bind fun child => push_frame child

/-- An instruction. -/
theorem step (limits : Limits) : Keeps (Context.step limits) := by
  intro c
  have htop := on_top (Instruction.fetchAndDispatch ⟨limits, c.depth, c.txn.origin⟩) c
  cases hfetch : onTop (Instruction.fetchAndDispatch ⟨limits, c.depth, c.txn.origin⟩) c with
  | error e c' =>
      rw [Action.after_error hfetch] at htop
      simpa [Action.after, Context.step, hfetch] using htop
  | ok request c' =>
      rw [Action.after_ok hfetch] at htop
      have hserve := serve request c'
      have hafter : Action.after (Context.step limits) c =
          Action.after (Context.serve request) c' := by
        simp [Action.after, Context.step, hfetch]
      rw [hafter]
      exact htop.trans hserve

end Keeps

/-- Finishing frames does not reach the committed accounts. -/
theorem same_committed_unwind (limits : Limits) (c : Context) :
    SameCommitted c (Action.after (unwind limits) c) := by
  obtain ⟨⟨frames, size, hsize⟩, pool, txn, world, own⟩ := c
  cases frames with
  | nil => exact .refl _
  | cons top below =>
      cases hunwind : unwindFrames limits top below size hsize pool with
      | ok r s => simp [Action.after, unwind, hunwind, SameCommitted]
      | error e s => simp [Action.after, unwind, hunwind, SameCommitted]

/-- The context that a run goes on or ends with. -/
def Turn.context : Turn → Context
  | .ready c | .done c | .stopped _ c => c

theorem same_committed_turn (limits : Limits) (c : Context) :
    SameCommitted c (c.turn limits).context := by
  by_cases hready : c.isRunning = true
  · simp only [turn, hready, if_true]
    exact .refl c
  · have hunwind := same_committed_unwind limits c
    cases hresult : unwind limits c with
    | error e c' =>
        rw [Action.after_error hresult] at hunwind
        simpa [turn, hready, hresult, Turn.context] using hunwind
    | ok r c' =>
        rw [Action.after_ok hresult] at hunwind
        by_cases hrunning : c'.isRunning = true
        · simpa [turn, hready, hresult, hrunning, Turn.context] using hunwind
        · simpa [turn, hready, hresult, hrunning, Turn.context] using hunwind

theorem same_committed_step_or_fail (limits : Limits) (c : Context) :
    SameCommitted c (Action.after (stepOrFail limits) c) := by
  have hstep := Keeps.step limits c
  cases hresult : step limits c with
  | ok r c' =>
      rw [Action.after_ok hresult] at hstep
      simpa [Action.after, stepOrFail, hresult] using hstep
  | error e c' =>
      rw [Action.after_error hresult] at hstep
      cases e with
      | overflow => simpa [Action.after, stepOrFail, hresult] using hstep
      | fault e =>
          have hupdate : SameCommitted c' (c'.updateTop (Frame.fail e)) := by
            unfold updateTop
            split <;> exact ⟨rfl, rfl⟩
          simpa [Action.after, stepOrFail, hresult] using hstep.trans hupdate

/-- A run does not reach the committed accounts, however it ends. -/
theorem same_committed_run_for (limits : Limits) (budget steps : Nat) (c : Context) :
    SameCommitted c (runFor limits budget steps c).context := by
  induction budget generalizing steps c with
  | zero =>
      have hturn := same_committed_turn limits c
      unfold runFor
      cases hc : c.turn limits <;>
      · rw [hc] at hturn
        exact hturn
  | succ budget ih =>
      have hturn := same_committed_turn limits c
      unfold runFor
      cases hc : c.turn limits with
      | done c' =>
          rw [hc] at hturn
          exact hturn
      | stopped e c' =>
          rw [hc] at hturn
          exact hturn
      | ready c' =>
          rw [hc] at hturn
          have hstep := same_committed_step_or_fail limits c'
          cases hresult : c'.stepOrFail limits with
          | error e c'' =>
              rw [Action.after_error hresult] at hstep
              simpa only [hresult] using hturn.trans hstep
          | ok r c'' =>
              rw [Action.after_ok hresult] at hstep
              simpa only [hresult] using (hturn.trans hstep).trans (ih (steps + 1) c'')

/-- Frames that go away take only their workspaces with them. -/
theorem foldl_release (frames : List Frame) (c : Context) :
    frames.foldl (fun c f => c.release f) c =
      { c with pool := frames.foldl (fun pool f => pool.release f.home) c.pool } := by
  induction frames generalizing c with
  | nil => rfl
  | cons f frames ih => exact ih (c.release f)

/-- Clearing the call stack. -/
theorem clear_eq (c : Context) :
    c.clear.frames = .empty ∧ c.clear.world = c.world ∧ c.clear.limits = c.limits := by
  rw [clear, foldl_release]
  exact ⟨rfl, rfl, rfl⟩

/-- The topmost frame after a change to it. -/
theorem update_top_eq (g : Frame → Frame) (c : Context) :
    (c.updateTop g).frames.toList = c.frames.toList.modifyHead g ∧
      (c.updateTop g).world = c.world := by
  obtain ⟨⟨frames, size, hsize⟩, pool, txn, world, own⟩ := c
  cases frames <;> exact ⟨rfl, rfl⟩

/-- What is left of a call stack that was given up is one of its frames, and has failed. -/
theorem abandon_eq (cause : Fault) (c : Context) :
    (c.abandon cause).world = c.world ∧
      ∀ f rest, (c.abandon cause).frames.toList = f :: rest →
        ∃ g ∈ c.frames.toList, f = g.fail cause := by
  obtain ⟨htop, hworld⟩ := update_top_eq (Frame.fail cause)
    (c.frames.toList.dropLast.foldl (fun c f => c.release f) { c with frames := c.frames.keep 1 })
  rw [foldl_release] at htop hworld
  rw [abandon, foldl_release]
  refine ⟨hworld, fun f rest hleft => ?_⟩
  have hmodify := htop.symm.trans hleft
  have hkept : ∀ g ∈ (c.frames.keep 1).toList, g ∈ c.frames.toList := fun g =>
    List.mem_of_mem_drop
  cases hkeep : (c.frames.keep 1).toList with
  | nil =>
      rw [hkeep] at hmodify
      cases hmodify
  | cons g rest' =>
      rw [hkeep] at hmodify
      cases hmodify
      exact ⟨g, hkept g (by simp [hkeep]), rfl⟩

/-- When the root frame is taken off after a run it has halted, and nothing was committed. -/
theorem run_root_halted {c c' : Context} {root : Option Frame} (h : runRoot c = some (root, c')) :
    SameCommitted c c' ∧ ∀ f, root = some f → f.running = false := by
  have hrun : SameCommitted c (c.run c.limits).context :=
    same_committed_run_for c.limits c.limits.maxExecutionSteps 0 c
  unfold runRoot at h
  cases hstopped : (c.run c.limits).stopped with
  | none =>
      obtain ⟨_, f, hframes, hhalted⟩ := run_reaches c hstopped
      simp only [hstopped, popFrame, hframes] at h
      cases h
      refine ⟨hrun, fun g hg => ?_⟩
      cases hg
      exact hhalted
  | some e =>
      cases e with
      | overflow => simp [hstopped] at h
      | fault e =>
          obtain ⟨hworld, hfailed⟩ := abandon_eq e (c.run c.limits).context
          have hsame : SameCommitted c ((c.run c.limits).context.abandon e) := by
            rw [SameCommitted, hworld]
            exact hrun
          simp only [hstopped, popFrame] at h
          cases hframes : ((c.run c.limits).context.abandon e).frames.toList with
          | nil =>
              simp only [hframes] at h
              cases h
              exact ⟨hsame, by simp⟩
          | cons f rest =>
              simp only [hframes] at h
              cases h
              refine ⟨hsame, fun g hg => ?_⟩
              cases hg
              obtain ⟨last, _, rfl⟩ := hfailed f rest hframes
              exact Frame.running_fail e last

/-- A commit that is refused has not begun. -/
theorem commit_root_error {root : Frame} {c c' : Context} {e : Abort}
    (h : commitRoot root c = .error e c') : c'.world = c.world ∧ c'.frames = c.frames := by
  unfold commitRoot onPool at h
  split at h
  · rename_i hpool
    split at hpool
    · cases hpool
    · cases hpool
      cases h
      exact ⟨rfl, rfl⟩
  · cases h

/-- A root frame that is not committed leaves nothing but its reason. -/
theorem conclude_failed {root : Frame} {c c' : Context} {outcome : Outcome}
    (h : conclude root c = some (outcome, c')) (hhalted : root.running = false)
    (hfail : outcome.success = false) :
    SameCommitted c c' ∧ c'.frames = c.frames ∧ outcome.logs = #[] ∧ outcome.gasRefund = 0 ∧
      outcome.created = none ∧ outcome.reason.isSome = true := by
  unfold conclude at h
  by_cases hsuccess : root.isSuccess = true
  · simp only [hsuccess, Bool.not_true, Bool.false_eq_true, if_false] at h
    cases hcommit : commitRoot root c with
    | ok r c₁ =>
        -- A root that was committed has succeeded.
        simp only [hcommit] at h
        obtain ⟨used, _, h⟩ := Option.bind_eq_some_iff.1 h
        cases h
        cases hfail
    | error e c₁ =>
        cases e with
        | overflow => simp [hcommit] at h
        | fault e =>
            simp only [hcommit] at h
            cases h
            obtain ⟨hworld, hframes⟩ := commit_root_error hcommit
            exact ⟨⟨by rw [hworld], by rw [hworld]⟩, hframes, rfl, rfl, rfl, rfl⟩
  · have hreverted : root.isSuccess = false := by simpa using hsuccess
    simp only [hreverted, Bool.not_false, if_true, Option.some.injEq, Prod.mk.injEq] at h
    obtain ⟨rfl, rfl⟩ := h
    exact ⟨.refl c, rfl, rfl, rfl, rfl, Frame.reason_of_halted hhalted hreverted⟩

/-- The context in which `execute` runs a root frame: nothing else is on the call stack, and a root
with a storage of its own starts from the committed slots. -/
def seeded (root : Frame) (c : Context) : Context :=
  if root.home.isOwned then
    let storage := Storage.ofSlots (c.clear.world.storageOf root.call.contract)
    match c.clear.pool.get? root.home.cell with
    | some w =>
      { c.clear with pool := c.clear.pool.set root.home.cell { w with storage := storage } }
    | none => c.clear
  else
    c.clear

theorem seeded_eq (root : Frame) (c : Context) :
    (c.seeded root).frames = .empty ∧ (c.seeded root).world = c.world ∧
      (c.seeded root).limits = c.limits := by
  unfold seeded
  split
  · split
    · exact clear_eq c
    · exact clear_eq c
  · exact clear_eq c

/-- How `execute` goes on from there. -/
theorem execute_eq (root : Frame) (c : Context) :
    c.execute root =
      if root.creation && c.clear.world.hasCode root.call.contract then
        some (.failed (.contractAlreadyExists root.call.contract), c.clear.release root)
      else
        match pushFrame root (c.seeded root) with
        | .error (.fault e) c => some (.failed e, c)
        | .error .overflow _ => none
        | .ok () c =>
          match runRoot c with
          | none => none
          | some (none, c) => some (.failed .noActiveFrame, c.clear)
          | some (some root, c) =>
            (conclude root c.clear).map fun (outcome, c) => (outcome, c.release root) :=
  rfl

/-- A frame that is not put on the call stack leaves it as it was. -/
theorem push_frame_error {f : Frame} {c c' : Context} {e : Abort}
    (h : pushFrame f c = .error e c') : c'.frames = c.frames := by
  unfold pushFrame onPool at h
  split at h
  · cases hsettle : f.settleShared false c.pool with
    | ok r pool =>
        simp only [hsettle] at h
        cases h
        rfl
    | error e pool =>
        simp only [hsettle] at h
        cases h
        rfl
  · cases h

/-- A transaction that fails leaves all committed slots and codes as they were, emits nothing, pays
no refund, deploys nothing, gives its reason, and leaves the call stack empty. -/
theorem execute_failed {root : Frame} {c c' : Context} {outcome : Outcome}
    (h : c.execute root = some (outcome, c')) (hfail : outcome.success = false) :
    (∀ a, c'.world.storageOf a = c.world.storageOf a ∧ c'.world.code? a = c.world.code? a) ∧
      outcome.logs = #[] ∧ outcome.gasRefund = 0 ∧ outcome.created = none ∧
      outcome.reason.isSome = true ∧ c'.depth = 0 := by
  suffices hkept : SameCommitted c c' ∧ c'.frames = .empty ∧ outcome.logs = #[] ∧
      outcome.gasRefund = 0 ∧ outcome.created = none ∧ outcome.reason.isSome = true by
    obtain ⟨⟨hstorage, hcode⟩, hframes, hlogs, hrefund, hcreated, hreason⟩ := hkept
    refine ⟨fun a => ⟨?_, ?_⟩, hlogs, hrefund, hcreated, hreason, ?_⟩
    · simp [World.storageOf, hstorage]
    · simp [World.code?, hcode]
    · rw [depth, hframes]
      rfl
  obtain ⟨hframes₀, hworld₀, _⟩ := clear_eq c
  obtain ⟨hframes₁, hworld₁, _⟩ := seeded_eq root c
  rw [execute_eq] at h
  split at h
  · -- There is code already where the root was to deploy some.
    cases h
    exact ⟨⟨congrArg World.storage hworld₀, congrArg World.code hworld₀⟩, hframes₀, rfl, rfl, rfl,
      rfl⟩
  have hpush := Keeps.push_frame root (c.seeded root)
  have hseeded : SameCommitted c (c.seeded root) :=
    ⟨congrArg World.storage hworld₁, congrArg World.code hworld₁⟩
  cases hresult : pushFrame root (c.seeded root) with
  | error e c₂ =>
      rw [Action.after_error hresult] at hpush
      cases e with
      | overflow => simp [hresult] at h
      | fault e =>
          simp only [hresult] at h
          cases h
          have hframes := (push_frame_error hresult).trans hframes₁
          exact ⟨hseeded.trans hpush, hframes, rfl, rfl, rfl, rfl⟩
  | ok r c₂ =>
      rw [Action.after_ok hresult] at hpush
      simp only [hresult] at h
      cases hrun : runRoot c₂ with
      | none => simp [hrun] at h
      | some end₁ =>
          obtain ⟨taken, c₃⟩ := end₁
          obtain ⟨hkept, hhalted⟩ := run_root_halted hrun
          obtain ⟨hframes₃, hworld₃, _⟩ := clear_eq c₃
          have hcleared : SameCommitted c c₃.clear :=
            (hseeded.trans hpush).trans (hkept.trans
              ⟨congrArg World.storage hworld₃, congrArg World.code hworld₃⟩)
          cases taken with
          | none =>
              simp only [hrun] at h
              cases h
              exact ⟨hcleared, hframes₃, rfl, rfl, rfl, rfl⟩
          | some root' =>
              simp only [hrun] at h
              obtain ⟨⟨outcome', c₄⟩, hconclude, hend⟩ := Option.map_eq_some_iff.1 h
              cases hend
              obtain ⟨hsame, hframes, hrest⟩ := conclude_failed hconclude (hhalted root' rfl) hfail
              exact ⟨hcleared.trans hsame, hframes.trans hframes₃, hrest⟩

/-- A root frame that writes a slot of an account and then meets an invalid instruction. -/
def failingRoot : Frame × Context :=
  newFrame {} {} ⟨#[0x60, 1, 0x60, 2, 0x55, 0xFE]⟩ 100000 (.transaction 1 2 0 ByteArray.empty)
    { txn := ⟨1, 0⟩, world := World.store 2 2 7 {} }

/-- The slot keeps the value that was committed before. -/
theorem failing_root_failed : ∃ outcome c',
    failingRoot.2.execute failingRoot.1 = some (outcome, c') ∧ outcome.success = false ∧
      (∀ a, c'.world.storageOf a = failingRoot.2.world.storageOf a ∧
        c'.world.code? a = failingRoot.2.world.code? a) ∧
      outcome.logs = #[] ∧ outcome.gasRefund = 0 ∧ outcome.created = none ∧
      outcome.reason.isSome = true ∧ c'.depth = 0 := by
  have hrun : (failingRoot.2.execute failingRoot.1).map (·.1.success) = some false := by
    decide +kernel
  obtain ⟨⟨outcome, c'⟩, h, hfail⟩ := Option.map_eq_some_iff.1 hrun
  exact ⟨outcome, c', h, hfail, execute_failed h hfail⟩

end Context
end CallTree
