import CallTree.Proofs.Atomicity
import CallTree.Proofs.Ledger
import CallTree.Proofs.Waiting

/-!
# Transactions on one ledger

The call stack of a transaction keeps the accounts spread over private storages, pending changes,
shared workspaces and the world. `Context.execute_tracks_ledger` says that nothing of this can be
observed: at every point of a run the slots and the code that are seen of an account are those of a
single ledger on which the same events have happened, and in the end the ledger is what is
committed. This needs that the root frame is not on the call stack already, and that no zeros were
committed before, which no operation on the world does.
-/

namespace CallTree

/-- Moves, with what each of them means to the accounts. -/
inductive Steps (limits : Limits) : RunState → List Event → RunState → Prop
  | refl (s : RunState) : Steps limits s [] s
  | tail {s t u : RunState} {events : List Event} (h : Steps limits s events t)
      (hmove : Move limits t u) : Steps limits s (events ++ [t.event limits]) u

/-- What a run reaches, it reaches with some events. -/
theorem Reaches.steps {limits : Limits} {s t : RunState} (h : Reaches limits s t) :
    ∃ events, Steps limits s events t := by
  induction h with
  | refl => exact ⟨[], .refl s⟩
  | tail _ hmove ih =>
      obtain ⟨events, hsteps⟩ := ih
      exact ⟨_, hsteps.tail hmove⟩

/-- The accounts as they are seen from the top of the call stack are those of the ledger, and the
topmost frame has the slots of the account that it runs. -/
structure Ledger.Shown (m : Ledger) (c : Context) : Prop where
  storage : ∀ a, c.storageView a = .ok (m.storage a)
  code : ∀ a, c.codeAt a = .ok ((m.code a).getD ByteArray.empty)
  own : ∃ f w, c.top = .ok f ∧ c.pool.get? f.home.cell = some w ∧
    w.storage.slots = m.storage f.call.contract

/-- A change of the layers depends on the committed slots and codes only. -/
theorem Change.congr {world world' : World} {event : Event} {layers layers' : List Layer}
    (hstorage : world'.storage = world.storage) (hcode : world'.code = world.code)
    (h : Change world' event layers layers') :
    Change world event layers layers' := by
  cases h with
  | quiet hsame => exact .quiet hsame
  | load key hsame => exact .load key hsame
  | store key value hsite haccounts hslots => exact .store key value hsite haccounts hslots
  | enterInternal hcalls hkind hcontents => exact .enterInternal hcalls hkind hcontents
  | enterOwn hsame hkind hcontents hempty =>
      rw [slots_seen_congr hstorage] at hcontents
      rw [code_seen_congr hcode] at hempty
      exact .enterOwn hsame hkind hcontents hempty
  | leave hsuccess hhanded => exact .leave hsuccess hhanded
  | rollback hreverted => exact .rollback hreverted

/-- The frame at the bottom stays what it is. -/
theorem Change.bottom {world : World} {event : Event} {l l' : Layer} {below below' : List Layer}
    (h : Change world event (l :: below) (l' :: below')) :
    ((l' :: below').map (·.frame.site)).getLast? = ((l :: below).map (·.frame.site)).getLast? := by
  rcases h.shape with ⟨rfl, hsite⟩ | ⟨parent, rfl, hsite⟩ | ⟨parent, rfl, hsite⟩
  · simp [hsite]
  · simp [hsite]
  · simp [hsite]

/-- The call stack stands in layers that the ledger tracks, and nothing was committed since the
world was `world`. -/
structure Follows (world : World) (m : Ledger) (c : Context) (l : Layer) (below : List Layer) :
    Prop where
  stands : ∃ saved, Stands c l below saved
  tracks : Tracks world m (l :: below)
  storage : c.world.storage = world.storage
  code : c.world.code = world.code

namespace Follows

variable {world : World} {m : Ledger} {c : Context} {l : Layer} {below : List Layer}

/-- One move is one event of the ledger. -/
theorem move {limits : Limits} {s t : RunState} (hworld : world.NoZero)
    (h : Follows world m s.context l below) (hmove : Move limits s t) :
    ∃ m' l' below', m.next? (s.event limits) = some m' ∧ Follows world m' t.context l' below' ∧
      ((l' :: below').map (·.frame.site)).getLast? =
        ((l :: below).map (·.frame.site)).getLast? := by
  obtain ⟨saved, hstands⟩ := h.stands
  obtain ⟨l', below', saved', hstands', hchange, hconfined⟩ := hstands.move hmove
  have hchange := hchange.congr h.storage h.code
  obtain ⟨m', hnext, htracks⟩ := h.tracks.change hworld hstands.chain hstands'.chain hchange
  refine ⟨m', l', below', hnext, ⟨⟨saved', hstands'⟩, htracks, ?_, ?_⟩, hchange.bottom⟩
  · exact hconfined.storage.trans h.storage
  · exact hconfined.code.trans h.code

/-- A run is a run of the ledger. -/
theorem run {limits : Limits} {s t : RunState} {events : List Event} (hworld : world.NoZero)
    (h : Follows world m s.context l below) (hsteps : Steps limits s events t) :
    ∃ m' l' below', m.run? events = some m' ∧ Follows world m' t.context l' below' ∧
      ((l' :: below').map (·.frame.site)).getLast? =
        ((l :: below).map (·.frame.site)).getLast? := by
  induction hsteps with
  | refl => exact ⟨m, l, below, rfl, h, rfl⟩
  | tail _ hmove ih =>
      obtain ⟨m₁, l₁, below₁, hrun, hfollows, hbottom⟩ := ih
      obtain ⟨m', l', below', hnext, hfollows', hbottom'⟩ := hfollows.move hworld hmove
      exact ⟨m', l', below', Ledger.run_append_one hrun hnext, hfollows', hbottom'.trans hbottom⟩

/-- What is seen from the top is what the ledger says. -/
theorem shown (h : Follows world m c l below) : m.Shown c := by
  obtain ⟨saved, hstands⟩ := h.stands
  refine ⟨fun a => ?_, fun a => ?_, ?_⟩
  · rw [hstands.storage_view, slots_seen_congr h.storage, h.tracks.storage]
  · rw [hstands.code_at, h.tracks.code]
    simp only [codeSeen, World.code?, h.code]
  · obtain ⟨w, hget, hcontents, _⟩ := hstands.backed
    refine ⟨l.frame, w, hstands.top_eq, hget, ?_⟩
    rw [h.tracks.storage]
    have hslots : w.storage.slots = l.contents.slots := congrArg Contents.slots hcontents
    exact hslots.trans (slots_seen_self (h.tracks.sound l (by simp))).symm

/-- What is committed for a frame at the bottom is what the ledger says, with the code that it
deploys. -/
theorem commit (h : Follows world m c l []) {w : Workspace}
    (hget : c.pool.get? l.frame.home.cell = some w) (a : Address) :
    (c.world.commit l.frame w.storage.slots w.pending.accounts.storage.toList
        w.pending.accounts.code.toList).storageOf a = m.storage a ∧
      (c.world.commit l.frame w.storage.slots w.pending.accounts.storage.toList
        w.pending.accounts.code.toList).code? a =
          if l.frame.creation = true ∧ l.contract = a then some l.frame.output else m.code a := by
  obtain ⟨saved, hstands⟩ := h.stands
  have howned : l.frame.home.isOwned = true := by
    cases hstands.chain with
    | root howned => exact howned
  have hcontents : w.contents = l.contents := by
    obtain ⟨v, hv, hcontents, _⟩ := hstands.backed
    cases hv.symm.trans hget
    exact hcontents
  have hslots : w.storage.slots = l.contents.slots := congrArg Contents.slots hcontents
  have haccounts : w.pending.accounts = l.contents.accounts := congrArg Contents.accounts hcontents
  have hsound : l.Sound := h.tracks.sound l (by simp)
  refine ⟨?_, ?_⟩
  · rw [World.storage_of_commit, h.tracks.storage, slots_seen_own howned, hslots, haccounts,
      Layer.slotsAt?, Contents.slotsAt?]
    cases hpending : l.contents.accounts.storage[a]? with
    | some slots => simp [(hsound.pending a slots hpending).nonzero_eq]
    | none =>
        by_cases hown : l.contract = a
        · have hown' : l.frame.call.contract = a := hown
          simp [hown, hown', hsound.slots.nonzero_eq]
        · have hown' : l.frame.call.contract ≠ a := hown
          simp [hown, hown', slotsSeen, rooms, World.storageOf, h.storage]
  · rw [World.code_commit, h.tracks.code, code_seen_own howned, haccounts]
    simp only [codeSeen, rooms, World.code?, h.code, Layer.codeAt?, Layer.contract]
    rfl

end Follows

/-! ## The transaction around a run -/

/-- A frame that stands in layers can always be finished once it has halted. -/
theorem Stands.not_stuck {c : Context} {l : Layer} {below : List Layer} {saved : List Contents}
    (h : Stands c l below saved) : ¬c.Stuck := by
  rintro ⟨hhalted, hdepth, hfinish⟩
  cases below with
  | nil => exact hdepth h.depth_eq
  | cons parent below =>
      obtain ⟨c', x, saved', hok, _⟩ := h.finish (h.is_running.symm.trans hhalted)
      exact hfinish _ c' hok

namespace Context

variable {root : Frame} {base c c' c₀ : Context} {outcome : Outcome}

/-- Frames that go away leave a new cell alone that is none of theirs. -/
theorem release_frames_alloc (space : Workspace) {frames : List Frame} {pool : Pool Workspace}
    (h : ∀ f ∈ frames, f.home ≠ .owned pool.cells.size) :
    frames.foldl (fun pool f => pool.release f.home) (pool.alloc space).2 =
        ((frames.foldl (fun pool f => pool.release f.home) pool).alloc space).2 ∧
      (frames.foldl (fun pool f => pool.release f.home) pool).cells.size = pool.cells.size := by
  induction frames generalizing pool with
  | nil => exact ⟨rfl, rfl⟩
  | cons f frames ih =>
      obtain ⟨hf, hframes⟩ := List.forall_mem_cons.1 h
      have hother : ∀ g ∈ frames, g.home ≠ .owned (pool.release f.home).cells.size := by
        rw [Pool.size_release]
        exact hframes
      obtain ⟨hpool, hsize⟩ := ih hother
      refine ⟨?_, hsize.trans (Pool.size_release pool f.home)⟩
      rw [List.foldl_cons, Pool.release_alloc space hf]
      exact hpool

/-- A transaction launches its root frame on a call stack that was cleared. -/
theorem push_seeded {frameLimits : Limits} {code : Bytes} {gas : Nat} {call : CallData}
    (hroot : base.newFrame frameLimits {} code gas call = (root, c))
    (hnew : ∀ f ∈ base.frames.toList, f.home ≠ root.home)
    (hpush : pushFrame root (c.seeded root) = .ok () c₀) :
    c₀ = base.clear.launch frameLimits (base.world.storageOf call.contract) code gas call := by
  let space : Workspace :=
    { stack := .withLimit frameLimits.maxStackSize
      memory := .withLimit frameLimits.maxMemorySize }
  let pool : Pool Workspace :=
    base.frames.toList.foldl (fun pool f => pool.release f.home) base.pool
  cases hroot
  obtain ⟨hpool, hsize⟩ : _ ∧ pool.cells.size = base.pool.cells.size :=
    release_frames_alloc space hnew
  have hbase : base.clear = { base with frames := .empty, pool := pool } :=
    foldl_release base.frames.toList { base with frames := .empty }
  have hclear : clear { base with pool := (base.pool.alloc space).2 } =
      { base with frames := .empty, pool := (pool.alloc space).2 } := by
    rw [clear, foldl_release]
    simp only [hpool]
    rfl
  have hget : (pool.alloc space).2.get? base.pool.cells.size = some space := by
    rw [← hsize]
    exact Pool.get_alloc_same pool space
  have hseeded : seeded (.new code gas call (.owned base.pool.cells.size))
      { base with pool := (base.pool.alloc space).2 } =
        { base with
          frames := .empty
          pool := (pool.alloc
            { space with storage := .ofSlots (base.world.storageOf call.contract) }).2 } := by
    have hset := pool.set_alloc space
      { space with storage := .ofSlots (base.world.storageOf call.contract) }
    rw [hsize] at hset
    simp only [seeded, hclear, Frame.new, Handle.isOwned, Handle.cell, hget, if_true, hset]
  have hpush' : pushFrame (.new code gas call (.owned base.pool.cells.size))
      (seeded (.new code gas call (.owned base.pool.cells.size))
        { base with pool := (base.pool.alloc space).2 }) = .ok () c₀ := hpush
  rw [hseeded, pushFrame] at hpush'
  split at hpush'
  · split at hpush' <;> cases hpush'
  · cases hpush'
    rw [hbase, launch, newFrame]
    simp only [Pool.alloc, hsize]
    rfl

/-- A transaction starts on a ledger with the committed accounts. -/
theorem push_follows {frameLimits : Limits} {code : Bytes} {gas : Nat} {call : CallData}
    (hworld : base.world.NoZero) (hroot : base.newFrame frameLimits {} code gas call = (root, c))
    (hnew : ∀ f ∈ base.frames.toList, f.home ≠ root.home)
    (hpush : pushFrame root (c.seeded root) = .ok () c₀) :
    ∃ l, Follows base.world (.ofWorld base.world) c₀ l [] ∧ l.frame.call = call ∧
      l.frame.creation = root.creation := by
  have hlaunch := push_seeded hroot hnew hpush
  have hstands := launch_stands frameLimits (base.world.storageOf call.contract) code gas call
    base.clear
  rw [← hlaunch] at hstands
  have hworld₀ : c₀.world = base.world := by
    rw [hlaunch]
    exact (clear_eq base).2.1
  refine ⟨_, ⟨⟨_, hstands⟩, .start hworld rfl rfl, ?_, ?_⟩, rfl, ?_⟩
  · rw [hworld₀]
  · rw [hworld₀]
  · cases hroot
    rfl

/-- The root frame that is taken off after a run was alone on the call stack if it has succeeded. A
run that is given up leaves a root frame that has failed. -/
theorem run_root_success {l : Layer} {below : List Layer} {saved : List Contents}
    (hstands : Stands c l below saved) (h : runRoot c = some (some root, c'))
    (hsuccess : root.isSuccess = true) :
    ∃ c₁, Reaches c.limits ⟨c, none⟩ ⟨c₁, none⟩ ∧ c₁.frames.toList = [root] ∧
      root.running = false ∧ c' = c₁.popFrame.2 := by
  unfold runRoot at h
  cases hstopped : (c.run c.limits).stopped with
  | none =>
      obtain ⟨hreach, f, hframes, hhalted⟩ := run_reaches c hstopped
      simp only [hstopped, Option.some.injEq] at h
      have htaken : some f = some root := by
        simpa [popFrame, hframes] using congrArg Prod.fst h
      cases htaken
      exact ⟨_, hreach, hframes, hhalted, (congrArg Prod.snd h).symm⟩
  | some e =>
      cases e with
      | overflow => simp [hstopped] at h
      | fault e =>
          simp only [hstopped, Option.some.injEq] at h
          rcases run_stopped c hstopped with hstops | ⟨hreach, hrunning⟩
          · rcases hstops with hoverflow | ⟨c₁, hreach, hstuck⟩
            · cases hoverflow
            · obtain ⟨l₁, below₁, saved₁, hstands₁⟩ := hreach.stands hstands
              exact absurd hstuck hstands₁.not_stuck
          · -- All frames were running when the run was given up, so the one at the bottom fails.
            obtain ⟨l₁, below₁, saved₁, hstands₁⟩ := hreach.stands hstands
            have hall : ∀ g ∈ (c.run c.limits).context.frames.toList, g.running = true := by
              rw [hstands₁.frames, List.forall_mem_cons]
              refine ⟨hstands₁.is_running.symm.trans hrunning, ?_⟩
              simpa using hstands₁.chain.running_below
            obtain ⟨_, hfailed⟩ := abandon_eq e (c.run c.limits).context
            cases hframes : ((c.run c.limits).context.abandon e).frames.toList with
            | nil => simp [popFrame, hframes] at h
            | cons f rest =>
                obtain ⟨g, hg, rfl⟩ := hfailed f rest hframes
                simp only [popFrame, hframes] at h
                cases h
                simp [Frame.fail, Frame.isSuccess, hall g hg] at hsuccess

/-- A commit takes over what the root frame has at hand. -/
theorem commit_root_ok {w : Workspace} (hget : c.pool.get? root.home.cell = some w) :
    ∃ c', commitRoot root c = .ok () c' ∧ c'.world = c.world.commit root w.storage.slots
      w.pending.accounts.storage.toList w.pending.accounts.code.toList := by
  unfold commitRoot onPool
  rw [Pool.modify_of_get _ _ _ hget]
  exact ⟨_, rfl, rfl⟩

/-- A transaction succeeds only by a commit of its root frame. -/
theorem conclude_success (h : conclude root c = some (outcome, c'))
    (hsuccess : outcome.success = true) :
    root.isSuccess = true ∧ outcome.output = root.output ∧ commitRoot root c = .ok () c' := by
  unfold conclude at h
  by_cases hroot : root.isSuccess = true
  · simp only [hroot, Bool.not_true, Bool.false_eq_true, if_false] at h
    cases hcommit : commitRoot root c with
    | ok r c₁ =>
        simp only [hcommit] at h
        obtain ⟨used, _, h⟩ := Option.bind_eq_some_iff.1 h
        cases h
        exact ⟨hroot, rfl, rfl⟩
    | error e c₁ =>
        cases e with
        | overflow => simp [hcommit] at h
        | fault e =>
            simp only [hcommit] at h
            cases h
            cases hsuccess
  · simp only [hroot, Bool.not_false, if_true] at h
    cases h
    cases hsuccess

/-- How a transaction succeeds: its root frame is put on the call stack, run, and concluded. -/
theorem execute_success (h : c.execute root = some (outcome, c'))
    (hsuccess : outcome.success = true) :
    ∃ c₀ root' c₂ c₃, pushFrame root (c.seeded root) = .ok () c₀ ∧
      runRoot c₀ = some (some root', c₂) ∧ conclude root' c₂.clear = some (outcome, c₃) ∧
      c' = c₃.release root' := by
  rw [execute_eq] at h
  split at h
  · cases h
    cases hsuccess
  cases hpush : pushFrame root (c.seeded root) with
  | error e c₀ =>
      cases e with
      | overflow => simp [hpush] at h
      | fault e =>
          simp only [hpush] at h
          cases h
          cases hsuccess
  | ok r c₀ =>
      simp only [hpush] at h
      cases hrun : runRoot c₀ with
      | none => simp [hrun] at h
      | some end₁ =>
          obtain ⟨taken, c₂⟩ := end₁
          cases taken with
          | none =>
              simp only [hrun] at h
              cases h
              cases hsuccess
          | some root' =>
              simp only [hrun] at h
              obtain ⟨⟨outcome', c₃⟩, hconclude, hend⟩ := Option.map_eq_some_iff.1 h
              cases hend
              exact ⟨c₀, root', c₂, c₃, rfl, hrun, hconclude, rfl⟩

/-- At every point of a transaction the accounts are seen as they are in a single ledger that starts
with the committed accounts and on which the same events have happened. If the transaction succeeds,
the ledger at the end of its run is what is found in the world, with the code that the root frame
deploys. -/
theorem execute_tracks_ledger (base : Context) {frameLimits : Limits} {code : Bytes} {gas : Nat}
    {call : CallData} (hworld : base.world.NoZero)
    (hroot : base.newFrame frameLimits {} code gas call = (root, c))
    (hnew : ∀ f ∈ base.frames.toList, f.home ≠ root.home) :
    (∀ c₀ events s, pushFrame root (c.seeded root) = .ok () c₀ →
      Steps c₀.limits ⟨c₀, none⟩ events s →
      ∃ m, (Ledger.ofWorld base.world).run? events = some m ∧ m.Shown s.context) ∧
    ∀ outcome c', c.execute root = some (outcome, c') → outcome.success = true →
      ∃ c₀ events c₁ m, pushFrame root (c.seeded root) = .ok () c₀ ∧
        Steps c₀.limits ⟨c₀, none⟩ events ⟨c₁, none⟩ ∧ c₁.depth = 1 ∧ c₁.isRunning = false ∧
        (Ledger.ofWorld base.world).run? events = some m ∧
        ∀ a, c'.world.storageOf a = m.storage a ∧
          c'.world.code? a = (m.deploy
            (if root.creation then some (call.contract, outcome.output) else none)).code a := by
  refine ⟨?_, ?_⟩
  · intro c₀ events s hpush hsteps
    obtain ⟨l, hfollows, _⟩ := push_follows hworld hroot hnew hpush
    obtain ⟨m, l', below', hrun, hfollows', _⟩ := hfollows.run (s := ⟨c₀, none⟩) hworld hsteps
    exact ⟨m, hrun, hfollows'.shown⟩
  · intro outcome c' h hsuccess
    obtain ⟨c₀, root', c₂, c₃, hpush, hrun, hconclude, rfl⟩ := execute_success h hsuccess
    obtain ⟨hroot', houtput, hcommit⟩ := conclude_success hconclude hsuccess
    obtain ⟨l, hfollows, hcall, hcreation⟩ := push_follows hworld hroot hnew hpush
    obtain ⟨saved, hstands⟩ := hfollows.stands
    obtain ⟨c₁, hreach, hframes, hhalted, rfl⟩ := run_root_success hstands hrun hroot'
    obtain ⟨events, hsteps⟩ := hreach.steps
    obtain ⟨m, l', below', hledger, hfollows', hbottom⟩ :=
      hfollows.run (s := ⟨c₀, none⟩) hworld hsteps
    -- The root frame is alone on the call stack again.
    obtain ⟨saved', hstands'⟩ := hfollows'.stands
    have halone : l'.frame = root' ∧ below' = [] := by
      simpa using hstands'.frames.symm.trans hframes
    obtain ⟨rfl, rfl⟩ := halone
    have hsite : l'.frame.site = l.frame.site := by simpa using hbottom
    have hcall' : l'.frame.call = call := (congrArg Site.call hsite).trans hcall
    have hcreation' : l'.frame.creation = root.creation :=
      (congrArg Site.creation hsite).trans hcreation
    have hcleared : c₁.popFrame.2.clear.pool = c₁.pool ∧ c₁.popFrame.2.clear.world = c₁.world := by
      rw [clear, foldl_release]
      simp [popFrame, hframes]
    obtain ⟨w, hget, _, _⟩ := hstands'.backed
    refine ⟨c₀, events, c₁, m, hpush, hsteps, hstands'.depth_eq,
      hstands'.is_running.trans hhalted, hledger, fun a => ?_⟩
    have hget' : c₁.popFrame.2.clear.pool.get? l'.frame.home.cell = some w := by
      rw [hcleared.1]
      exact hget
    obtain ⟨c₄, hcommit', hworld'⟩ := commit_root_ok hget'
    cases hcommit.symm.trans hcommit'
    obtain ⟨hstorage, hcode⟩ := hfollows'.commit hget a
    rw [hcleared.2] at hworld'
    refine ⟨?_, ?_⟩
    · exact (congrArg (·.storageOf a) hworld').trans hstorage
    · refine (congrArg (·.code? a) hworld').trans (hcode.trans ?_)
      rw [Layer.contract, hcall', hcreation', houtput]
      by_cases hdeploys : root.creation = true
      · simp [hdeploys, Ledger.deploy, Function.update_apply, eq_comm]
      · simp [hdeploys, Ledger.deploy]

/-- A context whose world has an account with a slot, and a contract that writes one of its own. -/
def writingContract : Context where
  txn := ⟨1, 0⟩
  world := World.setCode 3 ⟨#[0x60, 8, 0x60, 2, 0x55, 0]⟩ (World.store 2 5 9 {})

/-- A program that calls that contract and then writes a slot itself. -/
def writingCode : Bytes :=
  ⟨#[0x60, 0, 0x60, 0, 0x60, 0, 0x60, 0, 0x60, 0, 0x60, 3, 0x61, 0x80, 0, 0xF1, 0x60, 7, 0x60, 1,
    0x55, 0]⟩

/-- A root frame that runs it. -/
def writingRoot : Frame × Context :=
  newFrame {} {} writingCode 100000 (.transaction 1 2 0 ByteArray.empty) writingContract

/-- Both slots are committed, as they are in the ledger. -/
theorem writing_root_tracks_ledger : ∃ outcome c' c₀ events c₁ m,
    writingRoot.2.execute writingRoot.1 = some (outcome, c') ∧ outcome.success = true ∧
      c'.world.load 3 2 = 8 ∧
      pushFrame writingRoot.1 (writingRoot.2.seeded writingRoot.1) = .ok () c₀ ∧
      Steps c₀.limits ⟨c₀, none⟩ events ⟨c₁, none⟩ ∧
      (Ledger.ofWorld writingContract.world).run? events = some m ∧ m.Shown c₁ ∧
      ∀ a, c'.world.storageOf a = m.storage a := by
  have hrun : (writingRoot.2.execute writingRoot.1).map (fun r =>
      (r.1.success, r.2.world.load 3 2)) = some (true, 8) := by
    decide +kernel
  obtain ⟨⟨outcome, c'⟩, h, hresult⟩ := Option.map_eq_some_iff.1 hrun
  obtain ⟨hsuccess, hload⟩ := Prod.mk.inj hresult
  have hworld : writingContract.world.NoZero :=
    (World.no_zero_empty.store 2 5 9).set_code 3 _
  have hroot : writingContract.newFrame {} {} writingCode 100000
      (.transaction 1 2 0 ByteArray.empty) = (writingRoot.1, writingRoot.2) := rfl
  obtain ⟨hevery, hend⟩ :=
    execute_tracks_ledger writingContract hworld hroot (by simp [writingContract, Pile.empty])
  obtain ⟨c₀, events, c₁, m, hpush, hsteps, _, _, hledger, hcommitted⟩ :=
    hend outcome c' h hsuccess
  obtain ⟨m', hledger', hshown⟩ := hevery c₀ events ⟨c₁, none⟩ hpush hsteps
  cases hledger.symm.trans hledger'
  exact ⟨outcome, c', c₀, events, c₁, m, h, hsuccess, hload, hpush, hsteps, hledger, hshown,
    fun a => (hcommitted a).1⟩

end Context
end CallTree
