import CallTree.Proofs.Atomicity
import CallTree.Proofs.LayerMoves
import CallTree.Proofs.Payments

/-!
# Serving requests

What becomes of the frames of any call stack when a request is served, whether or not the call
stack stands in layers (`Context.serve_held`): the frame that made the request goes on, or one frame
is opened above it, and all workspaces that were in use still are. `Housed` is what this keeps of
the workspaces: those of all frames are in use, and no frame owns that of a frame below.
-/

namespace CallTree

/-! ## Workspaces in use -/

namespace Pool

variable {α : Type}

/-- Whatever was in use still is. -/
def KeepsLive (p q : Pool α) : Prop :=
  ∀ cell, (p.get? cell).isSome = true → (q.get? cell).isSome = true

namespace KeepsLive

variable {p q : Pool α}

theorem refl (p : Pool α) : KeepsLive p p :=
  fun _ h => h

theorem trans {r : Pool α} (h : KeepsLive p q) (h' : KeepsLive q r) : KeepsLive p r :=
  fun cell hlive => h' cell (h cell hlive)

theorem set (p : Pool α) (cell : Nat) (value : α) : KeepsLive p (p.set cell value) := by
  intro other hlive
  by_cases hcell : cell = other
  · subst hcell
    obtain ⟨old, hold⟩ := Option.isSome_iff_exists.1 hlive
    rw [get_set_same hold]
    rfl
  · rw [get_set_other p value hcell]
    exact hlive

theorem alloc (p : Pool α) (value : α) : KeepsLive p (p.alloc value).2 := by
  intro cell hlive
  obtain ⟨old, hold⟩ := Option.isSome_iff_exists.1 hlive
  rw [get_alloc_other value (lt_size_of_get hold)]
  exact hlive

/-- A handle that goes away frees only what it owned. -/
theorem release (h : KeepsLive p q) {handle : Handle}
    (hfree : handle.isOwned = true → p.get? handle.cell = none) :
    KeepsLive p (q.release handle) := by
  intro cell hlive
  rw [get_release_other]
  · exact h cell hlive
  · rintro rfl
    rw [show p.get? cell = none from hfree rfl] at hlive
    cases hlive

/-- A cell whose value was taken out and put back. -/
theorem put_back {cell : Nat} {space : Option α} (h : space.isSome = (p.get? cell).isSome) :
    KeepsLive p (space.elim (p.free cell) fun w => (p.free cell).set cell w) := by
  cases space with
  | some w =>
      show KeepsLive p ((p.free cell).set cell w)
      rw [set_free_same]
      exact set p cell w
  | none =>
      intro other hlive
      have hne : cell ≠ other := by
        rintro rfl
        rw [← h] at hlive
        cases hlive
      show ((p.free cell).get? other).isSome = true
      rw [get_free_other p hne]
      exact hlive

end KeepsLive
end Pool

/-- As soon as there is more than one frame, the workspaces of all frames are in use, and no frame
owns the workspace of a frame below. -/
structure Housed (pool : Pool Workspace) (frames : List Frame) : Prop where
  live : 1 < frames.length → ∀ f ∈ frames, (pool.get? f.home.cell).isSome = true
  apart : frames.Pairwise fun f g => f.home.isOwned = true → g.home.cell ≠ f.home.cell

namespace Housed

variable {pool pool' : Pool Workspace} {f f' child parent : Frame} {below : List Frame}

theorem single (pool : Pool Workspace) (f : Frame) : Housed pool [f] :=
  ⟨fun h => absurd h (Nat.lt_irrefl 1), List.pairwise_singleton _ f⟩

/-- The topmost frame goes on. -/
theorem goes_on (h : Housed pool (f :: below)) (hhome : f'.home = f.home)
    (hlive : pool.KeepsLive pool') : Housed pool' (f' :: below) := by
  refine ⟨fun hlength g hg => ?_, ?_⟩
  · rcases List.mem_cons.1 hg with rfl | hg
    · rw [hhome]
      exact hlive _ (h.live hlength f List.mem_cons_self)
    · exact hlive _ (h.live hlength g (List.mem_cons_of_mem _ hg))
  · have hapart := h.apart
    rw [List.pairwise_cons] at hapart ⊢
    rw [hhome]
    exact hapart

/-- The topmost frame is taken off. -/
theorem taken_off (h : Housed pool (child :: parent :: below)) (hhome : f'.home = parent.home)
    (hlive : ∀ cell, child.home ≠ .owned cell → (pool.get? cell).isSome = true →
      (pool'.get? cell).isSome = true) : Housed pool' (f' :: below) := by
  obtain ⟨hchild, hbelow⟩ := List.pairwise_cons.1 h.apart
  have hkeep : ∀ g ∈ parent :: below, (pool'.get? g.home.cell).isSome = true := by
    intro g hg
    refine hlive _ (fun hown => ?_) (h.live (by simp) g (List.mem_cons_of_mem _ hg))
    refine hchild g hg ?_ ?_
    · rw [hown]
      rfl
    · rw [hown]
      rfl
  refine ⟨fun _ g hg => ?_, ?_⟩
  · rcases List.mem_cons.1 hg with rfl | hg
    · rw [hhome]
      exact hkeep parent List.mem_cons_self
    · exact hkeep g (List.mem_cons_of_mem _ hg)
  · rw [List.pairwise_cons] at hbelow ⊢
    rw [hhome]
    exact hbelow

end Housed

/-- An activation keeps its workspace. -/
theorem Touches.space_live {parts : List Part} {a b : Activation} (h : Touches parts a b) :
    b.space.isSome = a.space.isSome := by
  refine h.preserves (P := fun x => x.space.isSome = a.space.isSome) ?_ rfl
  intro part _ x y htouch hx
  cases htouch <;> exact hx

/-- A frame that has halted stays halted. -/
theorem Touches.running_before {parts : List Part} {a b : Activation} (h : Touches parts a b) :
    b.frame.running = true → a.frame.running = true := by
  refine h.preserves (P := fun x => x.frame.running = true → a.frame.running = true) ?_ id
  intro part _ x y htouch hx
  cases htouch with
  | verdict verdict exitsCall => exact fun hrunning => by cases hrunning
  | _ => exact hx

/-- A frame that still runs is as undecided as it was. -/
theorem Touches.verdict_running {parts : List Part} {a b : Activation} (h : Touches parts a b) :
    b.frame.running = true → b.frame.verdict = a.frame.verdict := by
  refine h.preserves
    (P := fun x => x.frame.running = true → x.frame.verdict = a.frame.verdict) ?_ fun _ => rfl
  intro part _ x y htouch hx
  cases htouch with
  | verdict verdict exitsCall => exact fun hrunning => by cases hrunning
  | _ => exact hx

/-! ## Frames that go on -/

namespace Frame

/-- A frame after some work. A read-only frame emits nothing and earns nothing. -/
structure Works (f f' : Frame) : Prop where
  site : f'.site = f.site
  region : f'.returnRegion = f.returnRegion
  gas : f.gas.Debited f'.gas
  running : f'.running = true → f.running = true
  verdict : f'.running = true → f'.verdict = f.verdict
  quiet : f.call.isStatic = true → f'.logs = f.logs ∧ f'.gas.refunds = f.gas.refunds

/-- A frame that has done nothing but pay and use its operands and its memory. -/
structure Stays (f f' : Frame) : Prop where
  site : f'.site = f.site
  region : f'.returnRegion = f.returnRegion
  gas : f.gas.Debited f'.gas
  running : f'.running = f.running
  verdict : f'.running = true → f'.verdict = f.verdict
  logs : f'.logs = f.logs
  refunds : f'.gas.refunds = f.gas.refunds
  output : f'.output = f.output
  staged : f'.staged = f.staged

namespace Stays

variable {f f' f'' : Frame}

theorem trans (h : Stays f f') (h' : Stays f' f'') : Stays f f'' :=
  ⟨h'.site.trans h.site, h'.region.trans h.region, h.gas.trans h'.gas, h'.running.trans h.running,
    fun hrunning => (h'.verdict hrunning).trans (h.verdict (h'.running ▸ hrunning)),
    h'.logs.trans h.logs, h'.refunds.trans h.refunds, h'.output.trans h.output,
    h'.staged.trans h.staged⟩

theorem works (h : Stays f f') : Works f f' :=
  ⟨h.site, h.region, h.gas, fun hrunning => h.running ▸ hrunning, h.verdict,
    fun _ => ⟨h.logs, h.refunds⟩⟩

theorem of_touches {parts : List Part} {s : Option Workspace} {b : Activation}
    (h : Touches parts ⟨f, s⟩ b) (hparts : ∀ part ∈ parts, part ∈ Part.lastReturn :: Part.common) :
    Stays f b.frame := by
  have hnot : ∀ part, part ∉ Part.lastReturn :: Part.common → part ∉ parts := fun part hother hpart =>
    hother (hparts part hpart)
  exact ⟨h.site_eq, h.return_region_eq, h.debited, h.running_eq (hnot _ (by decide)),
    h.verdict_running, h.logs_eq (hnot _ (by decide)), h.refunds_eq (hnot _ (by decide)),
    h.output_eq (hnot _ (by decide)), h.staged_eq (hnot _ (by decide))⟩

end Stays

/-- A frame of which nothing but the gas has changed, by payments. -/
structure Pays (f f' : Frame) : Prop where
  gas : f.gas.Debited f'.gas
  refunds : f'.gas.refunds = f.gas.refunds
  same : ∃ gas, f' = { f with gas := gas }

namespace Pays

variable {f f' f'' : Frame}

theorem refl (f : Frame) : Pays f f :=
  ⟨.refl _, rfl, f.gas, rfl⟩

theorem trans (h : Pays f f') (h' : Pays f' f'') : Pays f f'' := by
  obtain ⟨gas, hsame⟩ := h.same
  obtain ⟨gas', hsame'⟩ := h'.same
  refine ⟨h.gas.trans h'.gas, h'.refunds.trans h.refunds, gas', ?_⟩
  rw [hsame', hsame]

theorem stays (h : Pays f f') : Stays f f' := by
  obtain ⟨gas, hsame⟩ := h.same
  have hsite : f'.site = f.site := by
    rw [hsame]
    rfl
  refine ⟨hsite, ?_, h.gas, ?_, fun _ => ?_, ?_, h.refunds, ?_, ?_⟩ <;> rw [hsame]

theorem of_touches {parts : List Part} {s : Option Workspace} {b : Activation}
    (h : Touches parts ⟨f, s⟩ b) (hparts : ∀ part ∈ parts, part ∈ Part.plain) : Pays f b.frame := by
  refine ⟨h.debited, h.refunds_eq fun hpart => ?_, h.gas_only hparts⟩
  exact absurd (hparts _ hpart) (by decide)

end Pays

theorem Works.trans {f f' f'' : Frame} (h : Works f f') (h' : Works f' f'') : Works f f'' := by
  refine ⟨h'.site.trans h.site, h'.region.trans h.region, h.gas.trans h'.gas,
    fun hrunning => h.running (h'.running hrunning),
    fun hrunning => (h'.verdict hrunning).trans (h.verdict (h'.running hrunning)), fun hstatic => ?_⟩
  have hcall : f'.call = f.call := congrArg Site.call h.site
  obtain ⟨hlogs, hrefunds⟩ := h.quiet hstatic
  obtain ⟨hlogs', hrefunds'⟩ := h'.quiet (hcall ▸ hstatic)
  exact ⟨hlogs'.trans hlogs, hrefunds'.trans hrefunds⟩

/-- Halting because of a fault. -/
theorem works_fail (cause : Fault) (f : Frame) : Works f (f.fail cause) := by
  have hhalted : ∀ {p : Prop}, (f.fail cause).running = true → p := by
    intro p hrunning
    rw [running_fail] at hrunning
    cases hrunning
  refine ⟨site_fail cause f, ?_, debited_fail cause f, hhalted, hhalted, fun _ => ?_⟩
  · unfold fail
    split <;> rfl
  unfold fail
  by_cases hrunning : f.running = true
  · by_cases hall : cause.consumesAllGas = true
    · simp [hrunning, hall, GasMeter.burn]
    · simp [hrunning, hall]
  · simp [hrunning]

/-- Taking up the result of a child. -/
theorem Works.resume {s : Option Workspace} {b : Activation} {f : Frame}
    (h : Touches Part.resumption ⟨f, s⟩ b) : Works f b.frame :=
  ⟨h.site_eq, h.return_region_eq, h.debited, h.running_before, h.verdict_running, fun _ =>
    ⟨h.logs_eq (by decide), h.refunds_eq (by decide)⟩⟩

/-- An instruction. In a read-only frame those that emit or earn are refused. -/
theorem works_fetch (env : Surroundings) (a : Activation) :
    Works a.frame (Action.after (Instruction.fetchAndDispatch env) a).frame := by
  have htouches := fetch_within env a
  refine ⟨htouches.site_eq, htouches.return_region_eq, htouches.debited, htouches.running_before,
    htouches.verdict_running, fun hstatic => ?_⟩
  by_cases hwrites : a.frame.currentOp.isStateModifying = true
  · rw [Action.after_error (Instruction.fetch_static env hstatic hwrites)]
    exact ⟨rfl, rfl⟩
  · have hparts : Part.logs ∉ a.frame.currentOp.touches ∧
        Part.refunds ∉ a.frame.currentOp.touches := by
      cases hop : a.frame.currentOp with
      | sstore | log topics => simp [hop, Opcode.isStateModifying] at hwrites
      | _ => simp [Opcode.touches, Part.common]
    exact ⟨htouches.logs_eq hparts.1, htouches.refunds_eq hparts.2⟩

end Frame

/-! ## Frames that are opened -/

/-- What a request does to the committed accounts: a creation uses up an address. -/
def Request.use (creator : Address) (world : World) : Request → World
  | .create _ _ _ => (world.nextCreateAddress creator).2
  | _ => world

/-- A request of the frame `f` opens the frame `child` above it, and leaves `parent` of `f`. -/
def Request.Opens (f parent child : Frame) : Request → Prop
  | .proceed => False
  | .internal target gas => parent = f ∧ ∃ origin marks, child = f.internal origin target gas marks
  | .message call gas region =>
    parent = f ∧ ∃ code home,
      child = (Frame.new code gas call home).setReturnData ByteArray.empty region
  | .create value initCode gas =>
    f.Pays parent ∧ parent.gas.remaining + gas ≤ f.gas.remaining ∧ ∃ origin address home,
      child = .new initCode gas (.create origin f.call.contract address value) home

namespace Context

open CallTree.Action (Triple)

/-- A context that was reached from `c₀` and has the given frames and committed accounts. -/
structure Held (c₀ : Context) (frames : List Frame) (world : World) (c : Context) : Prop where
  limits : c.limits = c₀.limits
  world : c.world = world
  frames : c.frames.toList = frames
  live : c₀.pool.KeepsLive c.pool

/-- The new frame `child` above `parent` has a workspace in use. If it is its own, no frame had it
before. -/
structure Lodges (c₀ : Context) (parent child : Frame) (c : Context) : Prop where
  live : (c.pool.get? child.home.cell).isSome = true
  under : (c.pool.get? parent.home.cell).isSome = true
  fresh : child.home.isOwned = true →
    parent.home.cell ≠ child.home.cell ∧ c₀.pool.get? child.home.cell = none

variable {c₀ : Context} {world : World} {f child : Frame} {below : List Frame} {α : Type}

/-- What is done in the topmost frame. -/
theorem on_top_held {act : Exec α} {parts : List Part}
    (hwithin : ∀ s, Touches parts ⟨f, s⟩ (Action.after act ⟨f, s⟩)) :
    Triple (Held c₀ (f :: below) world) (onTop act)
      (fun r c => ∃ s b, act ⟨f, s⟩ = .ok r b ∧ Held c₀ (b.frame :: below) world c)
      (fun e c => ∃ s b, act ⟨f, s⟩ = .error e b ∧ Held c₀ (b.frame :: below) world c) := by
  rintro ⟨⟨frames, size, hsize⟩, pool, txn, world', own⟩ ⟨hlimits, hworld, rfl, hlive⟩
  have htouches := hwithin (pool.get? f.home.cell)
  cases hact : act ⟨f, pool.get? f.home.cell⟩ with
  | ok r b =>
      rw [Action.after_ok hact] at htouches
      simp only [onTop, Exec.inPool, hact]
      exact ⟨_, b, hact, hlimits, hworld, rfl, hlive.trans (.put_back htouches.space_live)⟩
  | error e b =>
      rw [Action.after_error hact] at htouches
      simp only [onTop, Exec.inPool, hact]
      exact ⟨_, b, hact, hlimits, hworld, rfl, hlive.trans (.put_back htouches.space_live)⟩

end Context

/-- Closing the checkpoints of an internal call needs nothing but its workspace. -/
theorem Frame.settle_shared_live (keep : Bool) (f : Frame) (pool : Pool Workspace) :
    match f.settleShared keep pool with
    | .ok _ pool' => pool.KeepsLive pool'
    | .error e pool' => e ≠ .overflow ∧ pool' = pool ∧ pool.get? f.home.cell = none := by
  cases hmarks : f.marks with
  | none =>
      rw [Frame.settle_shared_none keep hmarks]
      exact .refl pool
  | some marks =>
      cases hget : pool.get? f.home.cell with
      | some w =>
          rw [Frame.settle_shared_marks keep hmarks hget]
          exact .set pool _ _
      | none =>
          simp [Frame.settleShared, hmarks, Pool.modify, hget]

namespace Context

open CallTree.Action (Triple)

variable {c₀ : Context} {world : World} {f child : Frame} {below : List Frame} {α : Type}

/-- Putting a frame on top. One that would be too deep goes away. -/
theorem push_frame_held :
    Triple (fun c => Held c₀ (f :: below) world c ∧ Lodges c₀ f child c) (pushFrame child)
      (fun _ c => Held c₀ (child :: f :: below) world c ∧ Lodges c₀ f child c)
      (fun e c => e ≠ .overflow ∧ Held c₀ (f :: below) world c) := by
  rintro c ⟨⟨hlimits, hworld, hframes, hlive⟩, hlodges⟩
  by_cases hdeep : c.limits.maxCallDepth < c.depth + 1
  · have hsettle := child.settle_shared_live false c.pool
    have hfree : child.home.isOwned = true → c₀.pool.get? child.home.cell = none := fun hown =>
      (hlodges.fresh hown).2
    rw [pushFrame, if_pos hdeep]
    cases hresult : child.settleShared false c.pool with
    | ok r pool =>
        simp only [hresult] at hsettle
        simp only [onPool, hresult]
        exact ⟨by simp, hlimits, hworld, hframes, (hlive.trans hsettle).release hfree⟩
    | error e pool =>
        simp only [hresult] at hsettle
        obtain ⟨hfault, rfl, _⟩ := hsettle
        simp only [onPool, hresult]
        exact ⟨hfault, hlimits, hworld, hframes, hlive.release hfree⟩
  · rw [push_frame_ok hdeep]
    refine ⟨⟨hlimits, hworld, ?_, hlive⟩, hlodges.live, hlodges.under, hlodges.fresh⟩
    show child :: c.frames.toList = _
    rw [hframes]

/-- An internal call shares the workspace of its caller. -/
theorem prepare_internal_held (target gas : Nat) :
    Triple (Held c₀ (f :: below) world) (prepareInternal target gas)
      (fun child c => (∃ origin marks, child = f.internal origin target gas marks) ∧
        Held c₀ (f :: below) world c ∧ Lodges c₀ f child c)
      (fun e c => e ≠ .overflow ∧ Held c₀ (f :: below) world c) := by
  rintro c ⟨hlimits, hworld, hframes, hlive⟩
  have htop : c.top = .ok f := by simp only [top, hframes]
  cases hget : c.pool.get? f.home.cell with
  | none =>
      simp only [prepareInternal, htop, onPool, Pool.modify, hget]
      exact ⟨by simp, hlimits, hworld, hframes, hlive⟩
  | some w =>
      have hmodify := Pool.modify_of_get .stack f.home Workspace.checkpoint hget
      have hkept : c.pool.KeepsLive (c.pool.set f.home.cell w.checkpoint.2) := .set _ _ _
      have hhome := hkept f.home.cell (by rw [hget]; rfl)
      simp only [prepareInternal, htop, onPool, hmodify]
      refine ⟨⟨_, _, rfl⟩, ⟨hlimits, hworld, hframes, hlive.trans hkept⟩, hhome, hhome, ?_⟩
      intro hown
      cases hown

/-- Reading the storage of an account needs the workspace of the topmost frame. -/
theorem live_of_storage_view {c : Context} {address : Address} {slots : Slots}
    (hframes : c.frames.toList = f :: below) (hview : c.storageView address = .ok slots) :
    (c.pool.get? f.home.cell).isSome = true := by
  cases hget : c.pool.get? f.home.cell with
  | some w => rfl
  | none =>
      simp [storageView, hframes, activeStorage?, Pool.read, hget, bind, Except.bind] at hview

/-- Any other call gets a workspace of its own. -/
theorem prepare_external_held (code : Bytes) (gas : Nat) (call : CallData) :
    Triple (Held c₀ (f :: below) world) (prepareExternal code gas call)
      (fun child c => (∃ home, child = .new code gas call home) ∧
        Held c₀ (f :: below) world c ∧ Lodges c₀ f child c)
      (fun e c => e ≠ .overflow ∧ Held c₀ (f :: below) world c) := by
  rintro c ⟨hlimits, hworld, hframes, hlive⟩
  cases hview : c.storageView call.contract with
  | error e =>
      simp only [prepareExternal, hview]
      exact ⟨by simp, hlimits, hworld, hframes, hlive⟩
  | ok slots =>
      have hparent := live_of_storage_view hframes hview
      obtain ⟨w, hw⟩ := Option.isSome_iff_exists.1 hparent
      simp only [prepareExternal, hview]
      let space : Workspace :=
        { stack := .withLimit c.limits.maxStackSize
          memory := .withLimit c.limits.maxMemorySize
          storage := .ofSlots slots }
      have hkept : c.pool.KeepsLive (c.pool.alloc space).2 := .alloc _ _
      refine ⟨⟨.owned c.pool.cells.size, rfl⟩, ⟨hlimits, hworld, hframes, hlive.trans hkept⟩, ?_,
        hkept _ hparent, fun _ => ?_⟩
      · show ((c.pool.alloc space).2.get? c.pool.cells.size).isSome = true
        rw [Pool.get_alloc_same]
        rfl
      · refine ⟨Nat.ne_of_lt (Pool.lt_size_of_get hw), ?_⟩
        show c₀.pool.get? c.pool.cells.size = none
        cases hold : c₀.pool.get? c.pool.cells.size with
        | none => rfl
        | some v =>
            obtain ⟨v', hv'⟩ := Option.isSome_iff_exists.1 (hlive _ (by rw [hold]; rfl))
            exact absurd (Pool.lt_size_of_get hv') (Nat.lt_irrefl _)

/-- What is left of the frames when a request has been served: the frame that made it, or a new
frame above it. -/
def Answered (c₀ : Context) (f : Frame) (below : List Frame) (world : World) (request : Request)
    (c : Context) : Prop :=
  (∃ f', Held c₀ (f' :: below) world c ∧ f.Pays f') ∨
    ∃ parent child, Held c₀ (child :: parent :: below) world c ∧ Lodges c₀ parent child c ∧
      request.Opens f parent child

/-- A request that is refused leaves the frame that made it. -/
def Declined (c₀ : Context) (f : Frame) (below : List Frame) (world : World) (e : Abort)
    (c : Context) : Prop :=
  e ≠ .overflow ∧ ∃ f', Held c₀ (f' :: below) world c ∧ f.Pays f'

/-- The frame that made the request is as it was. -/
theorem declined_self {e : Abort} {c : Context}
    (h : e ≠ .overflow ∧ Held c₀ (f :: below) world c) : Declined c₀ f below world e c :=
  ⟨h.1, f, h.2, .refl f⟩

/-- A payment of the topmost frame. -/
theorem pay_held (amount : Nat) :
    Triple (Held c₀ (f :: below) world) (onTop (Exec.consumeGas amount))
      (fun _ c => ∃ f', (f.Pays f' ∧ f'.gas.remaining + amount ≤ f.gas.remaining) ∧
        Held c₀ (f' :: below) world c)
      (Declined c₀ f below world) := by
  have hwithin : Exec.Within [.gas] (Exec.consumeGas amount) := .consume_gas (by decide) amount
  refine (on_top_held fun s => hwithin ⟨f, s⟩).weaken (fun _ hs => hs) ?_ ?_
  · rintro _ c ⟨s, b, hact, hheld⟩
    have htouches := Action.after_ok hact ▸ hwithin ⟨f, s⟩
    have hstart : Activation.Paid f.call f.gas.remaining 0 ⟨f, s⟩ := ⟨rfl, Nat.le_refl _⟩
    have hpaid := ((Exec.consume_gas_pays amount).ok hstart hact).gas
    rw [Nat.zero_add] at hpaid
    exact ⟨b.frame, ⟨.of_touches htouches (by decide), hpaid⟩, hheld⟩
  · rintro e c ⟨s, b, hact, hheld⟩
    have htouches := Action.after_error hact ▸ hwithin ⟨f, s⟩
    exact ⟨Exec.Safe.consume_gas amount _ _ _ hact, b.frame, hheld,
      .of_touches htouches (by decide)⟩

/-- An operand of the topmost frame. -/
theorem push_held (word : Word) :
    Triple (Held c₀ (f :: below) world) (onTop (Exec.push word))
      (fun _ c => ∃ f', Held c₀ (f' :: below) world c ∧ f.Pays f')
      (Declined c₀ f below world) := by
  have hwithin : Exec.Within [.stack] (Exec.push word) := .push (by decide) word
  refine (on_top_held fun s => hwithin ⟨f, s⟩).weaken (fun _ hs => hs) ?_ ?_
  · rintro _ c ⟨s, b, hact, hheld⟩
    have htouches := Action.after_ok hact ▸ hwithin ⟨f, s⟩
    exact ⟨b.frame, hheld, .of_touches htouches (by decide)⟩
  · rintro e c ⟨s, b, hact, hheld⟩
    have htouches := Action.after_error hact ▸ hwithin ⟨f, s⟩
    exact ⟨Exec.Safe.push word _ _ _ hact, b.frame, hheld,
      .of_touches htouches (by decide)⟩

/-- A creation uses up an address, is paid for, and opens a frame unless there is code already. -/
theorem serve_create_held (value : Word) (initCode : Bytes) (gas : Nat) :
    Triple (Held c₀ (f :: below) world) (serve (.create value initCode gas))
      (fun _ => Answered c₀ f below (world.nextCreateAddress f.call.contract).2
        (.create value initCode gas))
      (Declined c₀ f below (world.nextCreateAddress f.call.contract).2) := by
  let world' := (world.nextCreateAddress f.call.contract).2
  refine Triple.bind .get fun c => ?_
  refine Triple.bind (R := fun g s => g = f ∧ Held c₀ (f :: below) world s)
    (.of_except ?_ ?_) fun g => .assume fun hg => ?_
  · rintro g s ⟨rfl, hs⟩ htop
    have htop' : c.top = .ok f := by simp only [top, hs.frames]
    cases htop.symm.trans htop'
    exact ⟨rfl, hs⟩
  · rintro e s ⟨rfl, hs⟩ htop
    simp [top, hs.frames] at htop
  subst hg
  refine Triple.bind (R := fun _ => Held c₀ (g :: below) world') ?_ fun address => ?_
  · rintro s ⟨hlimits, rfl, hframes, hlive⟩
    exact ⟨hlimits, rfl, hframes, hlive⟩
  refine Triple.bind .get fun c => ?_
  refine Triple.bind (R := fun _ => Held c₀ (g :: below) world')
    (.of_except (fun _ _ hs _ => hs.2) fun e s hs _ => declined_self ⟨by simp, hs.2⟩)
    fun existing => ?_
  -- The gas of the child is paid whether or not it is opened.
  refine (pay_held gas).bind fun _ => .exists_pre fun parent => .assume fun hpaid => ?_
  have hdecline : ∀ e c, Declined c₀ parent below world' e c → Declined c₀ g below world' e c := by
    rintro e c ⟨hfault, f', hheld, hpays⟩
    exact ⟨hfault, f', hheld, hpaid.1.trans hpays⟩
  refine .ite (fun _ => ?_) fun _ => Triple.bind .get fun c => ?_
  · refine ((push_held 0).refused hdecline).post ?_
    rintro _ c ⟨f', hheld, hpays⟩
    exact .inl ⟨f', hheld, hpaid.1.trans hpays⟩
  refine Triple.bind (((prepare_external_held initCode gas _).pre fun _ hs => hs.2).refused
    fun e c he => hdecline e c (declined_self he)) fun child => .assume ?_
  rintro ⟨home, rfl⟩
  refine (push_frame_held.refused fun e c he => hdecline e c (declined_self he)).post ?_
  rintro _ c' ⟨hheld, hlodges⟩
  exact .inr ⟨parent, _, hheld, hlodges, hpaid.1, hpaid.2, _, _, _, rfl⟩

/-- How requests are served. -/
theorem serve_held (request : Request) :
    Triple (Held c₀ (f :: below) world) (serve request)
      (fun _ => Answered c₀ f below (request.use f.call.contract world) request)
      (Declined c₀ f below (request.use f.call.contract world)) := by
  cases request with
  | proceed => exact .pure fun c hc => .inl ⟨f, hc, .refl f⟩
  | internal target gas =>
      refine Triple.bind ((prepare_internal_held target gas).refused fun _ _ => declined_self)
        fun child => .assume ?_
      rintro ⟨origin, marks, rfl⟩
      refine (push_frame_held.refused fun _ _ => declined_self).post ?_
      rintro _ c ⟨hheld, hlodges⟩
      exact .inr ⟨f, _, hheld, hlodges, rfl, origin, marks, rfl⟩
  | message call gas region =>
      refine Triple.bind .get fun c => ?_
      refine Triple.bind (R := fun _ => Held c₀ (f :: below) world)
        (.of_except (fun _ _ hs _ => hs.2) fun e s hs _ => declined_self ⟨by simp, hs.2⟩)
        fun code => ?_
      refine Triple.bind ((prepare_external_held code gas call).refused fun _ _ => declined_self)
        fun child => .assume ?_
      rintro ⟨home, rfl⟩
      -- The frame is put on top with the region for its output noted in it.
      refine ((push_frame_held.pre fun c hc => ⟨hc.1, hc.2.live, hc.2.under, hc.2.fresh⟩).refused
        fun _ _ => declined_self).post ?_
      rintro _ c' ⟨hheld, hlodges⟩
      exact .inr ⟨f, _, hheld, hlodges, rfl, code, home, rfl⟩
  | create value initCode gas => exact serve_create_held value initCode gas

end Context
end CallTree
