import CallTree.Proofs.Ordered
import CallTree.Proofs.Termination

/-!
# The call stack keeps its promises

A frame reaches its workspace by a handle that may belong to another frame, finds the result of a child
where that was staged, and relies on the call stack to open the frames it asks for. Each of these can be
refused, and for each there is a fault. `RunState.Intact` says that none of them ever is, and why:
what is true of the frames and handles of a call stack. It holds in every state that a run from a single
root frame reaches (`Context.launch_intact`), so such a run ends with its root or its budget.

The only exception is a number that is no amount. `Context.probing_start_stops` is a run that is stopped
by one.
-/

namespace CallTree

/-- Among the frames below an internal call, the topmost first, the one that owns its workspace: the
first that is no internal call, or the root. -/
def owner? : List Frame → Option Frame
  | [] => none
  | [root] => some root
  | f :: below => if f.call.kind = .internal then owner? below else some f

/-- What is true of the call stack in every state of a run, and what cannot happen because of it. -/
structure RunState.Intact (limits : Limits) (s : RunState) : Prop where
  /-- Frames that wait are running, and no result is staged in them. -/
  waiting : ∀ f ∈ s.context.frames.toList.tail, f.running = true ∧ f.staged = .empty
  /-- An internal call above the root shares the workspace of its owner. -/
  shared : ∀ f below, f :: below <:+ s.context.frames.toList → below ≠ [] →
    f.call.kind = .internal →
      ∃ owner, owner? below = some owner ∧ owner.home.isOwned = true ∧ f.home = owner.home.share
  /-- No handle dangles. -/
  live : ∀ f ∈ s.context.frames.toList, s.context.pool.isLive f.home = true
  /-- There are no more frames than allowed. -/
  depth : s.context.depth ≤ limits.maxCallDepth
  /-- No stack holds more operands than allowed. -/
  operands : ∀ f ∈ s.context.frames.toList, ∀ w, s.context.pool.get? f.home.cell = some w →
    w.stack.size ≤ limits.maxStackSize
  /-- A halted frame above another can be finished. -/
  finishes : s.context.isRunning = false → 1 < s.context.depth →
    ∃ result c', s.context.finishChild = .ok result c'
  /-- A result that is to be taken up is staged in the topmost frame. -/
  staged : ∀ result, s.finished = some result → ∃ f, s.context.top = .ok f ∧ f.staged ≠ .empty
  /-- The result of a message or a creation is taken up. -/
  resumes : ∀ result, s.finished = some result → result.kind ≠ .internal →
    ∃ c', Context.onTop (Exec.resume limits result) s.context = .ok () c'
  /-- The frame that an instruction asks for is opened, or a creation fails where there is code. -/
  serves : s.finished = none → s.context.isRunning = true → ∀ request c,
    Context.onTop (Instruction.fetchAndDispatch (s.context.surroundings limits)) s.context =
      .ok request c → ∃ c', Context.serve request c = .ok () c'
  /-- No frame fails for a fault of the call stack. -/
  faults : ∀ cause, s.Faults limits cause → cause.isStructural = false

namespace Chain

variable {pool : Pool Workspace} {l : Layer} {below : List Layer} {saved : List Contents}

/-- The workspace of a layer belongs to its own frame or to its owner. -/
theorem owner_eq (h : Chain pool l below saved) :
    ∃ owner, owner? (l.frame :: below.map (·.frame)) = some owner ∧ owner.home.isOwned = true ∧
      owner.home.cell = l.cell := by
  -- Along the chain: an internal call passes on the owner of the layer below it.
  induction h with
  | root hhome => exact ⟨_, rfl, hhome, rfl⟩
  | internal _ _ hhome hkind _ _ _ ih =>
      obtain ⟨owner, howner, howned, hcell⟩ := ih
      refine ⟨owner, ?_, howned, ?_⟩
      · rw [List.map_cons, owner?, if_pos hkind]
        · exact howner
        · simp
      · rw [hcell, Layer.cell, Layer.cell, hhome]
        rfl
  | own _ _ _ hhome hkind =>
      refine ⟨_, ?_, hhome, rfl⟩
      rw [List.map_cons, owner?, if_neg hkind]
      simp

/-- Every internal call above the root shares the workspace of its owner. -/
theorem shared (h : Chain pool l below saved) {f : Frame} {rest : List Frame}
    (hsuffix : f :: rest <:+ l.frame :: below.map (·.frame)) (hrest : rest ≠ [])
    (hinternal : f.call.kind = .internal) :
    ∃ owner, owner? rest = some owner ∧ owner.home.isOwned = true ∧ f.home = owner.home.share := by
  induction h with
  | root =>
      rw [List.map_nil] at hsuffix
      rcases List.suffix_cons_iff.1 hsuffix with hsame | hnil
      · cases hsame
        exact absurd rfl hrest
      · simp at hnil
  | internal hbelow _ hhome _ _ _ _ ih =>
      rcases List.suffix_cons_iff.1 hsuffix with hsame | hlower
      · cases hsame
        obtain ⟨owner, howner, howned, hcell⟩ := hbelow.owner_eq
        refine ⟨owner, howner, howned, ?_⟩
        rw [hhome, Handle.share, Handle.share, hcell]
        rfl
      · exact ih hlower
  | own _ _ _ _ hkind _ _ ih =>
      rcases List.suffix_cons_iff.1 hsuffix with hsame | hlower
      · cases hsame
        exact absurd hinternal hkind
      · exact ih hlower

/-- The stack of every frame is that of some layer. -/
theorem operands_le (h : Chain pool l below saved) {max : Nat}
    (htop : ∀ w, pool.get? l.cell = some w → w.stack.size ≤ max)
    (hbelow : ∀ m ∈ below, m.contents.operands.size ≤ max) :
    ∀ m ∈ l :: below, ∀ w, pool.get? m.cell = some w → w.stack.size ≤ max := by
  induction h with
  | root => exact List.forall_mem_singleton.2 htop
  | @internal l parent below saved _ _ hhome _ _ _ _ ih =>
      have hcell : l.cell = parent.cell := by rw [Layer.cell, hhome]; rfl
      refine List.forall_mem_cons.2 ⟨htop, ih (hcell ▸ htop) fun m hm => ?_⟩
      exact hbelow m (List.mem_cons_of_mem _ hm)
  | @own l parent below saved _ _ hbacked _ _ _ _ ih =>
      refine List.forall_mem_cons.2 ⟨htop, ih (fun w hw => ?_) fun m hm => ?_⟩
      · obtain ⟨v, hv, hcontents, _⟩ := hbacked
        cases hw.symm.trans hv
        have hparent := hbelow parent List.mem_cons_self
        rw [← hcontents] at hparent
        exact hparent
      · exact hbelow m (List.mem_cons_of_mem _ hm)

end Chain

namespace Ordered

variable {limits : Limits} {c : Context} {l : Layer} {below : List Layer} {saved : List Contents}

theorem waiting (h : Ordered limits c l below saved) :
    ∀ f ∈ c.frames.toList.tail, f.running = true ∧ f.staged = .empty := by
  intro f hf
  rw [h.stands.frames, List.tail_cons] at hf
  obtain ⟨m, hm, rfl⟩ := List.mem_map.1 hf
  exact ⟨h.stands.chain.running_below m hm, h.unstaged m hm⟩

theorem live (h : Ordered limits c l below saved) :
    ∀ f ∈ c.frames.toList, c.pool.isLive f.home = true := by
  have hlive : ∀ m ∈ l :: below, (c.pool.get? m.cell).isSome = true := by
    intro m hm
    obtain ⟨w, hget, _⟩ := Option.map_eq_some_iff.1 (h.limit m hm)
    rw [hget]
    rfl
  intro f hf
  rw [h.stands.frames, ← List.map_cons (f := Layer.frame)] at hf
  obtain ⟨m, hm, rfl⟩ := List.mem_map.1 hf
  exact hlive m hm

theorem operands_le (h : Ordered limits c l below saved) : ∀ f ∈ c.frames.toList, ∀ w,
    c.pool.get? f.home.cell = some w → w.stack.size ≤ limits.maxStackSize := by
  obtain ⟨v, hv, hcontents, _⟩ := h.stands.backed
  have htop : ∀ w, c.pool.get? l.cell = some w → w.stack.size ≤ limits.maxStackSize := by
    intro w hw
    cases hw.symm.trans hv
    exact (h.room hv hcontents).size
  intro f hf
  rw [h.stands.frames, ← List.map_cons (f := Layer.frame)] at hf
  obtain ⟨m, hm, rfl⟩ := List.mem_map.1 hf
  exact h.stands.chain.operands_le htop (fun n hn => h.operands n (List.mem_cons_of_mem _ hn)) m hm

theorem shared (h : Ordered limits c l below saved) {f : Frame} {rest : List Frame}
    (hsuffix : f :: rest <:+ c.frames.toList) (hrest : rest ≠ [])
    (hinternal : f.call.kind = .internal) :
    ∃ owner, owner? rest = some owner ∧ owner.home.isOwned = true ∧ f.home = owner.home.share :=
  h.stands.chain.shared (h.stands.frames ▸ hsuffix) hrest hinternal

theorem depth_le (h : Ordered limits c l below saved) : c.depth ≤ limits.maxCallDepth := by
  rw [h.stands.depth_eq]
  exact h.depth

theorem finishes (h : Ordered limits c l below saved) (hhalted : c.isRunning = false)
    (hdepth : 1 < c.depth) : ∃ result c', c.finishChild = .ok result c' := by
  rw [h.stands.depth_eq] at hdepth
  cases below with
  | nil => exact absurd hdepth (Nat.lt_irrefl 1)
  | cons parent below =>
      obtain ⟨c', _, _, hfinish, _⟩ := h.finish (h.stands.is_running.symm.trans hhalted)
      exact ⟨_, c', hfinish⟩

/-- An instruction raises no fault of the call stack, and what it asks for is served. -/
theorem executes (h : Ordered limits c l below saved) (hlimits : c.limits = limits)
    (hrunning : c.isRunning = true) (hunstaged : l.frame.staged = .empty) :
    (∀ request c₁, Context.onTop (Instruction.fetchAndDispatch (c.surroundings limits)) c =
      .ok request c₁ → ∃ c', Context.serve request c₁ = .ok () c') ∧
    ∀ cause c', c.step limits = .error (.fault cause) c' → cause.isStructural = false := by
  rcases h.instruction hlimits (h.stands.is_running.symm.trans hrunning) hunstaged with
    ⟨request, c₁, c₂, _, _, _, htop, hserve, _⟩ | ⟨e, c₁, _, htop, hcause, _⟩
  · refine ⟨fun asked c₃ hfetch => ?_, fun cause c' hstep => ?_⟩
    · cases htop.symm.trans hfetch
      exact ⟨c₂, hserve⟩
    · cases ((Context.step_ok htop).trans hserve).symm.trans hstep
  · refine ⟨fun asked c₃ hfetch => ?_, fun cause c' hstep => ?_⟩
    · cases htop.symm.trans hfetch
    · cases (Context.step_error htop).symm.trans hstep
      exact hcause cause rfl

end Ordered

/-- A state in order keeps all promises. -/
theorem RunState.Orderly.intact {limits : Limits} {s : RunState} (h : s.Orderly limits)
    (hlimits : s.context.limits = limits) : s.Intact limits := by
  cases h with
  | steady h hunstaged =>
      refine ⟨h.waiting, fun f below => h.shared, h.live, h.depth_le, h.operands_le, h.finishes, ?_,
        ?_, fun _ hrunning => (h.executes hlimits hrunning hunstaged).1, fun cause hfaults => ?_⟩
      · intro result hfinished
        cases hfinished
      · intro result hfinished
        cases hfinished
      · cases hfaults with
        | instruction hrunning hstep =>
            exact (h.executes hlimits hrunning hunstaged).2 cause _ hstep
  | awaiting h hawaits =>
      refine ⟨h.waiting, fun f below => h.shared, h.live, h.depth_le, h.operands_le, h.finishes, ?_,
        ?_, fun hfinished => ?_, fun cause hfaults => ?_⟩
      · intro result _
        exact ⟨_, h.stands.top_eq, hawaits.staged⟩
      · intro result hfinished hkind
        cases hfinished
        rcases h.resume hawaits with ⟨c', _, htop, _⟩ | ⟨_, _, _, _, hinternal, _⟩
        · exact ⟨c', htop⟩
        · exact absurd hinternal hkind
      · cases hfinished
      · cases hfaults with
        | resume hresume =>
            rcases h.resume hawaits with ⟨c', _, htop, _⟩ | ⟨e, c', _, htop, _, hcause, _⟩
            · cases htop.symm.trans hresume
            · cases htop.symm.trans hresume
              exact hcause cause rfl

namespace Context

/-- A run of a single root frame ends with the root or with its budget, unless a number is no
amount. -/
theorem run_stops {limits : Limits} {c : Context} {root : Frame} (hroot : c.frames.toList = [root]) :
    (c.run limits).stopped = none ∨
      (c.run limits).stopped = some (.fault (.stepLimitExceeded limits.maxExecutionSteps)) ∨
      (c.run limits).stopped = some .overflow ∧ ¬c.Sized := by
  have hends : Ends limits limits.maxExecutionSteps 0 ⟨c, none⟩ (c.run limits) :=
    run_for_ends limits limits.maxExecutionSteps 0 c
  generalize c.run limits = report at hends
  cases hends with
  | halted => exact .inl rfl
  | exhausted => exact .inr (.inl rfl)
  | blocked htrail hblocked =>
      obtain ⟨rfl, hover⟩ := blocked_overflows hroot htrail.reaches hblocked
      refine .inr (.inr ⟨rfl, fun hsized => ?_⟩)
      exact (htrail.reaches.sized hsized).not_overflows hover

/-- Faults of the call stack never occur. On a call stack that has room for a frame and holds a new root
frame, every state of a run keeps all promises, and the run ends with the root or with its budget, unless
a number is no amount; that cannot happen within the bounds on sizes. -/
theorem launch_intact {limits : Limits} (hdepth : 0 < limits.maxCallDepth) {base : Context}
    (hlimits : base.limits = limits) (slots : Slots) (code : Bytes) (gas : Nat) (call : CallData) :
    (∀ s, Reaches limits ⟨base.launch limits slots code gas call, none⟩ s → s.Intact limits) ∧
    (((base.launch limits slots code gas call).run limits).stopped = none ∨
      ((base.launch limits slots code gas call).run limits).stopped =
        some (.fault (.stepLimitExceeded limits.maxExecutionSteps)) ∨
      ((base.launch limits slots code gas call).run limits).stopped = some .overflow ∧
        ¬(base.launch limits slots code gas call).Sized) := by
  refine ⟨fun s hreach => ?_, run_stops rfl⟩
  have hstart := launch_orderly hdepth slots code gas call base
  exact (hstart.run hlimits hreach).intact (hreach.limits_eq.trans hlimits)

/-- A root frame that calls a contract, which makes an internal call. -/
def nestingStart : Context :=
  launch {} ∅
    ⟨#[0x60, 32, 0x60, 0, 0x60, 0, 0x60, 0, 0x60, 0, 0x60, 3, 0x61, 0x80, 0, 0xF1]⟩ 100000
    (.transaction 1 2 0 ByteArray.empty)
    { txn := ⟨1, 0⟩
      world := World.setCode 3 ⟨#[0x60, 100, 0x60, 6, 0xE3, 0, 0x5B, 0xE4]⟩ {} }

/-- The internal call shares the workspace of the contract that the root has called, and the run
ends with the root. -/
theorem nesting_start_intact : ∃ s child owner root, Reaches {} ⟨nestingStart, none⟩ s ∧
    s.context.frames.toList = [child, owner, root] ∧ child.call.kind = .internal ∧
    child.home = owner.home.share ∧ owner.home.isOwned = true ∧ s.Intact {} ∧
    (nestingStart.run {}).stopped = none := by
  have hlevel : 0 < ({} : Limits).maxCallDepth := by decide
  have hintact : ∀ s, Reaches {} ⟨nestingStart, none⟩ s → s.Intact {} :=
    (launch_intact hlevel rfl _ _ _ _).1
  have hfacts : (RunState.advance? {} 0 11 ⟨nestingStart, none⟩).any (fun s =>
      s.context.frames.toList.map (·.call.kind) == [.internal, .external, .external]) = true := by
    decide +kernel
  have hstopped : (nestingStart.run {}).stopped = none := by
    decide +kernel
  obtain ⟨s, hrun, hkinds⟩ := (Option.any_eq_true _ _).1 hfacts
  have hreach := (reaches_above_of_advance hrun).reaches
  rw [beq_iff_eq] at hkinds
  obtain ⟨child, rest, hframes, hchild, hrest⟩ := List.map_eq_cons_iff.1 hkinds
  obtain ⟨owner, last, rfl, hkind, hlast⟩ := List.map_eq_cons_iff.1 hrest
  obtain ⟨root, none, rfl, _, hnone⟩ := List.map_eq_cons_iff.1 hlast
  cases List.map_eq_nil_iff.1 hnone
  obtain ⟨found, howner, howned, hshare⟩ := (hintact s hreach).shared child [owner, root]
    (hframes ▸ List.suffix_rfl) (by simp) hchild
  have hfound : found = owner := by
    rw [owner?, if_neg (by simp [hkind])] at howner
    · exact (Option.some.inj howner).symm
    · simp
  subst hfound
  exact ⟨s, child, found, root, hreach, hframes, hchild, hshare, howned, hintact s hreach, hstopped⟩

/-- A run can be stopped by something else: here the region ends within the limit, but rounded up to
whole words it does not end at an amount. -/
theorem probing_start_stops :
    probingStart.frames.toList.map (fun f => (f.running, f.staged)) = [(true, .empty)] ∧
      (probingStart.run { maxMemorySize := maxAmount }).stopped ≠ none ∧
      ∀ limit, (probingStart.run { maxMemorySize := maxAmount }).stopped ≠
        some (.fault (.stepLimitExceeded limit)) := by
  have hstopped : (probingStart.run { maxMemorySize := maxAmount }).stopped = some .overflow := by
    decide +kernel
  rw [hstopped]
  refine ⟨by decide +kernel, by simp, fun limit => by simp⟩

end Context
end CallTree
