import CallTree.Proofs.Calls
import CallTree.Proofs.Moves

/-!
# Moves on layers

Each move of a run means something to the accounts: a slot is read or written, a frame is opened,
or a frame has ended well or badly. `RunState.event` reads this off the contexts. `Change` says
what each of these does to the layers of the call stack, without any mention of pools and
checkpoints, and `Stands.move` that every move of a run is such a change.
-/

namespace CallTree

/-- What a move means to the accounts. -/
inductive Event
  /-- Nothing. -/
  | quiet
  /-- A slot of an account is read and found to have a value. -/
  | load (account : Address) (key value : Word)
  /-- A slot of an account gets a value. -/
  | store (account : Address) (key value : Word)
  /-- A frame is opened. -/
  | enter
  /-- A frame has succeeded. It may have deployed code at an address. -/
  | leave (deployed : Option (Address × Bytes))
  /-- A frame has reverted. -/
  | rollback
deriving DecidableEq

/-- What a completed instruction that opens no frame means to the accounts, with the operands
before and after it. -/
def Event.ofLocal (op : Opcode) (account : Address) (before after : List Word) : Event :=
  match op, before, after with
  | .sload, key :: _, value :: _ => .load account key value
  | .sstore, key :: value :: _, _ => .store account key value
  | _, _, _ => .quiet

namespace Context

/-- The operands of the topmost frame. -/
def operands (c : Context) : List Word :=
  match c.frames.toList with
  | [] => []
  | f :: _ => ((c.pool.get? f.home.cell).map fun w => w.stack.items.toList).getD []

/-- What an instruction of the topmost frame means to the accounts. One that is refused means
nothing to them. -/
def instructionEvent (limits : Limits) (c : Context) : Event :=
  match c.step limits, c.frames.toList with
  | .ok () c', f :: _ =>
    if c.depth < c'.depth then .enter
    else .ofLocal f.currentOp f.call.contract c.operands c'.operands
  | _, _ => .quiet

/-- What the end of the topmost frame means to the accounts. -/
def endEvent (c : Context) : Event :=
  match c.frames.toList with
  | [] => .quiet
  | f :: _ =>
    if f.isSuccess then .leave (if f.creation then some (f.call.contract, f.output) else none)
    else .rollback

end Context

/-- What the next move means to the accounts. -/
def RunState.event (limits : Limits) (s : RunState) : Event :=
  match s.finished with
  | some _ => .quiet
  | none => if s.context.isRunning then s.context.instructionEvent limits else s.context.endEvent

/-- The layer of a caller, once its internal call was opened: two operands were taken and nothing
else has happened to its contents, its logs or its refunds. -/
structure Layer.Calls (l parent : Layer) : Prop where
  site : parent.frame.site = l.frame.site
  operands : 2 ≤ l.contents.operands.size
  contents : parent.contents = { l.contents with operands := l.contents.operands.drop 2 }
  logs : parent.frame.logs = l.frame.logs
  refunds : parent.frame.gas.refunds = l.frame.gas.refunds

/-- What a move does to the layers of the call stack. -/
inductive Change (world : World) : Event → List Layer → List Layer → Prop
  /-- The topmost frame goes on. -/
  | quiet {l l' : Layer} {below : List Layer} (hsame : l.Same l') :
      Change world .quiet (l :: below) (l' :: below)
  /-- The topmost frame reads a slot of its account. -/
  | load {l l' : Layer} {below : List Layer} (key : Word) (hsame : l.Same l') :
      Change world (.load l.contract key (l.contents.slots.load key)) (l :: below) (l' :: below)
  /-- The topmost frame writes a slot of its account. -/
  | store {l l' : Layer} {below : List Layer} (key value : Word)
      (hsite : l'.frame.site = l.frame.site)
      (haccounts : l'.contents.accounts = l.contents.accounts)
      (hslots : l'.contents.slots = l.contents.slots.store key value) :
      Change world (.store l.contract key value) (l :: below) (l' :: below)
  /-- An internal call starts with the contents of its caller. -/
  | enterInternal {l parent child : Layer} {below : List Layer} (hcalls : l.Calls parent)
      (hkind : child.frame.call.kind = .internal) (hcontents : child.contents = parent.contents) :
      Change world .enter (l :: below) (child :: parent :: below)
  /-- Any other call starts with the slots that are seen of its account and nothing else. One that
  deploys starts only where no code is seen. -/
  | enterOwn {l parent child : Layer} {below : List Layer} (hsame : l.Same parent)
      (hkind : child.frame.call.kind ≠ .internal) (hcontents : child.contents =
        .fresh (slotsSeen world (parent :: below) child.contract).nonzero)
      (hempty : child.frame.creation = true →
        ((codeSeen world (parent :: below) child.contract).getD ByteArray.empty).size = 0) :
      Change world .enter (l :: below) (child :: parent :: below)
  /-- A frame that has succeeded hands its contents over. -/
  | leave {child parent : Layer} {below : List Layer} {x : Contents}
      (hsuccess : child.frame.isSuccess = true) (hhanded : Handed child parent x) :
      Change world
        (.leave (if child.frame.creation then some (child.contract, child.frame.output) else none))
        (child :: parent :: below) (⟨child.frame.learn parent.frame, x⟩ :: below)
  /-- After a frame that has reverted its parent has what it had before. -/
  | rollback {child parent : Layer} {below : List Layer}
      (hreverted : child.frame.isSuccess = false) :
      Change world .rollback (child :: parent :: below)
        (⟨child.frame.learn parent.frame, parent.contents⟩ :: below)

/-- Halting because of a fault changes nothing that was settled when the frame was opened. -/
theorem Frame.site_fail (cause : Fault) (f : Frame) : (f.fail cause).site = f.site := by
  unfold Frame.fail
  split <;> rfl

/-- An instruction that neither reads nor writes slots. -/
theorem Event.of_local_quiet {op : Opcode} (hload : op ≠ .sload) (hstore : op ≠ .sstore)
    (account : Address) (before after : List Word) :
    Event.ofLocal op account before after = .quiet := by
  unfold Event.ofLocal
  split
  · exact absurd rfl hload
  · exact absurd rfl hstore
  · rfl

/-- An instruction that asks the call stack for something works on neither the slots nor the verdict
of its frame. -/
theorem Opcode.Asks.caller {op : Opcode} {request : Request} (h : op.Asks request)
    (hrequest : request ≠ .proceed) : Part.slots ∉ op.touches ∧ Part.verdict ∉ op.touches ∧
      op ≠ .sload ∧ op ≠ .sstore := by
  cases request with
  | proceed => exact absurd rfl hrequest
  | internal target gas =>
      cases h
      decide
  | message call gas region =>
      rcases h.1 with rfl | rfl
      · decide
      · decide
  | create value initCode gas =>
      cases h
      decide

namespace Context

variable {c c₁ : Context} {limits : Limits}

theorem step_ok {request : Request}
    (h : onTop (Instruction.fetchAndDispatch ⟨limits, c.depth, c.txn.origin⟩) c = .ok request c₁) :
    c.step limits = serve request c₁ := by
  simp only [step, h]

theorem step_error {e : Abort}
    (h : onTop (Instruction.fetchAndDispatch ⟨limits, c.depth, c.txn.origin⟩) c = .error e c₁) :
    c.step limits = .error e c₁ := by
  simp only [step, h]

end Context

namespace Stands

variable {c c' : Context} {l : Layer} {below : List Layer} {saved : List Contents}
  {limits : Limits}

/-- The operands are those of the topmost layer. -/
theorem operands_eq (h : Stands c l below saved) :
    c.operands = l.contents.operands.toList := by
  obtain ⟨w, hget, hcontents, _⟩ := h.backed
  have hspace : c.pool.get? l.frame.home.cell = some w := hget
  rw [← hcontents]
  simp only [Context.operands, h.frames, hspace]
  rfl

/-- What a completed instruction means that opens no frame. -/
theorem event_same {l' : Layer} {saved' : List Contents} (h : Stands c l below saved)
    (h' : Stands c' l' below saved') (hstep : c.step limits = .ok () c') :
    c.instructionEvent limits = .ofLocal l.frame.currentOp l.contract
      l.contents.operands.toList l'.contents.operands.toList := by
  have hdepth : ¬c.depth < c'.depth := by
    rw [h.depth_eq, h'.depth_eq]
    exact Nat.lt_irrefl _
  rw [← h.operands_eq, ← h'.operands_eq]
  simp only [Context.instructionEvent, hstep, h.frames, if_neg hdepth]
  rfl

/-- What an instruction means that opens a frame. -/
theorem event_enter {child parent : Layer} {saved' : List Contents} (h : Stands c l below saved)
    (h' : Stands c' child (parent :: below) saved') (hstep : c.step limits = .ok () c') :
    c.instructionEvent limits = .enter := by
  have hdepth : c.depth < c'.depth := by
    rw [h.depth_eq, h'.depth_eq, List.length_cons]
    exact Nat.lt_succ_self _
  simp only [Context.instructionEvent, hstep, h.frames, if_pos hdepth]

/-- A refused instruction halts the frame; the accounts stay as they are. -/
theorem refuse (h : Stands c' l below saved) {c₀ : Context} {l₀ : Layer} {e : Abort}
    {c'' : Context} (hsame : l₀.Same l) (hwork : Confined [l₀.cell] c₀ c')
    (hstep : c₀.step limits = .error e c') (hfail : c₀.stepOrFail limits = .ok () c'') :
    ∃ l', Stands c'' l' below saved ∧
      Change c₀.world (c₀.instructionEvent limits) (l₀ :: below) (l' :: below) ∧
      Confined [l₀.cell] c₀ c'' := by
  have hevent : c₀.instructionEvent limits = .quiet := by
    simp [Context.instructionEvent, hstep]
  have hcell : l.cell = l₀.cell := Frame.cell_of_site hsame.site
  cases e with
  | overflow => simp [Context.stepOrFail, hstep] at hfail
  | fault e =>
      simp only [Context.stepOrFail, hstep] at hfail
      cases hfail
      obtain ⟨hstands, hconfined⟩ := h.update_top (Frame.site_fail e l.frame)
      refine ⟨_, hstands, ?_, hwork.trans (hcell ▸ hconfined)⟩
      rw [hevent]
      exact .quiet (hsame.trans ⟨Frame.site_fail e l.frame, rfl, rfl⟩)

/-- A completed instruction that opens no frame. -/
theorem proceed (h : Stands c l below saved) {v w : Workspace} {f : Frame} {env : Surroundings}
    (hcontents : v.contents = l.contents)
    (hact : Instruction.fetchAndDispatch env ⟨l.frame, some v⟩ = .ok .proceed ⟨f, some w⟩)
    (htouches : Touches l.frame.currentOp.touches ⟨l.frame, some v⟩ ⟨f, some w⟩)
    (hstands : Stands c' ⟨f, w.contents⟩ below saved) (hstep : c.step limits = .ok () c') :
    Change c.world (c.instructionEvent limits) (l :: below) (⟨f, w.contents⟩ :: below) := by
  have hevent : c.instructionEvent limits =
      .ofLocal l.frame.currentOp l.contract v.stack.items.toList w.stack.items.toList := by
    rw [h.event_same hstands hstep, ← hcontents]
    rfl
  rw [hevent]
  by_cases hload : l.frame.currentOp = .sload
  · obtain ⟨key, rest, hitems, w', hspace, hitems'⟩ := Instruction.fetch_sload hact hload rfl
    cases hspace
    have hslots : v.storage.load key = l.contents.slots.load key := by
      rw [← hcontents]
      rfl
    rw [hload] at htouches ⊢
    simp only [hitems, hitems', Event.ofLocal, hslots]
    exact .load key (.of_touches hcontents htouches (by decide))
  by_cases hstore : l.frame.currentOp = .sstore
  · obtain ⟨key, value, rest, hitems, _, w', hspace, hslots⟩ :=
      Instruction.fetch_sstore hact hstore rfl
    cases hspace
    have hpending : w.pending = v.pending := by simpa using htouches.pending_eq
    rw [hstore]
    simp only [hitems, Event.ofLocal]
    refine .store key value htouches.site_eq ?_ ?_
    · rw [← hcontents]
      exact congrArg Pending.accounts hpending
    · rw [← hcontents]
      exact hslots
  · rw [Event.of_local_quiet hload hstore]
    refine .quiet (.of_touches hcontents htouches ?_)
    cases hop : l.frame.currentOp with
    | sstore => exact absurd hop hstore
    | _ => simp [Opcode.touches, Part.common]

/-- An instruction is a change of the layers, and only the topmost workspace takes part in it. -/
theorem instruction (h : Stands c l below saved) (hrunning : l.frame.running = true)
    (hstep : c.stepOrFail limits = .ok () c') :
    ∃ l' below' saved', Stands c' l' below' saved' ∧
      Change c.world (c.instructionEvent limits) (l :: below) (l' :: below') ∧
      Confined [l.cell] c c' := by
  let env : Surroundings := ⟨limits, c.depth, c.txn.origin⟩
  obtain ⟨v, w, f, hget, hcontents, htouches, hstands, hconfined, hresult⟩ :=
    h.on_top (Instruction.fetchAndDispatch env) l.frame.currentOp.touches
      fun v => fetch_within env ⟨l.frame, some v⟩
  have hcell : (Layer.mk f w.contents).cell = l.cell :=
    Frame.cell_of_site htouches.site_eq
  rcases hresult with ⟨request, hact, htop⟩ | ⟨e, hact, htop⟩
  · have hserve := Context.step_ok htop
    have hasks := Instruction.fetch_request hact
    by_cases hrequest : request = .proceed
    · cases hrequest
      have hdone : c.step limits = .ok () (c.putTop f w) := hserve
      simp only [Context.stepOrFail, hdone] at hstep
      cases hstep
      exact ⟨_, below, saved, hstands, h.proceed hcontents hact htouches hstands hdone, hconfined⟩
    obtain ⟨hslots, hverdict, hload, hstore⟩ := hasks.caller hrequest
    have hsame := Layer.Same.of_touches hcontents htouches hslots
    have hserved := hstands.serve ((htouches.running_eq hverdict).trans hrunning) hasks
    rw [← hserve] at hserved
    generalize hresult : c.step limits = result at hserved
    cases hserved with
    | stays hsame₁ hstands₁ hconfined₁ =>
        simp only [Context.stepOrFail, hresult] at hstep
        cases hstep
        refine ⟨_, below, saved, hstands₁, ?_, hconfined.trans (hcell ▸ hconfined₁)⟩
        rw [h.event_same hstands₁ hresult, Event.of_local_quiet hload hstore]
        exact .quiet (hsame.trans hsame₁)
    | refused hsame₁ hstands₁ hconfined₁ =>
        obtain ⟨l', hrest⟩ := hstands₁.refuse (hsame.trans hsame₁)
          (hconfined.trans (hcell ▸ hconfined₁)) hresult hstep
        exact ⟨l', below, saved, hrest⟩
    | internal hkind hstands₁ hconfined₁ =>
        simp only [Context.stepOrFail, hresult] at hstep
        cases hstep
        refine ⟨_, _, _, hstands₁, ?_, hconfined.trans (hcell ▸ hconfined₁)⟩
        rw [h.event_enter hstands₁ hresult]
        obtain ⟨hoperands, hspace⟩ := Instruction.fetch_internal hact rfl
        cases hspace
        have hop : l.frame.currentOp = .callInternal := hasks
        rw [hop] at htouches
        refine .enterInternal ⟨htouches.site_eq, ?_, ?_, ?_, ?_⟩ hkind rfl
        · rw [← hcontents]
          exact hoperands
        · rw [← hcontents]
          rfl
        · exact htouches.logs_eq (by decide)
        · exact htouches.refunds_eq (by decide)
    | own child hsame₁ hkind hempty hstands₁ hconfined₁ =>
        simp only [Context.stepOrFail, hresult] at hstep
        cases hstep
        refine ⟨_, _, _, hstands₁, ?_, hconfined.trans (hcell ▸ hconfined₁)⟩
        rw [h.event_enter hstands₁ hresult]
        refine .enterOwn (hsame.trans hsame₁) hkind ?_ ?_
        · rw [← slots_seen_congr hconfined.storage]
          rfl
        · rw [← code_seen_congr hconfined.code]
          exact hempty
  · have herror := Context.step_error htop
    obtain ⟨parts, hparts, htouches'⟩ := Instruction.fetch_refused hact
    have hsame := Layer.Same.of_touches hcontents htouches' hparts
    obtain ⟨l', hrest⟩ := hstands.refuse hsame hconfined herror hstep
    exact ⟨l', below, saved, hrest⟩

/-- Taking up the result of a child leaves all accounts alone. -/
theorem resume (h : Stands c l below saved) {result : FinishedCall}
    (hresume : c.resumeOrFail limits result = .ok () c') :
    ∃ l', Stands c' l' below saved ∧ l.Same l' ∧ Confined [l.cell] c c' := by
  obtain ⟨v, w, f, _, hcontents, htouches, hstands, hconfined, hresult⟩ :=
    h.on_top (Exec.resume limits result) Part.resumption
      fun v => Exec.Within.resume limits result ⟨l.frame, some v⟩
  have hsame := Layer.Same.of_touches hcontents htouches (by decide)
  rcases hresult with ⟨_, _, htop⟩ | ⟨e, _, htop⟩
  · simp only [Context.resumeOrFail, htop] at hresume
    cases hresume
    exact ⟨_, hstands, hsame, hconfined⟩
  · cases e with
    | overflow => simp [Context.resumeOrFail, htop] at hresume
    | fault e =>
        simp only [Context.resumeOrFail, htop] at hresume
        cases hresume
        obtain ⟨hstands', hconfined'⟩ := hstands.update_top (Frame.site_fail e f)
        have hcell : (Layer.mk f w.contents).cell = l.cell :=
          Frame.cell_of_site hsame.site
        exact ⟨_, hstands', hsame.trans ⟨Frame.site_fail e f, rfl, rfl⟩,
          hconfined.trans (hcell ▸ hconfined')⟩

/-- Finishing a frame is a change of the layers. -/
theorem finished (h : Stands c l below saved) {result : FinishedCall}
    (hhalted : c.isRunning = false)
    (hfinish : c.finishChild = .ok result c') :
    ∃ l' below' saved', Stands c' l' below' saved' ∧
      Change c.world c.endEvent (l :: below) (l' :: below') ∧
      Confined [l.cell, l'.cell] c c' := by
  obtain ⟨parent, below, rfl⟩ := h.below_of_finished hfinish
  obtain ⟨c₁, x, saved', hdone, hstands, hconfined, hhanded, _⟩ :=
    h.finish (h.is_running.symm.trans hhalted)
  cases hfinish.symm.trans hdone
  have hcell : (Layer.mk (l.frame.learn parent.frame) x).cell = parent.cell :=
    Frame.cell_of_site (Frame.site_learn _ _)
  refine ⟨_, below, saved', hstands, ?_, by rw [hcell]; exact hconfined⟩
  by_cases hsuccess : l.frame.isSuccess = true
  · have hevent : c.endEvent = .leave
        (if l.frame.creation then some (l.contract, l.frame.output) else none) := by
      simp only [Context.endEvent, h.frames, hsuccess, if_true]
      rfl
    rw [hevent]
    exact .leave hsuccess hhanded
  · have hreverted : l.frame.isSuccess = false := by simpa using hsuccess
    have hevent : c.endEvent = .rollback := by
      simp [Context.endEvent, h.frames, hreverted]
    rw [hevent, hhanded.reverted hreverted]
    exact .rollback hreverted

/-- Every move of a run is a change of the layers, and only the workspaces of the topmost frame
before and after it take part in it. -/
theorem move {s t : RunState} (h : Stands s.context l below saved) (hmove : Move limits s t) :
    ∃ l' below' saved', Stands t.context l' below' saved' ∧
      Change s.context.world (s.event limits) (l :: below) (l' :: below') ∧
      Confined [l.cell, l'.cell] s.context t.context := by
  cases hmove with
  | instruction hrunning hstep =>
      obtain ⟨l', below', saved', hstands, hchange, hconfined⟩ :=
        h.instruction (h.is_running.symm.trans hrunning) hstep
      refine ⟨l', below', saved', hstands, ?_, hconfined.mono (by simp)⟩
      simpa [RunState.event, hrunning] using hchange
  | finish hhalted hfinish =>
      obtain ⟨l', below', saved', hstands, hchange, hconfined⟩ := h.finished hhalted hfinish
      refine ⟨l', below', saved', hstands, ?_, hconfined⟩
      simpa [RunState.event, hhalted] using hchange
  | resume hresume =>
      obtain ⟨l', hstands, hsame, hconfined⟩ := h.resume hresume
      exact ⟨l', below, saved, hstands, .quiet hsame, hconfined.mono (by simp)⟩

end Stands
end CallTree
