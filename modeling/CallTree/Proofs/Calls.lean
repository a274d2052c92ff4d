import CallTree.Proofs.Outcomes
import CallTree.Proofs.Views

/-!
# Opening and finishing frames

What the call stack does to its layers. `Stands.open_internal` puts a layer with the same contents
on top, `Stands.open_own` one with a new workspace. In both cases a frame that would be too deep
goes away without a trace. `Stands.finish` takes the topmost layer off: it always succeeds, and
says which contents the frame below has afterwards.
-/

namespace CallTree

/-- What a frame has at hand when it starts on a workspace of its own. -/
def Contents.fresh (slots : Slots) : Contents :=
  ⟨.empty, ByteArray.empty, slots, {}⟩

/-- A layer that has gone on without a change to any account. -/
structure Layer.Same (l l' : Layer) : Prop where
  site : l'.frame.site = l.frame.site
  slots : l'.contents.slots = l.contents.slots
  accounts : l'.contents.accounts = l.contents.accounts

namespace Layer.Same

variable {l l' l'' : Layer}

theorem refl (l : Layer) : Same l l :=
  ⟨rfl, rfl, rfl⟩

theorem trans (h : Same l l') (h' : Same l' l'') : Same l l'' :=
  ⟨h'.site.trans h.site, h'.slots.trans h.slots, h'.accounts.trans h.accounts⟩

/-- Work on other parts than the slots. -/
theorem of_touches {parts : List Part} {v w : Workspace} {f : Frame}
    (hcontents : v.contents = l.contents)
    (h : Touches parts ⟨l.frame, some v⟩ ⟨f, some w⟩) (hparts : Part.slots ∉ parts) :
    Same l ⟨f, w.contents⟩ := by
  have hslots : w.storage.slots = v.storage.slots := by simpa using h.slots_eq hparts
  have hpending : w.pending = v.pending := by simpa using h.pending_eq
  refine ⟨h.site_eq, ?_, ?_⟩
  · rw [← hcontents]
    exact hslots
  · rw [← hcontents]
    exact congrArg Pending.accounts hpending

/-- The same code is seen from both. -/
theorem code_seen (h : l.Same l') (world : World) (below : List Layer) :
    codeSeen world (l' :: below) = codeSeen world (l :: below) := by
  funext a
  rw [code_seen_cons, code_seen_cons, rooms_tail_congr (congrArg Site.home h.site)]
  simp only [Layer.codeAt?, h.accounts]

end Layer.Same

namespace Frame

variable {f : Frame} {pool : Pool Workspace}

/-- Closing the checkpoints of an internal call. -/
theorem settle_shared_marks {marks : Marks} {w : Workspace} (keep : Bool)
    (hmarks : f.marks = some marks) (hget : pool.get? f.home.cell = some w) :
    f.settleShared keep pool = .ok () (pool.set f.home.cell (w.settle keep marks)) := by
  rw [settleShared, hmarks]
  exact Pool.modify_of_get _ _ (fun w => ((), w.settle keep marks)) hget

/-- Other calls have opened none. -/
theorem settle_shared_none (keep : Bool) (hmarks : f.marks = none) :
    f.settleShared keep pool = .ok () pool := by
  rw [settleShared, hmarks]
  rfl

end Frame

namespace Context

variable {c : Context} {f : Frame}

/-- How many operands the workspace in a cell may hold. -/
def operandLimit? (cell : Nat) (c : Context) : Option Nat :=
  (c.pool.get? cell).map (·.stack.limit)

theorem operand_limit_eq {cell : Nat} {w : Workspace} (h : c.pool.get? cell = some w) :
    c.operandLimit? cell = some w.stack.limit := by
  rw [operandLimit?, h]
  rfl

theorem push_frame_ok (h : ¬c.limits.maxCallDepth < c.depth + 1) :
    pushFrame f c = .ok () { c with frames := c.frames.push f } :=
  if_neg h

/-- A frame that would be too deep is undone and goes away. -/
theorem push_frame_deep {pool : Pool Workspace} (h : c.limits.maxCallDepth < c.depth + 1)
    (hsettle : f.settleShared false c.pool = .ok () pool) :
    ∃ e, pushFrame f c = .error (.fault e) { c with pool := pool.release f.home } := by
  refine ⟨.callDepthExceeded (c.depth + 1) c.limits.maxCallDepth, ?_⟩
  rw [pushFrame, if_pos h]
  simp only [onPool, hsettle]
  rfl

end Context

/-- What is confined to other cells leaves the limit of a workspace alone. -/
theorem Confined.operand_limit {cells : List Nat} {c c' : Context} {cell max : Nat}
    (h : Confined cells c c') (hcell : cell ∉ cells) (hlimit : c.operandLimit? cell = some max) :
    c'.operandLimit? cell = some max := by
  obtain ⟨w, hget, hw⟩ := Option.map_eq_some_iff.1 hlimit
  rw [Context.operand_limit_eq (h.pool cell w hcell hget), hw]

/-- The layer `l` has become `l'` by payments and by operands for which there was room. -/
structure Layer.Keeps (c c' : Context) (l l' : Layer) : Prop where
  limit : c'.operandLimit? l.cell = c.operandLimit? l.cell
  operands : ∀ max, c.operandLimit? l.cell = some max → l.contents.operands.size ≤ max →
    l'.contents.operands.size ≤ max
  bytes : l'.contents.bytes = l.contents.bytes
  frame : ∃ gas, l'.frame = { l.frame with gas := gas }

namespace Layer.Keeps

variable {c c' c'' : Context} {l l' l'' : Layer}

/-- The layer itself, where the limit of its workspace is the same. -/
theorem of_limit (hlimit : c'.operandLimit? l.cell = c.operandLimit? l.cell) : l.Keeps c c' l :=
  ⟨hlimit, fun _ _ hle => hle, rfl, l.frame.gas, rfl⟩

theorem trans (h : l.Keeps c c' l') (h' : l'.Keeps c' c'' l'') : l.Keeps c c'' l'' := by
  obtain ⟨gas, hframe⟩ := h.frame
  obtain ⟨gas', hframe'⟩ := h'.frame
  have hcell : l'.cell = l.cell := by
    rw [cell, hframe]
    rfl
  have hlimit := h'.limit
  rw [hcell] at hlimit
  refine ⟨hlimit.trans h.limit, fun max hmax hle => ?_, h'.bytes.trans h.bytes, gas', ?_⟩
  · exact h'.operands max (by rw [hcell, h.limit, hmax]) (h.operands max hmax hle)
  · rw [hframe', hframe]

end Layer.Keeps

namespace Stands

variable {c : Context} {l : Layer} {below : List Layer} {saved : List Contents}

/-- The numbers of the workspaces in use have been given out. -/
theorem cell_lt (h : Stands c l below saved) : ∀ m ∈ l :: below, m.cell < c.pool.cells.size := by
  intro m hm
  obtain ⟨w, hget⟩ := h.live m hm
  exact Pool.lt_size_of_get hget

/-- A new state of the topmost workspace. -/
theorem set_space {w : Workspace} (h : Stands c l below saved) (hcontents : w.contents = l.contents)
    (hsaved : w.Recalls saved) {c' : Context} (hframes : c'.frames = c.frames)
    (hpool : c'.pool = c.pool.set l.cell w) (hworld : c'.world = c.world) :
    Stands c' l below saved ∧ Confined [l.cell] c c' := by
  obtain ⟨old, hold, _, _⟩ := h.backed
  have hconfined : Confined [l.cell] c c' := by
    refine ⟨fun cell v hother hget => ?_, by rw [hworld], by rw [hworld]⟩
    rw [hpool, Pool.get_set_other _ _ fun he => hother (by simp [he])]
    exact hget
  refine ⟨h.transfer (hframes ▸ h.frames) rfl ⟨w, ?_, hcontents, hsaved⟩ hconfined, hconfined⟩
  rw [hpool]
  exact Pool.get_set_same hold

/-- An internal call starts with the contents of its caller, which the checkpoints remember. One
that would be too deep leaves no trace. -/
theorem open_internal (h : Stands c l below saved) (hrunning : l.frame.running = true)
    (target gas : Nat) :
    (∃ origin marks c', Context.serve (.internal target gas) c = .ok () c' ∧
      Stands c' ⟨l.frame.internal origin target gas marks, l.contents⟩ (l :: below)
        (l.contents :: saved) ∧
      Confined [l.cell] c c' ∧ c'.operandLimit? l.cell = c.operandLimit? l.cell) ∨
    c.limits.maxCallDepth < c.depth + 1 ∧
      ∃ e c', Context.serve (.internal target gas) c = .error (.fault e) c' ∧
        Stands c' l below saved ∧ Confined [l.cell] c c' ∧
        c'.operandLimit? l.cell = c.operandLimit? l.cell := by
  obtain ⟨w, hget, hcontents, hsaved⟩ := h.backed
  obtain ⟨hmarks, hsame, hsaved'⟩ := hsaved.checkpoint
  let child := l.frame.internal c.txn.origin target gas (.level saved.length)
  let c₁ : Context := { c with pool := c.pool.set l.cell w.checkpoint.2 }
  have hget₁ : c₁.pool.get? child.home.cell = some w.checkpoint.2 := Pool.get_set_same hget
  have hprepare : Context.prepareInternal target gas c = .ok child c₁ := by
    have hmodify := Pool.modify_of_get .stack l.frame.home Workspace.checkpoint hget
    simp only [Context.prepareInternal, h.top_eq, Context.onPool, hmodify, hmarks]
    rfl
  have hserve : Context.serve (.internal target gas) c = Context.pushFrame child c₁ := by
    rw [Context.serve, Action.bind_ok hprepare]
  have hconfined : Confined [l.cell] c c₁ := by
    refine ⟨fun cell v hother hold => ?_, rfl, rfl⟩
    show (c.pool.set l.cell _).get? cell = some v
    rw [Pool.get_set_other _ _ fun he => hother (by simp [he])]
    exact hold
  rw [hserve]
  by_cases hdeep : c₁.limits.maxCallDepth < c₁.depth + 1
  · -- The checkpoints are closed again and bring back what was there.
    obtain ⟨hback, hsaved''⟩ := hsaved'.settle false
    obtain ⟨e, hpush⟩ := Context.push_frame_deep hdeep (Frame.settle_shared_marks false rfl hget₁)
    let back := w.checkpoint.2.settle false (.level saved.length)
    let c₂ : Context := { c with pool := c.pool.set l.cell back }
    have hpool : (c₁.pool.set child.home.cell back).release child.home = c₂.pool :=
      Pool.set_set_same _ _ _ _
    rw [hpool] at hpush
    obtain ⟨hstands, hconfined'⟩ : Stands c₂ l below saved ∧ Confined [l.cell] c c₂ :=
      h.set_space (hback.trans hcontents) hsaved'' rfl rfl rfl
    have hlimit : c₂.operandLimit? l.cell = some back.stack.limit :=
      Context.operand_limit_eq (Pool.get_set_same hget)
    have hsettled : back.stack.limit = w.checkpoint.2.stack.limit := Stack.limit_settle false _ _
    rw [hsettled] at hlimit
    refine .inr ⟨hdeep, e, c₂, hpush, hstands, hconfined', ?_⟩
    rw [Context.operand_limit_eq hget]
    exact hlimit
  · refine .inl ⟨c.txn.origin, .level saved.length, _, Context.push_frame_ok hdeep, ⟨?_, ?_, ?_⟩,
      ⟨hconfined.pool, rfl, rfl⟩, ?_⟩
    · show child :: c.frames.toList = _
      rw [h.frames]
      rfl
    · refine .internal (h.chain.congr_pool fun m _ v hne hold => ?_) hrunning rfl rfl rfl rfl rfl
      exact hconfined.pool m.cell v (by simpa using hne) hold
    · exact ⟨_, hget₁, hsame.trans hcontents, hcontents ▸ hsaved'⟩
    · have hlimit : c₁.operandLimit? l.cell = some w.checkpoint.2.stack.limit :=
        Context.operand_limit_eq hget₁
      rw [Context.operand_limit_eq hget]
      exact hlimit

/-- Any other call starts on a workspace of its own. One that would be too deep leaves no
trace. -/
theorem open_own (h : Stands c l below saved) (hrunning : l.frame.running = true)
    {limits : Limits} {slots : Slots} {code : Bytes} {gas : Nat} {call : CallData} {child : Frame}
    (hkind : call.kind ≠ .internal)
    (hsite : child.site = (c.newFrame limits (.ofSlots slots) code gas call).1.site) :
    (∃ c', Context.pushFrame child (c.newFrame limits (.ofSlots slots) code gas call).2 =
        .ok () c' ∧
      Stands c' ⟨child, .fresh slots.nonzero⟩ (l :: below) [] ∧ Confined [] c c' ∧
      c'.operandLimit? child.home.cell = some limits.maxStackSize) ∨
    c.limits.maxCallDepth < c.depth + 1 ∧
      ∃ e c', Context.pushFrame child (c.newFrame limits (.ofSlots slots) code gas call).2 =
        .error (.fault e) c' ∧ Stands c' l below saved ∧ Confined [] c c' := by
  let space : Workspace :=
    { stack := .withLimit limits.maxStackSize
      memory := .withLimit limits.maxMemorySize
      storage := .ofSlots slots }
  let c₁ : Context := { c with pool := (c.pool.alloc space).2 }
  have hhome : child.home = .owned c.pool.cells.size := congrArg Site.home hsite
  have hcall : child.call = call := congrArg Site.call hsite
  have hmarks : child.marks = none := congrArg Site.marks hsite
  have hconfined : Confined [] c c₁ := by
    refine ⟨fun cell v _ hold => ?_, rfl, rfl⟩
    exact (Pool.get_alloc_other space (Pool.lt_size_of_get hold)).trans hold
  obtain ⟨w, hget, hcontents, hsaved⟩ := h.backed
  have hget' : c₁.pool.get? l.cell = some w :=
    (Pool.get_alloc_other space (Pool.lt_size_of_get hget)).trans hget
  show (∃ c', Context.pushFrame child c₁ = .ok () c' ∧ _) ∨
    c.limits.maxCallDepth < c.depth + 1 ∧
      ∃ e c', Context.pushFrame child c₁ = .error (.fault e) c' ∧ _
  by_cases hdeep : c₁.limits.maxCallDepth < c₁.depth + 1
  · obtain ⟨e, hpush⟩ := Context.push_frame_deep hdeep (Frame.settle_shared_none false hmarks)
    -- Only the new cell is freed.
    have hrelease : ∀ cell v, c.pool.get? cell = some v →
        (c₁.pool.release child.home).get? cell = some v := by
      intro cell v hold
      have hlt := Pool.lt_size_of_get hold
      rw [Pool.get_release_other _ fun he => ?_, Pool.get_alloc_other space hlt]
      · exact hold
      · cases hhome.symm.trans he
        exact Nat.lt_irrefl _ hlt
    have hconfined' : Confined [] c { c₁ with pool := c₁.pool.release child.home } :=
      ⟨fun cell v _ hold => hrelease cell v hold, rfl, rfl⟩
    refine .inr ⟨hdeep, e, _, hpush, h.transfer h.frames rfl ?_ (hconfined'.mono (by simp)), hconfined'⟩
    exact ⟨w, hrelease _ _ hget, hcontents, hsaved⟩
  · have hspace : c₁.pool.get? child.home.cell = some space := by
      rw [hhome]
      exact Pool.get_alloc_same _ _
    refine .inl ⟨_, Context.push_frame_ok hdeep, ⟨?_, ?_, ?_⟩, ⟨hconfined.pool, rfl, rfl⟩,
      Context.operand_limit_eq hspace⟩
    · show child :: c.frames.toList = _
      rw [h.frames]
      rfl
    · have hbacked : l.Backed c₁.pool saved := ⟨w, hget', hcontents, hsaved⟩
      have hstands : Stands c₁ l below saved :=
        h.transfer h.frames rfl hbacked (hconfined.mono (by simp))
      have hbelow := hstands.chain
      refine .own hbelow hrunning hbacked (by rw [hhome]; rfl) (hcall ▸ hkind) hmarks ?_
      intro m hm he
      have hlt := h.cell_lt m hm
      have hcell : (Layer.mk child (.fresh slots.nonzero)).cell = c.pool.cells.size := by
        rw [Layer.cell, hhome]
        rfl
      rw [he, hcell] at hlt
      exact Nat.lt_irrefl _ hlt
    · exact ⟨space, hspace, rfl, rfl, Memory.recalls_with_limit _, Storage.recalls_of_slots _, rfl⟩

end Stands

/-! ## Requests -/

/-- The part of the caller's memory that is meant for what comes of a request. -/
def Request.region : Request → Region
  | .message _ _ region => region
  | _ => {}

/-- Whether a request asks for a frame on a workspace of its own. -/
def Request.opensOwn : Request → Bool
  | .message _ _ _ | .create _ _ _ => true
  | _ => false

/-- The frame is new, and its output is meant for the given region. -/
structure Frame.Opened (region : Region) (f : Frame) : Prop where
  output : f.output = ByteArray.empty
  staged : f.staged = .empty
  region : f.returnRegion = region

/-- How a request of the topmost frame is served. -/
inductive Served (c : Context) (l : Layer) (below : List Layer) (saved : List Contents) :
    Request → EStateM.Result Abort Context Unit → Prop
  /-- The frame goes on. -/
  | stays {request : Request} {l₁ : Layer} {c' : Context} (hsame : l.Same l₁)
      (hstands : Stands c' l₁ below saved) (hconfined : Confined [l.cell] c c')
      (hkeeps : l.Keeps c c' l₁) : Served c l below saved request (.ok () c')
  /-- The request is refused. -/
  | refused {request : Request} {l₁ : Layer} {c' : Context} {e : Abort} (hsame : l.Same l₁)
      (hstands : Stands c' l₁ below saved) (hconfined : Confined [l.cell] c c')
      (hkeeps : l.Keeps c c' l₁) : Served c l below saved request (.error e c')
  /-- A frame is opened on the same workspace. -/
  | internal {target gas : Nat} {child : Frame} {c' : Context}
      (hkind : child.call.kind = .internal)
      (hstands : Stands c' ⟨child, l.contents⟩ (l :: below) (l.contents :: saved))
      (hconfined : Confined [l.cell] c c') (hkeeps : l.Keeps c c' l) (hopened : child.Opened {}) :
      Served c l below saved (.internal target gas) (.ok () c')
  /-- A frame is opened on a workspace of its own, with the slots that are seen of its account. One
  that deploys is opened only where no code is seen. -/
  | own {request : Request} (child : Frame) {l₁ : Layer} {c' : Context} (hsame : l.Same l₁)
      (hkind : child.call.kind ≠ .internal)
      (hempty : child.creation = true →
        ((codeSeen c.world (l₁ :: below) child.call.contract).getD ByteArray.empty).size = 0)
      (hstands : Stands c' ⟨child, .fresh
        (slotsSeen c.world (l₁ :: below) child.call.contract).nonzero⟩ (l₁ :: below) [])
      (hconfined : Confined [l.cell] c c') (hkeeps : l.Keeps c c' l₁)
      (hcontents : l₁.contents = l.contents) (hopened : child.Opened request.region)
      (hlimit : (c'.operandLimit? child.home.cell).isSome = true)
      (hown : request.opensOwn = true) : Served c l below saved request (.ok () c')

namespace Stands

variable {c : Context} {l : Layer} {below : List Layer} {saved : List Contents}

theorem serve_internal (h : Stands c l below saved) (hrunning : l.frame.running = true)
    (target gas : Nat) :
    Served c l below saved (.internal target gas) (Context.serve (.internal target gas) c) := by
  rcases h.open_internal hrunning target gas with
    ⟨_, _, c', hserve, hstands, hconfined, hlimit⟩ | ⟨_, e, c', hserve, hstands, hconfined, hlimit⟩
  · rw [hserve]
    exact .internal rfl hstands hconfined (.of_limit hlimit) ⟨rfl, rfl, rfl⟩
  · rw [hserve]
    exact .refused (.refl l) hstands hconfined (.of_limit hlimit)

/-- A frame on a workspace of its own starts with the slots that are seen of its account. -/
theorem prepare_own (h : Stands c l below saved) (code : Bytes) (gas : Nat) (call : CallData) :
    Context.prepareExternal code gas call c =
      .ok (.new code gas call (.owned c.pool.cells.size))
        (c.newFrame c.limits (.ofSlots (slotsSeen c.world (l :: below) call.contract)) code gas
          call).2 := by
  simp only [Context.prepareExternal, h.storage_view]
  rfl

/-- The limit of the topmost workspace stays where nothing happens to the workspaces in use. -/
theorem keeps_of_confined (h : Stands c l below saved) {c' : Context} (hconfined : Confined [] c c') :
    l.Keeps c c' l := by
  obtain ⟨w, hget, _, _⟩ := h.backed
  have hlimit := Context.operand_limit_eq hget
  exact .of_limit ((hconfined.operand_limit List.not_mem_nil hlimit).trans hlimit.symm)

/-- Opening a frame on a workspace of its own, with the slots that are seen of its account, after
work in the topmost frame that has left all accounts alone. -/
theorem serve_own {c₀ : Context} {l₀ : Layer} (h : Stands c l below saved)
    (hrunning : l.frame.running = true) (hsame : l₀.Same l) (hwork : Confined [l₀.cell] c₀ c)
    (hkeeps : l₀.Keeps c₀ c l) (hcontents : l.contents = l₀.contents)
    {code : Bytes} {gas : Nat} {call : CallData} (hkind : call.kind ≠ .internal)
    (hempty : call.kind = .create →
      ((codeSeen c.world (l :: below) call.contract).getD ByteArray.empty).size = 0)
    {request : Request} {g : Frame → Frame} (hsite : ∀ f, (g f).site = f.site)
    (hopened : ∀ home, (g (.new code gas call home)).Opened request.region)
    (hown : request.opensOwn = true) :
    Served c₀ l₀ below saved request ((do
      let child ← Context.prepareExternal code gas call
      Context.pushFrame (g child) : Action Context Unit) c) := by
  let slots := slotsSeen c.world (l :: below) call.contract
  let opened := c.newFrame c.limits (.ofSlots slots) code gas call
  have hprepare : Context.prepareExternal code gas call c = .ok opened.1 opened.2 :=
    h.prepare_own code gas call
  have hcell : l.cell = l₀.cell := Frame.cell_of_site hsame.site
  rw [Action.bind_ok hprepare]
  rcases h.open_own hrunning hkind (hsite opened.1) with
    ⟨c', hpush, hstands, hconfined, hlimit⟩ | ⟨_, e, c', hpush, hstands, hconfined⟩
  · rw [hpush]
    have hcall : (g opened.1).call = call := congrArg Site.call (hsite opened.1)
    have hcreation : (g opened.1).creation = (call.kind == .create) :=
      congrArg Site.creation (hsite opened.1)
    refine .own (g opened.1) hsame (hcall ▸ hkind) (fun hdeploys => ?_) ?_
      (hwork.trans (hconfined.mono (by simp))) (hkeeps.trans (h.keeps_of_confined hconfined))
      hcontents (hopened _) (by rw [hlimit]; rfl) hown
    · rw [hcall, ← code_seen_congr hwork.code]
      exact hempty (by simpa [hcreation] using hdeploys)
    · rw [hcall, ← slots_seen_congr hwork.storage]
      exact hstands
  · rw [hpush]
    exact .refused hsame hstands (hwork.trans (hconfined.mono (by simp)))
      (hkeeps.trans (h.keeps_of_confined hconfined))

/-- A message runs the code that is seen at its address. -/
theorem serve_message_eq (h : Stands c l below saved) (call : CallData) (gas : Nat)
    (region : Region) :
    Context.serve (.message call gas region) c = (do
      let child ← Context.prepareExternal
        ((codeSeen c.world (l :: below) call.contract).getD ByteArray.empty) gas call
      Context.pushFrame (child.setReturnData ByteArray.empty region) : Action Context Unit) c := by
  have hget : (get : Action Context Context) c = .ok c c := rfl
  have hcode : (Action.ofExcept (c.codeAt call.contract) : Action Context Bytes) c =
      .ok ((codeSeen c.world (l :: below) call.contract).getD ByteArray.empty) c := by
    rw [h.code_at]
    rfl
  rw [Context.serve, Action.bind_ok hget, Action.bind_ok hcode]

theorem serve_message (h : Stands c l below saved) (hrunning : l.frame.running = true)
    {call : CallData} (gas : Nat) (region : Region) (hkind : call.kind ≠ .internal)
    (hplain : call.kind ≠ .create) :
    Served c l below saved (.message call gas region)
      (Context.serve (.message call gas region) c) := by
  rw [h.serve_message_eq]
  exact h.serve_own hrunning (.refl l) (.refl c) (.of_limit rfl) rfl hkind
    (fun hdeploys => absurd hdeploys hplain)
    (g := Frame.setReturnData ByteArray.empty region) (fun _ => rfl) (fun _ => ⟨rfl, rfl, rfl⟩) rfl

/-- A creation uses up an address and is paid for. It then fails at once where there is code, and
opens a frame where there is none. -/
theorem serve_create_eq (h : Stands c l below saved) (value : Word) (initCode : Bytes) (gas : Nat) :
    Context.serve (.create value initCode gas) c = (do
      Context.onTop (Exec.consumeGas gas)
      if ((codeSeen (c.world.nextCreateAddress l.contract).2 (l :: below)
          (c.world.nextCreateAddress l.contract).1).getD ByteArray.empty).size ≠ 0 then
        Context.onTop (Exec.push 0)
      else
        let origin := (← get).txn.origin
        let child ← Context.prepareExternal initCode gas
          (.create origin l.contract (c.world.nextCreateAddress l.contract).1 value)
        Context.pushFrame child : Action Context Unit)
      { c with world := (c.world.nextCreateAddress l.contract).2 } := by
  let address := (c.world.nextCreateAddress l.contract).1
  let c₁ : Context := { c with world := (c.world.nextCreateAddress l.contract).2 }
  have hstands₁ : Stands c₁ l below saved := ⟨h.frames, h.chain, h.backed⟩
  have hget : (get : Action Context Context) c = .ok c c := rfl
  have htop : (Action.ofExcept c.top : Action Context Frame) c = .ok l.frame c := by
    rw [h.top_eq]
    rfl
  have hnext : (Action.ofTotal fun c : Context =>
      ((c.world.nextCreateAddress l.frame.call.contract).1,
        { c with world := (c.world.nextCreateAddress l.frame.call.contract).2 }) :
          Action Context Address) c = .ok address c₁ := rfl
  have hget₁ : (get : Action Context Context) c₁ = .ok c₁ c₁ := rfl
  have hcode : (Action.ofExcept (c₁.codeAt address) : Action Context Bytes) c₁ =
      .ok ((codeSeen c₁.world (l :: below) address).getD ByteArray.empty) c₁ := by
    rw [hstands₁.code_at]
    rfl
  rw [Context.serve, Action.bind_ok hget, Action.bind_ok htop]
  rw [Action.bind_ok hnext, Action.bind_ok hget₁, Action.bind_ok hcode]
  rfl

/-- Work of the topmost frame that is no more than payments and operands. -/
theorem keeps_of_touches {parts : List Part} {v w : Workspace} {f : Frame}
    (hget : c.pool.get? l.cell = some v) (hcontents : v.contents = l.contents)
    (htouches : Touches parts ⟨l.frame, some v⟩ ⟨f, some w⟩)
    (hparts : ∀ part ∈ parts, part ∈ Part.plain)
    (hoperands : v.stack.items.size ≤ v.stack.limit → w.stack.items.size ≤ w.stack.limit) :
    l.Keeps c (c.putTop f w) ⟨f, w.contents⟩ := by
  have hlimit : w.stack.limit = v.stack.limit := by simpa using htouches.limit_eq
  have hmemory : w.memory = v.memory := by
    simpa using htouches.memory_eq fun hpart => absurd (hparts _ hpart) (by decide)
  have hcell : f.home.cell = l.cell := Frame.cell_of_site htouches.site_eq
  have hget' : (c.putTop f w).pool.get? l.cell = some w := by
    show (c.pool.set f.home.cell w).get? l.cell = some w
    rw [hcell]
    exact Pool.get_set_same hget
  refine ⟨?_, fun max hmax hle => ?_, ?_, htouches.gas_only hparts⟩
  · rw [Context.operand_limit_eq hget', Context.operand_limit_eq hget, hlimit]
  · rw [Context.operand_limit_eq hget] at hmax
    cases hmax
    rw [← hcontents] at hle
    rw [← hlimit]
    exact hoperands hle
  · rw [← hcontents]
    exact congrArg Memory.data hmemory

/-- The address that a creation uses up is of no concern to the layers. -/
theorem serve_create (h : Stands c l below saved) (hrunning : l.frame.running = true)
    (value : Word) (initCode : Bytes) (gas : Nat) :
    Served c l below saved (.create value initCode gas)
      (Context.serve (.create value initCode gas) c) := by
  let address := (c.world.nextCreateAddress l.contract).1
  let c₁ : Context := { c with world := (c.world.nextCreateAddress l.contract).2 }
  have hstands₁ : Stands c₁ l below saved := ⟨h.frames, h.chain, h.backed⟩
  have hconfined₁ : Confined [l.cell] c c₁ := ⟨fun _ _ _ hget => hget, rfl, rfl⟩
  let existing := (codeSeen c₁.world (l :: below) address).getD ByteArray.empty
  rw [h.serve_create_eq]
  obtain ⟨v, w, f, hget, hcontents, htouches, hstands₂, hconfined₂, hpaid⟩ :=
    hstands₁.on_top (Exec.consumeGas gas) [.gas] fun v => Exec.Within.consume_gas (by simp) gas _
  have hsame := Layer.Same.of_touches hcontents htouches (by decide)
  have hwork := hconfined₁.trans hconfined₂
  have hspace : w = v := by simpa using htouches.space_eq (by decide)
  have hpaid₁ : l.Keeps c₁ (c₁.putTop f w) ⟨f, w.contents⟩ :=
    keeps_of_touches hget hcontents htouches (by decide) (by rw [hspace]; exact id)
  have hkeeps : l.Keeps c (c₁.putTop f w) ⟨f, w.contents⟩ :=
    (.of_limit rfl : l.Keeps c c₁ l).trans hpaid₁
  rcases hpaid with ⟨_, _, hpay⟩ | ⟨e, _, hpay⟩
  · rw [Action.bind_ok hpay]
    have hrunning₂ : f.running = true := (htouches.running_eq (by decide)).trans hrunning
    by_cases hcode : existing.size ≠ 0
    · rw [if_pos hcode]
      have hcell : (Layer.mk f w.contents).cell = l.cell :=
        Frame.cell_of_site hsame.site
      obtain ⟨v', w', f', hget', hcontents', htouches', hstands₃, hconfined₃, hpushed⟩ :=
        hstands₂.on_top (Exec.push 0) [.stack] fun v => Exec.Within.push (by simp) 0 _
      have hsame' := Layer.Same.of_touches hcontents' htouches' (by decide)
      rcases hpushed with ⟨_, hact, hpush⟩ | ⟨e, hact, hpush⟩
      · rw [hpush]
        have hkeeps' := keeps_of_touches hget' hcontents' htouches' (by decide)
          (Exec.push_operands (Action.after_ok hact) rfl rfl)
        exact .stays (hsame.trans hsame') hstands₃ (hwork.trans (hcell ▸ hconfined₃))
          (hkeeps.trans hkeeps')
      · rw [hpush]
        have hkeeps' := keeps_of_touches hget' hcontents' htouches' (by decide)
          (Exec.push_operands (Action.after_error hact) rfl rfl)
        exact .refused (hsame.trans hsame') hstands₃ (hwork.trans (hcell ▸ hconfined₃))
          (hkeeps.trans hkeeps')
    · rw [if_neg hcode]
      have hget₂ : (get : Action Context Context) (c₁.putTop f w) =
        .ok (c₁.putTop f w) (c₁.putTop f w) := rfl
      rw [Action.bind_ok hget₂]
      have hempty : ((codeSeen (c₁.putTop f w).world (⟨f, w.contents⟩ :: below) address).getD
          ByteArray.empty).size = 0 := by
        rw [hsame.code_seen]
        exact Decidable.not_not.1 hcode
      have hcontents₂ : w.contents = l.contents := by rw [hspace, hcontents]
      refine hstands₂.serve_own hrunning₂ hsame hwork hkeeps hcontents₂ (by simp [CallData.create]) ?_
        (g := id) (fun _ => rfl) (fun _ => ⟨rfl, rfl, rfl⟩) rfl
      intro _
      exact hempty
  · rw [Action.bind_error hpay]
    exact .refused hsame hstands₂ hwork hkeeps

/-- Every request is served. -/
theorem serve (h : Stands c l below saved) (hrunning : l.frame.running = true) {op : Opcode}
    {request : Request} (hasks : op.Asks request) :
    Served c l below saved request (Context.serve request c) := by
  cases request with
  | proceed => exact .stays (.refl l) h (.refl c) (.of_limit rfl)
  | internal target gas => exact h.serve_internal hrunning target gas
  | message call gas region =>
      refine h.serve_message hrunning gas region ?_ ?_
      · rcases hasks.2 with hkind | hkind
        · simp [hkind]
        · simp [hkind]
      · rcases hasks.2 with hkind | hkind
        · simp [hkind]
        · simp [hkind]
  | create value initCode gas => exact h.serve_create hrunning value initCode gas

end Stands

/-! ## Finishing -/

/-- What a parent has at hand when its child was finished: after a revert what it had before, after
an internal call what the call has left behind, and after any other call what it has absorbed. -/
structure Handed (child parent : Layer) (x : Contents) : Prop where
  reverted : child.frame.isSuccess = false → x = parent.contents
  internal : child.frame.isSuccess = true → child.frame.call.kind = .internal → x = child.contents
  own : child.frame.isSuccess = true → child.frame.call.kind ≠ .internal →
    Contents.Absorbs parent.contract child.frame child.contents parent.contents x

/-- The result of a halted frame, as it is staged in its parent. -/
def Frame.result (child : Frame) : StagedResult :=
  if child.isSuccess then .returned child.returnRegion child.output
  else .reverted (child.revertReason?.getD "") child.output

/-- A parent learns the result of its child, and what that has left of its gas, earned and
emitted. -/
theorem Frame.learn_eq (child parent : Frame) : ∃ gas logs,
    child.learn parent = { parent with gas := gas, logs := logs, staged := child.result } := by
  have hrefund : ∀ (amount : Nat) (f : Frame), ∃ gas, f.refundGas amount = { f with gas := gas } := by
    intro amount f
    unfold Frame.refundGas
    split
    · exact ⟨_, rfl⟩
    · exact ⟨_, rfl⟩
  rw [Frame.learn, Frame.result]
  by_cases hsuccess : child.isSuccess = true
  · rw [if_pos hsuccess, if_pos hsuccess]
    obtain ⟨gas, hgas⟩ := hrefund child.gas.remaining
      (((parent.addLogs child.logs).recordRefund child.gas.refunds).stage
        (.returned child.returnRegion child.output))
    exact ⟨gas, _, hgas⟩
  · rw [if_neg hsuccess, if_neg hsuccess]
    obtain ⟨gas, hgas⟩ := hrefund child.gas.remaining
      (parent.stage (.reverted (child.revertReason?.getD "") child.output))
    exact ⟨gas, _, hgas⟩

/-- What a parent learns changes nothing that was settled when it was opened. -/
theorem Frame.site_learn (child parent : Frame) : (child.learn parent).site = parent.site := by
  obtain ⟨gas, logs, hlearn⟩ := child.learn_eq parent
  rw [hlearn]
  rfl

/-- What a parent that is running learns of a child that has reverted. -/
theorem Frame.learn_reverted {child parent : Frame} (hrunning : parent.running = true)
    (hreverted : child.isSuccess = false) :
    child.learn parent = { parent with
      gas := parent.gas.refund child.gas.remaining
      staged := .reverted (child.revertReason?.getD "") child.output } := by
  simp [Frame.learn, hreverted, Frame.stage, Frame.refundGas, hrunning]

/-- Finishing a frame into its parent takes it off the call stack. -/
theorem Context.finish_child_eq {c : Context} {child parent parent' : Frame} {below : List Frame}
    {pool : Pool Workspace} {result : FinishedCall}
    (hframes : c.frames.toList = child :: parent :: below) (hhalted : child.running = false)
    (hinto : child.finishInto (parent, c.pool) = .ok result (parent', pool)) :
    c.finishChild =
      .ok result { c with frames := (c.frames.drop 2).push parent', pool := pool } := by
  obtain ⟨⟨frames, size, hsize⟩, pool₀, txn, world, own⟩ := c
  cases hframes
  have hpile : ((Pile.drop 2 ⟨child :: parent :: below, size, hsize⟩).push parent') =
      ⟨parent' :: below, size - 1, by rw [hsize]; rfl⟩ := Pile.ext rfl
  simp only [Context.finishChild, hhalted, Bool.false_eq_true, if_false, hinto, hpile]

/-- Its parent is topmost then, and the world is as it was. -/
theorem Context.finish_child_ok {c : Context} {child parent parent' : Frame} {below : List Frame}
    {pool : Pool Workspace} {result : FinishedCall}
    (hframes : c.frames.toList = child :: parent :: below) (hhalted : child.running = false)
    (hinto : child.finishInto (parent, c.pool) = .ok result (parent', pool)) :
    ∃ c', c.finishChild = .ok result c' ∧ c'.frames.toList = parent' :: below ∧ c'.pool = pool ∧
      c'.world = c.world := by
  refine ⟨_, finish_child_eq hframes hhalted hinto, ?_, rfl, rfl⟩
  show parent' :: c.frames.toList.drop 2 = parent' :: below
  rw [hframes]
  rfl

/-- A handle that owns a workspace is known by its cell. -/
theorem Layer.home_of_owned {l : Layer} (howned : l.frame.home.isOwned = true) :
    l.frame.home = .owned l.cell := by
  rw [Layer.cell]
  cases hcase : l.frame.home with
  | owned cell => rfl
  | shared cell => simp [hcase, Handle.isOwned] at howned

/-- A parent that has the workspace `v` now stands where it has stood, once its child and the workspace of
that are gone. -/
theorem Chain.freed {c : Context} {child parent : Layer} {below : List Layer}
    {saved : List Contents} (hbelow : Chain c.pool parent below saved)
    (howned : child.frame.home.isOwned = true)
    (hfresh : ∀ m ∈ parent :: below, m.cell ≠ child.cell) {pool : Pool Workspace} {v : Workspace}
    (hsaved : v.Recalls saved) (hget : pool.get? parent.cell = some v)
    (hkeep : ∀ cell x, cell ≠ parent.cell → c.pool.get? cell = some x → pool.get? cell = some x)
    {c' : Context}
    (hframes : c'.frames.toList = child.frame.learn parent.frame :: below.map (·.frame))
    (hpool : c'.pool = pool.release child.frame.home) (hworld : c'.world = c.world) :
    Stands c' ⟨child.frame.learn parent.frame, v.contents⟩ below saved ∧
      Confined [child.cell, parent.cell] c c' ∧ c'.pool.get? parent.cell = some v := by
  have hfree : ∀ cell, cell ≠ child.cell → c'.pool.get? cell = pool.get? cell := by
    intro cell hne
    rw [hpool]
    refine Pool.get_release_other _ fun he => ?_
    cases (Layer.home_of_owned howned).symm.trans he
    exact hne rfl
  have hconfined : Confined [child.cell, parent.cell] c c' := by
    refine ⟨fun cell x hother hold => ?_, by rw [hworld], by rw [hworld]⟩
    simp only [List.mem_cons, List.not_mem_nil, or_false, not_or] at hother
    rw [hfree cell hother.1]
    exact hkeep cell x hother.2 hold
  have hget' : c'.pool.get? parent.cell = some v := by
    rw [hfree _ (hfresh parent (by simp))]
    exact hget
  refine ⟨⟨hframes, ?_, v, ?_, rfl, hsaved⟩, hconfined, hget'⟩
  · refine (hbelow.congr_pool fun m hm x hne hold => ?_).retop (Frame.site_learn _ _)
    refine hconfined.pool m.cell x ?_ hold
    simp [hne, hfresh m (by simp [hm])]
  · have hcell : (child.frame.learn parent.frame).home.cell = parent.cell :=
      Frame.cell_of_site (Frame.site_learn _ _)
    show c'.pool.get? (child.frame.learn parent.frame).home.cell = some v
    rw [hcell]
    exact hget'

namespace Stands

variable {c : Context} {child parent : Layer} {below : List Layer} {saved : List Contents}

/-- Finishing an internal call closes its checkpoints, and the parent has the copy behind them. -/
theorem finish_internal (h : Stands c child (parent :: below) (parent.contents :: saved))
    (hbelow : Chain c.pool parent below saved)
    (hshare : child.frame.home = parent.frame.home.share)
    (hkind : child.frame.call.kind = .internal)
    (hmarks : child.frame.marks = some (.level saved.length))
    (hhalted : child.frame.running = false) :
    ∃ c' x, c.finishChild = .ok child.frame.finished c' ∧
      Stands c' ⟨child.frame.learn parent.frame, x⟩ below saved ∧
      Confined [child.cell, parent.cell] c c' ∧ Handed child parent x ∧
      c'.operandLimit? parent.cell = c.operandLimit? parent.cell := by
  obtain ⟨w, hget, hcontents, hsaved⟩ := h.backed
  obtain ⟨hsettled, hsaved'⟩ := hsaved.settle child.frame.isSuccess
  have hcell : child.cell = parent.cell := by rw [Layer.cell, hshare]; rfl
  let w' := w.settle child.frame.isSuccess (.level saved.length)
  have hsettle := Frame.settle_shared_marks child.frame.isSuccess hmarks hget
  have hinto : child.frame.finishInto (parent.frame, c.pool) =
      .ok child.frame.finished (child.frame.learn parent.frame, c.pool.set child.cell w') := by
    -- A shared handle frees nothing when it goes away.
    have hrelease : ∀ pool : Pool Workspace, pool.release child.frame.home = pool := by
      intro pool
      rw [hshare]
      rfl
    simp only [Frame.finishInto, Frame.handOver, hkind, if_true, hsettle, hrelease]
    rfl
  obtain ⟨c', hfinish, hframes', hpool', hworld'⟩ :=
    Context.finish_child_ok h.frames hhalted hinto
  have hconfined : Confined [child.cell, parent.cell] c c' := by
    refine ⟨fun cell v hother hold => ?_, by rw [hworld'], by rw [hworld']⟩
    rw [hpool', Pool.get_set_other _ _ fun he => hother (by simp [he])]
    exact hold
  have hget' : c'.pool.get? parent.cell = some w' := by
    rw [hpool', ← hcell]
    exact Pool.get_set_same hget
  refine ⟨c', w'.contents, hfinish, ⟨hframes', ?_, ?_⟩, hconfined, ⟨?_, ?_, ?_⟩, ?_⟩
  · refine (hbelow.congr_pool fun m _ v hne hold => ?_).retop (Frame.site_learn _ _)
    exact hconfined.pool m.cell v (by simpa [hcell] using hne) hold
  · refine ⟨w', ?_, rfl, hsaved'⟩
    have hhome : (child.frame.learn parent.frame).home = parent.frame.home :=
      congrArg Site.home (Frame.site_learn _ _)
    show c'.pool.get? (child.frame.learn parent.frame).home.cell = some w'
    rw [hhome]
    exact hget'
  · intro hreverted
    rw [hsettled, hreverted]
    rfl
  · intro hsuccess _
    rw [hsettled, hsuccess]
    exact hcontents
  · intro _ hother
    exact absurd hkind hother
  · rw [Context.operand_limit_eq hget', Context.operand_limit_eq (hcell ▸ hget)]
    exact congrArg some (Stack.limit_settle _ _ w.stack)

/-- Finishing any other call frees its workspace. If it has succeeded, its parent has absorbed what
it has changed. -/
theorem finish_own (h : Stands c child (parent :: below) [])
    (hbelow : Chain c.pool parent below saved)
    (hbacked : parent.Backed c.pool saved) (howned : child.frame.home.isOwned = true)
    (hkind : child.frame.call.kind ≠ .internal)
    (hfresh : ∀ m ∈ parent :: below, m.cell ≠ child.cell)
    (hhalted : child.frame.running = false) :
    ∃ c' x, c.finishChild = .ok child.frame.finished c' ∧
      Stands c' ⟨child.frame.learn parent.frame, x⟩ below saved ∧
      Confined [child.cell, parent.cell] c c' ∧ Handed child parent x ∧
      c'.operandLimit? parent.cell = c.operandLimit? parent.cell := by
  obtain ⟨w, hget, hcontents, _⟩ := h.backed
  obtain ⟨v, hparent, hcontents', hsaved⟩ := hbacked
  -- In both cases the parent ends up with a workspace `v'` and the child's is freed.
  have hend : ∀ (pool : Pool Workspace) (v' : Workspace), v'.Recalls saved →
      Handed child parent v'.contents → v'.stack.limit = v.stack.limit →
      pool.get? parent.cell = some v' →
      (∀ cell x, cell ≠ parent.cell → c.pool.get? cell = some x → pool.get? cell = some x) →
      child.frame.handOver (parent.frame, c.pool) = .ok () (parent.frame, pool) →
      ∃ c' x, c.finishChild = .ok child.frame.finished c' ∧
        Stands c' ⟨child.frame.learn parent.frame, x⟩ below saved ∧
        Confined [child.cell, parent.cell] c c' ∧ Handed child parent x ∧
        c'.operandLimit? parent.cell = c.operandLimit? parent.cell := by
    intro pool v' hsaved' hhanded hlimit hget' hkeep hover
    have hinto : child.frame.finishInto (parent.frame, c.pool) =
        .ok child.frame.finished
          (child.frame.learn parent.frame, pool.release child.frame.home) := by
      simp only [Frame.finishInto, hover]
    obtain ⟨c', hfinish, hframes', hpool', hworld'⟩ :=
      Context.finish_child_ok h.frames hhalted hinto
    obtain ⟨hstands, hconfined, hget''⟩ :=
      hbelow.freed howned hfresh hsaved' hget' hkeep hframes' hpool' hworld'
    refine ⟨c', v'.contents, hfinish, hstands, hconfined, hhanded, ?_⟩
    rw [Context.operand_limit_eq hget'', Context.operand_limit_eq hparent, hlimit]
  by_cases hsuccess : child.frame.isSuccess = true
  · obtain ⟨v', hfold, habsorbs, hsaved', hstack⟩ :=
      Exec.fold_child_absorbs child.frame parent.frame w v
    rw [hcontents, hcontents'] at habsorbs
    refine hend (c.pool.set parent.cell v') v' (hsaved' saved hsaved) ⟨?_, ?_, ?_⟩
      (congrArg Stack.limit hstack) (Pool.get_set_same hparent) (fun cell x hne hold => ?_) ?_
    · intro hreverted
      rw [hsuccess] at hreverted
      cases hreverted
    · intro _ hinternal
      exact absurd hinternal hkind
    · intro _ _
      exact habsorbs
    · rw [Pool.get_set_other _ _ hne.symm]
      exact hold
    · have hread : c.pool.read .storage child.frame.home = .ok w := by
        rw [Pool.read, show c.pool.get? child.frame.home.cell = some w from hget]
      have hspace : c.pool.get? parent.frame.home.cell = some v := hparent
      simp only [Frame.handOver, hkind, if_false, hsuccess, if_true, hread, Exec.inPool, hspace,
        hfold, Option.elim_some, Pool.set_free_same]
      rfl
  · have hreverted : child.frame.isSuccess = false := by simpa using hsuccess
    refine hend c.pool v hsaved ⟨fun _ => hcontents', ?_, ?_⟩ rfl hparent (fun _ _ _ hold => hold) ?_
    · intro h
      exact absurd h hsuccess
    · intro h
      exact absurd h hsuccess
    · simp [Frame.handOver, hkind, hreverted]

/-- What is finished stands above another frame: the root has none to be finished into. -/
theorem below_of_finished {c' : Context} {result : FinishedCall} (h : Stands c child below saved)
    (hfinish : c.finishChild = .ok result c') : ∃ parent rest, below = parent :: rest := by
  cases below with
  | nil =>
      obtain ⟨⟨frames, size, hsize⟩, pool, txn, world, own⟩ := c
      cases h.frames
      simp [Context.finishChild] at hfinish
  | cons parent rest => exact ⟨parent, rest, rfl⟩

/-- A halted frame above another can always be finished. -/
theorem finish (h : Stands c child (parent :: below) saved)
    (hhalted : child.frame.running = false) :
    ∃ c' x saved', c.finishChild = .ok child.frame.finished c' ∧
      Stands c' ⟨child.frame.learn parent.frame, x⟩ below saved' ∧
      Confined [child.cell, parent.cell] c c' ∧ Handed child parent x ∧
      c'.operandLimit? parent.cell = c.operandLimit? parent.cell := by
  cases h.chain with
  | internal hbelow _ hshare hkind _ _ hmarks =>
      obtain ⟨c', x, hfinish⟩ := h.finish_internal hbelow hshare hkind hmarks hhalted
      exact ⟨c', x, _, hfinish⟩
  | own hbelow _ hbacked howned hkind _ hfresh =>
      obtain ⟨c', x, hfinish⟩ := h.finish_own hbelow hbacked howned hkind hfresh hhalted
      exact ⟨c', x, _, hfinish⟩

end Stands
end CallTree
