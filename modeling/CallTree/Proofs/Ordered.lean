import Mathlib.Data.List.Chain
import CallTree.Proofs.Regular
import CallTree.Proofs.RootRuns
import CallTree.Proofs.TopFrame
import CallTree.Proofs.Waiting

/-!
# Call stacks in order

A call stack is in order (`Ordered`) if there is no more of anything than its limits allow, no frame
that waits has a result staged, and every frame that waits for a message or a creation has room for
its result. From a context in order every request of an instruction is served (`Ordered.serve`),
every halted child is finished (`Ordered.finish`), and every result of a message or a creation is
taken up (`Ordered.resume`). None of the faults on the way is structural.

`Orderly.move` is what one move preserves and `Orderly.run` what a whole run preserves.
-/

namespace CallTree

open CallTree.Action (Triple)

namespace Layer

/-- The layer has room for the result of a message or a creation: one operand, and an output in the
region. -/
structure Ready (max : Nat) (region : Region) (l : Layer) : Prop where
  operands : l.contents.operands.size < max
  covered : region.size ≠ 0 → region.offset + region.size ≤ l.contents.bytes.size ∧
    region.offset + region.size ≤ maxAmount

/-- The layer is about to take up the result of a child that was finished. -/
structure Awaits (max : Nat) (result : FinishedCall) (l : Layer) : Prop where
  running : l.frame.running = true
  staged : l.frame.staged ≠ .empty
  region : ∀ region data, l.frame.staged = .returned region data → region = result.returnRegion
  ready : result.kind ≠ .internal → l.Ready max result.returnRegion

/-- Whether the frame `parent` can go on once the frame `child` above it is finished. -/
def Await (max : Nat) (child parent : Layer) : Prop :=
  child.frame.call.kind ≠ .internal → parent.Ready max child.frame.returnRegion

/-- Room in the layer is room in its workspace. -/
theorem Ready.room {max : Nat} {region : Region} {l : Layer} {v : Workspace} (h : l.Ready max region)
    (hcontents : v.contents = l.contents) (hv : v.Room max 0) : v.Room max 1 := by
  have hfree := h.operands
  rw [← hcontents] at hfree
  exact ⟨hv.limit, hfree⟩

/-- Room in the workspace is room in the layer. -/
theorem ready_of_room {max : Nat} {region : Region} {l : Layer} {v : Workspace}
    (hroom : v.Room max 1) (hcovers : v.Covers region) (hcontents : v.contents = l.contents) :
    l.Ready max region := by
  rw [Workspace.contents] at hcontents
  refine ⟨?_, ?_⟩
  · rw [← hcontents]
    exact hroom.size
  · rw [← hcontents]
    exact hcovers

/-- What a layer waits for does not depend on how far the layer above it has come. -/
theorem Await.goes_on {max : Nat} {l l' parent : Layer} (h : Await max l parent)
    (hcall : l'.frame.call = l.frame.call)
    (hregion : l'.frame.returnRegion = l.frame.returnRegion) : Await max l' parent := by
  intro hkind
  rw [hregion]
  exact h (hcall ▸ hkind)

end Layer

namespace Handed

variable {child parent : Layer} {x : Contents}

/-- Unless its child was an internal call, a parent has its operands and its bytes as it left them. -/
theorem operands_bytes_eq (h : Handed child parent x) (hkind : child.frame.call.kind ≠ .internal) :
    x.operands = parent.contents.operands ∧ x.bytes = parent.contents.bytes := by
  by_cases hsuccess : child.frame.isSuccess = true
  · have habsorbs := h.own hsuccess hkind
    exact ⟨habsorbs.operands, habsorbs.bytes⟩
  · rw [h.reverted (by simpa using hsuccess)]
    exact ⟨rfl, rfl⟩

/-- A parent is handed no operands and no bytes but those of its child or its own. -/
theorem operands_bytes_cases (h : Handed child parent x) :
    x.operands = child.contents.operands ∧ x.bytes = child.contents.bytes ∨
      x.operands = parent.contents.operands ∧ x.bytes = parent.contents.bytes := by
  by_cases hkind : child.frame.call.kind = .internal
  · by_cases hsuccess : child.frame.isSuccess = true
    · rw [h.internal hsuccess hkind]
      exact .inl ⟨rfl, rfl⟩
    · rw [h.reverted (by simpa using hsuccess)]
      exact .inr ⟨rfl, rfl⟩
  · exact .inr (h.operands_bytes_eq hkind)

theorem operands_le (h : Handed child parent x) {max : Nat}
    (hchild : child.contents.operands.size ≤ max) (hparent : parent.contents.operands.size ≤ max) :
    x.operands.size ≤ max := by
  rcases h.operands_bytes_cases with ⟨hoperands, _⟩ | ⟨hoperands, _⟩
  · exact hoperands ▸ hchild
  · exact hoperands ▸ hparent

theorem bytes_le (h : Handed child parent x) {max : Nat}
    (hchild : child.contents.bytes.size ≤ max) (hparent : parent.contents.bytes.size ≤ max) :
    x.bytes.size ≤ max := by
  rcases h.operands_bytes_cases with ⟨_, hbytes⟩ | ⟨_, hbytes⟩
  · exact hbytes ▸ hchild
  · exact hbytes ▸ hparent

/-- A parent that could go on is about to take up the result. -/
theorem awaits (h : Handed child parent x) {max : Nat} (hrunning : parent.frame.running = true)
    (hawait : Layer.Await max child parent) :
    Layer.Awaits max child.frame.finished ⟨child.frame.learn parent.frame, x⟩ := by
  obtain ⟨gas, logs, hlearn⟩ := child.frame.learn_eq parent.frame
  rw [hlearn]
  refine ⟨hrunning, ?_, fun region data hstaged => ?_, fun hkind => ?_⟩
  · show child.frame.result ≠ .empty
    rw [Frame.result]
    split
    · simp
    · simp
  · have hresult : child.frame.result = .returned region data := hstaged
    rw [Frame.result] at hresult
    split at hresult
    · cases hresult
      rfl
    · cases hresult
  · obtain ⟨hoperands, hbytes⟩ := h.operands_bytes_eq hkind
    have hready := hawait hkind
    refine ⟨?_, ?_⟩
    · rw [hoperands]
      exact hready.operands
    · rw [hbytes]
      exact hready.covered

end Handed

/-- The layers of a call stack are in order. -/
structure Ordered (limits : Limits) (c : Context) (l : Layer) (below : List Layer)
    (saved : List Contents) : Prop where
  stands : Stands c l below saved
  depth : below.length + 1 ≤ limits.maxCallDepth
  limit : ∀ m ∈ l :: below, c.operandLimit? m.cell = some limits.maxStackSize
  operands : ∀ m ∈ l :: below, m.contents.operands.size ≤ limits.maxStackSize
  awaited : List.IsChain (Layer.Await limits.maxStackSize) (l :: below)
  unstaged : ∀ m ∈ below, m.frame.staged = .empty

namespace Ordered

variable {limits : Limits} {c c' : Context} {l l' : Layer} {below : List Layer}
  {saved : List Contents} {α : Type}

/-- What happens in the workspace of the topmost layer leaves all limits alone if it leaves that one
alone. -/
theorem limit_kept (h : Ordered limits c l below saved) (hconfined : Confined [l.cell] c c')
    (hlimit : c'.operandLimit? l.cell = some limits.maxStackSize) :
    ∀ m ∈ l :: below, c'.operandLimit? m.cell = some limits.maxStackSize := by
  intro m hm
  rw [h.stands.limit_kept hconfined (hlimit.trans (h.limit l List.mem_cons_self).symm) m hm]
  exact h.limit m hm

/-- The topmost layer goes on. -/
theorem goes_on (h : Ordered limits c l below saved) (hstands : Stands c' l' below saved)
    (hconfined : Confined [l.cell] c c') (hsite : l'.frame.site = l.frame.site)
    (hregion : l'.frame.returnRegion = l.frame.returnRegion)
    (hlimit : c'.operandLimit? l.cell = some limits.maxStackSize)
    (hoperands : l'.contents.operands.size ≤ limits.maxStackSize) :
    Ordered limits c' l' below saved := by
  have hcell : l'.cell = l.cell := Frame.cell_of_site hsite
  have hcall : l'.frame.call = l.frame.call := congrArg Site.call hsite
  refine ⟨hstands, h.depth, ?_, ?_, ?_, h.unstaged⟩
  · refine List.forall_mem_cons.2 ⟨by rw [hcell]; exact hlimit, fun m hm => ?_⟩
    exact h.limit_kept hconfined hlimit m (List.mem_cons_of_mem _ hm)
  · exact List.forall_mem_cons.2 ⟨hoperands, (List.forall_mem_cons.1 h.operands).2⟩
  · exact h.awaited.imp_head fun hawait => hawait.goes_on hcall hregion

/-- The workspace of the topmost frame is within its limit. -/
theorem room (h : Ordered limits c l below saved) {v : Workspace}
    (hget : c.pool.get? l.cell = some v) (hcontents : v.contents = l.contents) :
    v.Room limits.maxStackSize 0 := by
  have hlimit := h.limit l List.mem_cons_self
  rw [Context.operand_limit_eq hget] at hlimit
  refine ⟨Option.some.inj hlimit, ?_⟩
  have hoperands := h.operands l List.mem_cons_self
  rw [← hcontents] at hoperands
  exact hoperands

/-- An action in the topmost frame that leaves the operands within their limit. -/
theorem on_top (h : Ordered limits c l below saved) {act : Exec α} {parts : List Part}
    {P : Activation → Prop} {Q : α → Activation → Prop} {E : Abort → Activation → Prop}
    (hspec : Triple P act Q E)
    (hwithin : ∀ v, Touches parts ⟨l.frame, some v⟩ (Action.after act ⟨l.frame, some v⟩))
    (hpre : ∀ v, v.contents = l.contents → v.Room limits.maxStackSize 0 → P ⟨l.frame, some v⟩)
    (hok : ∀ r x, Q r x → x.Roomy limits.maxStackSize)
    (herror : ∀ e x, E e x → x.Roomy limits.maxStackSize) :
    ∃ v w f, Touches parts ⟨l.frame, some v⟩ ⟨f, some w⟩ ∧
      Ordered limits (c.putTop f w) ⟨f, w.contents⟩ below saved ∧
      Action.after act ⟨l.frame, some v⟩ = ⟨f, some w⟩ ∧
      ((∃ r, act ⟨l.frame, some v⟩ = .ok r ⟨f, some w⟩ ∧ Q r ⟨f, some w⟩ ∧
          Context.onTop act c = .ok r (c.putTop f w)) ∨
        ∃ e, E e ⟨f, some w⟩ ∧ Context.onTop act c = .error e (c.putTop f w)) := by
  obtain ⟨v, w, f, hget, hcontents, htouches, hstands, hconfined, hresult⟩ :=
    h.stands.on_top act parts hwithin
  have hcell : f.home.cell = l.cell := Frame.cell_of_site htouches.site_eq
  have hget' : (c.putTop f w).pool.get? l.cell = some w := by
    show (c.pool.set f.home.cell w).get? l.cell = some w
    rw [hcell]
    exact Pool.get_set_same hget
  have hstart := hpre v hcontents (h.room hget hcontents)
  have hordered : Activation.Roomy limits.maxStackSize ⟨f, some w⟩ →
      Ordered limits (c.putTop f w) ⟨f, w.contents⟩ below saved := by
    rintro ⟨w', hw', hroom⟩
    cases hw'
    refine h.goes_on hstands hconfined htouches.site_eq htouches.return_region_eq ?_ hroom.size
    rw [Context.operand_limit_eq hget', hroom.limit]
  rcases hresult with ⟨r, hact, htop⟩ | ⟨e, hact, htop⟩
  · have hend := hspec.ok hstart hact
    exact ⟨v, w, f, htouches, hordered (hok r _ hend), Action.after_ok hact,
      .inl ⟨r, hact, hend, htop⟩⟩
  · have hend := hspec.error hstart hact
    exact ⟨v, w, f, htouches, hordered (herror e _ hend), Action.after_error hact,
      .inr ⟨e, hend, htop⟩⟩

/-- The topmost frame fails. -/
theorem fail (h : Ordered limits c l below saved) (cause : Fault) :
    Ordered limits (c.updateTop (Frame.fail cause)) ⟨l.frame.fail cause, l.contents⟩ below saved := by
  obtain ⟨hstands, hconfined⟩ := h.stands.update_top (Frame.site_fail cause l.frame)
  obtain ⟨⟨frames, size, hsize⟩, pool, txn, world, own⟩ := c
  cases h.stands.frames
  refine h.goes_on hstands hconfined (Frame.site_fail cause l.frame) ?_
    (h.limit l List.mem_cons_self) (h.operands l List.mem_cons_self)
  unfold Frame.fail
  split <;> rfl

/-- A frame is put on top of one that waits for it. -/
theorem put_on (h : Ordered limits c l below saved) {child : Layer} {saved' : List Contents}
    (hstands : Stands c' child (l :: below) saved') (hconfined : Confined [l.cell] c c')
    (hlimit : c'.operandLimit? l.cell = some limits.maxStackSize)
    (hlimit' : c'.operandLimit? child.cell = some limits.maxStackSize)
    (hdepth : below.length + 1 < limits.maxCallDepth)
    (hoperands : child.contents.operands.size ≤ limits.maxStackSize)
    (hawait : Layer.Await limits.maxStackSize child l) (hunstaged : l.frame.staged = .empty) :
    Ordered limits c' child (l :: below) saved' := by
  refine ⟨hstands, hdepth, ?_, List.forall_mem_cons.2 ⟨hoperands, h.operands⟩, ?_,
    List.forall_mem_cons.2 ⟨hunstaged, h.unstaged⟩⟩
  · exact List.forall_mem_cons.2 ⟨hlimit', h.limit_kept hconfined hlimit⟩
  · rw [List.isChain_cons_cons]
    exact ⟨hawait, h.awaited⟩

/-! ## Serving -/

/-- A frame on a workspace of its own is opened if there is a level left. -/
theorem open_own (h : Ordered limits c l below saved) (hlimits : c.limits = limits)
    (hrunning : l.frame.running = true) (hunstaged : l.frame.staged = .empty)
    (hdepth : below.length + 1 < limits.maxCallDepth) {code : Bytes} {gas : Nat} {call : CallData}
    {region : Region} (hkind : call.kind ≠ .internal) (hready : l.Ready limits.maxStackSize region)
    {g : Frame → Frame} (hg : ∀ home, g (.new code gas call home) =
      (Frame.new code gas call home).setReturnData ByteArray.empty region) :
    ∃ c' child, (do
        let child ← Context.prepareExternal code gas call
        Context.pushFrame (g child) : Action Context Unit) c = .ok () c' ∧
      Ordered limits c' child (l :: below) [] ∧ child.frame.staged = .empty := by
  let slots := slotsSeen c.world (l :: below) call.contract
  let child := (Frame.new code gas call (.owned c.pool.cells.size)).setReturnData ByteArray.empty
    region
  have hsite : child.site = (c.newFrame c.limits (.ofSlots slots) code gas call).1.site := rfl
  rw [Action.bind_ok (h.stands.prepare_own code gas call), hg]
  rcases h.stands.open_own hrunning hkind hsite with
    ⟨c', hpush, hstands, hconfined, hlimit⟩ | ⟨hdeep, _⟩
  · rw [hlimits] at hlimit
    have hlimit' : c'.operandLimit? l.cell = some limits.maxStackSize :=
      hconfined.operand_limit (by simp) (h.limit l List.mem_cons_self)
    refine ⟨c', _, hpush, h.put_on hstands (hconfined.mono (by simp)) hlimit' hlimit hdepth
      (Nat.zero_le _) (fun _ => hready) hunstaged, rfl⟩
  · rw [hlimits, h.stands.depth_eq] at hdeep
    omega

/-- A creation is paid for, and then it fails at once or a frame is opened for it. -/
theorem create (h : Ordered limits c l below saved) (hlimits : c.limits = limits)
    (hunstaged : l.frame.staged = .empty) (hdepth : below.length + 1 < limits.maxCallDepth)
    (hrunning : l.frame.running = true) {gas : Nat} (hgas : gas ≤ l.frame.gas.remaining)
    (hready : l.Ready limits.maxStackSize {}) (value : Word) (initCode : Bytes) :
    ∃ c' l' below' saved', Context.serve (.create value initCode gas) c = .ok () c' ∧
      Ordered limits c' l' below' saved' ∧ l'.frame.staged = .empty := by
  -- The nonce is used up first, then the gas is paid; only after that is the address looked at.
  let c₁ : Context := { c with world := (c.world.nextCreateAddress l.contract).2 }
  have h₁ : Ordered limits c₁ l below saved :=
    ⟨⟨h.stands.frames, h.stands.chain, h.stands.backed⟩, h.depth, h.limit, h.operands, h.awaited,
      h.unstaged⟩
  have hpay : Exec.Within [.gas] (Exec.consumeGas gas) :=
    .consume_gas (List.mem_singleton_self _) gas
  have hpush : Exec.Within [.stack] (Exec.push 0) := .push (List.mem_singleton_self _) 0
  rw [h.stands.serve_create_eq]
  obtain ⟨v, w, f, htouches, h₂, _, ⟨_, _, hon, htop⟩ | ⟨_, hfalse, _⟩⟩ :=
    h₁.on_top (Exec.pay_room gas) (fun v => hpay ⟨l.frame, some v⟩)
      (fun v hcontents hv => ⟨hgas, hrunning, v, rfl, hready.room hcontents hv⟩)
      (fun _ x hx => hx.roomy Workspace.Room.zero) (fun _ _ hx => hx.elim)
  · rw [Action.bind_ok htop]
    have hstaged : f.staged = .empty := htouches.staged_empty hunstaged
    have hready₂ : Layer.Ready limits.maxStackSize {} ⟨f, w.contents⟩ := by
      obtain ⟨w₀, hw₀, hroom⟩ := hon.space
      cases hw₀
      exact Layer.ready_of_room hroom (fun hsize => absurd rfl hsize) rfl
    split
    · -- There is code at the address: the creation fails with a zero in the place kept free for it.
      obtain ⟨v', w', f', htouches', h₃, _, ⟨_, _, _, htop'⟩ | ⟨_, hfalse, _⟩⟩ :=
        h₂.on_top (Exec.push_room 0) (fun v => hpush ⟨f, some v⟩)
          (fun v hcontents hv => ⟨hon.running, v, rfl, hready₂.room hcontents hv⟩)
          (fun _ _ hx => hx) (fun _ _ hx => hx.elim)
      · exact ⟨_, _, _, _, htop', h₃, htouches'.staged_empty hstaged⟩
      · exact hfalse.elim
    · have hget₂ : (get : Action Context Context) (c₁.putTop f w) =
        .ok (c₁.putTop f w) (c₁.putTop f w) := rfl
      have hkind : (CallData.create c.txn.origin l.contract
          (c.world.nextCreateAddress l.contract).1 value).kind ≠ .internal := by
        simp [CallData.create]
      obtain ⟨c', child, hserve, hordered, hempty⟩ := h₂.open_own hlimits hon.running hstaged hdepth
        hkind hready₂ (g := id) fun _ => rfl
      rw [Action.bind_ok hget₂]
      exact ⟨c', child, _, _, hserve, hordered, hempty⟩
  · exact hfalse.elim

/-- The requests of an instruction are served. -/
theorem serve (h : Ordered limits c l below saved) (hlimits : c.limits = limits)
    (hunstaged : l.frame.staged = .empty) {op : Opcode} {request : Request} (hasks : op.Asks request)
    {w : Workspace} (hcontents : w.contents = l.contents) {origin : Address}
    (hservable : request.Servable ⟨limits, below.length + 1, origin⟩ ⟨l.frame, some w⟩) :
    ∃ c' l' below' saved', Context.serve request c = .ok () c' ∧
      Ordered limits c' l' below' saved' ∧ l'.frame.staged = .empty := by
  cases request with
  | proceed => exact ⟨c, l, below, saved, rfl, h, hunstaged⟩
  | internal target gas =>
      obtain ⟨hlevel, hon⟩ := hservable
      have hdepth : below.length + 1 < limits.maxCallDepth := hlevel
      rcases h.stands.open_internal hon.running target gas with
        ⟨origin, marks, c', hserve, hstands, hconfined, hlimit⟩ | ⟨hdeep, _⟩
      · rw [h.limit l List.mem_cons_self] at hlimit
        exact ⟨c', _, _, _, hserve, h.put_on hstands hconfined hlimit hlimit hdepth
          (h.operands l List.mem_cons_self) (fun hkind => absurd rfl hkind) hunstaged, rfl⟩
      · rw [hlimits, h.stands.depth_eq] at hdeep
        omega
  | message call gas region =>
      obtain ⟨hdepth, hrunning, w', hw', hroom, hcovers⟩ := hservable
      cases hw'
      have hkind : call.kind ≠ .internal := by
        rcases hasks.2 with hkind | hkind
        · simp [hkind]
        · simp [hkind]
      obtain ⟨c', child, hserve, hordered, hstaged⟩ := h.open_own hlimits hrunning hunstaged hdepth
        hkind (Layer.ready_of_room hroom hcovers hcontents) (g := Frame.setReturnData ByteArray.empty region)
        fun _ => rfl
      exact ⟨c', child, _, _, (h.stands.serve_message_eq call gas region).trans hserve, hordered,
        hstaged⟩
  | create value initCode gas =>
      obtain ⟨hdepth, hgas, hrunning, w', hw', hroom⟩ := hservable
      cases hw'
      have hready : l.Ready limits.maxStackSize {} :=
        Layer.ready_of_room hroom (fun hsize => absurd rfl hsize) hcontents
      exact h.create hlimits hunstaged hdepth hrunning hgas hready value initCode

/-! ## Moves -/

/-- An instruction of a running frame: it is completed and what it asks for is served, or it is
refused for a fault of the frame itself or by an overflow. -/
theorem instruction (h : Ordered limits c l below saved) (hlimits : c.limits = limits)
    (hrunning : l.frame.running = true) (hunstaged : l.frame.staged = .empty) :
    (∃ request c₁ c' l' below' saved',
      Context.onTop (Instruction.fetchAndDispatch (c.surroundings limits)) c = .ok request c₁ ∧
      Context.serve request c₁ = .ok () c' ∧ Ordered limits c' l' below' saved' ∧
      l'.frame.staged = .empty) ∨
    ∃ e c' l',
      Context.onTop (Instruction.fetchAndDispatch (c.surroundings limits)) c = .error e c' ∧
      (∀ cause, e = .fault cause → cause.isStructural = false) ∧
      Ordered limits c' l' below saved ∧ l'.frame.staged = .empty := by
  have hdepth : c.depth = below.length + 1 := h.stands.depth_eq
  have hwithin : ∀ v, Touches l.frame.currentOp.touches ⟨l.frame, some v⟩
      (Action.after (Instruction.fetchAndDispatch (c.surroundings limits)) ⟨l.frame, some v⟩) :=
    fun v => fetch_within (c.surroundings limits) ⟨l.frame, some v⟩
  obtain ⟨v, w, f, htouches, hordered, _, ⟨request, hact, hservable, htop⟩ | ⟨e, hregular, htop⟩⟩ :=
    h.on_top (Instruction.fetch_regular (c.surroundings limits)) hwithin
      (fun v _ hv => ⟨hrunning, v, rfl, hv⟩) (fun _ _ hx => hx.roomy) (fun _ _ hx => hx.roomy)
  · have hstaged : f.staged = .empty := htouches.staged_empty hunstaged
    rw [Context.surroundings, hdepth] at hservable
    obtain ⟨c', l', below', saved', hserve, hordered', hempty⟩ :=
      hordered.serve hlimits hstaged (Instruction.fetch_request hact) rfl hservable
    exact .inl ⟨request, _, c', l', below', saved', htop, hserve, hordered', hempty⟩
  · exact .inr ⟨e, _, _, htop, hregular.cause, hordered, htouches.staged_empty hunstaged⟩

/-- A halted frame above another is finished, and its parent can take up the result. -/
theorem finish {child parent : Layer} (h : Ordered limits c child (parent :: below) saved)
    (hhalted : child.frame.running = false) :
    ∃ c' l' saved', c.finishChild = .ok child.frame.finished c' ∧
      Ordered limits c' l' below saved' ∧ l'.Awaits limits.maxStackSize child.frame.finished := by
  obtain ⟨c', x, saved', hfinish, hstands, hconfined, hhanded, hlimit⟩ := h.stands.finish hhalted
  obtain ⟨hawait, hawaited⟩ := List.isChain_cons_cons.1 h.awaited
  have hrunning := h.stands.chain.running_below parent List.mem_cons_self
  obtain ⟨hchild, hbelow⟩ := List.forall_mem_cons.1 h.operands
  obtain ⟨hparent, hbelow⟩ := List.forall_mem_cons.1 hbelow
  have hlimits : ∀ m ∈ parent :: below, c'.operandLimit? m.cell = some limits.maxStackSize := by
    intro m hm
    rw [h.stands.limit_below hconfined hlimit m hm]
    exact h.limit m (List.mem_cons_of_mem _ hm)
  obtain ⟨hcell, hlimits⟩ := List.forall_mem_cons.1 hlimits
  have hsite := Frame.site_learn child.frame parent.frame
  have hregion : (child.frame.learn parent.frame).returnRegion = parent.frame.returnRegion := by
    obtain ⟨gas, logs, hlearn⟩ := child.frame.learn_eq parent.frame
    rw [hlearn]
  refine ⟨c', _, saved', hfinish, ⟨hstands, ?_, ?_, ?_, ?_, ?_⟩, hhanded.awaits hrunning hawait⟩
  · have hdepth := h.depth
    rw [List.length_cons] at hdepth
    omega
  · refine List.forall_mem_cons.2 ⟨?_, hlimits⟩
    exact (congrArg (c'.operandLimit? ∘ Handle.cell ∘ Site.home) hsite).trans hcell
  · exact List.forall_mem_cons.2 ⟨hhanded.operands_le hchild hparent, hbelow⟩
  · exact hawaited.imp_head fun hawait => hawait.goes_on (congrArg Site.call hsite) hregion
  · exact fun m hm => h.unstaged m (List.mem_cons_of_mem _ hm)

/-- What was finished stood above another frame. -/
theorem finished (h : Ordered limits c l below saved) {result : FinishedCall}
    (hhalted : c.isRunning = false) (hfinish : c.finishChild = .ok result c') :
    ∃ l' below' saved', Ordered limits c' l' below' saved' ∧
      l'.Awaits limits.maxStackSize result := by
  obtain ⟨parent, below, rfl⟩ := h.stands.below_of_finished hfinish
  obtain ⟨c₁, l', saved', hdone, hordered, hawaits⟩ :=
    h.finish (h.stands.is_running.symm.trans hhalted)
  cases hfinish.symm.trans hdone
  exact ⟨l', below, saved', hordered, hawaits⟩

/-- A result is taken up. Only that of an internal call can be refused. -/
theorem resume (h : Ordered limits c l below saved) {result : FinishedCall}
    (hawaits : l.Awaits limits.maxStackSize result) :
    (∃ c' l', Context.onTop (Exec.resume limits result) c = .ok () c' ∧
      Ordered limits c' l' below saved ∧ l'.frame.staged = .empty) ∨
    ∃ e c' l', Context.onTop (Exec.resume limits result) c = .error e c' ∧
      result.kind = .internal ∧ (∀ cause, e = .fault cause → cause.isStructural = false) ∧
      Ordered limits c' l' below saved ∧ l'.frame.staged = .empty := by
  have hwithin : ∀ v, Touches Part.resumption ⟨l.frame, some v⟩
      (Action.after (Exec.resume limits result) ⟨l.frame, some v⟩) :=
    fun v => Exec.Within.resume limits result ⟨l.frame, some v⟩
  have hpre : ∀ v : Workspace, v.contents = l.contents → v.Room limits.maxStackSize 0 →
      Activation.Awaits limits.maxStackSize result ⟨l.frame, some v⟩ := by
    intro v hcontents hv
    refine ⟨⟨hawaits.running, v, rfl, hv⟩, hawaits.staged, hawaits.region, fun hkind => ?_⟩
    have hready := hawaits.ready hkind
    have hcovered := hready.covered
    rw [← hcontents] at hcovered
    exact ⟨hawaits.running, v, rfl, hready.room hcontents hv, hcovered⟩
  obtain ⟨v, w, f, _, hordered, hafter, ⟨_, _, _, htop⟩ | ⟨e, ⟨hkind, hregular⟩, htop⟩⟩ :=
    h.on_top (Exec.resume_regular limits result) hwithin hpre (fun _ _ hx => hx)
      (fun _ _ hx => hx.2.roomy)
  · have hstaged := resume_staged limits result ⟨l.frame, some v⟩
    rw [hafter] at hstaged
    exact .inl ⟨_, _, htop, hordered, hstaged⟩
  · have hstaged := resume_staged limits result ⟨l.frame, some v⟩
    rw [hafter] at hstaged
    exact .inr ⟨e, _, _, htop, hkind, hregular.cause, hordered, hstaged⟩

end Ordered

/-! ## Runs -/

/-- A state of a run whose call stack is in order. The topmost frame has a result staged exactly
when that is still to be taken up. -/
inductive RunState.Orderly (limits : Limits) : RunState → Prop
  /-- No result is to be taken up. -/
  | steady {c : Context} {l : Layer} {below : List Layer} {saved : List Contents}
      (h : Ordered limits c l below saved) (hunstaged : l.frame.staged = .empty) :
      Orderly limits ⟨c, none⟩
  /-- The topmost frame is to take up a result. -/
  | awaiting {c : Context} {l : Layer} {below : List Layer} {saved : List Contents}
      {result : FinishedCall} (h : Ordered limits c l below saved)
      (hawaits : l.Awaits limits.maxStackSize result) : Orderly limits ⟨c, some result⟩

namespace RunState.Orderly

variable {limits : Limits} {s t : RunState}

/-- A frame that fails. -/
theorem fail {c : Context} {l : Layer} {below : List Layer} {saved : List Contents}
    (h : Ordered limits c l below saved) (hunstaged : l.frame.staged = .empty) (cause : Fault) :
    Orderly limits ⟨c.updateTop (Frame.fail cause), none⟩ := by
  refine .steady (h.fail cause) ?_
  unfold Frame.fail
  split
  · exact hunstaged
  · exact hunstaged

/-- Every move leaves the call stack in order. -/
theorem move (h : s.Orderly limits) (hlimits : s.context.limits = limits)
    (hmove : Move limits s t) : t.Orderly limits := by
  cases hmove with
  | instruction hrunning hstep =>
      cases h with
      | steady h hunstaged =>
          have hrunning' := h.stands.is_running.symm.trans hrunning
          rcases h.instruction hlimits hrunning' hunstaged with
            ⟨_, _, c₁, _, _, _, htop, hserve, hordered, hempty⟩ |
            ⟨e, c₁, _, htop, _, hordered, hempty⟩
          · have hdone := (Context.step_ok htop).trans hserve
            simp only [Context.stepOrFail, hdone] at hstep
            cases hstep
            exact .steady hordered hempty
          · have herror := Context.step_error htop
            cases e with
            | overflow => simp [Context.stepOrFail, herror] at hstep
            | fault cause =>
                simp only [Context.stepOrFail, herror] at hstep
                cases hstep
                exact fail hordered hempty cause
  | finish hhalted hfinish =>
      cases h with
      | steady h hunstaged =>
          obtain ⟨l', below', saved', hordered, hawaits⟩ := h.finished hhalted hfinish
          exact .awaiting hordered hawaits
  | resume hresume =>
      cases h with
      | awaiting h hawaits =>
          rcases h.resume hawaits with
            ⟨c₁, l', htop, hordered, hempty⟩ | ⟨e, c₁, l', htop, _, _, hordered, hempty⟩
          · simp only [Context.resumeOrFail, htop] at hresume
            cases hresume
            exact .steady hordered hempty
          · cases e with
            | overflow => simp [Context.resumeOrFail, htop] at hresume
            | fault cause =>
                simp only [Context.resumeOrFail, htop] at hresume
                cases hresume
                exact fail hordered hempty cause

/-- The call stack stays in order throughout a run. -/
theorem run (h : s.Orderly limits) (hlimits : s.context.limits = limits)
    (hrun : Reaches limits s t) : t.Orderly limits := by
  induction hrun with
  | refl => exact h
  | tail hreach hmove ih => exact ih.move (Reaches.limits_eq hreach ▸ hlimits) hmove

end RunState.Orderly

/-- A single root frame is in order. -/
theorem Context.launch_orderly {limits : Limits} (hdepth : 0 < limits.maxCallDepth) (slots : Slots)
    (code : Bytes) (gas : Nat) (call : CallData) (base : Context) :
    RunState.Orderly limits ⟨base.launch limits slots code gas call, none⟩ := by
  refine .steady ⟨Context.launch_stands limits slots code gas call base, hdepth, ?_, ?_,
    .singleton _, by simp⟩ rfl
  · have hspace : (base.launch limits slots code gas call).pool.get? base.pool.cells.size = _ :=
      Pool.get_alloc_same _ _
    exact List.forall_mem_singleton.2 (Context.operand_limit_eq hspace)
  · exact List.forall_mem_singleton.2 (Nat.zero_le _)

end CallTree
