import CallTree.Proofs.FrameMoves
import CallTree.Proofs.Refinement

/-!
# Read-only calls

A read-only frame opens only read-only frames, emits nothing, earns nothing and carries no value
(`FrameMove.read_only`), and no move of such a frame changes what is seen of any account
(`Follows.steady`). A successful read-only call still hands its slots over to its parent;
`Context.read_only_call` says that this writes back exactly what the parent saw before.
-/

namespace CallTree

/-! ## Frames -/

/-- A read-only frame can only make read-only calls, and creates nothing. -/
theorem Opcode.Makes.of_static {op : Opcode} {caller call : CallData} (h : op.Makes caller call)
    (hstatic : caller.isStatic = true) (hvalue : caller.value = 0) :
    call.isStatic = true ∧ call.value = 0 ∧ call.kind ≠ .create := by
  cases h with
  | internal hkind hsame hsent => exact ⟨hsame.trans hstatic, hsent.trans hvalue, by simp [hkind]⟩
  | readOnly _ hkind hread hzero => exact ⟨hread, hzero, by simp [hkind]⟩
  | external hcaller _ _ => exact absurd hstatic (by simp [hcaller])
  | create hcaller _ => exact absurd hstatic (by simp [hcaller])

/-- There is an instruction for read-only calls, and every message of a read-only frame is one. -/
theorem Opcode.Makes.of_read {op : Opcode} {caller call : CallData} (h : op.Makes caller call)
    (hop : op = .staticCall ∨ op = .call ∧ caller.isStatic = true) :
    call.isStatic = true ∧ call.value = 0 ∧ call.kind ≠ .create := by
  cases h with
  | internal => simp at hop
  | readOnly _ hkind hread hzero => exact ⟨hread, hzero, by simp [hkind]⟩
  | external hcaller _ _ => simp [hcaller] at hop
  | create _ _ => simp at hop

/-- A frame that may only read, and has kept to it. -/
structure Frame.ReadOnly (f : Frame) : Prop where
  static : f.call.isStatic = true
  value : f.call.value = 0
  creation : f.creation = false
  logs : f.logs = #[]
  refunds : f.gas.refunds = 0

/-- A frame that is opened for a read-only call. -/
theorem Frame.Opens.read_only {f parent child : Frame} (h : f.Opens parent child)
    (hcall : child.call.isStatic = true ∧ child.call.value = 0 ∧ child.call.kind ≠ .create) :
    child.ReadOnly := by
  obtain ⟨forwarded, hgas, _⟩ := h.paid
  refine ⟨hcall.1, hcall.2.1, ?_, h.logs, by rw [hgas]; rfl⟩
  rw [h.creation]
  simpa using hcall.2.2

namespace Frame.ReadOnly

variable {f f' parent child : Frame}

/-- Whatever a read-only frame does, it stays read-only. -/
theorem works (h : f.ReadOnly) (hworks : f.Works f') : f'.ReadOnly := by
  have hcall : f'.call = f.call := congrArg Site.call hworks.site
  obtain ⟨hlogs, hrefunds⟩ := hworks.quiet h.static
  refine ⟨hcall ▸ h.static, hcall ▸ h.value, ?_, hlogs.trans h.logs, hrefunds.trans h.refunds⟩
  exact (congrArg Site.creation hworks.site).trans h.creation

/-- A frame that is opened by a read-only one is read-only. -/
theorem opens (h : f.ReadOnly) (hopens : f.Opens parent child) : child.ReadOnly :=
  hopens.read_only (hopens.makes.of_static h.static h.value)

/-- A read-only frame learns nothing from a child that it would have to emit or that it earns. -/
theorem learn (h : parent.ReadOnly) (hchild : child.ReadOnly) : (child.learn parent).ReadOnly := by
  have hsite := Frame.site_learn child parent
  have hcall : (child.learn parent).call = parent.call := congrArg Site.call hsite
  refine ⟨hcall ▸ h.static, hcall ▸ h.value, (congrArg Site.creation hsite).trans h.creation, ?_, ?_⟩
  · rw [Frame.logs_learn, h.logs, hchild.logs]
    split <;> rfl
  · rw [Frame.refunds_learn, h.refunds, hchild.refunds]
    split <;> rfl

end Frame.ReadOnly

/-- As long as a run stays above a floor, the frames below it are what they were, and if all frames
above it are read-only they stay so. -/
theorem FrameMove.read_only {executed : Bool} {upper lower frames' : List Frame}
    (h : FrameMove executed (upper ++ lower) frames') (hne : upper ≠ [])
    (hupper : ∀ f ∈ upper, f.ReadOnly) (hfloor : lower.length < frames'.length) :
    ∃ upper', upper' ≠ [] ∧ frames' = upper' ++ lower ∧ ∀ f ∈ upper', f.ReadOnly := by
  obtain ⟨f, rest, rfl⟩ := List.exists_cons_of_ne_nil hne
  obtain ⟨hf, hrest⟩ := List.forall_mem_cons.1 hupper
  rw [List.cons_append] at h
  generalize htail : rest ++ lower = tail at h
  cases h with
  | executes _ hexecutes =>
      cases hexecutes with
      | @goes f' hworks _ =>
          exact ⟨f' :: rest, by simp, by simp [htail],
            List.forall_mem_cons.2 ⟨hf.works hworks, hrest⟩⟩
      | @opens parent child hopens =>
          exact ⟨child :: parent :: rest, by simp, by simp [htail], List.forall_mem_cons.2
            ⟨hf.opens hopens, List.forall_mem_cons.2 ⟨hf.works hopens.stays.works, hrest⟩⟩⟩
  | @finishes _ parent below _ =>
      cases rest with
      | nil =>
          -- The floor itself would have been reached.
          rw [show lower = parent :: below from htail] at hfloor
          exact absurd hfloor (Nat.lt_irrefl _)
      | cons next rest =>
          cases htail
          obtain ⟨hnext, hrest⟩ := List.forall_mem_cons.1 hrest
          exact ⟨f.learn parent :: rest, by simp, rfl,
            List.forall_mem_cons.2 ⟨hnext.learn hf, hrest⟩⟩
  | @resumes _ f' _ hworks =>
      exact ⟨f' :: rest, by simp, by simp [htail], List.forall_mem_cons.2 ⟨hf.works hworks, hrest⟩⟩

/-! ## What is earned -/

/-- What frames have earned is always an amount. -/
theorem FrameMove.refunds_le {executed : Bool} {frames frames' : List Frame}
    (h : FrameMove executed frames frames') (hle : ∀ f ∈ frames, f.gas.refunds ≤ maxAmount) :
    ∀ f ∈ frames', f.gas.refunds ≤ maxAmount := by
  cases h with
  | executes _ hexecutes =>
      obtain ⟨hf, hbelow⟩ := List.forall_mem_cons.1 hle
      cases hexecutes with
      | goes hworks _ => exact List.forall_mem_cons.2 ⟨hworks.gas.refunds hf, hbelow⟩
      | opens hopens =>
          obtain ⟨forwarded, hgas, _⟩ := hopens.paid
          refine List.forall_mem_cons.2 ⟨?_, List.forall_mem_cons.2 ⟨?_, hbelow⟩⟩
          · rw [hgas]
            exact Nat.zero_le _
          · exact hopens.stays.gas.refunds hf
  | @finishes child parent below _ =>
      obtain ⟨_, hparent, hbelow⟩ := by simpa only [List.forall_mem_cons] using hle
      refine List.forall_mem_cons.2 ⟨?_, hbelow⟩
      rw [Frame.refunds_learn]
      split
      · exact satAdd_le _ _
      · exact hparent
  | resumes hworks =>
      obtain ⟨hf, hbelow⟩ := List.forall_mem_cons.1 hle
      exact List.forall_mem_cons.2 ⟨hworks.gas.refunds hf, hbelow⟩
  | idles => exact hle

theorem Reaches.refunds_le {limits : Limits} {s t : RunState} (h : Reaches limits s t)
    (hle : ∀ f ∈ s.context.frames.toList, f.gas.refunds ≤ maxAmount) :
    ∀ f ∈ t.context.frames.toList, f.gas.refunds ≤ maxAmount := by
  induction h with
  | refl => exact hle
  | tail _ hmove ih => exact hmove.moved.frames.refunds_le ih

/-! ## Accounts -/

/-- The event changes no account. -/
def Event.Reads : Event → Prop
  | .store _ _ _ => False
  | .leave (some _) => False
  | _ => True

namespace Context

variable {c : Context} {f : Frame} {below : List Frame}

/-- An instruction of a read-only frame changes no account. -/
theorem instruction_event_reads (hframes : c.frames.toList = f :: below) (hf : f.ReadOnly)
    (limits : Limits) : (c.instructionEvent limits).Reads := by
  unfold instructionEvent
  cases hstep : c.step limits with
  | error e c' => trivial
  | ok r c' =>
      have hallowed := step_allowed hframes hf.static hstep
      have hother : f.currentOp ≠ .sstore := by
        intro hop
        simp [hop, Opcode.isStateModifying] at hallowed
      rw [hframes]
      show Event.Reads (if c.depth < c'.depth then .enter else _)
      split
      · trivial
      · unfold Event.ofLocal
        split
        · trivial
        · exact absurd ‹_› hother
        · trivial

/-- The end of a read-only frame changes no account. -/
theorem end_event_reads (hframes : c.frames.toList = f :: below) (hf : f.ReadOnly) :
    c.endEvent.Reads := by
  unfold endEvent
  rw [hframes]
  show Event.Reads (if f.isSuccess then _ else _)
  rw [hf.creation]
  split <;> trivial

end Context

/-- A move of a read-only frame changes no account. -/
theorem RunState.event_reads {s : RunState} {f : Frame} {below : List Frame}
    (hframes : s.context.frames.toList = f :: below) (hf : f.ReadOnly) (limits : Limits) :
    (s.event limits).Reads := by
  unfold RunState.event
  split
  · trivial
  · split
    · exact Context.instruction_event_reads hframes hf limits
    · exact Context.end_event_reads hframes hf

/-- The ledger shows the accounts as `start` does, and so does every copy that was taken since. -/
structure Ledger.Steady (start m : Ledger) : Prop where
  storage : m.storage = start.storage
  code : m.code = start.code
  copies : ∃ n, m.copies = List.replicate n (start.storage, start.code) ++ start.copies

namespace Ledger.Steady

variable {start m m' : Ledger} {event : Event}

theorem refl (m : Ledger) : Steady m m :=
  ⟨rfl, rfl, 0, rfl⟩

/-- Events that change no account leave the ledger steady, unless they go back behind the start. -/
theorem next (h : Steady start m) (hnext : m.next? event = some m') (hreads : event.Reads)
    (hlength : start.copies.length ≤ m'.copies.length) : Steady start m' := by
  obtain ⟨hstorage, hcode, n, hcopies⟩ := h
  obtain ⟨storage, code, copies⟩ := m
  cases hstorage
  cases hcode
  cases hcopies
  cases event with
  | quiet =>
      cases hnext
      exact ⟨rfl, rfl, n, rfl⟩
  | load account key value =>
      simp only [next?] at hnext
      split at hnext
      · cases hnext
        exact ⟨rfl, rfl, n, rfl⟩
      · cases hnext
  | store account key value => exact hreads.elim
  | enter =>
      cases hnext
      exact ⟨rfl, rfl, n + 1, by rw [List.replicate_succ]; rfl⟩
  | leave deployed =>
      cases deployed with
      | some code => exact hreads.elim
      | none =>
          cases n with
          | succ n =>
              cases hnext
              exact ⟨rfl, rfl, n, rfl⟩
          | zero =>
              cases hback : start.copies with
              | nil => simp [next?, hback] at hnext
              | cons _ older =>
                  simp only [next?, List.replicate_zero, hback, deploy] at hnext
                  cases hnext
                  rw [hback] at hlength
                  exact absurd hlength (Nat.not_succ_le_self _)
  | rollback =>
      cases n with
      | succ n =>
          cases hnext
          exact ⟨rfl, rfl, n, rfl⟩
      | zero =>
          cases hback : start.copies with
          | nil => simp [next?, hback] at hnext
          | cons _ older =>
              simp only [next?, List.replicate_zero, hback] at hnext
              cases hnext
              rw [hback] at hlength
              exact absurd hlength (Nat.not_succ_le_self _)

end Ledger.Steady

theorem length_pasts (world : World) (layers : List Layer) :
    (pasts world layers).length = layers.length := by
  induction layers with
  | nil => rfl
  | cons l below ih => simpa [pasts] using ih

namespace Follows

variable {world : World} {start m : Ledger} {limits : Limits} {s t : RunState} {l : Layer}
  {below : List Layer}

/-- There is one copy for every frame that waits. -/
theorem length_copies {c : Context} (h : Follows world m c l below) :
    m.copies.length + 1 = c.depth := by
  obtain ⟨saved, hstands⟩ := h.stands
  rw [h.tracks.copies, length_pasts, hstands.depth_eq]
  rfl

/-- A move that changes no account leaves the accounts as they are seen, unless it goes back behind
the start. -/
theorem steady (hworld : world.NoZero) (h : Follows world m s.context l below)
    (hsteady : start.Steady m) (hmove : Move limits s t) (hreads : (s.event limits).Reads)
    (hfloor : start.copies.length < t.context.depth) :
    ∃ m' l' below', Follows world m' t.context l' below' ∧ start.Steady m' := by
  obtain ⟨m', l', below', hnext, hfollows, _⟩ := h.move hworld hmove
  have hlength := hfollows.length_copies
  exact ⟨m', l', below', hfollows, hsteady.next hnext hreads (by omega)⟩

end Follows

namespace Context

variable {limits : Limits} {s t : RunState} {c c' : Context} {f : Frame} {below : List Frame}

/-- A root frame on a new workspace sees its own slots and what was committed for all other
accounts. -/
theorem launch_follows (frameLimits : Limits) (slots : Slots) (code : Bytes) (gas : Nat)
    (call : CallData) (base : Context) :
    ∃ m l, Follows base.world m (base.launch frameLimits slots code gas call) l [] := by
  let l : Layer := ⟨.new code gas call (.owned base.pool.cells.size), .fresh slots.nonzero⟩
  have hstands := launch_stands frameLimits slots code gas call base
  refine ⟨⟨slotsSeen base.world [l], codeSeen base.world [l], []⟩, l, ⟨[], hstands⟩,
    ⟨rfl, rfl, rfl, ?_⟩, rfl, rfl⟩
  rw [List.forall_mem_singleton]
  exact Contents.sound_fresh _ slots

/-- A state above a floor in which only read-only frames were opened since the accounts were seen as
in `start` and the world was `committed`. -/
structure Reading (world : World) (start : Ledger) (lower : List Frame) (committed : World)
    (s : RunState) : Prop where
  follows : ∃ m l below, Follows world m s.context l below ∧ start.Steady m
  frames : ∃ upper, upper ≠ [] ∧ s.context.frames.toList = upper ++ lower ∧
    ∀ f ∈ upper, f.ReadOnly
  world : s.context.world = committed

namespace Reading

variable {world committed : World} {start : Ledger} {lower : List Frame}

/-- A move from such a state leaves the committed accounts alone, and the accounts as they are
seen. -/
theorem quiet (h : Reading world start lower committed s) (hworld : world.NoZero)
    (hmove : Move limits s t) (hfloor : start.copies.length < t.context.depth) :
    t.context.world = committed ∧
      ∃ m l below, Follows world m t.context l below ∧ start.Steady m := by
  obtain ⟨m, l, below, hfollows, hsteady⟩ := h.follows
  obtain ⟨upper, hne, hframes, hupper⟩ := h.frames
  obtain ⟨f, rest, rfl⟩ := List.exists_cons_of_ne_nil hne
  have hf : f.ReadOnly := hupper f List.mem_cons_self
  rw [List.cons_append] at hframes
  have hcreator : s.creator? limits = none := by
    rw [RunState.creator?, creator_eq_none hframes (.inl hf.static)]
    split <;> rfl
  refine ⟨?_, hfollows.steady hworld hsteady hmove (RunState.event_reads hframes hf limits) hfloor⟩
  rw [hmove.moved.world, hcreator]
  exact h.world

/-- A move that stays above the floor leads to such a state. -/
theorem move (h : Reading world start lower committed s) (hworld : world.NoZero)
    (hstart : start.copies.length < lower.length) (hmove : Move limits s t)
    (hfloor : lower.length < t.context.depth) : Reading world start lower committed t := by
  obtain ⟨hcommitted, hfollows⟩ := h.quiet hworld hmove (by omega)
  refine ⟨hfollows, ?_, hcommitted⟩
  obtain ⟨upper, hne, hframes, hupper⟩ := h.frames
  have hmoved := hmove.moved.frames
  rw [hframes] at hmoved
  exact hmoved.read_only hne hupper (by rwa [← t.context.frames.size_eq])

theorem run (h : Reading world start lower committed s) (hworld : world.NoZero)
    (hstart : start.copies.length < lower.length)
    (hrun : ReachesAbove limits lower.length s t) : Reading world start lower committed t := by
  induction hrun with
  | refl => exact h
  | tail _ hlast ih => exact ih.move hworld hstart hlast.1 hlast.2

/-- When the only frame above the floor is finished, successfully or not, the frame below it sees the
accounts as they were seen at the start, and has emitted and earned what it had before. -/
theorem finish {parent : Frame} (h : Reading world start (parent :: below) committed s)
    (hworld : world.NoZero) (hstart : start.copies.length = below.length)
    (hdepth : s.context.depth = below.length + 2) (hhalted : s.context.isRunning = false)
    (hrefunds : parent.gas.refunds ≤ maxAmount) :
    ∃ result c' parent', s.context.finishChild = .ok result c' ∧ c'.top = .ok parent' ∧
      (∀ a, c'.storageView a = .ok (start.storage a) ∧
        c'.codeAt a = .ok ((start.code a).getD ByteArray.empty)) ∧
      c'.world = committed ∧ parent'.logs = parent.logs ∧
      parent'.gas.refunds = parent.gas.refunds := by
  obtain ⟨upper, _, hframes, hupper⟩ := h.frames
  obtain ⟨child, rfl⟩ : ∃ child, upper = [child] := by
    rw [depth_eq, hframes, List.length_append, List.length_cons] at hdepth
    exact List.length_eq_one_iff.1 (by omega)
  have hchild : child.ReadOnly := hupper child List.mem_cons_self
  obtain ⟨result, c', hfinish⟩ : ∃ result c', s.context.finishChild = .ok result c' := by
    obtain ⟨m, l, layers, ⟨⟨saved, hstands⟩, _, _, _⟩, _⟩ := h.follows
    cases layers with
    | nil =>
        rw [hstands.depth_eq, List.length_nil] at hdepth
        omega
    | cons next layers =>
        obtain ⟨c', x, saved', hok, _⟩ := hstands.finish (hstands.is_running.symm.trans hhalted)
        exact ⟨_, c', hok⟩
  obtain ⟨child', parent₁, below₁, hbefore, _, hafter, _⟩ := finish_child_frames hfinish
  cases hframes.symm.trans hbefore
  have hmove : Move default ⟨s.context, none⟩ ⟨c', some result⟩ := .finish hhalted hfinish
  have hhere : Reading world start (parent :: below) committed ⟨s.context, none⟩ :=
    ⟨h.follows, h.frames, h.world⟩
  have hdepth' : c'.depth = below.length + 1 := by
    rw [depth_eq, hafter]
    rfl
  obtain ⟨hcommitted, m, l, layers, hfollows, hsteady⟩ := hhere.quiet hworld hmove (by
    show start.copies.length < c'.depth
    omega)
  have hshown := hfollows.shown
  refine ⟨result, c', child.learn parent, hfinish, by simp only [top, hafter], fun a => ⟨?_, ?_⟩,
    hcommitted, ?_, ?_⟩
  · rw [← hsteady.storage]
    exact hshown.storage a
  · rw [← hsteady.code]
    exact hshown.code a
  · rw [Frame.logs_learn, hchild.logs]
    split
    · exact Array.append_empty
    · rfl
  · rw [Frame.refunds_learn, hchild.refunds]
    split
    · exact satAdd_eq_add hrefunds
    · rfl

end Reading

/-- From the opening of a read-only call until it is finished, all frames above the caller are
read-only: they may not write, carry no value, have emitted nothing and have earned nothing. The
committed accounts stay as they are, nonces included. When the call is finished, successfully or not,
the caller sees all slots and all codes as it did before the call, and has emitted and earned what it
had before. This needs that no zeros were committed, which no operation on the world does. -/
theorem read_only_call (base : Context) {frameLimits limits : Limits} {slots : Slots} {code : Bytes}
    {gas : Nat} {call : CallData} {c₁ c₂ : Context} {caller : Frame} {s : RunState}
    (hworld : base.world.NoZero)
    (hstart : Reaches limits ⟨base.launch frameLimits slots code gas call, none⟩ ⟨c₁, none⟩)
    (hcaller : c₁.top = .ok caller)
    (hop : caller.currentOp = .staticCall ∨
      caller.currentOp = .call ∧ caller.call.isStatic = true)
    (hopen : Move limits ⟨c₁, none⟩ ⟨c₂, none⟩) (hdepth : c₂.depth = c₁.depth + 1)
    (hrun : ReachesAbove limits c₁.depth ⟨c₂, none⟩ s) :
    (∀ f ∈ s.context.frames.toList.take (s.context.depth - c₁.depth),
      f.call.isStatic = true ∧ f.call.value = 0 ∧ f.logs = #[] ∧ f.gas.refunds = 0) ∧
    s.context.world = c₁.world ∧
    (s.context.depth = c₁.depth + 1 → s.context.isRunning = false →
      ∃ result c' parent, s.context.finishChild = .ok result c' ∧ c'.top = .ok parent ∧
        (∀ a, c'.storageView a = c₁.storageView a ∧ c'.codeAt a = c₁.codeAt a) ∧
        c'.world = c₁.world ∧ parent.logs = caller.logs ∧
        parent.gas.refunds = caller.gas.refunds) := by
  obtain ⟨m₀, l₀, hfollows₀⟩ := launch_follows frameLimits slots code gas call base
  obtain ⟨events, hsteps⟩ := hstart.steps
  obtain ⟨start, l₁, below₁, _, hfollows₁, _⟩ := hfollows₀.run hworld hsteps
  obtain ⟨below, hframes₁⟩ : ∃ below, c₁.frames.toList = caller :: below :=
    List.head?_eq_some_iff.1 (head_of_top hcaller)
  obtain ⟨parent, child, hframes₂, hopens⟩ := hopen.opened hframes₁ hdepth
  have hchild : child.ReadOnly := hopens.read_only (hopens.makes.of_read hop)
  have hlength : c₁.depth = below.length + 1 := by
    rw [depth_eq, hframes₁]
    rfl
  have hcopies : start.copies.length + 1 = c₁.depth := hfollows₁.length_copies
  -- The call itself changes no account and uses up no address.
  have henters : (RunState.event limits ⟨c₁, none⟩).Reads := by
    obtain ⟨saved, hstands⟩ := hfollows₁.stands
    obtain ⟨l₂, waiting, saved₂, _, hchange⟩ := hstands.opened hopen hdepth
    generalize RunState.event limits _ = event at hchange
    cases hchange with
    | enterInternal => trivial
    | enterOwn => trivial
  have hcreator : RunState.creator? limits ⟨c₁, none⟩ = none := by
    have hother : caller.currentOp ≠ .create := by
      rcases hop with hop | ⟨hop, _⟩ <;> simp [hop]
    rw [RunState.creator?, creator_eq_none hframes₁ (.inr hother)]
    split <;> rfl
  have hworld₂ : c₂.world = c₁.world := by
    have hmoved := hopen.moved.world
    rw [hcreator] at hmoved
    exact hmoved
  have hreading : Reading base.world start (parent :: below) c₁.world ⟨c₂, none⟩ := by
    refine ⟨hfollows₁.steady hworld (.refl start) hopen henters ?_, ?_, hworld₂⟩
    · show start.copies.length < c₂.depth
      omega
    · exact ⟨[child], by simp, hframes₂, by simpa using hchild⟩
  rw [show c₁.depth = (parent :: below).length from hlength] at hrun
  have hreading := hreading.run hworld (by rw [List.length_cons]; omega) hrun
  refine ⟨?_, hreading.world, fun hend hhalted => ?_⟩
  · obtain ⟨upper, _, hframes, hupper⟩ := hreading.frames
    have htake : s.context.frames.toList.take (s.context.depth - c₁.depth) = upper := by
      rw [depth_eq, hframes, hlength, List.length_append, List.length_cons, Nat.add_sub_cancel]
      exact List.take_left
    rw [htake]
    intro f hf
    have hread := hupper f hf
    exact ⟨hread.static, hread.value, hread.logs, hread.refunds⟩
  · have hrefunds : ∀ f ∈ c₁.frames.toList, f.gas.refunds ≤ maxAmount := by
      refine hstart.refunds_le ?_
      rw [show (base.launch frameLimits slots code gas call).frames.toList = [_] from rfl]
      simp [Frame.new, GasMeter.new]
    have hcaller : caller.gas.refunds ≤ maxAmount := hrefunds caller (by simp [hframes₁])
    obtain ⟨result, c', parent', hfinish, htop, hviews, hcommitted, hlogs, hearned⟩ :=
      hreading.finish hworld (by omega) (by omega) hhalted (hopens.stays.refunds ▸ hcaller)
    have hshown := hfollows₁.shown
    refine ⟨result, c', parent', hfinish, htop, fun a => ?_, hcommitted,
      hlogs.trans hopens.stays.logs, hearned.trans hopens.stays.refunds⟩
    rw [hshown.storage, hshown.code]
    exact hviews a

/-- Two contracts, one that reads a slot and one that makes a read-only call to it. -/
def readingWorld : World :=
  World.setCode 2 ⟨#[0x60, 1, 0x54, 0]⟩ (World.setCode 3
    ⟨#[0x60, 0, 0x60, 0, 0x60, 0, 0x60, 0, 0x60, 2, 0x61, 0x40, 0, 0xFA, 0]⟩ {})

/-- A run in which the root frame writes a slot and makes a read-only call to a contract that calls the
account of the root frame again, to read that slot. -/
def readingCall : RunState where
  context := launch {} ∅
    ⟨#[0x60, 7, 0x60, 1, 0x55, 0x60, 0, 0x60, 0, 0x60, 0, 0x60, 0, 0x60, 3, 0x61, 0x80, 0, 0xFA]⟩
    100000 (.transaction 1 2 0 ByteArray.empty) { txn := ⟨1, 0⟩, world := readingWorld }

/-- The call succeeds, and its caller sees what it saw before. -/
theorem reading_call_read_only : ∃ c₁ c₂ s caller child result c' parent,
    Reaches {} readingCall ⟨c₁, none⟩ ∧ c₁.top = .ok caller ∧ caller.currentOp = .staticCall ∧
      Move {} ⟨c₁, none⟩ ⟨c₂, none⟩ ∧ c₂.depth = c₁.depth + 1 ∧
      ReachesAbove {} c₁.depth ⟨c₂, none⟩ s ∧ s.context.top = .ok child ∧
      child.isSuccess = true ∧ s.context.finishChild = .ok result c' ∧ c'.top = .ok parent ∧
      (∀ a, c'.storageView a = c₁.storageView a ∧ c'.codeAt a = c₁.codeAt a) ∧
      c'.world = c₁.world ∧ parent.logs = caller.logs ∧
      parent.gas.refunds = caller.gas.refunds := by
  have hfacts : (readingCall.excursion? {} 9 13).any (fun run =>
      run.1.finished == none && run.1.context.frames.toList.map (·.currentOp) == [.staticCall] &&
        run.2.1.finished == none && run.2.1.context.depth == 2 &&
        run.2.2.context.frames.toList.map (fun f => (f.running, f.isSuccess)) ==
          [(false, true), (true, false)]) = true := by
    decide +kernel
  obtain ⟨⟨⟨c₁, _⟩, ⟨c₂, _⟩, s⟩, hrun, hfacts⟩ := (Option.any_eq_true _ _).1 hfacts
  simp only [Bool.and_eq_true, beq_iff_eq] at hfacts
  obtain ⟨⟨⟨⟨rfl, hops⟩, rfl⟩, hdepth₂⟩, hends⟩ := hfacts
  obtain ⟨hstart, hopen, habove⟩ := excursion_reaches hrun
  obtain ⟨caller, hcaller, hop⟩ := top_of_map hops
  obtain ⟨child, hchild, hend⟩ := top_of_map hends
  obtain ⟨hhalted, hsuccess⟩ := Prod.mk.inj hend
  have hdepth₁ : c₁.depth = 1 := depth_of_map hops
  have hopened : c₂.depth = c₁.depth + 1 := hdepth₂.trans (by rw [hdepth₁])
  have hdepth : s.context.depth = c₁.depth + 1 := (depth_of_map hends).trans (by rw [hdepth₁]; rfl)
  have hstopped : s.context.isRunning = false := by
    obtain ⟨below, hframes⟩ := List.head?_eq_some_iff.1 (head_of_top hchild)
    simpa [isRunning, hframes] using hhalted
  have hworld : readingWorld.NoZero := (World.no_zero_empty.set_code 3 _).set_code 2 _
  obtain ⟨_, _, hfinish⟩ :=
    read_only_call _ hworld hstart hcaller (.inl hop) hopen hopened habove
  obtain ⟨result, c', parent, hok, htop, hviews, hcommitted, hlogs, hrefunds⟩ :=
    hfinish hdepth hstopped
  exact ⟨c₁, c₂, s, caller, child, result, c', parent, hstart, hcaller, hop, hopen, hopened, habove,
    hchild, hsuccess, hok, htop, hviews, hcommitted, hlogs, hrefunds⟩

end Context
end CallTree
