import CallTree.Proofs.Serving

/-!
# Moves on frames

What a move does to the frames of any call stack. An instruction lets the topmost frame go on, or
opens one frame above it that has been paid for (`Frame.Executes`); finishing a child lets its parent
learn the result; taking up the result is work in one frame. Nothing else on the call stack changes,
and the workspaces of all frames stay in use, so that a halted frame above another can always be
finished (`Context.finish_child_of_housed`). Frames are opened one at a time, so that a run that has left
some floor did so last by opening a single frame (`Reaches.opening`). As long as it stays above the
floor, that frame is the same one (`ReachesAbove.settled`).
-/

namespace CallTree

namespace Frame

/-- The frame `child` was opened above `f`, of which `parent` is left. The parent has paid the price
of the instruction, the gas that is handed to the child, and a surcharge if the call carries
value. -/
structure Opens (f parent child : Frame) : Prop where
  stays : f.Stays parent
  makes : f.currentOp.Makes f.call child.call
  creation : child.creation = (child.call.kind == .create)
  running : child.running = true
  verdict : child.verdict = .undecided
  logs : child.logs = #[]
  output : child.output.size = 0
  staged : child.staged = .empty
  paid : ∃ forwarded, child.gas = .new (child.call.granted forwarded) ∧
    parent.gas.remaining + forwarded + child.call.surcharge + Gas.static f.currentOp ≤
      f.gas.remaining

/-- What an instruction of the frame `f` leaves of it on the call stack. -/
inductive Executes (f : Frame) : List Frame → Prop
  /-- The frame has paid or has halted. -/
  | goes {f' : Frame} (hworks : f.Works f')
      (hpaid : f'.running = true → f'.gas.remaining < f.gas.remaining) : Executes f [f']
  /-- A frame was opened above it. -/
  | opens {parent child : Frame} (hopens : f.Opens parent child) : Executes f [child, parent]

/-- An instruction that asks for a frame leaves its own one running and emits nothing. -/
theorem stays_of_request {env : Surroundings} {f : Frame} {s : Option Workspace} {b : Activation}
    {request : Request} (hact : Instruction.fetchAndDispatch env ⟨f, s⟩ = .ok request b)
    (hrequest : request ≠ .proceed) : f.Stays b.frame := by
  have htouches := Action.after_ok hact ▸ fetch_within env ⟨f, s⟩
  have hasks : f.currentOp.Asks request := Instruction.fetch_request hact
  cases request with
  | proceed => exact absurd rfl hrequest
  | internal target gas =>
      rw [show f.currentOp = .callInternal from hasks] at htouches
      exact .of_touches htouches (by decide)
  | message call gas region =>
      rcases hasks.1 with hop | hop
      · rw [hop] at htouches
        exact .of_touches htouches (by decide)
      · rw [hop] at htouches
        exact .of_touches htouches (by decide)
  | create value initCode gas =>
      rw [show f.currentOp = .create from hasks] at htouches
      exact .of_touches htouches (by decide)

/-- A frame that is opened by a completed instruction has been paid for. -/
theorem opens_of_request {env : Surroundings} {f parent child : Frame} {s : Option Workspace}
    {b : Activation} {request : Request}
    (hact : Instruction.fetchAndDispatch env ⟨f, s⟩ = .ok request b)
    (hopens : request.Opens b.frame parent child) : f.Opens parent child := by
  have hdue : request.Due f.currentOp f.call f.gas.remaining b := Instruction.fetch_due hact
  cases request with
  | proceed => exact hopens.elim
  | internal target gas =>
      obtain ⟨rfl, origin, marks, rfl⟩ := hopens
      obtain ⟨hop, hpaid⟩ := hdue
      have hstays := stays_of_request hact (by simp)
      have hcall : b.frame.call = f.call := congrArg Site.call hstays.site
      refine ⟨hstays, ?_, rfl, rfl, rfl, rfl, rfl, rfl, gas, rfl, hpaid⟩
      rw [hop]
      exact .internal rfl (by rw [← hcall]; rfl) (by rw [← hcall]; rfl)
  | message call gas region =>
      obtain ⟨rfl, code, home, rfl⟩ := hopens
      obtain ⟨hmakes, forwarded, rfl, hpaid⟩ := hdue
      exact ⟨stays_of_request hact (by simp), hmakes, rfl, rfl, rfl, rfl, rfl, rfl, forwarded, rfl,
        hpaid⟩
  | create value initCode gas =>
      obtain ⟨hpays, hgas, origin, address, home, rfl⟩ := hopens
      obtain ⟨hop, hpaid⟩ := hdue
      refine ⟨(stays_of_request hact (by simp)).trans hpays.stays, ?_, rfl, rfl, rfl, rfl, rfl, rfl,
        gas, rfl, ?_⟩
      · rw [hop]
        refine .create (Bool.eq_false_iff.2 fun hstatic => ?_) rfl
        have hallowed := Instruction.fetch_allowed hact hstatic
        simp [hop, Opcode.isStateModifying] at hallowed
      · show parent.gas.remaining + gas + 0 + Gas.static f.currentOp ≤ f.gas.remaining
        omega

/-! ## What a parent learns -/

variable {child parent : Frame}

theorem logs_refund_gas (amount : Nat) (f : Frame) : (f.refundGas amount).logs = f.logs := by
  unfold refundGas
  split <;> rfl

theorem refunds_refund_gas (amount : Nat) (f : Frame) :
    (f.refundGas amount).gas.refunds = f.gas.refunds := by
  unfold refundGas
  split <;> rfl

theorem running_learn (child parent : Frame) : (child.learn parent).running = parent.running := by
  obtain ⟨gas, logs, hlearn⟩ := child.learn_eq parent
  rw [hlearn]

/-- What a parent learns about its child decides nothing about the parent. -/
theorem success_learn (child parent : Frame) :
    (child.learn parent).isSuccess = parent.isSuccess := by
  obtain ⟨gas, logs, hlearn⟩ := child.learn_eq parent
  rw [hlearn]
  rfl

theorem output_learn (child parent : Frame) : (child.learn parent).output = parent.output := by
  obtain ⟨gas, logs, hlearn⟩ := child.learn_eq parent
  rw [hlearn]

/-- A child hands over what it has emitted if it has succeeded. -/
theorem logs_learn (child parent : Frame) :
    (child.learn parent).logs =
      if child.isSuccess then parent.logs ++ child.logs else parent.logs := by
  rw [learn, logs_refund_gas]
  split <;> rfl

/-- A child hands over what it has earned if it has succeeded. -/
theorem refunds_learn (child parent : Frame) :
    (child.learn parent).gas.refunds =
      if child.isSuccess then satAdd parent.gas.refunds child.gas.refunds
      else parent.gas.refunds := by
  rw [learn, refunds_refund_gas]
  split <;> rfl

/-- A parent that is running gets back what is left of the child's gas. -/
theorem gas_learn (hrunning : parent.running = true) :
    (child.learn parent).gas.remaining = satAdd parent.gas.remaining child.gas.remaining ∧
      (child.learn parent).gas.used = parent.gas.used - child.gas.remaining := by
  unfold learn refundGas
  by_cases hsuccess : child.isSuccess = true
  · simp [hsuccess, stage, recordRefund, addLogs, hrunning, GasMeter.refund, GasMeter.addRefund]
  · simp [hsuccess, stage, hrunning, GasMeter.refund]

/-- A parent never gets more than what is left. -/
theorem remaining_learn_le (child parent : Frame) :
    (child.learn parent).gas.remaining ≤ parent.gas.remaining + child.gas.remaining := by
  by_cases hrunning : parent.running = true
  · rw [(gas_learn hrunning).1]
    exact Nat.min_le_left _ _
  · have hsame : (child.learn parent).gas.remaining = parent.gas.remaining := by
      unfold learn refundGas
      by_cases hsuccess : child.isSuccess = true
      · simp [hsuccess, stage, recordRefund, addLogs, hrunning, GasMeter.addRefund]
      · simp [hsuccess, stage, hrunning]
    rw [hsame]
    exact Nat.le_add_right _ _

end Frame

/-! ## Instructions -/

/-- The committed accounts after an account has used up an address, if one has. -/
def World.useUp (creator : Option Address) (w : World) : World :=
  creator.elim w fun a => (w.nextCreateAddress a).2

namespace Context

/-- The account that uses up an address in the next instruction, if one does. -/
def creator? (limits : Limits) (c : Context) : Option Address :=
  match onTop (Instruction.fetchAndDispatch ⟨limits, c.depth, c.txn.origin⟩) c with
  | .ok (.create _ _ _) c' => c'.top.toOption.map (·.call.contract)
  | _ => none

variable {limits : Limits} {c c' : Context} {f : Frame} {below : List Frame}

theorem held_refl (hframes : c.frames.toList = f :: below) : Held c (f :: below) c.world c :=
  ⟨rfl, rfl, hframes, .refl _⟩

/-- A change to the topmost frame alone. -/
theorem Held.update_top {c₀ : Context} {world : World} (h : Held c₀ (f :: below) world c)
    (g : Frame → Frame) : Held c₀ (g f :: below) world (c.updateTop g) := by
  obtain ⟨⟨frames, size, hsize⟩, pool, txn, world', own⟩ := c
  obtain ⟨hlimits, hworld, hframes, hlive⟩ := h
  cases hframes
  exact ⟨hlimits, hworld, rfl, hlive⟩

/-- The workspaces stay in use when a request is answered. -/
theorem Answered.housed {f₁ : Frame} {request : Request} {world : World}
    (h : Answered c f₁ below world request c') (hsite : f₁.site = f.site)
    (hhoused : Housed c.pool (f :: below)) : Housed c'.pool c'.frames.toList := by
  have hhome : f₁.home = f.home := congrArg Site.home hsite
  rcases h with ⟨f', hheld, hpays⟩ | ⟨parent, child, hheld, hlodges, hopens⟩
  · rw [hheld.frames]
    exact hhoused.goes_on ((congrArg Site.home hpays.stays.site).trans hhome) hheld.live
  · have hparent : parent.home = f.home := by
      cases request with
      | proceed => exact hopens.elim
      | internal target gas => rw [hopens.1, hhome]
      | message call gas region => rw [hopens.1, hhome]
      | create value initCode gas => exact (congrArg Site.home hopens.1.stays.site).trans hhome
    obtain ⟨hapart, hbelow⟩ := List.pairwise_cons.1 hhoused.apart
    have hlive : ∀ g ∈ below, (c.pool.get? g.home.cell).isSome = true := fun g hg =>
      hhoused.live (by simpa using List.length_pos_of_mem hg) g (List.mem_cons_of_mem _ hg)
    rw [hheld.frames]
    refine ⟨fun _ g hg => ?_, ?_⟩
    · rcases List.mem_cons.1 hg with rfl | hg
      · exact hlodges.live
      · rcases List.mem_cons.1 hg with rfl | hg
        · exact hlodges.under
        · exact hheld.live _ (hlive g hg)
    · refine List.pairwise_cons.2 ⟨fun g hg hown => ?_, List.pairwise_cons.2 ⟨?_, hbelow⟩⟩
      · obtain ⟨hne, hfree⟩ := hlodges.fresh hown
        rcases List.mem_cons.1 hg with rfl | hg
        · exact hne
        · -- The cells of the frames below were in use before the new one was taken.
          intro he
          have hold := hlive g hg
          rw [he, hfree] at hold
          cases hold
      · rw [hparent]
        exact hapart

/-- The account that uses up an address is the one that the topmost frame runs. -/
theorem use_up_creator {request : Request} {c₁ : Context} {g : Frame}
    (hfetch : onTop (Instruction.fetchAndDispatch ⟨limits, c.depth, c.txn.origin⟩) c =
      .ok request c₁) (htop : c₁.top = .ok g) :
    c.world.useUp (c.creator? limits) = request.use g.call.contract c.world := by
  cases request with
  | create value initCode gas =>
      simp only [creator?, hfetch, htop]
      rfl
  | _ =>
      simp only [creator?, hfetch]
      rfl

/-- What an instruction leaves of the topmost frame: if it is completed, that frame or a frame
above it; if it is refused, that frame, still running. -/
theorem step_frames (hframes : c.frames.toList = f :: below) (hrunning : f.running = true) :
    match c.step limits with
    | .ok _ c' => ∃ top, Held c (top ++ below) (c.world.useUp (c.creator? limits)) c' ∧
        f.Executes top ∧ (Housed c.pool (f :: below) → Housed c'.pool c'.frames.toList)
    | .error _ c' => ∃ f', Held c (f' :: below) (c.world.useUp (c.creator? limits)) c' ∧
        f.Works f' ∧ f'.running = true := by
  let env : Surroundings := ⟨limits, c.depth, c.txn.origin⟩
  have hwithin : ∀ s, Touches f.currentOp.touches ⟨f, s⟩
      (Action.after (Instruction.fetchAndDispatch env) ⟨f, s⟩) := fun s => fetch_within env ⟨f, s⟩
  have htop := on_top_held hwithin c (held_refl hframes)
  cases hfetch : onTop (Instruction.fetchAndDispatch env) c with
  | error e c₁ =>
      rw [hfetch] at htop
      obtain ⟨s, b, hact, hheld⟩ := htop
      have hnone : c.creator? limits = none := by simp only [creator?, env, hfetch]
      have hworks := Action.after_error hact ▸ Frame.works_fetch env ⟨f, s⟩
      rw [step_error hfetch, hnone]
      exact ⟨b.frame, hheld, hworks, Instruction.fetch_refused_running hact hrunning⟩
  | ok request c₁ =>
      rw [hfetch] at htop
      obtain ⟨s, b, hact, hheld⟩ := htop
      have hworks := Action.after_ok hact ▸ Frame.works_fetch env ⟨f, s⟩
      have htop₁ : c₁.top = .ok b.frame := by simp only [top, hheld.frames]
      rw [step_ok hfetch, use_up_creator hfetch htop₁]
      have hserve := serve_held request c₁ hheld
      cases hresult : serve request c₁ with
      | ok r c' =>
          rw [hresult] at hserve
          have hhoused := hserve.housed hworks.site
          rcases hserve with ⟨f', hheld', hpays⟩ | ⟨parent, child, hheld', _, hopens⟩
          · refine ⟨[f'], hheld', .goes (hworks.trans hpays.stays.works) fun hrunning' => ?_, hhoused⟩
            have hdue : request.Due f.currentOp f.call f.gas.remaining b :=
              Instruction.fetch_due hact
            exact Nat.lt_of_le_of_lt hpays.gas.remaining (hdue.lt (hpays.stays.running ▸ hrunning'))
          · exact ⟨[child, parent], hheld', .opens (Frame.opens_of_request hact hopens), hhoused⟩
      | error e c' =>
          rw [hresult] at hserve
          obtain ⟨_, f', hheld', hpays⟩ := hserve
          -- A completed instruction whose request is refused has not halted its frame.
          have hrunning' : b.frame.running = true := by
            by_cases hrequest : request = .proceed
            · subst hrequest
              cases hresult
            · exact (Frame.stays_of_request hact hrequest).running.trans hrunning
          exact ⟨f', hheld', hworks.trans hpays.stays.works, hpays.stays.running.trans hrunning'⟩

/-- An instruction; a fault halts the frame that raised it. -/
theorem step_or_fail_frames (hframes : c.frames.toList = f :: below) (hrunning : f.running = true)
    (hstep : c.stepOrFail limits = .ok () c') :
    ∃ top, Held c (top ++ below) (c.world.useUp (c.creator? limits)) c' ∧ f.Executes top ∧
      (Housed c.pool (f :: below) → Housed c'.pool c'.frames.toList) := by
  cases hresult : c.step limits with
  | ok r c₁ =>
      have hend := hresult ▸ step_frames hframes hrunning
      simp only [stepOrFail, hresult] at hstep
      cases hstep
      exact hend
  | error e c₁ =>
      obtain ⟨f', hheld, hworks, _⟩ := hresult ▸ step_frames hframes hrunning
      cases e with
      | overflow => simp [stepOrFail, hresult] at hstep
      | fault e =>
          simp only [stepOrFail, hresult] at hstep
          cases hstep
          have hheld' := hheld.update_top (Frame.fail e)
          refine ⟨[f'.fail e], hheld', .goes (hworks.trans (Frame.works_fail e f')) ?_, ?_⟩
          · intro hfailed
            rw [Frame.running_fail] at hfailed
            cases hfailed
          · intro hhoused
            rw [hheld'.frames]
            refine hhoused.goes_on ?_ hheld'.live
            exact congrArg Site.home ((Frame.site_fail e f').trans hworks.site)

/-- Taking up the result of a child; a fault halts the frame. -/
theorem resume_or_fail_frames {result : FinishedCall} (hframes : c.frames.toList = f :: below)
    (hresume : c.resumeOrFail limits result = .ok () c') :
    ∃ f', Held c (f' :: below) c.world c' ∧ f.Works f' := by
  have htop := on_top_held (fun s => Exec.Within.resume limits result ⟨f, s⟩) c
    (held_refl hframes)
  cases hact : onTop (Exec.resume limits result) c with
  | ok r c₁ =>
      rw [hact] at htop
      obtain ⟨s, b, hb, hheld⟩ := htop
      simp only [resumeOrFail, hact] at hresume
      cases hresume
      exact ⟨b.frame, hheld, .resume (Action.after_ok hb ▸ Exec.Within.resume limits result _)⟩
  | error e c₁ =>
      rw [hact] at htop
      obtain ⟨s, b, hb, hheld⟩ := htop
      cases e with
      | overflow => simp [resumeOrFail, hact] at hresume
      | fault e =>
          simp only [resumeOrFail, hact] at hresume
          cases hresume
          have hworks : f.Works b.frame :=
            .resume (Action.after_error hb ▸ Exec.Within.resume limits result _)
          exact ⟨_, hheld.update_top (Frame.fail e), hworks.trans (Frame.works_fail e b.frame)⟩

end Context

/-! ## Finishing -/

/-- There is nothing to take over into without a workspace. -/
theorem Exec.fold_child_dangling (child f : Frame) (space : Workspace) :
    ∃ e, foldChild child space ⟨f, none⟩ = .error e ⟨f, none⟩ := by
  have hfirst : ∃ e, foldStorage child.call.contract space.storage.slots ⟨f, none⟩ =
      .error e ⟨f, none⟩ := by
    have hframe : Exec.frame ⟨f, none⟩ = .ok f ⟨f, none⟩ := rfl
    rw [foldStorage, Action.bind_ok hframe]
    split
    · exact ⟨_, rfl⟩
    · exact ⟨_, rfl⟩
  obtain ⟨e, hfirst⟩ := hfirst
  exact ⟨e, Action.bind_error hfirst⟩

/-- Handing over needs nothing but the two workspaces, and keeps all that are in use. -/
theorem Frame.hand_over_live (child parent : Frame) (pool : Pool Workspace) :
    match child.handOver (parent, pool) with
    | .ok _ s => s.1 = parent ∧ pool.KeepsLive s.2
    | .error _ _ => pool.get? child.home.cell = none ∨ pool.get? parent.home.cell = none := by
  by_cases hkind : child.call.kind = .internal
  · have hsettle := child.settle_shared_live child.isSuccess pool
    cases hresult : child.settleShared child.isSuccess pool with
    | ok r pool' =>
        rw [hresult] at hsettle
        simp only [handOver, hkind, if_true, hresult]
        exact ⟨trivial, hsettle⟩
    | error e pool' =>
        rw [hresult] at hsettle
        simp only [handOver, hkind, if_true, hresult]
        exact .inl hsettle.2.2
  by_cases hsuccess : child.isSuccess = true
  · cases hchild : pool.get? child.home.cell with
    | none => simp [handOver, hkind, hsuccess, Pool.read, hchild]
    | some w =>
        cases hparent : pool.get? parent.home.cell with
        | none =>
            obtain ⟨e, hfold⟩ := Exec.fold_child_dangling child parent w
            simp only [handOver, hkind, if_false, hsuccess, if_true, Pool.read, hchild, Exec.inPool,
              hparent, hfold]
            exact .inr trivial
        | some v =>
            obtain ⟨v', hfold, _⟩ := Exec.fold_child_absorbs child parent w v
            simp only [handOver, hkind, if_false, hsuccess, if_true, Pool.read, hchild, Exec.inPool,
              hparent, hfold, Option.elim_some, Pool.set_free_same]
            exact ⟨trivial, .set _ _ _⟩
  · simp only [handOver, hkind, if_false, hsuccess]
    exact ⟨rfl, .refl pool⟩

namespace Context

variable {limits : Limits} {c c' : Context} {child parent : Frame} {below : List Frame}

/-- Finishing a child: its parent learns the result, and all workspaces but its own stay in use. -/
theorem finish_child_frames {result : FinishedCall} (h : c.finishChild = .ok result c') :
    ∃ child parent below, c.frames.toList = child :: parent :: below ∧ child.running = false ∧
      c'.frames.toList = child.learn parent :: below ∧ c'.limits = c.limits ∧
      c'.world = c.world ∧
      (Housed c.pool c.frames.toList → Housed c'.pool c'.frames.toList) := by
  obtain ⟨⟨frames, size, hsize⟩, pool, txn, world, own⟩ := c
  match frames with
  | [] => simp [finishChild] at h
  | [_] => simp [finishChild] at h
  | child :: parent :: below =>
      by_cases hrunning : child.running = true
      · simp [finishChild, hrunning] at h
      have hlive := child.hand_over_live parent pool
      cases hover : child.handOver (parent, pool) with
      | error e s => simp [finishChild, hrunning, Frame.finishInto, hover] at h
      | ok r s =>
          obtain ⟨parent', pool'⟩ := s
          rw [hover] at hlive
          obtain ⟨rfl, hlive⟩ := hlive
          simp [finishChild, hrunning, Frame.finishInto, hover] at h
          obtain ⟨-, rfl⟩ := h
          refine ⟨child, parent', below, rfl, by simpa using hrunning, rfl, rfl, rfl, ?_⟩
          intro hhoused
          refine hhoused.taken_off (congrArg Site.home (Frame.site_learn child parent')) ?_
          intro cell hne hcell
          rw [Pool.get_release_other _ hne]
          exact hlive cell hcell

/-- A halted frame above another can always be finished. -/
theorem finish_child_of_housed (hframes : c.frames.toList = child :: parent :: below)
    (hhalted : child.running = false) (hhoused : Housed c.pool c.frames.toList) :
    ∃ result c', c.finishChild = .ok result c' := by
  obtain ⟨⟨frames, size, hsize⟩, pool, txn, world, own⟩ := c
  cases hframes
  have hlive := hhoused.live (by simp)
  have hover := child.hand_over_live parent pool
  cases hresult : child.handOver (parent, pool) with
  | ok r s =>
      simp only [finishChild, hhalted, Frame.finishInto, hresult]
      exact ⟨_, _, rfl⟩
  | error e s =>
      rw [hresult] at hover
      rcases hover with hnone | hnone
      · have := hlive child (by simp)
        rw [show pool.get? child.home.cell = none from hnone] at this
        cases this
      · have := hlive parent (by simp)
        rw [show pool.get? parent.home.cell = none from hnone] at this
        cases this

/-- An instruction that is completed on top of the call stack is completed in the topmost frame. -/
theorem fetch_on_top {f : Frame} {env : Surroundings} {request : Request}
    (hframes : c.frames.toList = f :: below)
    (h : onTop (Instruction.fetchAndDispatch env) c = .ok request c') :
    ∃ s b, Instruction.fetchAndDispatch env ⟨f, s⟩ = .ok request b := by
  have hwithin : ∀ s, Touches f.currentOp.touches ⟨f, s⟩
      (Action.after (Instruction.fetchAndDispatch env) ⟨f, s⟩) := fun s => fetch_within env ⟨f, s⟩
  have htop := on_top_held hwithin c (held_refl hframes)
  rw [h] at htop
  obtain ⟨s, b, hact, _⟩ := htop
  exact ⟨s, b, hact⟩

/-- A read-only frame uses up no address, and no frame does except by a creation. -/
theorem creator_eq_none {f : Frame} (hframes : c.frames.toList = f :: below)
    (h : f.call.isStatic = true ∨ f.currentOp ≠ .create) : c.creator? limits = none := by
  unfold creator?
  split
  · rename_i hfetch
    obtain ⟨s, b, hact⟩ := fetch_on_top hframes hfetch
    have hop : f.currentOp = .create := Instruction.fetch_request hact
    rcases h with hstatic | hother
    · have hallowed := Instruction.fetch_allowed hact hstatic
      simp [hop, Opcode.isStateModifying] at hallowed
    · exact absurd hop hother
  · rfl

/-- A read-only frame completes no instruction that writes. -/
theorem step_allowed {f : Frame} (hframes : c.frames.toList = f :: below)
    (hstatic : f.call.isStatic = true) (h : c.step limits = .ok () c') :
    f.currentOp.isStateModifying = false := by
  cases hfetch : onTop (Instruction.fetchAndDispatch ⟨limits, c.depth, c.txn.origin⟩) c with
  | ok request c₁ =>
      obtain ⟨s, b, hact⟩ := fetch_on_top hframes hfetch
      exact Instruction.fetch_allowed hact hstatic
  | error e c₁ =>
      rw [step_error hfetch] at h
      cases h

end Context

/-! ## Moves -/

/-- What a move does to the frames of a call stack, by whether it is an instruction. -/
inductive FrameMove : Bool → List Frame → List Frame → Prop
  /-- The topmost frame executes an instruction. -/
  | executes {f : Frame} {top below : List Frame} (hrunning : f.running = true)
      (hexecutes : f.Executes top) : FrameMove true (f :: below) (top ++ below)
  /-- The topmost frame is finished into its parent. -/
  | finishes {child parent : Frame} {below : List Frame} (hhalted : child.running = false) :
      FrameMove false (child :: parent :: below) (child.learn parent :: below)
  /-- The topmost frame takes up the result of a child. -/
  | resumes {f f' : Frame} {below : List Frame} (hworks : f.Works f') :
      FrameMove false (f :: below) (f' :: below)
  /-- There is no frame to take it up. -/
  | idles : FrameMove false [] []

/-- A move opens at most one frame, and only an instruction opens one. -/
theorem FrameMove.length_le {executed : Bool} {frames frames' : List Frame}
    (h : FrameMove executed frames frames') :
    frames'.length ≤ frames.length + executed.toNat := by
  cases h with
  | executes _ hexecutes => cases hexecutes <;> simp [Nat.add_comm, Nat.add_left_comm]
  | finishes => simp
  | resumes => simp
  | idles => simp

namespace RunState

/-- The account that uses up an address in the next move, if one does. -/
def creator? (limits : Limits) (s : RunState) : Option Address :=
  if s.executes then s.context.creator? limits else none

end RunState

/-- What a move leaves of a context. -/
structure Moved (limits : Limits) (s t : RunState) : Prop where
  frames : FrameMove s.executes s.context.frames.toList t.context.frames.toList
  world : t.context.world = s.context.world.useUp (s.creator? limits)
  limits : t.context.limits = s.context.limits
  housed : Housed s.context.pool s.context.frames.toList →
    Housed t.context.pool t.context.frames.toList

/-- Every move leaves all but the two topmost frames alone. -/
theorem Move.moved {limits : Limits} {s t : RunState} (h : Move limits s t) : Moved limits s t := by
  cases h with
  | @instruction c c' hrunning hstep =>
      have hexecutes : RunState.executes ⟨c, none⟩ = true := by simp [RunState.executes, hrunning]
      have hcreator : RunState.creator? limits ⟨c, none⟩ = c.creator? limits := by
        rw [RunState.creator?, if_pos hexecutes]
      obtain ⟨f, below, hframes, hf⟩ := Context.top_of_running hrunning
      obtain ⟨top, hheld, htop, hhoused⟩ := Context.step_or_fail_frames hframes hf hstep
      refine ⟨?_, hcreator ▸ hheld.world, hheld.limits, hframes ▸ hhoused⟩
      rw [hexecutes, hheld.frames]
      exact hframes ▸ .executes hf htop
  | @finish c c' result hhalted hfinish =>
      have hexecutes : RunState.executes ⟨c, none⟩ = false := by simp [RunState.executes, hhalted]
      have hcreator : RunState.creator? limits ⟨c, none⟩ = none := by
        simp [RunState.creator?, hexecutes]
      obtain ⟨child, parent, below, hframes, hchild, hframes', hlimits, hworld, hhoused⟩ :=
        Context.finish_child_frames hfinish
      refine ⟨?_, hcreator ▸ hworld, hlimits, hhoused⟩
      rw [hexecutes, hframes']
      exact hframes ▸ .finishes hchild
  | @resume c c' result hresume =>
      have hcreator : RunState.creator? limits ⟨c, some result⟩ = none := rfl
      cases hframes : c.frames.toList with
      | nil =>
          obtain ⟨⟨frames, size, hsize⟩, pool, txn, world, own⟩ := c
          cases hframes
          cases hresume
          exact ⟨.idles, rfl, rfl, id⟩
      | cons f below =>
          obtain ⟨f', hheld, hworks⟩ := Context.resume_or_fail_frames hframes hresume
          refine ⟨?_, hcreator ▸ hheld.world, hheld.limits, fun hhoused => ?_⟩
          · rw [hheld.frames]
            exact hframes ▸ .resumes hworks
          · rw [hheld.frames]
            exact (hframes ▸ hhoused).goes_on (congrArg Site.home hworks.site) hheld.live

/-- A move that opens a frame is an instruction of the frame below it. -/
theorem Move.opened {limits : Limits} {c : Context} {t : RunState} {f : Frame} {below : List Frame}
    (h : Move limits ⟨c, none⟩ t) (hframes : c.frames.toList = f :: below)
    (hdepth : t.context.depth = c.depth + 1) :
    ∃ parent child, t.context.frames.toList = child :: parent :: below ∧ f.Opens parent child := by
  have hmove := h.moved.frames
  rw [Context.depth, Context.depth, Pile.size_eq, Pile.size_eq, hframes] at hdepth
  rw [show RunState.context ⟨c, none⟩ = c from rfl, hframes] at hmove
  generalize t.context.frames.toList = frames' at hmove hdepth ⊢
  generalize RunState.executes ⟨c, none⟩ = executed at hmove
  cases hmove with
  | executes _ hexecutes =>
      cases hexecutes with
      | goes => simp at hdepth
      | opens hopens => exact ⟨_, _, rfl, hopens⟩
  | finishes => simp at hdepth
  | resumes => simp at hdepth

/-! ## Floors -/

section

variable {limits : Limits} {s t : RunState}

/-- The run from `s` to `t` last left the floor by the move from `c₁` to `c₂`, which opened a frame. It
stayed above the floor ever since. -/
structure Opening (limits : Limits) (floor : Nat) (s t : RunState) (c₁ c₂ : Context) : Prop where
  start : Reaches limits s ⟨c₁, none⟩
  depth : c₁.depth = floor
  move : Move limits ⟨c₁, none⟩ ⟨c₂, none⟩
  opened : c₂.depth = c₁.depth + 1
  above : ReachesAbove limits floor ⟨c₂, none⟩ t

namespace Opening

variable {floor : Nat} {c₁ c₂ : Context}

theorem reaches_opened (h : Opening limits floor s t c₁ c₂) : Reaches limits s ⟨c₂, none⟩ :=
  h.start.tail h.move

theorem reaches (h : Opening limits floor s t c₁ c₂) : Reaches limits s t :=
  h.reaches_opened.trans h.above.reaches

end Opening

/-- A run that ends higher than some floor, and began at the floor or below, left it last by some
move. -/
theorem Reaches.opening (h : Reaches limits s t) (floor : Nat) (hs : s.context.depth ≤ floor)
    (ht : floor < t.context.depth) : ∃ c₁ c₂, Opening limits floor s t c₁ c₂ := by
  induction h with
  | refl => omega
  | @tail t u hreach hmove ih =>
      by_cases hbefore : floor < t.context.depth
      · obtain ⟨c₁, c₂, hstart, hdepth, hopen, hopened, habove⟩ := ih hbefore
        exact ⟨c₁, c₂, hstart, hdepth, hopen, hopened, habove.tail ⟨hmove, ht⟩⟩
      · have hlength := hmove.moved.frames.length_le
        rw [← Context.depth_eq, ← Context.depth_eq] at hlength
        cases hmove with
        | @instruction c₁ c₂ hrunning hstep =>
            have hone := Bool.toNat_le (RunState.executes ⟨c₁, none⟩)
            simp only at hlength hbefore ht
            exact ⟨c₁, c₂, hreach, by omega, .instruction hrunning hstep, by omega, .refl⟩
        | finish hhalted _ =>
            simp only [RunState.executes, hhalted, Bool.and_false, Bool.toNat_false] at hlength
            simp only at hbefore ht
            omega
        | resume _ =>
            simp only [RunState.executes, Option.isNone_some, Bool.false_and, Bool.toNat_false] at hlength
            simp only at hbefore ht
            omega

/-- What was settled when a frame was opened: its site and where its output goes. -/
def Frame.settled (f : Frame) : Site × Region :=
  (f.site, f.returnRegion)

theorem Frame.Works.settled_eq {f f' : Frame} (h : f.Works f') : f'.settled = f.settled :=
  Prod.ext h.site h.region

/-- A move settles nothing anew about the frames that stay. -/
theorem FrameMove.settled_cases {executed : Bool} {frames frames' : List Frame}
    (h : FrameMove executed frames frames') :
    frames'.map (·.settled) = frames.map (·.settled) ∨
      (∃ new, frames'.map (·.settled) = new :: frames.map (·.settled)) ∨
      ∃ old, frames.map (·.settled) = old :: frames'.map (·.settled) := by
  cases h with
  | executes _ hexecutes =>
      cases hexecutes with
      | goes hworks _ => exact .inl (by simp [hworks.settled_eq])
      | @opens parent child hopens =>
          exact .inr (.inl ⟨child.settled, by simp [hopens.stays.works.settled_eq]⟩)
  | @finishes child parent below _ =>
      obtain ⟨gas, logs, hlearn⟩ := child.learn_eq parent
      refine .inr (.inr ⟨child.settled, ?_⟩)
      rw [hlearn]
      rfl
  | resumes hworks => exact .inl (by simp [hworks.settled_eq])
  | idles => exact .inl rfl

/-- As long as a run stays above a floor, the frame right above the floor and those below stay what
they are. -/
theorem ReachesAbove.settled {floor : Nat} (h : ReachesAbove limits floor s t)
    (hs : s.context.depth = floor + 1) :
    s.context.frames.toList.map (·.settled) <:+ t.context.frames.toList.map (·.settled) := by
  induction h with
  | refl => exact List.suffix_rfl
  | @tail t u _ hlast ih =>
      obtain ⟨hmove, hfloor⟩ := hlast
      rcases hmove.moved.frames.settled_cases with hsame | ⟨new, hopened⟩ | ⟨old, hfinished⟩
      · rw [hsame]
        exact ih
      · rw [hopened]
        exact ih.trans (List.suffix_cons _ _)
      · rw [hfinished] at ih
        rcases List.suffix_cons_iff.1 ih with hall | hrest
        · -- The frame that was taken off would be the one right above the floor.
          have hlength := congrArg List.length hall
          rw [List.length_cons, List.length_map, List.length_map, ← Context.depth_eq,
            ← Context.depth_eq] at hlength
          omega
        · exact hrest

end

end CallTree
