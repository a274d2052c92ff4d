import Mathlib.Algebra.Ring.Nat
import CallTree.Proofs.RootRuns

/-!
# Conservation of gas

Each frame is created with some gas, and as long as it is on the call stack what it has left and what
it has used add up to exactly that; what a child was created with is part of what its parent has used
(`Funded`). No addition saturates on the way: `Funded.move` turns every move on frames into a move of
exact arithmetic. `gas_conserved` is the statement for whole runs and for the outcome of transactions.
-/

namespace CallTree

/-! ## What is left on the call stack -/

/-- What all frames together may still spend. -/
def remainingGas (frames : List Frame) : Nat :=
  (frames.map (·.gas.remaining)).sum

@[simp]
theorem remaining_gas_cons (f : Frame) (frames : List Frame) :
    remainingGas (f :: frames) = f.gas.remaining + remainingGas frames :=
  List.sum_cons

/-- A frame that is opened gets no more than its parent has paid. -/
theorem Frame.Opens.remaining_le {f parent child : Frame} (h : f.Opens parent child) :
    child.gas.remaining + parent.gas.remaining + Gas.static f.currentOp ≤ f.gas.remaining := by
  obtain ⟨forwarded, hgas, hpaid⟩ := h.paid
  have hgranted := child.call.granted_le forwarded
  have hstipend := child.call.stipend_le_surcharge
  have hremaining : child.gas.remaining = child.call.granted forwarded := by rw [hgas]; rfl
  omega

/-- A move never adds to the gas on the call stack. -/
theorem FrameMove.remaining_le {executed : Bool} {frames frames' : List Frame}
    (h : FrameMove executed frames frames') : remainingGas frames' ≤ remainingGas frames := by
  cases h with
  | executes _ hexecutes =>
      cases hexecutes with
      | goes hworks _ => simpa using hworks.gas.remaining
      | opens hopens =>
          have hle := hopens.remaining_le
          simp only [List.cons_append, List.nil_append, remaining_gas_cons]
          omega
  | @finishes child parent below _ =>
      have hle := Frame.remaining_learn_le child parent
      simp only [remaining_gas_cons]
      omega
  | resumes hworks => simpa using hworks.gas.remaining
  | idles => exact Nat.le_refl _

/-! ## Exact moves -/

/-- What a move does to the gas of the frames, in exact arithmetic. -/
inductive GasMove : List Frame → List Frame → Prop
  /-- The topmost frame uses some of its gas. -/
  | spends {f f' : Frame} {below : List Frame} (hle : f'.gas.remaining ≤ f.gas.remaining)
      (htotal : f'.gas.remaining + f'.gas.used = f.gas.remaining + f.gas.used) :
      GasMove (f :: below) (f' :: below)
  /-- It uses the gas that is handed to a new frame, and the surcharge for a stipend if that frame
  gets one. -/
  | opens {f parent child : Frame} {below : List Frame} {forwarded : Nat}
      (hgas : child.gas = .new (forwarded + child.call.stipend))
      (hpaid : parent.gas.remaining + forwarded + child.call.surcharge ≤ f.gas.remaining)
      (htotal : parent.gas.remaining + parent.gas.used = f.gas.remaining + f.gas.used) :
      GasMove (f :: below) (child :: parent :: below)
  /-- A finished frame gives back all it has left. -/
  | returns {child parent parent' : Frame} {below : List Frame}
      (hremaining : parent'.gas.remaining = parent.gas.remaining + child.gas.remaining)
      (hused : parent'.gas.used + child.gas.remaining = parent.gas.used) :
      GasMove (child :: parent :: below) (parent' :: below)

/-- The frames of a call stack that was started with `gas`, and what each of them was created with,
the topmost first. -/
inductive Funded (gas : Nat) : List Frame → List Nat → Prop
  /-- The root. -/
  | root {f : Frame} (htotal : f.gas.remaining + f.gas.used = gas) : Funded gas [f] [gas]
  /-- A frame above another, which waits for it and has paid for it. -/
  | child {child parent : Frame} {below : List Frame} {granted : Nat} {grants : List Nat}
      (htotal : child.gas.remaining + child.gas.used = granted)
      (hpaid : granted ≤ parent.gas.used) (hrunning : parent.running = true)
      (hbelow : Funded gas (parent :: below) grants) :
      Funded gas (child :: parent :: below) (granted :: grants)

namespace Funded

variable {gas : Nat} {f f' child parent : Frame} {frames below : List Frame} {grants : List Nat}

theorem length_eq (h : Funded gas frames grants) : grants.length = frames.length := by
  induction h with
  | root => rfl
  | child _ _ _ _ ih => simpa using ih

/-- No frame has ever had more than the root was created with. -/
theorem total_le (h : Funded gas frames grants) :
    ∀ f ∈ frames, f.gas.remaining + f.gas.used ≤ gas := by
  induction h with
  | root htotal => simpa using Nat.le_of_eq htotal
  | @child child parent below granted grants htotal hpaid _ _ ih =>
      have hparent := ih parent List.mem_cons_self
      refine List.forall_mem_cons.2 ⟨?_, ih⟩
      omega

/-- The frame at the bottom is the root. -/
theorem last (h : Funded gas frames grants) (hlast : frames.getLast? = some f) :
    f.gas.remaining + f.gas.used = gas := by
  induction h with
  | root htotal =>
      cases hlast
      exact htotal
  | child _ _ _ _ ih => exact ih (by simpa using hlast)

/-- All frames are running if the topmost is. -/
theorem running (h : Funded gas frames grants) (htop : ∀ g, frames.head? = some g → g.running = true) :
    ∀ g ∈ frames, g.running = true := by
  induction h with
  | root => simpa using htop
  | child _ _ hrunning _ ih =>
      refine List.forall_mem_cons.2 ⟨htop _ rfl, ih ?_⟩
      rintro g ⟨⟩
      exact hrunning

/-- The topmost frame is replaced by one with the same gas in all. -/
theorem replace (h : Funded gas (f :: below) grants)
    (htotal : f'.gas.remaining + f'.gas.used = f.gas.remaining + f.gas.used) :
    Funded gas (f' :: below) grants := by
  cases h with
  | root hsum => exact .root (htotal.trans hsum)
  | child hsum hpaid hrunning hbelow => exact .child (htotal.trans hsum) hpaid hrunning hbelow

/-- A frame that is opened has been paid for, and the stipend is added without loss. -/
theorem opened (h : Funded gas (f :: below) grants) (hmax : gas ≤ maxAmount)
    (hrunning : f.running = true) (hopens : f.Opens parent child) :
    GasMove (f :: below) (child :: parent :: below) ∧
      Funded gas (child :: parent :: below) (child.gas.remaining :: grants) := by
  obtain ⟨forwarded, hgas, hpaid⟩ := hopens.paid
  have hstipend := child.call.stipend_le_surcharge
  have hle := h.total_le f List.mem_cons_self
  have htotal := hopens.stays.gas.total (by omega)
  have hexact : child.call.granted forwarded = forwarded + child.call.stipend :=
    CallData.granted_eq (by omega)
  rw [hexact] at hgas
  have hremaining : child.gas.remaining = forwarded + child.call.stipend := by rw [hgas]; rfl
  have hused : child.gas.used = 0 := by rw [hgas]; rfl
  refine ⟨.opens hgas (by omega) htotal, .child ?_ ?_ ?_ (h.replace htotal)⟩
  · rw [hused, Nat.add_zero]
  · omega
  · exact hopens.stays.running.trans hrunning

/-- A parent gets back what its child has left, without loss. -/
theorem returned {granted : Nat} (h : Funded gas (child :: parent :: below) (granted :: grants))
    (hmax : gas ≤ maxAmount) :
    GasMove (child :: parent :: below) (child.learn parent :: below) ∧
      Funded gas (child.learn parent :: below) grants := by
  cases h with
  | child htotal hpaid hrunning hbelow =>
      have hle := hbelow.total_le parent List.mem_cons_self
      have hlearn : (child.learn parent).gas.remaining = _ ∧ _ := Frame.gas_learn hrunning
      obtain ⟨hremaining, hused⟩ := hlearn
      rw [satAdd_eq_add (by omega)] at hremaining
      refine ⟨.returns hremaining (by omega), hbelow.replace ?_⟩
      omega

/-- A move changes the gas of the frames exactly, and what the frames were created with changes only
with their number. -/
theorem move (h : Funded gas frames grants) (hmax : gas ≤ maxAmount) {executed : Bool}
    {frames' : List Frame} (hmove : FrameMove executed frames frames') :
    GasMove frames frames' ∧
      (frames'.length = frames.length ∧ Funded gas frames' grants ∨
        frames'.length = frames.length + 1 ∧
          (∀ g, frames'.head? = some g → Funded gas frames' (g.gas.remaining :: grants)) ∨
        frames'.length + 1 = frames.length ∧ Funded gas frames' grants.tail) := by
  cases hmove with
  | @executes f top below hrunning hexecutes =>
      cases hexecutes with
      | goes hworks _ =>
          have hle := h.total_le f List.mem_cons_self
          have htotal := hworks.gas.total (by omega)
          exact ⟨.spends hworks.gas.remaining htotal, .inl ⟨rfl, h.replace htotal⟩⟩
      | opens hopens =>
          obtain ⟨hgas, hfunded⟩ := h.opened hmax hrunning hopens
          refine ⟨hgas, .inr (.inl ⟨rfl, ?_⟩)⟩
          rintro g ⟨⟩
          exact hfunded
  | finishes _ =>
      cases grants with
      | nil => cases h
      | cons granted grants =>
          obtain ⟨hgas, hfunded⟩ := h.returned hmax
          exact ⟨hgas, .inr (.inr ⟨rfl, hfunded⟩)⟩
  | @resumes f f' below hworks =>
      have hle := h.total_le f List.mem_cons_self
      have htotal := hworks.gas.total (by omega)
      exact ⟨.spends hworks.gas.remaining htotal, .inl ⟨rfl, h.replace htotal⟩⟩
  | idles => cases h

end Funded

/-! ## Runs -/

/-- What the frames of a state were created with, the topmost first, when it is reached from a state
with a single frame that was created with `gas`. A frame is new when the move that opened it is made,
and then has all its gas. -/
inductive Granted (limits : Limits) (gas : Nat) (s : RunState) : RunState → List Nat → Prop
  | start : Granted limits gas s s [gas]
  | kept {t u : RunState} {grants : List Nat} (h : Granted limits gas s t grants)
      (hmove : Move limits t u) (hdepth : u.context.depth = t.context.depth) :
      Granted limits gas s u grants
  | opened {t u : RunState} {grants : List Nat} {child : Frame} (h : Granted limits gas s t grants)
      (hmove : Move limits t u) (hdepth : u.context.depth = t.context.depth + 1)
      (htop : u.context.top = .ok child) : Granted limits gas s u (child.gas.remaining :: grants)
  | closed {t u : RunState} {granted : Nat} {grants : List Nat}
      (h : Granted limits gas s t (granted :: grants)) (hmove : Move limits t u)
      (hdepth : u.context.depth + 1 = t.context.depth) : Granted limits gas s u grants

/-- The next move makes the topmost frame fail. -/
inductive RunState.Faults (limits : Limits) : RunState → Fault → Prop
  /-- An instruction is refused. -/
  | instruction {c c' : Context} {e : Fault} (hrunning : c.isRunning = true)
      (hstep : c.step limits = .error (.fault e) c') : Faults limits ⟨c, none⟩ e
  /-- The result of a child is not taken up. -/
  | resume {c c' : Context} {result : FinishedCall} {e : Fault}
      (hresume : Context.onTop (Exec.resume limits result) c = .error (.fault e) c') :
      Faults limits ⟨c, some result⟩ e

/-- The root frame of a run is ended by an exceptional halt or by the bound on instructions. -/
def Context.RootFails (limits : Limits) (c : Context) : Prop :=
  (c.run limits).stopped = some (.fault (.stepLimitExceeded limits.maxExecutionSteps)) ∨
    ∃ s e, Reaches limits ⟨c, none⟩ s ∧ s.context.depth = 1 ∧ s.Faults limits e ∧
      e.consumesAllGas = true

section

variable {limits : Limits} {gas : Nat} {c : Context} {root : Frame} {s t : RunState}
  {grants : List Nat}

/-- Frames keep what they were created with throughout a run. -/
theorem Granted.funded (h : Granted limits gas s t grants) (hmax : gas ≤ maxAmount)
    (hroot : Funded gas s.context.frames.toList [gas]) :
    Funded gas t.context.frames.toList grants := by
  induction h with
  | start => exact hroot
  | kept _ hmove hdepth ih =>
      rw [Context.depth_eq, Context.depth_eq] at hdepth
      obtain ⟨_, ⟨_, hfunded⟩ | ⟨hlength, _⟩ | ⟨hlength, _⟩⟩ := ih.move hmax hmove.moved.frames
      · exact hfunded
      · omega
      · omega
  | opened _ hmove hdepth htop ih =>
      rw [Context.depth_eq, Context.depth_eq] at hdepth
      obtain ⟨_, ⟨hlength, _⟩ | ⟨_, hfunded⟩ | ⟨hlength, _⟩⟩ := ih.move hmax hmove.moved.frames
      · omega
      · exact hfunded _ (Context.head_of_top htop)
      · omega
  | closed _ hmove hdepth ih =>
      rw [Context.depth_eq, Context.depth_eq] at hdepth
      obtain ⟨_, ⟨hlength, _⟩ | ⟨hlength, _⟩ | ⟨_, hfunded⟩⟩ := ih.move hmax hmove.moved.frames
      · omega
      · omega
      · exact hfunded

/-- What frames were created with is known in every state of a run. -/
theorem Reaches.granted (h : Reaches limits s t) (hmax : gas ≤ maxAmount)
    (hroot : Funded gas s.context.frames.toList [gas]) :
    ∃ grants, Granted limits gas s t grants := by
  induction h with
  | refl => exact ⟨[gas], .start⟩
  | @tail t u _ hmove ih =>
      obtain ⟨grants, hgranted⟩ := ih
      have hfunded := hgranted.funded hmax hroot
      have hdepth : ∀ c : Context, c.frames.toList.length = c.depth := fun c => c.depth_eq.symm
      obtain ⟨_, hcases⟩ := hfunded.move hmax hmove.moved.frames
      rw [hdepth, hdepth] at hcases
      rcases hcases with ⟨hsame, _⟩ | ⟨hmore, _⟩ | ⟨hless, _⟩
      · exact ⟨grants, .kept hgranted hmove hsame⟩
      · cases hframes : u.context.frames.toList with
        | nil => rw [← hdepth, hframes] at hmore; cases hmore
        | cons child below =>
            exact ⟨child.gas.remaining :: grants,
              .opened hgranted hmove hmore (by simp only [Context.top, hframes])⟩
      · cases grants with
        | nil =>
            have hlength := hfunded.length_eq
            rw [hdepth, ← hless] at hlength
            cases hlength
        | cons granted grants => exact ⟨grants, .closed hgranted hmove hless⟩

/-- A frame that takes up the result of a child is running. -/
theorem Granted.running_of_finished (h : Granted limits gas ⟨c, none⟩ t grants)
    (hmax : gas ≤ maxAmount) (hroot : Funded gas c.frames.toList [gas])
    (hfinished : t.finished.isSome = true) : t.context.isRunning = true := by
  have hlast : ∀ s grants, Granted limits gas ⟨c, none⟩ s grants → Move limits s t →
      t.context.isRunning = true := by
    intro s grants hgranted hmove
    cases hmove with
    | finish _ hfinish =>
        obtain ⟨child, parent, below, hframes, _, hframes', _⟩ :=
          Context.finish_child_frames hfinish
        have hfunded := hgranted.funded hmax hroot
        rw [hframes] at hfunded
        cases hfunded with
        | child _ _ hrunning _ =>
            simpa [Context.isRunning, hframes', Frame.running_learn] using hrunning
    | instruction => cases hfinished
    | resume => cases hfinished
  cases h with
  | start => cases hfinished
  | kept h hmove _ => exact hlast _ _ h hmove
  | opened h hmove _ _ => exact hlast _ _ h hmove
  | closed h hmove _ => exact hlast _ _ h hmove

end

/-! ## Failing roots -/

/-- A running frame that fails exceptionally has used all its gas. -/
theorem Frame.fail_used {f : Frame} {cause : Fault} {gas : Nat} (hrunning : f.running = true)
    (hall : cause.consumesAllGas = true) (htotal : f.gas.remaining + f.gas.used = gas)
    (hmax : gas ≤ maxAmount) : (f.fail cause).gas.used = gas ∧ (f.fail cause).isSuccess = false := by
  have hgas : (f.fail cause).gas = f.gas.burn := by simp [Frame.fail, hrunning, hall]
  refine ⟨?_, by simp [Frame.fail, Frame.isSuccess, hrunning]⟩
  rw [hgas]
  show satAdd f.gas.used f.gas.remaining = gas
  rw [satAdd_eq_add (by omega)]
  omega

namespace Context

variable {limits : Limits} {gas : Nat} {c c' : Context} {root : Frame} {s : RunState}
  {outcome : Outcome}

/-- A root frame that fails exceptionally has used all its gas, and the run is over. -/
theorem used_of_faults {e : Fault} (hfaults : s.Faults limits e) (hall : e.consumesAllGas = true)
    (hframes : s.context.frames.toList = [root]) (htotal : root.gas.remaining + root.gas.used = gas)
    (hmax : gas ≤ maxAmount) (hrunning : s.context.isRunning = true) :
    ∃ c' f, Move limits s ⟨c', none⟩ ∧ c'.frames.toList = [f] ∧ f.running = false ∧
      f.gas.used = gas ∧ f.isSuccess = false := by
  have hroot : root.running = true := by simpa [isRunning, hframes] using hrunning
  -- Whatever was done before, the frame is still running when it fails.
  have hfail : ∀ c₁ f world, Held s.context [f] world c₁ → root.Works f → f.running = true →
      (c₁.updateTop (Frame.fail e)).frames.toList = [f.fail e] ∧ (f.fail e).running = false ∧
        (f.fail e).gas.used = gas ∧ (f.fail e).isSuccess = false := by
    intro c₁ f world hheld hworks hf
    refine ⟨(hheld.update_top (Frame.fail e)).frames, Frame.running_fail e f,
      Frame.fail_used hf hall ?_ hmax⟩
    rw [hworks.gas.total (by omega), htotal]
  cases hfaults with
  | @instruction c c₁ _ _ hstep =>
      obtain ⟨f, hheld, hworks, hf⟩ := hstep ▸ step_frames hframes hroot
      refine ⟨_, _, .instruction hrunning ?_, hfail c₁ f _ hheld hworks hf⟩
      simp [stepOrFail, hstep]
  | @resume c c₁ result _ hresume =>
      have htop := on_top_held (fun s => Exec.Within.resume limits result ⟨root, s⟩) c
        (held_refl hframes)
      rw [hresume] at htop
      obtain ⟨space, b, hact, hheld⟩ := htop
      have hworks : root.Works b.frame :=
        .resume (Action.after_error hact ▸ Exec.Within.resume limits result _)
      have hstart : Activation.Running ⟨root, space⟩ := hroot
      have hb : b.frame.running = true := (Exec.resume_runs limits result).error hstart hact
      refine ⟨_, _, .resume ?_, hfail c₁ b.frame _ hheld hworks hb⟩
      simp [resumeOrFail, hresume]

/-- What a transaction is charged, by what its root frame has used. -/
theorem conclude_gas (h : conclude root c = some (outcome, c')) :
    outcome.gasUsed + outcome.gasRefund ≤ root.gas.used ∧
      outcome.gasRefund ≤
        (outcome.gasUsed + outcome.gasRefund) / max c.limits.maxRefundQuotient 1 ∧
      (root.isSuccess = false → outcome.gasUsed = root.gas.used) := by
  rcases conclude_cases h with
    ⟨_, _, _, hused, hrefund⟩ | ⟨hsuccess, e, _, rfl⟩ | ⟨hsuccess, hcommit, _, hused, hrefund⟩
  · rw [hrefund, hused]
    exact ⟨Nat.le_refl _, Nat.zero_le _, fun _ => rfl⟩
  · exact ⟨Nat.zero_le _, Nat.zero_le _, by simp [hsuccess]⟩
  · rw [hused, hrefund, ← (commit_root_inv hcommit).1]
    exact ⟨Nat.le_refl _, Nat.min_le_right _ _, by simp [hsuccess]⟩

/-- When the root frame of a run is taken off, what it has left and what it has used still add up to
what it was created with. If it was ended by an exceptional halt or by the bound on instructions, it
has used all of it. -/
theorem root_end_gas {states : List RunState} {f : Frame} {world : World}
    (hend : RootEnd limits c states f world) (hmax : gas ≤ maxAmount)
    (hroot : Funded gas c.frames.toList [gas]) :
    f.gas.used ≤ gas ∧ (c.RootFails limits → f.gas.used = gas ∧ f.isSuccess = false) := by
  cases hend with
  | @exhausted c₁ last hstopped htrail hrunning hlast =>
      obtain ⟨grants, hgranted⟩ := htrail.reaches.granted hmax hroot
      have hfunded := hgranted.funded hmax hroot
      have hall : last.running = true := by
        refine hfunded.running (fun g hg => ?_) last (List.mem_of_getLast? hlast)
        obtain ⟨below, hframes⟩ := List.head?_eq_some_iff.1 hg
        simpa [isRunning, show c₁.frames.toList = g :: below from hframes] using hrunning
      have hfailed := Frame.fail_used hall
        (rfl : (Fault.stepLimitExceeded limits.maxExecutionSteps).consumesAllGas = true)
        (hfunded.last hlast) hmax
      exact ⟨Nat.le_of_eq hfailed.1, fun _ => hfailed⟩
  | halted hstopped htrail hframes hhalted =>
      obtain ⟨grants, hgranted⟩ := htrail.reaches.granted hmax hroot
      have hfunded := hgranted.funded hmax hroot
      have htotal := hfunded.total_le f (by simp [hframes])
      refine ⟨by omega, ?_⟩
      rintro (hlimit | ⟨s, e, hreach, hdepth, hfaults, hall⟩)
      · rw [hstopped] at hlimit
        cases hlimit
      · obtain ⟨grants₁, hgranted₁⟩ := hreach.granted hmax hroot
        have hfunded₁ := hgranted₁.funded hmax hroot
        rw [depth_eq] at hdepth
        obtain ⟨g, hg⟩ := List.length_eq_one_iff.1 hdepth
        have hrunning : s.context.isRunning = true := by
          cases hfaults with
          | instruction hrunning _ => exact hrunning
          | resume _ => exact hgranted₁.running_of_finished hmax hroot rfl
        obtain ⟨c₂, f₂, hmove, hframes₂, hhalted₂, hused, hfailed⟩ := used_of_faults hfaults hall hg
          (hfunded₁.last (by rw [hg]; rfl)) hmax hrunning
        -- The state after the fault has no move, so it is the one in which the run has ended.
        have hsame := htrail.reaches.terminal_unique (hreach.tail hmove)
          (next_halted hframes hhalted) (next_halted hframes₂ hhalted₂)
        cases hsame
        cases hframes.symm.trans hframes₂
        exact ⟨hused, hfailed⟩

end Context

/-- Gas is conserved over whole call trees. In every state of a run of a fresh frame, each frame has
left and has used together exactly what it was created with, and what a child was created with is part
of what its parent has used. Every move changes the gas of the frames exactly, without saturation,
and never adds to what is left of it on the call stack. A transaction is charged at most the gas of its
root frame, of which a bounded part is refunded, and all of it if the root frame is ended by an
exceptional halt or by the bound on instructions. -/
theorem gas_conserved {root : Frame} {gas : Nat} (hgas : root.gas = .new gas)
    (hmax : gas ≤ maxAmount) :
    (∀ (limits : Limits) (c : Context), c.frames.toList = [root] →
      (∀ s, Reaches limits ⟨c, none⟩ s → ∃ grants, Granted limits gas ⟨c, none⟩ s grants) ∧
      (∀ s grants, Granted limits gas ⟨c, none⟩ s grants →
        Funded gas s.context.frames.toList grants) ∧
      ∀ s t, Reaches limits ⟨c, none⟩ s → Move limits s t →
        GasMove s.context.frames.toList t.context.frames.toList ∧
          remainingGas t.context.frames.toList ≤ remainingGas s.context.frames.toList) ∧
    ∀ (c c' : Context) (outcome : Outcome), c.execute root = some (outcome, c') →
      outcome.gasUsed + outcome.gasRefund ≤ gas ∧
      outcome.gasRefund ≤
        (outcome.gasUsed + outcome.gasRefund) / max c.limits.maxRefundQuotient 1 ∧
      ∀ c₀, Context.Starts root c c₀ → c₀.RootFails c.limits → outcome.gasUsed = gas := by
  have hfresh : ∀ c : Context, c.frames.toList = [root] → Funded gas c.frames.toList [gas] := by
    intro c hframes
    rw [hframes]
    exact .root (by rw [hgas]; rfl)
  refine ⟨fun limits c hframes => ?_, fun c c' outcome hexecute => ?_⟩
  · have hroot := hfresh c hframes
    refine ⟨fun s hreach => hreach.granted hmax hroot, fun s grants h => h.funded hmax hroot, ?_⟩
    intro s t hreach hmove
    obtain ⟨grants, hgranted⟩ := hreach.granted hmax hroot
    have hfunded : Funded gas s.context.frames.toList grants := hgranted.funded hmax hroot
    exact ⟨(hfunded.move hmax hmove.moved.frames).1, hmove.moved.frames.remaining_le⟩
  · rcases Context.execute_ends hexecute with
      ⟨hnever, _, e, rfl⟩ | ⟨c₀, states, f, c₁, c₂, hstarts, hend, hlimits, hconclude, _⟩
    · exact ⟨Nat.zero_le _, Nat.zero_le _, fun c₀ hstarts => absurd hstarts (hnever c₀)⟩
    · have hroot := hfresh c₀ (Context.push_seeded_frames hstarts.2).1
      obtain ⟨hused, hfails⟩ := Context.root_end_gas hend hmax hroot
      obtain ⟨hcharged, hrefund, hfailed⟩ := Context.conclude_gas hconclude
      rw [hlimits] at hrefund
      refine ⟨Nat.le_trans hcharged hused, hrefund, fun c₀' hstarts' hroot' => ?_⟩
      cases hstarts.2.symm.trans hstarts'.2
      obtain ⟨hall, hreverted⟩ := hfails hroot'
      exact (hfailed hreverted).trans hall

/-- A root frame that sends value to a contract, which writes a slot, and then meets an invalid
instruction. -/
def payingRoot : Frame × Context :=
  Context.newFrame {} {}
    ⟨#[0x60, 0, 0x60, 0, 0x60, 0, 0x60, 0, 0x60, 1, 0x60, 3, 0x61, 0x80, 0, 0xF1, 0xFE]⟩ 100000
    (.transaction 1 2 0 ByteArray.empty)
    { txn := ⟨1, 0⟩, world := World.setCode 3 ⟨#[0x60, 7, 0x60, 1, 0x55, 0]⟩ {} }

/-- The call stack on which it runs. -/
def payingStart : Context :=
  { payingRoot.2.seeded payingRoot.1 with frames := .ofList [payingRoot.1] }

/-- Whether the next instruction is refused with a fault that takes all the gas of its frame. -/
def Context.stepBurns (c : Context) : Bool :=
  match c.step {} with
  | .error (.fault e) _ => e.consumesAllGas
  | _ => false

/-- The contract runs on gas that the root frame has paid, and in the end the root frame has used all
its gas. -/
theorem paying_root_conserved : ∃ s grants outcome c',
    payingRoot.1.gas = .new 100000 ∧ Context.Starts payingRoot.1 payingRoot.2 payingStart ∧
      Reaches {} ⟨payingStart, none⟩ s ∧ s.context.depth = 2 ∧
      Granted {} 100000 ⟨payingStart, none⟩ s grants ∧
      Funded 100000 s.context.frames.toList grants ∧
      payingRoot.2.execute payingRoot.1 = some (outcome, c') ∧ payingStart.RootFails {} ∧
      outcome.gasUsed = 100000 := by
  obtain ⟨hruns, htransactions⟩ :=
    gas_conserved (rfl : payingRoot.1.gas = .new 100000) (by decide)
  obtain ⟨hgranted, hfunded, _⟩ := hruns {} payingStart rfl
  have hopened : (RunState.advance? {} 0 8 ⟨payingStart, none⟩).any (fun s =>
      s.context.depth == 2) = true := by
    decide +kernel
  obtain ⟨s, hs, hdepth⟩ := (Option.any_eq_true _ _).1 hopened
  have hreach := (reaches_above_of_advance hs).reaches
  obtain ⟨grants, hgrants⟩ := hgranted s hreach
  have hfails : (RunState.advance? {} 0 14 ⟨payingStart, none⟩).any (fun s =>
      s.finished == none && s.context.depth == 1 && s.context.isRunning &&
        s.context.stepBurns) = true := by
    decide +kernel
  have hroot : payingStart.RootFails {} := by
    obtain ⟨⟨c, _⟩, hc, hfacts⟩ := (Option.any_eq_true _ _).1 hfails
    simp only [Bool.and_eq_true, beq_iff_eq] at hfacts
    obtain ⟨⟨⟨rfl, hone⟩, hrunning⟩, hfault⟩ := hfacts
    unfold Context.stepBurns at hfault
    split at hfault
    · exact .inr ⟨_, _, (reaches_above_of_advance hc).reaches, hone, .instruction hrunning ‹_›,
        hfault⟩
    · cases hfault
  have hstarts : Context.Starts payingRoot.1 payingRoot.2 payingStart :=
    ⟨by decide +kernel, Context.push_frame_ok (by decide +kernel)⟩
  have hexecute : (payingRoot.2.execute payingRoot.1).isSome = true := by
    decide +kernel
  obtain ⟨⟨outcome, c'⟩, hexecute⟩ := Option.isSome_iff_exists.1 hexecute
  obtain ⟨_, _, hcharged⟩ := htransactions payingRoot.2 c' outcome hexecute
  exact ⟨s, grants, outcome, c', rfl, hstarts, hreach, by simpa using hdepth, hgrants,
    hfunded s grants hgrants, hexecute, hroot, hcharged payingStart hstarts hroot⟩

end CallTree
