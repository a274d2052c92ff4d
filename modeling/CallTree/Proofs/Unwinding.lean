import CallTree.Proofs.Endings
import CallTree.Proofs.Solvency

/-!
# Ends that go through internal calls

Internal calls may stand on one another in any number. When the topmost has halted, a run finishes them
all before its next instruction (`Context.Settles`), and the frame `owner` below them ends as if it had
done itself what the topmost did (`Context.internal_calls_unwind`). One level is `Stands.hands_up`; all
levels are an induction over the layers between the topmost and `owner`, for a success
(`Stands.unwind_success`) and for a revert (`Stands.unwind_reverted`). What they start from holds in every
run: frames that run are undecided, and the gas on the call stack does not grow
(`Reaches.undecided_funded`).
-/

namespace CallTree

/-! ## Runs without instructions -/

/-- A run gets from one context to the other without an instruction. -/
structure Context.Settles (limits : Limits) (c c' : Context) : Prop where
  unwinds : Unwinds limits ⟨c, none⟩ ⟨c', none⟩
  run : ∀ budget steps, Context.runFor limits budget steps c = Context.runFor limits budget steps c'

namespace Context

variable {limits : Limits} {c c₁ c₂ c' : Context}

/-- A frame that is running or alone is not finished. -/
theorem unwind_frames_ended {f : Frame} {below : List Frame} (h : f.running = true ∨ below = [])
    (size : Nat) (hsize : size = below.length + 1) (pool : Pool Workspace) :
    unwindFrames limits f below size hsize pool = .ok () (⟨f :: below, size, hsize⟩, pool) := by
  cases below with
  | nil => rfl
  | cons parent below =>
      rw [unwindFrames, if_pos (h.resolve_right (by simp))]

/-- What a run finds before its next instruction, whether or not the topmost frame is running. -/
theorem turn_eq (limits : Limits) (f : Frame) (below : List Frame) (size : Nat)
    (hsize : size = below.length + 1) (pool : Pool Workspace) (txn : Txn) (world : World)
    (own : Limits) :
    turn limits ⟨⟨f :: below, size, hsize⟩, pool, txn, world, own⟩ =
      match unwindFrames limits f below size hsize pool with
      | .ok () (frames, pool) =>
        if isRunning ⟨frames, pool, txn, world, own⟩ then .ready ⟨frames, pool, txn, world, own⟩
        else .done ⟨frames, pool, txn, world, own⟩
      | .error e (frames, pool) => .stopped e ⟨frames, pool, txn, world, own⟩ := by
  let c : Context := ⟨⟨f :: below, size, hsize⟩, pool, txn, world, own⟩
  by_cases hrunning : f.running = true
  · have hready : c.isRunning = true := hrunning
    rw [turn, if_pos hready, unwind_frames_ended (.inl hrunning)]
    simp only [c] at hready
    simp only [hready, if_true]
  · have hhalted : ¬c.isRunning = true := hrunning
    rw [turn, if_neg hhalted]
    simp only [unwind]
    cases unwindFrames limits f below size hsize pool <;> rfl

/-- It is not changed by finishing a child and taking up its result. -/
theorem turn_of_moves {result : FinishedCall} (hfinish : Move limits ⟨c, none⟩ ⟨c₁, some result⟩)
    (hresume : Move limits ⟨c₁, some result⟩ ⟨c₂, none⟩) : c.turn limits = c₂.turn limits := by
  cases hfinish with
  | finish hhalted hfinish =>
  cases hresume with
  | resume hresume =>
  obtain ⟨⟨frames, size, hsize⟩, pool, txn, world, own⟩ := c
  match frames with
  | [] => simp [finishChild] at hfinish
  | [_] => simp [finishChild] at hfinish
  | child :: parent :: below =>
      have hchild : ¬child.running = true := by simpa [isRunning] using hhalted
      cases hinto : child.finishInto (parent, pool) with
      | error e s => simp [finishChild, hchild, hinto] at hfinish
      | ok r s =>
          obtain ⟨parent₁, pool₁⟩ := s
          simp [finishChild, hchild, hinto] at hfinish
          obtain ⟨rfl, rfl⟩ := hfinish
          have hsize' : size - 1 = below.length + 1 := by rw [hsize]; rfl
          cases htake : (Exec.resume limits r).inPool (parent₁, pool₁) with
          | ok q s =>
              have hrest : unwindFrames limits child (parent :: below) size hsize pool =
                  unwindFrames limits s.1 below (size - 1) hsize' s.2 := by
                rw [unwindFrames, if_neg hchild]
                simp only [hinto, htake]
              simp [resumeOrFail, onTop, htake] at hresume
              rw [turn_eq, hrest, ← hresume, turn_eq]
          | error e s =>
              cases e with
              | fault e =>
                  have hrest : unwindFrames limits child (parent :: below) size hsize pool =
                      unwindFrames limits (s.1.fail e) below (size - 1) hsize' s.2 := by
                    rw [unwindFrames, if_neg hchild]
                    simp only [hinto, htake]
                  simp [resumeOrFail, onTop, htake, updateTop] at hresume
                  rw [turn_eq, hrest, ← hresume, turn_eq]
              | overflow => simp [resumeOrFail, onTop, htake] at hresume

theorem Settles.refl (c : Context) : Settles limits c c :=
  ⟨.refl _, fun _ _ => rfl⟩

/-- Finishing a child and taking up its result before others. -/
theorem Settles.head {result : FinishedCall} (hfinish : Move limits ⟨c, none⟩ ⟨c₁, some result⟩)
    (hresume : Move limits ⟨c₁, some result⟩ ⟨c₂, none⟩) (h : Settles limits c₂ c') :
    Settles limits c c' := by
  have hturn := turn_of_moves hfinish hresume
  have hhalted : RunState.executes ⟨c, none⟩ = false := by
    cases hfinish with
    | finish hhalted _ => simp [RunState.executes, hhalted]
  refine ⟨(h.unwinds.head hresume rfl).head hfinish hhalted, fun budget steps => ?_⟩
  rw [← h.run]
  cases budget with
  | zero => rw [runFor, runFor, hturn]
  | succ budget => rw [runFor, runFor, hturn]

end Context

/-! ## One level -/

namespace Stands

variable {limits : Limits} {c : Context} {child parent owner : Layer} {below : List Layer}
  {saved : List Contents}

/-- A halted child is finished and its parent takes up the result, without another instruction. -/
theorem hands_up (limits : Limits) (h : Stands c child (parent :: below) saved)
    (hhalted : child.frame.running = false) {g : Frame}
    (hleaves : Exec.Leaves (Exec.resume limits child.frame.finished)
      (child.frame.learn parent.frame) g) :
    ∃ c₁ c₂ x saved', Move limits ⟨c, none⟩ ⟨c₁, some child.frame.finished⟩ ∧
      Move limits ⟨c₁, some child.frame.finished⟩ ⟨c₂, none⟩ ∧ Stands c₂ ⟨g, x⟩ below saved' ∧
      Handed child parent x := by
  have hstopped : c.isRunning = false := h.is_running.trans hhalted
  obtain ⟨c₁, x, saved', hfinish, hstands, _, hhanded, _⟩ := h.finish hhalted
  obtain ⟨v, w, f, _, hcontents, _, hput, _, hresult⟩ :=
    hstands.on_top (Exec.resume limits child.frame.finished) Part.resumption
      fun v => Exec.Within.resume limits _ ⟨child.frame.learn parent.frame, some v⟩
  rcases hresult with ⟨r, hact, htop⟩ | ⟨e, hact, htop⟩
  · rcases hleaves (some v) with hdone | ⟨e, f', hrefused, _⟩
    · cases hact.symm.trans hdone
      rw [hcontents] at hput
      refine ⟨c₁, _, x, saved', .finish hstopped hfinish, .resume ?_, hput, hhanded⟩
      simp only [Context.resumeOrFail, htop]
    · cases hact.symm.trans hrefused
  · rcases hleaves (some v) with hdone | ⟨e', f', hrefused, rfl⟩
    · cases hact.symm.trans hdone
    · cases hact.symm.trans hrefused
      rw [hcontents] at hput
      obtain ⟨hfailed, _⟩ := hput.update_top (Frame.site_fail e' f)
      refine ⟨c₁, _, x, saved', .finish hstopped hfinish, .resume ?_, hfailed, hhanded⟩
      simp only [Context.resumeOrFail, htop]

/-- A frame that does not create is all an internal call can be. -/
theorem plain_of_internal (h : Stands c child below saved) (hbelow : below ≠ [])
    (hkind : child.frame.call.kind = .internal) : child.frame.creation = false := by
  cases h.chain with
  | root => exact absurd rfl hbelow
  | internal _ _ _ _ _ hcreation => exact hcreation
  | own _ _ _ _ hother => exact absurd hkind hother

/-- An internal call that has ended the call around it is finished, and its caller ends with its
output and with what is left of both. -/
theorem hands_up_success (limits : Limits) (h : Stands c child (parent :: below) saved)
    (hkind : child.frame.call.kind = .internal) (hhalted : child.frame.running = false)
    (hsuccess : child.frame.isSuccess = true) (hexits : child.frame.exitsCall = true)
    (hundecided : parent.frame.verdict = .undecided)
    (houtput : child.frame.output.size ≤ largestMemory)
    (hgas : parent.frame.gas.remaining + child.frame.gas.remaining ≤ maxAmount) :
    ∃ c₁ c₂ g x saved', Move limits ⟨c, none⟩ ⟨c₁, some child.frame.finished⟩ ∧
      Move limits ⟨c₁, some child.frame.finished⟩ ⟨c₂, none⟩ ∧ Stands c₂ ⟨g, x⟩ below saved' ∧
      Frame.Returns limits.maxCodeSize
        (parent.frame.gas.remaining + child.frame.gas.remaining) child.frame.output parent.frame g := by
  have hrunning := h.chain.running_below parent List.mem_cons_self
  let learned : Frame := { child.frame.learn parent.frame with staged := .empty }
  have hlearned : learned.running = true ∧ learned.verdict = .undecided ∧
      learned.site = parent.frame.site := by
    refine ⟨(Frame.running_learn _ _).trans hrunning, ?_, Frame.site_learn _ _⟩
    obtain ⟨gas, logs, hlearn⟩ := child.frame.learn_eq parent.frame
    simp only [learned, hlearn, hundecided]
  have hremaining : learned.gas.remaining =
      parent.frame.gas.remaining + child.frame.gas.remaining := by
    rw [← satAdd_eq_add hgas]
    exact (Frame.gas_learn hrunning).1
  obtain ⟨g, hleaves, hreturns⟩ :=
    Exec.complete_return_leaves hlearned.1 hlearned.2.1 limits.maxCodeSize houtput
  obtain ⟨c₁, c₂, x, saved', hfinish, hresume, hstands, _⟩ :=
    h.hands_up limits hhalted (g := g) fun s => by
      rw [Exec.resume_exit limits parent.frame hkind hsuccess hexits]
      exact hleaves s
  rw [hremaining] at hreturns
  exact ⟨c₁, c₂, g, x, saved', hfinish, hresume, hstands, hreturns.congr hlearned.2.2⟩

/-- An internal call that has reverted is finished, and its caller reverts for the same reason with the
same output. It keeps its gas and gets back what the call had left, and has at hand what it had before. -/
theorem hands_up_reverted (limits : Limits) (h : Stands c child (parent :: below) saved)
    (hkind : child.frame.call.kind = .internal) (hhalted : child.frame.running = false)
    (hreverted : child.frame.isSuccess = false)
    (hgas : parent.frame.gas.remaining + child.frame.gas.remaining ≤ maxAmount) :
    ∃ c₁ c₂ g saved', Move limits ⟨c, none⟩ ⟨c₁, some child.frame.finished⟩ ∧
      Move limits ⟨c₁, some child.frame.finished⟩ ⟨c₂, none⟩ ∧
      Stands c₂ ⟨g, parent.contents⟩ below saved' ∧
      Frame.PassesOn (parent.frame.gas.remaining + child.frame.gas.remaining) child.frame
        parent.frame g := by
  have hrunning := h.chain.running_below parent List.mem_cons_self
  obtain ⟨c₁, c₂, x, saved', hfinish, hresume, hstands, hhanded⟩ :=
    h.hands_up limits hhalted fun s =>
      .inr ⟨_, _, Exec.resume_reverted limits parent.frame hkind hreverted s, rfl⟩
  rw [hhanded.reverted hreverted] at hstands
  let left : Frame :=
    { child.frame.learn parent.frame with staged := .empty, output := child.frame.output }
  have hleft : left.running = true := (Frame.running_learn _ _).trans hrunning
  refine ⟨c₁, c₂, left.fail _, saved', hfinish, hresume, hstands, ?_⟩
  rw [Frame.fail_reverted hleft]
  refine ⟨Frame.site_learn child.frame parent.frame, rfl, rfl,
    (Frame.reason_of_reverted hhalted hreverted).symm, rfl, ?_⟩
  rw [← satAdd_eq_add hgas]
  exact (Frame.gas_learn hrunning).1

/-! ## All levels -/

/-- An internal call that has ended the call around it, above others and the frame `owner`: they are
all finished, and `owner` ends with its output and with what is left of them all. -/
theorem unwind_success (limits : Limits) {upper : List Layer}
    (h : Stands c child (upper ++ owner :: below) saved)
    (hkinds : ∀ m ∈ child :: upper, m.frame.call.kind = .internal)
    (hundecided : ∀ m ∈ upper ++ [owner], m.frame.verdict = .undecided)
    (hhalted : child.frame.running = false) (hsuccess : child.frame.isSuccess = true)
    (hexits : child.frame.exitsCall = true) (houtput : child.frame.output.size ≤ largestMemory)
    (hgas : owner.frame.gas.remaining + remainingGas ((child :: upper).map (·.frame)) ≤ maxAmount) :
    ∃ c' g x saved', c.Settles limits c' ∧ Stands c' ⟨g, x⟩ below saved' ∧
      Frame.Returns limits.maxCodeSize
        (owner.frame.gas.remaining + remainingGas ((child :: upper).map (·.frame)))
        child.frame.output owner.frame g := by
  induction upper generalizing c child saved with
  | nil =>
      have hkind := hkinds child (by simp)
      obtain ⟨c₁, c₂, g, x, saved', hfinish, hresume, hstands, hreturns⟩ :=
        h.hands_up_success limits hkind hhalted hsuccess hexits
          (hundecided owner (by simp)) houtput (by simpa [remainingGas] using hgas)
      refine ⟨c₂, g, x, saved', .head hfinish hresume (.refl _), hstands, ?_⟩
      simpa [remainingGas] using hreturns
  | cons parent upper ih =>
      simp only [List.map_cons, remaining_gas_cons] at hgas ih ⊢
      obtain ⟨hkind, hkinds⟩ := List.forall_mem_cons.1 hkinds
      obtain ⟨c₁, c₂, g, x, saved', hfinish, hresume, hstands, hreturns⟩ :=
        h.hands_up_success limits hkind hhalted hsuccess hexits
          (hundecided parent (by simp)) houtput (by omega)
      have hparent := hkinds parent List.mem_cons_self
      have hg : g.call.kind = .internal :=
        (Frame.kind_of_site hreturns.site).trans hparent
      have hplain : parent.frame.creation = false :=
        (congrArg Site.creation hreturns.site).symm.trans (plain_of_internal hstands (by simp) hg)
      obtain ⟨hsuccess', houtput', hremaining⟩ := hreturns.plain hplain
      obtain ⟨c', g', x', saved'', hsettles, hstands', hreturns'⟩ :=
        ih hstands (List.forall_mem_cons.2 ⟨hg, fun m hm => hkinds m (List.mem_cons_of_mem _ hm)⟩)
          (fun m hm => hundecided m (List.mem_cons_of_mem _ hm)) hreturns.halted hsuccess'
          (hreturns.exits hparent hsuccess') (houtput'.symm ▸ houtput)
          (by simp only [hremaining]; omega)
      refine ⟨c', g', x', saved'', .head hfinish hresume hsettles, hstands', ?_⟩
      rw [← houtput']
      have hsum : owner.frame.gas.remaining + (child.frame.gas.remaining + (parent.frame.gas.remaining +
          remainingGas (upper.map (·.frame)))) = owner.frame.gas.remaining + (g.gas.remaining +
          remainingGas (upper.map (·.frame))) := by
        rw [hremaining]
        omega
      rw [hsum]
      exact hreturns'

/-- An internal call that has reverted, above others and the frame `owner`: they are all finished, and
`owner` reverts with it. It has at hand what it was left with when the lowest of them was opened. -/
theorem unwind_reverted (limits : Limits) {upper : List Layer}
    (h : Stands c child (upper ++ owner :: below) saved)
    (hkinds : ∀ m ∈ child :: upper, m.frame.call.kind = .internal)
    (hhalted : child.frame.running = false) (hreverted : child.frame.isSuccess = false)
    (hgas : owner.frame.gas.remaining + remainingGas ((child :: upper).map (·.frame)) ≤ maxAmount) :
    ∃ c' g saved', c.Settles limits c' ∧ Stands c' ⟨g, owner.contents⟩ below saved' ∧
      Frame.PassesOn (owner.frame.gas.remaining + remainingGas ((child :: upper).map (·.frame)))
        child.frame owner.frame g := by
  induction upper generalizing c child saved with
  | nil =>
      obtain ⟨c₁, c₂, g, saved', hfinish, hresume, hstands, hpasses⟩ :=
        h.hands_up_reverted limits (hkinds child (by simp)) hhalted hreverted
          (by simpa [remainingGas] using hgas)
      refine ⟨c₂, g, saved', .head hfinish hresume (.refl _), hstands, ?_⟩
      simpa [remainingGas] using hpasses
  | cons parent upper ih =>
      simp only [List.map_cons, remaining_gas_cons] at hgas ih ⊢
      obtain ⟨hkind, hkinds⟩ := List.forall_mem_cons.1 hkinds
      obtain ⟨c₁, c₂, g, saved', hfinish, hresume, hstands, hpasses⟩ :=
        h.hands_up_reverted limits hkind hhalted hreverted (by omega)
      have hg : g.call.kind = .internal :=
        (Frame.kind_of_site hpasses.site).trans (hkinds parent List.mem_cons_self)
      have hremaining := hpasses.remaining
      obtain ⟨c', g', saved'', hsettles, hstands', hpasses'⟩ :=
        ih hstands (List.forall_mem_cons.2 ⟨hg, fun m hm => hkinds m (List.mem_cons_of_mem _ hm)⟩)
          hpasses.halted hpasses.reverted (by simp only [hremaining]; omega)
      refine ⟨c', g', saved'', .head hfinish hresume hsettles, hstands', hpasses'.site,
        hpasses'.halted, hpasses'.reverted, hpasses'.reason.trans hpasses.reason,
        hpasses'.output.trans hpasses.output, ?_⟩
      rw [hpasses'.remaining]
      simp only [hremaining]
      omega

end Stands

/-! ## Frames of a run -/

@[simp]
theorem remaining_gas_append (upper lower : List Frame) :
    remainingGas (upper ++ lower) = remainingGas upper + remainingGas lower := by
  simp [remainingGas]

/-- Nothing is known about the end of the frame as long as it runs. -/
def Frame.Undecided (f : Frame) : Prop :=
  f.running = true → f.verdict = .undecided

namespace Frame.Undecided

variable {f f' : Frame}

theorem works (h : f.Undecided) (hworks : f.Works f') : f'.Undecided := fun hrunning =>
  (hworks.verdict hrunning).trans (h (hworks.running hrunning))

theorem learn (h : f.Undecided) (child : Frame) : (child.learn f).Undecided := by
  obtain ⟨gas, logs, hlearn⟩ := child.learn_eq f
  rw [hlearn]
  exact h

end Frame.Undecided

section

variable {limits : Limits} {s t : RunState}

/-- Every move leaves the running frames undecided. -/
theorem FrameMove.undecided {executed : Bool} {frames frames' : List Frame}
    (h : FrameMove executed frames frames') (hframes : ∀ f ∈ frames, f.Undecided) :
    ∀ f ∈ frames', f.Undecided := by
  cases h with
  | executes _ hexecutes =>
      obtain ⟨hf, hbelow⟩ := List.forall_mem_cons.1 hframes
      cases hexecutes with
      | goes hworks _ => exact List.forall_mem_cons.2 ⟨hf.works hworks, hbelow⟩
      | opens hopens =>
          exact List.forall_mem_cons.2 ⟨fun _ => hopens.verdict,
            List.forall_mem_cons.2 ⟨hf.works hopens.stays.works, hbelow⟩⟩
  | @finishes child parent below _ =>
      obtain ⟨_, hframes⟩ := List.forall_mem_cons.1 hframes
      obtain ⟨hparent, hbelow⟩ := List.forall_mem_cons.1 hframes
      exact List.forall_mem_cons.2 ⟨hparent.learn child, hbelow⟩
  | resumes hworks =>
      obtain ⟨hf, hbelow⟩ := List.forall_mem_cons.1 hframes
      exact List.forall_mem_cons.2 ⟨hf.works hworks, hbelow⟩
  | idles => exact hframes

/-- The running frames of a run are undecided, and no run adds to the gas on the call stack. -/
theorem Reaches.undecided_funded (h : Reaches limits s t)
    (hs : ∀ f ∈ s.context.frames.toList, f.Undecided) :
    (∀ f ∈ t.context.frames.toList, f.Undecided) ∧
      remainingGas t.context.frames.toList ≤ remainingGas s.context.frames.toList := by
  induction h with
  | refl => exact ⟨hs, Nat.le_refl _⟩
  | tail _ hmove ih =>
      exact ⟨hmove.moved.frames.undecided ih.1, Nat.le_trans hmove.moved.frames.remaining_le ih.2⟩

end

namespace Context

/-- Internal calls above a frame stand on layers, and the frame waits on what it was left with when the
lowest of them was opened. -/
theorem internal_layers (base : Context) {frameLimits limits : Limits} {slots : Slots} {code : Bytes}
    {gas : Nat} {call : CallData} {c : Context} {child owner : Frame} {inner below : List Frame}
    (hreach : Reaches limits ⟨base.launch frameLimits slots code gas call, none⟩ ⟨c, none⟩)
    (hframes : c.frames.toList = child :: inner ++ owner :: below)
    (hinternal : ∀ f ∈ child :: inner, f.call.kind = .internal) :
    ∃ l upper waiting lower saved c₁ c₂ l₁ saved₁ opened,
      Stands c l (upper ++ waiting :: lower) saved ∧ l.frame = child ∧ upper.map (·.frame) = inner ∧
      waiting.frame = owner ∧ lower.map (·.frame) = below ∧
      Opening limits (below.length + 1) ⟨base.launch frameLimits slots code gas call, none⟩ ⟨c, none⟩
        c₁ c₂ ∧
      Stands c₁ l₁ lower saved₁ ∧ c₂.top = .ok opened ∧ opened.call.kind = .internal ∧
      l₁.Calls waiting := by
  have hstart := launch_stands frameLimits slots code gas call base
  have hlow : depth (base.launch frameLimits slots code gas call) ≤ below.length + 1 := by
    rw [hstart.depth_eq]
    exact Nat.le_add_left _ _
  have hhigh : below.length + 1 < c.depth := by
    rw [depth_eq, hframes, List.length_append, List.length_cons, List.length_cons]
    omega
  obtain ⟨c₁, c₂, hopening⟩ := hreach.opening (below.length + 1) hlow hhigh
  obtain ⟨l₁, lower, saved₁, hstands₁⟩ := hopening.start.stands hstart
  obtain ⟨l₂, waiting, saved₂, hstands₂, hcalls⟩ :=
    hstands₁.opened_internal hopening.move hopening.opened
  have hlower : lower.length = below.length := by
    have hdepth := hopening.depth
    rw [hstands₁.depth_eq] at hdepth
    omega
  have hrun := hopening.above
  rw [← hlower, show lower.length + 1 = (waiting :: lower).length from rfl] at hrun
  have hbottom : Stands c₂ l₂ ([] ++ waiting :: lower) saved₂ := hstands₂
  obtain ⟨l, upper, saved, hstands, hfirst⟩ := hbottom.run_above hrun
  have hsame := hstands.frames.symm.trans hframes
  obtain ⟨rfl, hrest⟩ := List.cons.inj hsame
  rw [List.map_append, List.map_cons] at hrest
  obtain ⟨rfl, hends⟩ := List.append_inj' hrest (by simp [hlower])
  obtain ⟨rfl, rfl⟩ := List.cons.inj hends
  -- The lowest of the calls is the frame that was opened.
  have hlast : l₂.frame.site ∈ (l :: upper).map (·.frame.site) :=
    List.mem_of_getLast? (hfirst.trans (by simp))
  obtain ⟨m, hm, hsite⟩ := List.mem_map.1 hlast
  have hkind : l₂.frame.call.kind = .internal :=
    (Frame.kind_of_site hsite).symm.trans
      (hinternal m.frame (List.mem_map_of_mem (f := Layer.frame) hm))
  exact ⟨l, upper, waiting, lower, saved, c₁, c₂, l₁, saved₁, l₂.frame, hstands, rfl, rfl, rfl, rfl,
    hopening, hstands₁, hstands₂.top_eq, hkind, hcalls hkind⟩

/-- Internal calls of a run are finished together. Let any number of them stand above the frame `owner`,
and let the topmost have halted. Without another instruction they are all finished, and `owner` halts:

* if the topmost has stopped, returned or come to the end of its code, then `owner` has succeeded with
  its output and gets back all gas that is left, unless the output is code that is too large or that
  cannot be paid for, which makes `owner` revert without gas;
* if it has reverted, then `owner` reverts for the same reason with the same output. It keeps its gas
  and gets back what is left, and has at hand what it was left with when the lowest of the calls had
  taken its two operands. -/
theorem internal_calls_unwind (base : Context) {frameLimits limits : Limits} {slots : Slots}
    {code : Bytes} {gas : Nat} {call : CallData} (hgas : gas ≤ maxAmount) {c : Context}
    {child owner : Frame} {inner below : List Frame}
    (hreach : Reaches limits ⟨base.launch frameLimits slots code gas call, none⟩ ⟨c, none⟩)
    (hframes : c.frames.toList = child :: inner ++ owner :: below)
    (hinternal : ∀ f ∈ child :: inner, f.call.kind = .internal) (hhalted : child.running = false) :
    (∀ c₀ f₀, Move limits ⟨c₀, none⟩ ⟨c, none⟩ → c₀.depth = c.depth → c₀.top = .ok f₀ → f₀.AtEnd →
      child.isSuccess = true → child.exitsCall = true) ∧
    (child.isSuccess = true → child.exitsCall = true → ∃ c' owner', c.Settles limits c' ∧
      c'.frames.toList = owner' :: below ∧
      Frame.Returns limits.maxCodeSize (owner.gas.remaining + remainingGas (child :: inner))
        child.output owner owner') ∧
    (child.isSuccess = false → ∃ c' owner' after, c.Settles limits c' ∧
      c'.frames.toList = owner' :: below ∧
      Frame.PassesOn (owner.gas.remaining + remainingGas (child :: inner)) child owner owner' ∧
      c'.pool.get? owner.home.cell = some after ∧
      ∃ c₁ c₂ caller opened before,
        Opening limits (below.length + 1) ⟨base.launch frameLimits slots code gas call, none⟩
          ⟨c, none⟩ c₁ c₂ ∧
        c₁.top = .ok caller ∧ caller.site = owner.site ∧
        c₂.top = .ok opened ∧ opened.call.kind = .internal ∧
        c₁.pool.get? owner.home.cell = some before ∧ 2 ≤ before.stack.items.size ∧
        after.contents = { before.contents with operands := before.stack.items.drop 2 }) := by
  obtain ⟨l, upper, waiting, lower, saved, c₁, c₂, l₁, saved₁, opened, hstands, rfl, rfl, rfl, rfl,
    hopening, hstands₁, hopened, hkind, hcalls⟩ := internal_layers base hreach hframes hinternal
  have hkinds : ∀ m ∈ l :: upper, m.frame.call.kind = .internal := fun m hm =>
    hinternal m.frame (List.mem_map_of_mem (f := Layer.frame) hm)
  have hroot : ∀ f ∈ [Frame.new code gas call (.owned base.pool.cells.size)], f.Undecided :=
    List.forall_mem_singleton.2 fun _ => rfl
  obtain ⟨hundecided, hfunds⟩ := hreach.undecided_funded hroot
  have hpaid : waiting.frame.gas.remaining + remainingGas ((l :: upper).map (·.frame)) ≤ maxAmount := by
    have hgiven : remainingGas [Frame.new code gas call (.owned base.pool.cells.size)] = gas := rfl
    have hfunds := (Nat.le_trans hfunds (Nat.le_of_eq hgiven)).trans hgas
    rw [hframes, remaining_gas_append, remaining_gas_cons waiting.frame] at hfunds
    rw [List.map_cons]
    omega
  refine ⟨fun c₀ f₀ hmove hdepth htop hend hsuccess => ?_, fun hsuccess hexits => ?_,
    fun hreverted => ?_⟩
  · exact exits_of_move hmove hdepth htop hend hstands.frames (hkinds l List.mem_cons_self) hsuccess
  · have hwaits : ∀ m ∈ upper ++ [waiting], m.frame.verdict = .undecided := by
      intro m hm
      have hm' : m ∈ upper ++ waiting :: lower :=
        List.Sublist.mem hm (List.Sublist.append_left (by simp) upper)
      refine hundecided m.frame ?_ (hstands.chain.running_below m hm')
      rw [hstands.frames]
      exact List.mem_cons_of_mem _ (List.mem_map_of_mem (f := Layer.frame) hm')
    have houtput : l.frame.output.size ≤ largestMemory :=
      hreach.output_le l.frame (hstands.frames ▸ List.mem_cons_self)
    obtain ⟨c', g, x, saved', hsettles, hstands', hreturns⟩ :=
      hstands.unwind_success limits hkinds hwaits hhalted hsuccess hexits houtput hpaid
    exact ⟨c', g, hsettles, hstands'.frames, hreturns⟩
  · obtain ⟨c', g, saved', hsettles, hstands', hpasses⟩ :=
      hstands.unwind_reverted limits hkinds hhalted hreverted hpaid
    obtain ⟨before, hbefore, hbeforeContents, _⟩ := hstands₁.backed
    obtain ⟨after, hafter, hafterContents, _⟩ := hstands'.backed
    have hcaller : l₁.cell = waiting.frame.home.cell :=
      Frame.cell_of_site hcalls.site.symm
    have howner : (Layer.mk g waiting.contents).cell = waiting.frame.home.cell :=
      Frame.cell_of_site hpasses.site
    have hitems : before.stack.items = l₁.contents.operands :=
      congrArg Contents.operands hbeforeContents
    refine ⟨c', g, after, hsettles, hstands'.frames, hpasses, howner ▸ hafter, c₁, c₂, l₁.frame,
      opened, before, ?_, hstands₁.top_eq, hcalls.site.symm, hopened, hkind, hcaller ▸ hbefore,
      hitems ▸ hcalls.operands, ?_⟩
    · simpa using hopening
    · rw [hafterContents, hbeforeContents, hitems]
      exact hcalls.contents

/-- A run of a root frame that makes an internal call, which makes another one, which ends with five
bytes by the given instruction. -/
def nestedInternalCalls (last : UInt8) : RunState where
  context := launch {} ∅
    ⟨#[0x60, 255, 0x60, 6, 0xE3, 0, 0x5B, 0x60, 100, 0x60, 13, 0xE3, 0, 0x5B, 0x60, 5, 0x60, 0, last]⟩
    100000 (.transaction 1 2 0 ByteArray.empty) { txn := ⟨1, 0⟩ }

/-- If the inner call returns, the root frame has succeeded with the five bytes and all gas that was
left. If it reverts, the root frame reverts with the same bytes and the same gas. -/
theorem nested_internal_calls_unwind :
    (∃ c₀ c f₀ child caller owner c' owner',
      Reaches {} (nestedInternalCalls 0xF3) ⟨c, none⟩ ∧ Move {} ⟨c₀, none⟩ ⟨c, none⟩ ∧
        c₀.top = .ok f₀ ∧ f₀.AtEnd ∧ c.frames.toList = [child, caller, owner] ∧
        child.output.size = 5 ∧ c.Settles {} c' ∧ c'.frames.toList = [owner'] ∧
        owner'.isSuccess = true ∧ owner'.output = child.output ∧ owner'.gas.remaining = 99967) ∧
    ∃ c child caller owner c' owner',
      Reaches {} (nestedInternalCalls 0xFD) ⟨c, none⟩ ∧ c.frames.toList = [child, caller, owner] ∧
        child.output.size = 5 ∧ c.Settles {} c' ∧ c'.frames.toList = [owner'] ∧
        owner'.isSuccess = false ∧ owner'.revertReason? = child.revertReason? ∧
        owner'.output = child.output ∧ owner'.gas.remaining = 99967 := by
  constructor
  · have hfacts : ((nestedInternalCalls 0xF3).excursion? {} 10 0).any (fun run =>
        run.1.finished == none && run.1.context.frames.toList.map (·.currentOp) == [.ret, .stop, .stop] &&
          run.2.1.finished == none &&
          run.2.1.context.frames.toList.map (fun f => (f.call.kind, f.creation, f.running, f.isSuccess,
            f.output.size, f.gas.remaining)) ==
            [(.internal, false, false, true, 5, 90), (.internal, false, true, false, 0, 143),
              (.external, false, true, false, 0, 99734)]) = true := by
      decide +kernel
    obtain ⟨⟨⟨c₀, _⟩, ⟨c, _⟩, s⟩, hrun, hfacts⟩ := (Option.any_eq_true _ _).1 hfacts
    simp only [Bool.and_eq_true, beq_iff_eq] at hfacts
    obtain ⟨⟨⟨rfl, hops⟩, rfl⟩, hshown⟩ := hfacts
    obtain ⟨hstart, hmove, _⟩ := excursion_reaches hrun
    obtain ⟨f₀, htop, hop⟩ := top_of_map hops
    have hdepth : c₀.depth = c.depth := (depth_of_map hops).trans (depth_of_map hshown).symm
    simp only [List.map_eq_cons_iff, List.map_eq_nil_iff, Prod.mk.injEq] at hshown
    obtain ⟨child, _, hframes, hchild, caller, _, rfl, hcaller, owner, _, rfl, howner, rfl⟩ := hshown
    obtain ⟨hkind, _, hhalted, hsuccess, hsize, hgas⟩ := hchild
    obtain ⟨hkind', _, _, _, _, hgas'⟩ := hcaller
    obtain ⟨_, hplain, _, _, _, hgas''⟩ := howner
    obtain ⟨hexits, hsucceeds, _⟩ := internal_calls_unwind { txn := ⟨1, 0⟩ } (by decide)
      (hstart.tail hmove) (show c.frames.toList = child :: [caller] ++ [owner] from hframes)
      (by simp [hkind, hkind']) hhalted
    have hend : f₀.AtEnd := .inr (.inl hop)
    obtain ⟨c', owner', hsettles, hframes', hreturns⟩ :=
      hsucceeds hsuccess (hexits c₀ f₀ hmove hdepth htop hend hsuccess)
    obtain ⟨hsuccess', houtput, hremaining⟩ := hreturns.plain hplain
    refine ⟨c₀, c, f₀, child, caller, owner, c', owner', hstart.tail hmove, hmove, htop, hend, hframes,
      hsize, hsettles, hframes', hsuccess', houtput, ?_⟩
    rw [hremaining, remaining_gas_cons, remaining_gas_cons, hgas, hgas', hgas'']
    rfl
  · have hfacts : ((nestedInternalCalls 0xFD).excursion? {} 10 0).any (fun run =>
        run.2.1.finished == none &&
          run.2.1.context.frames.toList.map (fun f => (f.call.kind, f.running, f.isSuccess,
            f.output.size, f.gas.remaining)) ==
            [(.internal, false, false, 5, 90), (.internal, true, false, 0, 143),
              (.external, true, false, 0, 99734)]) = true := by
      decide +kernel
    obtain ⟨⟨⟨c₀, _⟩, ⟨c, _⟩, s⟩, hrun, hfacts⟩ := (Option.any_eq_true _ _).1 hfacts
    simp only [Bool.and_eq_true, beq_iff_eq] at hfacts
    obtain ⟨rfl, hshown⟩ := hfacts
    obtain ⟨hstart, hmove, _⟩ := excursion_reaches hrun
    simp only [List.map_eq_cons_iff, List.map_eq_nil_iff, Prod.mk.injEq] at hshown
    obtain ⟨child, _, hframes, hchild, caller, _, rfl, hcaller, owner, _, rfl, howner, rfl⟩ := hshown
    obtain ⟨hkind, hhalted, hreverted, hsize, hgas⟩ := hchild
    obtain ⟨hkind', _, _, _, hgas'⟩ := hcaller
    obtain ⟨_, _, _, _, hgas''⟩ := howner
    have hreaches := hstart.tail hmove
    obtain ⟨_, _, hreverts⟩ := internal_calls_unwind { txn := ⟨1, 0⟩ } (by decide) hreaches
      (show c.frames.toList = child :: [caller] ++ [owner] from hframes) (by simp [hkind, hkind'])
      hhalted
    obtain ⟨c', owner', _, hsettles, hframes', hpasses, _⟩ := hreverts hreverted
    refine ⟨c, child, caller, owner, c', owner', hreaches, hframes, hsize, hsettles, hframes',
      hpasses.reverted, hpasses.reason, hpasses.output, ?_⟩
    rw [hpasses.remaining, remaining_gas_cons, remaining_gas_cons, hgas, hgas', hgas'']
    rfl

end Context
end CallTree
