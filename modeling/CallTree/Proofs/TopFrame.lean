import CallTree.Proofs.FrameMoves

/-!
# Moves by what they do in the topmost frame

`FrameMove` forgets which instruction was executed. Here a move is taken apart into what is done in the
topmost frame and its workspace and what the call stack makes of it: `Context.step_or_fail_instructed`
for an instruction, `Context.resume_or_fail_resumed` for the result of a child. What an invariant of
frames has to stand is then one case for each of the ways in which an instruction ends.
-/

namespace CallTree

/-- What an instruction in the activation `a` leaves of its frame, by what it does there. -/
inductive Instructed (env : Surroundings) (a : Activation) : List Frame → Prop
  /-- It is refused, and the frame fails. -/
  | refused {e : Fault} {b : Activation}
      (hact : Instruction.fetchAndDispatch env a = .error (.fault e) b) :
      Instructed env a [b.frame.fail e]
  /-- It is completed. -/
  | proceeds {b : Activation} (hact : Instruction.fetchAndDispatch env a = .ok .proceed b) :
      Instructed env a [b.frame]
  /-- It asks for a frame, which is not opened. -/
  | stays {request : Request} {b : Activation} {f : Frame}
      (hact : Instruction.fetchAndDispatch env a = .ok request b) (hrequest : request ≠ .proceed)
      (hpays : b.frame.Pays f) : Instructed env a [f]
  /-- It asks for a frame, which is refused, and fails. -/
  | declined {request : Request} {b : Activation} {f : Frame} {e : Fault}
      (hact : Instruction.fetchAndDispatch env a = .ok request b) (hrequest : request ≠ .proceed)
      (hpays : b.frame.Pays f) : Instructed env a [f.fail e]
  /-- It asks for a frame, which is opened. -/
  | opens {request : Request} {b : Activation} {parent child : Frame}
      (hact : Instruction.fetchAndDispatch env a = .ok request b)
      (hopens : request.Opens b.frame parent child) : Instructed env a [child, parent]

/-- What taking up a result in the activation `a` leaves of its frame. -/
inductive Resumed (limits : Limits) (result : FinishedCall) (a : Activation) : Frame → Prop
  /-- It is refused, and the frame fails. -/
  | refused {e : Fault} {b : Activation} (hact : Exec.resume limits result a = .error (.fault e) b) :
      Resumed limits result a (b.frame.fail e)
  /-- It is completed. -/
  | proceeds {b : Activation} (hact : Exec.resume limits result a = .ok () b) :
      Resumed limits result a b.frame

/-- A request that opens a frame is none to go on. -/
theorem Request.Opens.ne_proceed {request : Request} {f parent child : Frame}
    (h : request.Opens f parent child) : request ≠ .proceed := by
  rintro rfl
  exact h

namespace Context

variable {limits : Limits} {c c' : Context} {f : Frame} {below : List Frame} {α : Type}

/-- A frame with what its handle reaches. -/
def activation (f : Frame) (c : Context) : Activation :=
  ⟨f, c.pool.get? f.home.cell⟩

/-- The surroundings of the next instruction. -/
def surroundings (limits : Limits) (c : Context) : Surroundings :=
  ⟨limits, c.depth, c.txn.origin⟩

/-- What is done on top is done in the topmost frame. -/
theorem on_top_cases (hframes : c.frames.toList = f :: below) (act : Exec α) :
    (∃ r b c₁, act (c.activation f) = .ok r b ∧ onTop act c = .ok r c₁ ∧
        c₁.frames.toList = b.frame :: below) ∨
      ∃ e b c₁, act (c.activation f) = .error e b ∧ onTop act c = .error e c₁ ∧
        c₁.frames.toList = b.frame :: below := by
  obtain ⟨⟨frames, size, hsize⟩, pool, txn, world, own⟩ := c
  cases hframes
  let left (b : Activation) : Context :=
    ⟨⟨b.frame :: below, size, hsize⟩,
      b.space.elim (pool.free f.home.cell) fun w => (pool.free f.home.cell).set f.home.cell w,
      txn, world, own⟩
  cases hact : act ⟨f, pool.get? f.home.cell⟩ with
  | ok r b =>
      refine .inl ⟨r, b, left b, hact, ?_, rfl⟩
      simp only [onTop, Exec.inPool, hact, left]
  | error e b =>
      refine .inr ⟨e, b, left b, hact, ?_, rfl⟩
      simp only [onTop, Exec.inPool, hact, left]

/-- An instruction that neither calls nor creates is completed on the call stack if it is in its
frame. -/
theorem step_of_proceed (hframes : c.frames.toList = f :: below) {b : Activation}
    (hact : Instruction.fetchAndDispatch (c.surroundings limits) (c.activation f) =
      .ok .proceed b) :
    ∃ c', c.step limits = .ok () c' ∧ c'.frames.toList = b.frame :: below := by
  rcases on_top_cases hframes (Instruction.fetchAndDispatch (c.surroundings limits)) with
    ⟨r, b', c₁, hact', htop, hframes₁⟩ | ⟨e, b', c₁, hact', _, _⟩
  · cases hact.symm.trans hact'
    exact ⟨c₁, step_ok htop, hframes₁⟩
  · cases hact.symm.trans hact'

theorem frames_update_top (hframes : c.frames.toList = f :: below) (g : Frame → Frame) :
    (c.updateTop g).frames.toList = g f :: below :=
  ((held_refl hframes).update_top g).frames

/-- An instruction; a fault halts the frame that raised it. -/
theorem step_or_fail_instructed (hframes : c.frames.toList = f :: below)
    (hstep : c.stepOrFail limits = .ok () c') :
    ∃ top, Instructed (c.surroundings limits) (c.activation f) top ∧
      c'.frames.toList = top ++ below := by
  rcases on_top_cases hframes (Instruction.fetchAndDispatch (c.surroundings limits)) with
    ⟨request, b, c₁, hact, htop, hframes₁⟩ | ⟨e, b, c₁, hact, htop, hframes₁⟩
  · have hserve := step_ok htop
    by_cases hrequest : request = .proceed
    · subst hrequest
      simp only [stepOrFail, hserve] at hstep
      cases hstep
      exact ⟨_, .proceeds hact, hframes₁⟩
    have hserved := serve_held request c₁ (held_refl hframes₁)
    cases hresult : serve request c₁ with
    | ok r c₂ =>
        rw [hresult] at hserved hserve
        simp only [stepOrFail, hserve] at hstep
        cases hstep
        rcases hserved with ⟨f', hheld, hpays⟩ | ⟨parent, child, hheld, _, hopens⟩
        · exact ⟨[f'], .stays hact hrequest hpays, hheld.frames⟩
        · exact ⟨[child, parent], .opens hact hopens, hheld.frames⟩
    | error e c₂ =>
        rw [hresult] at hserved hserve
        obtain ⟨_, f', hheld, hpays⟩ := hserved
        cases e with
        | overflow => simp [stepOrFail, hserve] at hstep
        | fault e =>
            simp only [stepOrFail, hserve] at hstep
            cases hstep
            exact ⟨_, .declined hact hrequest hpays, frames_update_top hheld.frames _⟩
  · have herror := step_error htop
    cases e with
    | overflow => simp [stepOrFail, herror] at hstep
    | fault e =>
        simp only [stepOrFail, herror] at hstep
        cases hstep
        exact ⟨_, .refused hact, frames_update_top hframes₁ _⟩

/-- A running frame makes the move that a completed instruction leads to. -/
theorem move_of_proceed (hframes : c.frames.toList = f :: below) (hrunning : f.running = true)
    {b : Activation} (hact : Instruction.fetchAndDispatch (c.surroundings limits) (c.activation f) =
      .ok .proceed b) :
    ∃ c', Move limits ⟨c, none⟩ ⟨c', none⟩ ∧ c'.frames.toList = b.frame :: below := by
  have hready : c.isRunning = true := by simp [isRunning, hframes, hrunning]
  obtain ⟨c', hstep, hframes'⟩ := step_of_proceed hframes hact
  exact ⟨c', .instruction hready (by simp only [stepOrFail, hstep]), hframes'⟩

/-- A running frame that is refused an instruction fails. -/
theorem move_of_refused (hframes : c.frames.toList = f :: below) (hrunning : f.running = true)
    {e : Fault} {b : Activation}
    (hact : Instruction.fetchAndDispatch (c.surroundings limits) (c.activation f) =
      .error (.fault e) b) :
    ∃ c', Move limits ⟨c, none⟩ ⟨c', none⟩ ∧ c'.frames.toList = b.frame.fail e :: below := by
  have hready : c.isRunning = true := by simp [isRunning, hframes, hrunning]
  rcases on_top_cases hframes (Instruction.fetchAndDispatch (c.surroundings limits)) with
    ⟨r, b', c₁, hact', _, _⟩ | ⟨e', b', c₁, hact', htop, hframes₁⟩
  · cases hact.symm.trans hact'
  · cases hact.symm.trans hact'
    have hstep : c.stepOrFail limits = .ok () (c₁.updateTop (Frame.fail e)) := by
      simp only [stepOrFail, step_error htop]
    exact ⟨_, .instruction hready hstep, frames_update_top hframes₁ _⟩

/-- Taking up the result of a child; a fault halts the frame. -/
theorem resume_or_fail_resumed {result : FinishedCall} (hframes : c.frames.toList = f :: below)
    (hresume : c.resumeOrFail limits result = .ok () c') :
    ∃ f', Resumed limits result (c.activation f) f' ∧ c'.frames.toList = f' :: below := by
  rcases on_top_cases hframes (Exec.resume limits result) with
    ⟨r, b, c₁, hact, htop, hframes₁⟩ | ⟨e, b, c₁, hact, htop, hframes₁⟩
  · simp only [resumeOrFail, htop] at hresume
    cases hresume
    exact ⟨_, .proceeds hact, hframes₁⟩
  · cases e with
    | overflow => simp [resumeOrFail, htop] at hresume
    | fault e =>
        simp only [resumeOrFail, htop] at hresume
        cases hresume
        exact ⟨_, .refused hact, frames_update_top hframes₁ _⟩

end Context

/-- A result is taken up by a running frame. -/
theorem Stands.running_of_finished {limits : Limits} {s t : RunState} {l : Layer}
    {below : List Layer} {saved : List Contents} (h : Stands s.context l below saved)
    (hmove : Move limits s t) (hfinished : t.finished.isSome = true) :
    t.context.isRunning = true := by
  cases hmove with
  | instruction => cases hfinished
  | resume => cases hfinished
  | finish hhalted hfinish =>
      obtain ⟨child, parent, rest, hframes, _, hframes', _⟩ := Context.finish_child_frames hfinish
      have hwaiting : parent.running = true := by
        have hbelow := h.chain.running_below
        match below, h.frames.symm.trans hframes with
        | m :: _, hsame =>
            simp only [List.map_cons, List.cons.injEq] at hsame
            rw [← hsame.2.1]
            exact hbelow m List.mem_cons_self
      simp [Context.isRunning, hframes', Frame.running_learn, hwaiting]

end CallTree
