import Mathlib.Logic.Relation
import CallTree.Interpreter.Run

/-!
# Runs as sequences of moves

The interpreter finishes a chain of halted frames in one go. To speak about what holds right after
a child was finished, a run is taken apart into moves: an instruction, the finishing of a child,
and the taking up of its result. `run_for_ends` says where a run can end, by the moves it makes and how
many of them are instructions; `run_reaches` is what it says of a run to the end. What every move
preserves therefore holds throughout a run.
-/

namespace CallTree

/-- A context in a run, with the result of the child that was finished last if the parent has not
taken it up yet. -/
structure RunState where
  /-- The call stack and all it works on. -/
  context : Context
  /-- The result that is still to be taken up. -/
  finished : Option FinishedCall := none

namespace Context

/-- Lets the topmost frame take up the result of a child; a fault halts the frame. Only an overflow
is an error. -/
def resumeOrFail (limits : Limits) (finished : FinishedCall) (c : Context) :
    EStateM.Result Abort Context Unit :=
  match onTop (Exec.resume limits finished) c with
  | .ok () c => .ok () c
  | .error (.fault e) c => .ok () (c.updateTop (Frame.fail e))
  | .error .overflow c => .error .overflow c

/-- What is running is the topmost frame. -/
theorem top_of_running {c : Context} (h : c.isRunning = true) :
    ∃ f below, c.frames.toList = f :: below ∧ f.running = true := by
  unfold isRunning at h
  split at h
  · cases h
  · exact ⟨_, _, ‹_›, h⟩

end Context

/-- One move of a run. -/
inductive Move (limits : Limits) : RunState → RunState → Prop
  /-- A running frame executes an instruction. -/
  | instruction {c c' : Context} (hrunning : c.isRunning = true)
      (hstep : c.stepOrFail limits = .ok () c') : Move limits ⟨c, none⟩ ⟨c', none⟩
  /-- A halted frame is finished into its parent. -/
  | finish {c c' : Context} {result : FinishedCall} (hhalted : c.isRunning = false)
      (hfinish : c.finishChild = .ok result c') : Move limits ⟨c, none⟩ ⟨c', some result⟩
  /-- The parent takes up the result. -/
  | resume {c c' : Context} {result : FinishedCall}
      (hresume : c.resumeOrFail limits result = .ok () c') :
      Move limits ⟨c, some result⟩ ⟨c', none⟩

/-- The move that comes next, if there is one. -/
def RunState.next? (limits : Limits) (s : RunState) : Option RunState :=
  match s.finished with
  | some result =>
    match s.context.resumeOrFail limits result with
    | .ok () c => some ⟨c, none⟩
    | .error _ _ => none
  | none =>
    if s.context.isRunning then
      match s.context.stepOrFail limits with
      | .ok () c => some ⟨c, none⟩
      | .error _ _ => none
    else
      match s.context.finishChild with
      | .ok result c => some ⟨c, some result⟩
      | .error _ _ => none

/-- There is never more than one move to make. -/
theorem move_iff {limits : Limits} {s t : RunState} :
    Move limits s t ↔ s.next? limits = some t := by
  constructor
  · intro hmove
    cases hmove with
    | instruction hrunning hstep => simp [RunState.next?, hrunning, hstep]
    | finish hhalted hfinish => simp [RunState.next?, hhalted, hfinish]
    | resume hresume => simp [RunState.next?, hresume]
  · intro hnext
    obtain ⟨c, finished⟩ := s
    cases finished with
    | some result =>
        simp only [RunState.next?] at hnext
        split at hnext
        · cases hnext
          exact .resume ‹_›
        · cases hnext
    | none =>
        simp only [RunState.next?] at hnext
        split at hnext
        · split at hnext
          · cases hnext
            exact .instruction ‹_› ‹_›
          · cases hnext
        · split at hnext
          · cases hnext
            exact .finish (eq_false_of_ne_true ‹_›) ‹_›
          · cases hnext

/-- Any number of moves. -/
def Reaches (limits : Limits) : RunState → RunState → Prop :=
  Relation.ReflTransGen (Move limits)

/-- Any number of moves, all of which leave more than `floor` frames on the call stack. -/
def ReachesAbove (limits : Limits) (floor : Nat) : RunState → RunState → Prop :=
  Relation.ReflTransGen fun s t => Move limits s t ∧ floor < t.context.depth

/-- Moves above a floor are moves. -/
theorem ReachesAbove.reaches {limits : Limits} {floor : Nat} {s t : RunState}
    (h : ReachesAbove limits floor s t) : Reaches limits s t :=
  Relation.ReflTransGen.mono (fun _ _ hmove => hmove.1) _ _ h

/-- What a given number of moves leads to, if all of them can be made and leave more than `floor`
frames on the call stack. -/
def RunState.advance? (limits : Limits) (floor : Nat) : Nat → RunState → Option RunState
  | 0, s => some s
  | n + 1, s =>
    match s.next? limits with
    | none => none
    | some t => if floor < t.context.depth then t.advance? limits floor n else none

/-- Moves above a floor are made by going forward, however many there are. -/
theorem reaches_above_of_advance {limits : Limits} {floor n : Nat} {s t : RunState}
    (h : s.advance? limits floor n = some t) : ReachesAbove limits floor s t := by
  induction n generalizing s with
  | zero =>
      cases h
      exact .refl
  | succ n ih =>
      rw [RunState.advance?] at h
      split at h
      · cases h
      · rename_i t₁ hnext
        split at h
        · rename_i hfloor
          exact .head ⟨move_iff.2 hnext, hfloor⟩ (ih h)
        · cases h

/-- Goes forward by some moves, makes another one, and goes forward above the frames that were
there before it. The result holds the states before and after that move and at the end. -/
def RunState.excursion? (limits : Limits) (before above : Nat) (s : RunState) :
    Option (RunState × RunState × RunState) := do
  let s₁ ← s.advance? limits 0 before
  let s₂ ← s₁.next? limits
  let s₃ ← s₂.advance? limits s₁.context.depth above
  return (s₁, s₂, s₃)

/-- An excursion is a part of a run. -/
theorem excursion_reaches {limits : Limits} {before above : Nat} {s s₁ s₂ s₃ : RunState}
    (h : s.excursion? limits before above = some (s₁, s₂, s₃)) :
    Reaches limits s s₁ ∧ Move limits s₁ s₂ ∧ ReachesAbove limits s₁.context.depth s₂ s₃ := by
  obtain ⟨t₁, hbefore, h⟩ := Option.bind_eq_some_iff.1 h
  obtain ⟨t₂, hnext, h⟩ := Option.bind_eq_some_iff.1 h
  obtain ⟨t₃, habove, h⟩ := Option.bind_eq_some_iff.1 h
  cases h
  exact ⟨(reaches_above_of_advance hbefore).reaches, move_iff.2 hnext,
    reaches_above_of_advance habove⟩

/-! ## Trails -/

/-- The moves from one state to another, by the states they start from. -/
inductive Trail (limits : Limits) : RunState → List RunState → RunState → Prop
  /-- No move. -/
  | nil (s : RunState) : Trail limits s [] s
  /-- A move before others. -/
  | cons {s t u : RunState} {states : List RunState} (hmove : Move limits s t)
      (hrest : Trail limits t states u) : Trail limits s (s :: states) u

/-- One trail after another. -/
theorem Trail.append {limits : Limits} {s t u : RunState} {states rest : List RunState}
    (h : Trail limits s states t) (hrest : Trail limits t rest u) :
    Trail limits s (states ++ rest) u := by
  induction h with
  | nil s => exact hrest
  | cons hmove _ ih => exact .cons hmove (ih hrest)

/-- A trail leads to where it ends. -/
theorem Trail.reaches {limits : Limits} {s t : RunState} {states : List RunState}
    (h : Trail limits s states t) : Reaches limits s t := by
  induction h with
  | nil s => exact .refl
  | cons hmove _ ih => exact .head hmove ih

/-- Whether the next move is an instruction. -/
def RunState.executes (s : RunState) : Bool :=
  s.finished.isNone && s.context.isRunning

/-- How many of the moves that start from the given states are instructions. -/
def instructions (states : List RunState) : Nat :=
  states.countP (·.executes)

@[simp]
theorem instructions_append (states rest : List RunState) :
    instructions (states ++ rest) = instructions states + instructions rest :=
  List.countP_append

namespace Context

variable {limits : Limits} {α : Type} {c : Context} {g : Frame → α}

theorem depth_eq (c : Context) : c.depth = c.frames.toList.length :=
  c.frames.size_eq

theorem head_of_top {f : Frame} (h : c.top = .ok f) : c.frames.toList.head? = some f := by
  unfold top at h
  split at h
  · cases h
  · cases h
    simp [*]

/-- The depth is that of anything that is read off the frames. -/
theorem depth_of_map {shown : List α} (h : c.frames.toList.map g = shown) :
    c.depth = shown.length := by
  rw [depth, c.frames.size_eq, ← h, List.length_map]

/-- What is read off first is read off the topmost frame. -/
theorem top_of_map {first : α} {rest : List α} (h : c.frames.toList.map g = first :: rest) :
    ∃ f, c.top = .ok f ∧ g f = first := by
  obtain ⟨f, below, hframes, hfirst, _⟩ := List.map_eq_cons_iff.1 h
  exact ⟨f, by simp only [top, hframes], hfirst⟩

/-- The topmost frame has halted above another, but cannot be finished; or there is no frame. -/
def Stuck (c : Context) : Prop :=
  c.isRunning = false ∧ c.depth ≠ 1 ∧ ∀ result c', c.finishChild ≠ .ok result c'

/-- A run gets no further than an overflow or a context that is stuck. -/
def Stops (limits : Limits) (c : Context) (e : Abort) : Prop :=
  e = .overflow ∨ ∃ c', Reaches limits ⟨c, none⟩ ⟨c', none⟩ ∧ c'.Stuck

end Context

/-- In the next move a number is no amount. -/
inductive RunState.Overflows (limits : Limits) : RunState → Prop
  /-- When a running frame executes an instruction. -/
  | instruction {c c' : Context} (hrunning : c.isRunning = true)
      (hstep : c.stepOrFail limits = .error .overflow c') : Overflows limits ⟨c, none⟩
  /-- When a parent takes up a result. -/
  | resume {c c' : Context} {result : FinishedCall}
      (hresume : c.resumeOrFail limits result = .error .overflow c') :
      Overflows limits ⟨c, some result⟩

/-- No move is made from a state, because of an overflow or because it is stuck. -/
def RunState.Blocked (limits : Limits) (s : RunState) (e : Abort) : Prop :=
  e = .overflow ∧ s.Overflows limits ∨ s.finished = none ∧ s.context.Stuck

/-! ## Unwinding -/

/-- Moves from one state to another, none of which is an instruction. -/
def Unwinds (limits : Limits) (s t : RunState) : Prop :=
  ∃ states, Trail limits s states t ∧ instructions states = 0

/-- Unwinding stops in a state from which no move is made. -/
def UnwindStops (limits : Limits) (s : RunState) (e : Abort) : Prop :=
  ∃ t, Unwinds limits s t ∧ t.executes = false ∧ t.Blocked limits e

/-- What unwinding leaves behind: a running frame or a single one on top, unless it stops. -/
def Unwound (limits : Limits) (s : RunState) (txn : Txn) (world : World) (own : Limits) :
    EStateM.Result Abort (Pile Frame × Pool Workspace) Unit → Prop
  | .ok _ (frames, pool) =>
    Unwinds limits s ⟨⟨frames, pool, txn, world, own⟩, none⟩ ∧
      ∃ f rest, frames.toList = f :: rest ∧ (f.running = true ∨ rest = [])
  | .error e _ => UnwindStops limits s e

section

variable {limits : Limits} {s t u : RunState}

theorem Unwinds.refl (s : RunState) : Unwinds limits s s :=
  ⟨[], .nil s, rfl⟩

/-- A move before others. -/
theorem Unwinds.head (hmove : Move limits s t) (hidle : s.executes = false)
    (h : Unwinds limits t u) : Unwinds limits s u := by
  obtain ⟨states, htrail, hcount⟩ := h
  refine ⟨s :: states, .cons hmove htrail, ?_⟩
  simpa [instructions, hidle] using hcount

theorem Unwound.head {txn : Txn} {world : World} {own : Limits}
    {result : EStateM.Result Abort (Pile Frame × Pool Workspace) Unit} (hmove : Move limits s t)
    (hidle : s.executes = false) (h : Unwound limits t txn world own result) :
    Unwound limits s txn world own result := by
  cases result with
  | ok r left => exact ⟨h.1.head hmove hidle, h.2⟩
  | error e left =>
      obtain ⟨u, hunwinds, hblocked⟩ := h
      exact ⟨u, hunwinds.head hmove hidle, hblocked⟩

end

namespace Context

variable {limits : Limits}

/-- Finishing halted frames one after another is a sequence of moves, none of which is an
instruction. -/
theorem unwind_frames_unwound (limits : Limits) (txn : Txn) (world : World) (own : Limits)
    (below : List Frame) :
    ∀ (top : Frame) (size : Nat) (h : size = below.length + 1) (pool : Pool Workspace),
      Unwound limits ⟨⟨⟨top :: below, size, h⟩, pool, txn, world, own⟩, none⟩ txn world own
        (unwindFrames limits top below size h pool) := by
  induction below with
  | nil =>
      intro top size h pool
      exact ⟨.refl _, top, [], rfl, .inr rfl⟩
  | cons parent below ih =>
      intro top size h pool
      rw [unwindFrames]
      by_cases hrunning : top.running = true
      · rw [if_pos hrunning]
        exact ⟨.refl _, top, parent :: below, rfl, .inl hrunning⟩
      rw [if_neg hrunning]
      let c : Context := ⟨⟨top :: parent :: below, size, h⟩, pool, txn, world, own⟩
      have hhalted : c.isRunning = false := by simpa [isRunning, c] using hrunning
      have hidle : RunState.executes ⟨c, none⟩ = false := by simp [RunState.executes, hhalted]
      cases hinto : top.finishInto (parent, pool) with
      | error e s =>
          refine ⟨_, .refl _, hidle, .inr ⟨rfl, hhalted, ?_, ?_⟩⟩
          · simp [depth, h]
          · intro result c' hfinish
            simp [finishChild, hrunning, hinto] at hfinish
      | ok finished s =>
          obtain ⟨parent₁, pool₁⟩ := s
          have hsize : size - 1 = below.length + 1 := by rw [h]; rfl
          let c₁ : Context := ⟨⟨parent₁ :: below, size - 1, hsize⟩, pool₁, txn, world, own⟩
          have hfinish : c.finishChild = .ok finished c₁ := by
            simp [c, c₁, finishChild, hrunning, hinto]
          refine Unwound.head (.finish hhalted hfinish) hidle ?_
          -- The parent takes up the result, and what follows is left to the induction.
          cases htake : (Exec.resume limits finished).inPool (parent₁, pool₁) with
          | ok r s =>
              simp only [htake]
              refine Unwound.head (.resume ?_) rfl (ih s.1 (size - 1) hsize s.2)
              simp [c₁, resumeOrFail, onTop, htake]
          | error e s =>
              cases e with
              | fault e =>
                  simp only [htake]
                  refine Unwound.head (.resume ?_) rfl (ih (s.1.fail e) (size - 1) hsize s.2)
                  simp [c₁, resumeOrFail, onTop, htake, updateTop]
              | overflow =>
                  have hover : resumeOrFail limits finished c₁ =
                      .error .overflow ⟨⟨s.1 :: below, size - 1, hsize⟩, s.2, txn, world, own⟩ := by
                    simp [c₁, resumeOrFail, onTop, htake]
                  simp only [htake]
                  exact ⟨_, .refl _, rfl, .inl ⟨rfl, .resume hover⟩⟩

/-- What a run finds before its next instruction is reached by moves that are none. -/
theorem turn_unwinds (limits : Limits) (c : Context) :
    match c.turn limits with
    | .ready c' => Unwinds limits ⟨c, none⟩ ⟨c', none⟩ ∧ c'.isRunning = true
    | .done c' => Unwinds limits ⟨c, none⟩ ⟨c', none⟩ ∧
        ∃ root, c'.frames.toList = [root] ∧ root.running = false
    | .stopped e _ => UnwindStops limits ⟨c, none⟩ e := by
  unfold turn
  by_cases hrunning : c.isRunning = true
  · rw [if_pos hrunning]
    exact ⟨.refl _, hrunning⟩
  rw [if_neg hrunning]
  obtain ⟨⟨frames, size, h⟩, pool, txn, world, own⟩ := c
  cases frames with
  | nil =>
      refine ⟨_, .refl _, rfl, .inr ⟨rfl, rfl, ?_, ?_⟩⟩
      · simp [depth, h]
      · intro result c' hfinish
        cases hfinish
  | cons top below =>
      have hunwound := unwind_frames_unwound limits txn world own below top size h pool
      cases hunwind : unwindFrames limits top below size h pool with
      | error e s =>
          simp only [unwind, hunwind] at hunwound ⊢
          exact hunwound
      | ok r s =>
          simp only [unwind, hunwind] at hunwound ⊢
          obtain ⟨hunwinds, f, rest, hframes, hend⟩ := hunwound
          by_cases hrun : f.running = true
          · have hready : isRunning ⟨s.1, s.2, txn, world, own⟩ = true := by
              simp [isRunning, hframes, hrun]
            rw [if_pos hready]
            exact ⟨hunwinds, hready⟩
          · have hdone : isRunning ⟨s.1, s.2, txn, world, own⟩ = false := by
              simp [isRunning, hframes, hrun]
            rw [hdone]
            have hrest : rest = [] := hend.resolve_left hrun
            exact ⟨hunwinds, f, by rw [hframes, hrest], by simpa using hrun⟩

/-- Only an overflow keeps an instruction from being executed. -/
theorem step_or_fail_error {c c' : Context} {e : Abort}
    (h : c.stepOrFail limits = .error e c') : e = .overflow := by
  unfold stepOrFail at h
  split at h
  · cases h
  · cases h
  · cases h
    rfl

end Context

/-- Where a run of at most `budget` instructions can end, after `steps` instructions that were
counted before. -/
inductive Ends (limits : Limits) (budget steps : Nat) (s : RunState) : RunReport → Prop
  /-- At a single frame that has halted. -/
  | halted {states : List RunState} {c : Context} {root : Frame} {n : Nat}
      (htrail : Trail limits s states ⟨c, none⟩) (hframes : c.frames.toList = [root])
      (hhalted : root.running = false) (hsteps : n = steps + instructions states) :
      Ends limits budget steps s ⟨c, n, none⟩
  /-- At a running frame, when no instruction is left; the one that is refused counts too. -/
  | exhausted {states : List RunState} {c : Context} {n : Nat}
      (htrail : Trail limits s states ⟨c, none⟩) (hrunning : c.isRunning = true)
      (hcount : instructions states = budget) (hsteps : n = steps + instructions states + 1) :
      Ends limits budget steps s
        ⟨c, n, some (.fault (.stepLimitExceeded limits.maxExecutionSteps))⟩
  /-- Where it gets no further. -/
  | blocked {states : List RunState} {t : RunState} {e : Abort} {c : Context} {n : Nat}
      (htrail : Trail limits s states t) (hblocked : t.Blocked limits e)
      (hsteps : n = steps + instructions states + t.executes.toNat) :
      Ends limits budget steps s ⟨c, n, some e⟩

/-- A run that begins with the given moves. -/
theorem Ends.head {limits : Limits} {budget steps : Nat} {s t : RunState} {states : List RunState}
    {report : RunReport} (htrail : Trail limits s states t)
    (h : Ends limits budget (steps + instructions states) t report) :
    Ends limits (instructions states + budget) steps s report := by
  cases h with
  | halted hrest hframes hhalted hsteps =>
      refine .halted (htrail.append hrest) hframes hhalted ?_
      rw [hsteps, instructions_append, Nat.add_assoc]
  | exhausted hrest hrunning hcount hsteps =>
      refine .exhausted (htrail.append hrest) hrunning ?_ ?_
      · rw [instructions_append, hcount]
      · rw [hsteps, instructions_append, Nat.add_assoc steps]
  | blocked hrest hblocked hsteps =>
      refine .blocked (htrail.append hrest) hblocked ?_
      rw [hsteps, instructions_append, Nat.add_assoc steps]

section

variable {limits : Limits} {s : RunState} {c : Context}

/-- A run that stops before its next instruction. -/
theorem UnwindStops.ends {e : Abort} (h : UnwindStops limits s e) (budget steps : Nat) :
    Ends limits budget steps s ⟨c, steps, some e⟩ := by
  obtain ⟨t, ⟨states, htrail, hcount⟩, hexecutes, hblocked⟩ := h
  refine .blocked htrail hblocked ?_
  rw [hcount, hexecutes]
  rfl

/-- A run that finds its only frame halted. -/
theorem Unwinds.ends {root : Frame} (h : Unwinds limits s ⟨c, none⟩)
    (hframes : c.frames.toList = [root]) (hhalted : root.running = false) (budget steps : Nat) :
    Ends limits budget steps s ⟨c, steps, none⟩ := by
  obtain ⟨states, htrail, hcount⟩ := h
  exact .halted htrail hframes hhalted (by rw [hcount]; rfl)

/-- A run that executes an instruction first. -/
theorem Unwinds.ends_after {c' : Context} {budget steps : Nat} {report : RunReport}
    (h : Unwinds limits s ⟨c, none⟩) (hrunning : c.isRunning = true)
    (hstep : c.stepOrFail limits = .ok () c')
    (hrest : Ends limits budget (steps + 1) ⟨c', none⟩ report) :
    Ends limits (budget + 1) steps s report := by
  obtain ⟨states, htrail, hcount⟩ := h
  have hone : instructions (states ++ [⟨c, none⟩]) = 1 := by
    rw [instructions_append, hcount]
    simp [instructions, RunState.executes, hrunning]
  have hmoves : Trail limits s (states ++ [⟨c, none⟩]) ⟨c', none⟩ :=
    htrail.append (.cons (.instruction hrunning hstep) (.nil _))
  have hends := Ends.head hmoves (hone.symm ▸ hrest)
  rwa [hone, Nat.add_comm] at hends

end

namespace Context

variable {limits : Limits}

/-- Every run ends in one of these ways. -/
theorem run_for_ends (limits : Limits) (budget steps : Nat) (c : Context) :
    Ends limits budget steps ⟨c, none⟩ (runFor limits budget steps c) := by
  induction budget generalizing steps c with
  | zero =>
      have hturn := turn_unwinds limits c
      unfold runFor
      cases hc : c.turn limits with
      | ready c' =>
          simp only [hc] at hturn ⊢
          obtain ⟨⟨states, htrail, hcount⟩, hrunning⟩ := hturn
          exact .exhausted htrail hrunning hcount (by rw [hcount, Nat.add_zero])
      | done c' =>
          simp only [hc] at hturn ⊢
          obtain ⟨hunwinds, root, hframes, hhalted⟩ := hturn
          exact hunwinds.ends hframes hhalted 0 steps
      | stopped e c' =>
          simp only [hc] at hturn ⊢
          exact hturn.ends 0 steps
  | succ budget ih =>
      have hturn := turn_unwinds limits c
      unfold runFor
      cases hc : c.turn limits with
      | done c' =>
          simp only [hc] at hturn ⊢
          obtain ⟨hunwinds, root, hframes, hhalted⟩ := hturn
          exact hunwinds.ends hframes hhalted (budget + 1) steps
      | stopped e c' =>
          simp only [hc] at hturn ⊢
          exact hturn.ends (budget + 1) steps
      | ready c' =>
          simp only [hc] at hturn ⊢
          obtain ⟨hunwinds, hrunning⟩ := hturn
          cases hstep : c'.stepOrFail limits with
          | ok r c'' => exact hunwinds.ends_after hrunning hstep (ih (steps + 1) c'')
          | error e c'' =>
              obtain ⟨states, htrail, hcount⟩ := hunwinds
              obtain rfl := step_or_fail_error hstep
              refine .blocked htrail (.inl ⟨rfl, .instruction hrunning hstep⟩) ?_
              rw [hcount, show RunState.executes ⟨c', none⟩ = true by
                simp [RunState.executes, hrunning]]
              rfl

/-- A run that is not stopped is a sequence of moves to a single frame that has halted. -/
theorem run_reaches (c : Context) (h : (c.run limits).stopped = none) :
    Reaches limits ⟨c, none⟩ ⟨(c.run limits).context, none⟩ ∧
      ∃ root, (c.run limits).context.frames.toList = [root] ∧ root.running = false := by
  have hends : Ends limits limits.maxExecutionSteps 0 ⟨c, none⟩ (c.run limits) :=
    run_for_ends limits limits.maxExecutionSteps 0 c
  generalize c.run limits = report at h hends
  cases hends with
  | halted htrail hframes hhalted _ => exact ⟨htrail.reaches, _, hframes, hhalted⟩
  | exhausted => cases h
  | blocked => cases h

/-- A run that is stopped has got no further, or leaves a frame that is still running. -/
theorem run_stopped (c : Context) {e : Abort} (h : (c.run limits).stopped = some e) :
    c.Stops limits e ∨
      Reaches limits ⟨c, none⟩ ⟨(c.run limits).context, none⟩ ∧
        (c.run limits).context.isRunning = true := by
  have hends : Ends limits limits.maxExecutionSteps 0 ⟨c, none⟩ (c.run limits) :=
    run_for_ends limits limits.maxExecutionSteps 0 c
  generalize c.run limits = report at h hends
  cases hends with
  | halted => cases h
  | exhausted htrail hrunning _ _ => exact .inr ⟨htrail.reaches, hrunning⟩
  | @blocked states t e' c' n htrail hblocked _ =>
      cases h
      rcases hblocked with ⟨hover, _⟩ | ⟨hfinished, hstuck⟩
      · exact .inl (.inl hover)
      · obtain ⟨c₁, finished⟩ := t
        cases hfinished
        exact .inl (.inr ⟨c₁, htrail.reaches, hstuck⟩)

end Context
end CallTree
