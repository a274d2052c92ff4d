import CallTree.Proofs.Waiting
import CallTree.Trace

/-!
# Runs in slices

A run that is out of budget can be taken up again by another one. `run_in_slices` says that two runs
in a row lead to where one run with both budgets leads, and that a trace shows where the runs with
smaller budgets end. The budget is looked at only when a frame is about to execute an instruction, after
all halted children have been finished, so a run out of budget never leaves a child half finished.

`Advances limits n c c'` is what both rest on: by `n` instructions `c` becomes `c'`, which is about
to execute another one.
-/

namespace CallTree

/-- The same bounds with another budget of instructions. -/
def Limits.withBudget (limits : Limits) (budget : Nat) : Limits :=
  { limits with maxExecutionSteps := budget }

/-- How a run ends, whatever its budget was. -/
def RunReport.ending (report : RunReport) : TraceEnd :=
  match report.stopped with
  | none => .done
  | some (.fault (.stepLimitExceeded _)) => .limit
  | some cause => .stopped cause

/-! ## Instructions do not look at the budget -/

section

variable (limits : Limits) (budget : Nat)

theorem fetch_with_budget (depth : Nat) (origin : Address) :
    Instruction.fetchAndDispatch ⟨limits.withBudget budget, depth, origin⟩ =
      Instruction.fetchAndDispatch ⟨limits, depth, origin⟩ :=
  Instruction.fetch_congr depth origin rfl rfl rfl

theorem resume_with_budget (finished : FinishedCall) :
    Exec.resume (limits.withBudget budget) finished = Exec.resume limits finished :=
  rfl

namespace Context

theorem step_or_fail_with_budget (c : Context) :
    c.stepOrFail (limits.withBudget budget) = c.stepOrFail limits := by
  simp only [stepOrFail, step, fetch_with_budget]

theorem unwind_frames_with_budget (below : List Frame) :
    ∀ (top : Frame) (size : Nat) (h : size = below.length + 1) (pool : Pool Workspace),
      unwindFrames (limits.withBudget budget) top below size h pool =
        unwindFrames limits top below size h pool := by
  induction below with
  | nil =>
      intro top size h pool
      rfl
  | cons parent below ih =>
      intro top size h pool
      simp only [unwindFrames, resume_with_budget, ih]

theorem turn_with_budget (c : Context) :
    c.turn (limits.withBudget budget) = c.turn limits := by
  simp only [turn, unwind, unwind_frames_with_budget]

end Context
end

/-! ## Why finishing a child can be refused -/

/-- The workspace of a frame is gone. -/
def Abort.Lost (e : Abort) : Prop :=
  ∃ container, e = .fault (.danglingHandle container)

/-- Only a lost workspace keeps a parent from taking over what its child has changed. -/
theorem fold_child_lost {child : Frame} {space : Workspace} {a b : Activation} {e : Abort}
    (h : Exec.foldChild child space a = .error e b) : e.Lost := by
  obtain ⟨f, _ | v⟩ := a
  · have hframe : Exec.frame ⟨f, none⟩ = .ok f ⟨f, none⟩ := rfl
    have hfirst : ∃ container, Exec.foldStorage child.call.contract space.storage.slots ⟨f, none⟩ =
        .error (.fault (.danglingHandle container)) ⟨f, none⟩ := by
      rw [Exec.foldStorage, Action.bind_ok hframe]
      split
      · exact ⟨_, rfl⟩
      · exact ⟨_, rfl⟩
    obtain ⟨container, hfirst⟩ := hfirst
    rw [Exec.foldChild, Exec.foldChanges, Action.bind_error hfirst] at h
    cases h
    exact ⟨container, rfl⟩
  · obtain ⟨v', hfold, _⟩ := Exec.fold_child_absorbs child f space v
    rw [hfold] at h
    cases h

/-- Only a lost workspace keeps a halted child from being finished. -/
theorem finish_into_lost {child : Frame} {e : Abort} {s t : Frame × Pool Workspace}
    (h : child.finishInto s = .error e t) : e.Lost := by
  obtain ⟨parent, pool⟩ := s
  have hhanded : ∃ u, child.handOver (parent, pool) = .error e u := by
    unfold Frame.finishInto at h
    split at h
    · cases h
      exact ⟨_, ‹_›⟩
    · cases h
  obtain ⟨u, hu⟩ := hhanded
  simp only [Frame.handOver] at hu
  split at hu
  · unfold Frame.settleShared at hu
    cases hmarks : child.marks with
    | none => simp [hmarks, pure, EStateM.pure] at hu
    | some marks =>
        cases hcell : pool.get? child.home.cell with
        | none =>
            simp only [hmarks, Pool.modify, hcell] at hu
            cases hu
            exact ⟨_, rfl⟩
        | some space => simp [hmarks, Pool.modify, hcell, Action.ofTotal] at hu
  · split at hu
    · cases hread : pool.read .storage child.home with
      | error cause =>
          simp only [hread] at hu
          cases hu
          unfold Pool.read at hread
          split at hread
          · cases hread
          · cases hread
            exact ⟨_, rfl⟩
      | ok space =>
          simp only [hread, Exec.inPool] at hu
          split at hu
          · cases hu
          · cases hu
            exact fold_child_lost ‹_›
    · cases hu

namespace Context

variable {limits : Limits}

/-- Finishing halted children is never refused for want of budget. -/
theorem unwind_frames_cause (below : List Frame) :
    ∀ (top : Frame) (size : Nat) (h : size = below.length + 1) (pool : Pool Workspace) (e : Abort)
      (t : Pile Frame × Pool Workspace),
      unwindFrames limits top below size h pool = .error e t → e = .overflow ∨ e.Lost := by
  induction below with
  | nil =>
      intro top size h pool e t hunwind
      cases hunwind
  | cons parent below ih =>
      intro top size h pool e t hunwind
      rw [unwindFrames] at hunwind
      split at hunwind
      · cases hunwind
      · split at hunwind
        · cases hunwind
          exact .inr (finish_into_lost ‹_›)
        · split at hunwind
          · exact ih _ _ _ _ _ _ hunwind
          · exact ih _ _ _ _ _ _ hunwind
          · cases hunwind
            exact .inl rfl

/-- Before an instruction a run is never stopped for want of budget. -/
theorem turn_stopped_ending {c c' : Context} {e : Abort} (h : c.turn limits = .stopped e c')
    (steps : Nat) : RunReport.ending ⟨c', steps, some e⟩ = .stopped e := by
  unfold turn at h
  split at h
  · cases h
  · split at h
    · cases h
      rename_i hunwind
      unfold unwind at hunwind
      split at hunwind
      · cases hunwind
        rfl
      · split at hunwind
        · cases hunwind
        · cases hunwind
          rename_i hframes
          rcases unwind_frames_cause _ _ _ _ _ _ _ hframes with rfl | ⟨container, rfl⟩
          · rfl
          · rfl
    · split at h
      · cases h
      · cases h

/-- A context with a running frame on top is found as it stands. -/
theorem turn_of_running {c : Context} (h : c.isRunning = true) : c.turn limits = .ready c := by
  rw [turn, if_pos h]

theorem turn_ready {c c' : Context} (h : c.turn limits = .ready c') :
    Unwinds limits ⟨c, none⟩ ⟨c', none⟩ ∧ c'.isRunning = true := by
  have hturn := turn_unwinds limits c
  rw [h] at hturn
  exact hturn

/-! ## Slices -/

/-- By the given number of instructions the first context becomes the second one, which is about to
execute another. -/
inductive Advances (limits : Limits) : Nat → Context → Context → Prop
  /-- The frames that have halted are finished. -/
  | ready {c c' : Context} (hturn : c.turn limits = .ready c') : Advances limits 0 c c'
  /-- An instruction comes first. -/
  | step {n : Nat} {c c₁ c₂ c' : Context} (hturn : c.turn limits = .ready c₁)
      (hstep : c₁.stepOrFail limits = .ok () c₂) (hrest : Advances limits n c₂ c') :
      Advances limits (n + 1) c c'

namespace Advances

variable {n : Nat} {c c' : Context}

theorem running (h : Advances limits n c c') : c'.isRunning = true := by
  induction h with
  | ready hturn => exact (turn_ready hturn).2
  | step _ _ _ ih => exact ih

/-- The moves in between. -/
theorem trail (h : Advances limits n c c') :
    ∃ states, Trail limits ⟨c, none⟩ states ⟨c', none⟩ ∧ instructions states = n := by
  induction h with
  | ready hturn => exact (turn_ready hturn).1
  | @step n c c₁ c₂ c' hturn hstep _ ih =>
      obtain ⟨⟨before, hbefore, hnone⟩, hrunning⟩ := turn_ready hturn
      obtain ⟨after, hafter, hcount⟩ := ih
      refine ⟨before ++ ⟨c₁, none⟩ :: after,
        hbefore.append (.cons (.instruction hrunning hstep) hafter), ?_⟩
      have hone : instructions (⟨c₁, none⟩ :: after) = instructions after + 1 :=
        List.countP_cons_of_pos (by simp [RunState.executes, hrunning])
      rw [instructions_append, hnone, hone, hcount, Nat.zero_add]

/-- A run with more budget goes on from there. -/
theorem run_for_add (h : Advances limits n c c') (m steps : Nat) :
    runFor limits (n + m) steps c = runFor limits m (steps + n) c' := by
  induction h generalizing steps with
  | @ready c c' hturn =>
      have hagain : c'.turn limits = .ready c' := turn_of_running (turn_ready hturn).2
      rw [Nat.zero_add, Nat.add_zero]
      cases m <;> simp only [runFor, hturn, hagain]
  | @step n c c₁ c₂ c' hturn hstep _ ih =>
      rw [Nat.succ_add, runFor]
      simp only [hturn, hstep]
      rw [ih (steps + 1), Nat.add_assoc, Nat.add_comm 1 n]

/-- A run with no more budget stops there. -/
theorem run_for_eq (h : Advances limits n c c') (steps : Nat) :
    runFor limits n steps c =
      ⟨c', steps + n + 1, some (.fault (.stepLimitExceeded limits.maxExecutionSteps))⟩ := by
  have hrun := h.run_for_add 0 steps
  rw [Nat.add_zero] at hrun
  rw [hrun, runFor, turn_of_running h.running]

end Advances

/-- A run for want of budget has advanced by its budget; any other run would have ended the same way
with more, and has counted no more than its budget. -/
theorem run_for_cases (limits : Limits) (n steps : Nat) (c : Context) :
    (∃ c', Advances limits n c c') ∨
      (runFor limits n steps c).ending ≠ .limit ∧ (runFor limits n steps c).steps ≤ steps + n ∧
        ∀ m, runFor limits (n + m) steps c = runFor limits n steps c := by
  induction n generalizing steps c with
  | zero =>
      cases hturn : c.turn limits with
      | ready c' => exact .inl ⟨c', .ready hturn⟩
      | done c' =>
          refine .inr ⟨?_, ?_, fun m => ?_⟩
          · simp [runFor, hturn, RunReport.ending]
          · simp [runFor, hturn]
          · cases m <;> simp [runFor, hturn]
      | stopped e c' =>
          refine .inr ⟨?_, ?_, fun m => ?_⟩
          · simp [runFor, hturn, turn_stopped_ending hturn]
          · simp [runFor, hturn]
          · cases m <;> simp [runFor, hturn]
  | succ n ih =>
      cases hturn : c.turn limits with
      | done c' =>
          refine .inr ⟨?_, ?_, fun m => ?_⟩
          · simp [runFor, hturn, RunReport.ending]
          · simp [runFor, hturn]
          · simp [Nat.succ_add, runFor, hturn]
      | stopped e c' =>
          refine .inr ⟨?_, ?_, fun m => ?_⟩
          · simp [runFor, hturn, turn_stopped_ending hturn]
          · simp [runFor, hturn]
          · simp [Nat.succ_add, runFor, hturn]
      | ready c₁ =>
          cases hstep : c₁.stepOrFail limits with
          | error e c₂ =>
              obtain rfl := step_or_fail_error hstep
              refine .inr ⟨?_, ?_, fun m => ?_⟩
              · simp [runFor, hturn, hstep, RunReport.ending]
              · simp [runFor, hturn, hstep]
              · simp [Nat.succ_add, runFor, hturn, hstep]
          | ok r c₂ =>
              rcases ih (steps + 1) c₂ with ⟨c', hrest⟩ | ⟨hending, hsteps, hmore⟩
              · exact .inl ⟨c', .step hturn hstep hrest⟩
              · refine .inr ⟨?_, ?_, fun m => ?_⟩
                · simpa [runFor, hturn, hstep] using hending
                · simp only [runFor, hturn, hstep]
                  omega
                · simp only [Nat.succ_add, runFor, hturn, hstep, hmore m]

/-- A run ends for want of budget exactly if it has advanced by its budget. -/
theorem run_for_ending_limit {n steps : Nat} {c : Context}
    (h : (runFor limits n steps c).ending = .limit) :
    Advances limits n c (runFor limits n steps c).context := by
  rcases run_for_cases limits n steps c with ⟨c', hadvances⟩ | ⟨hother, _⟩
  · rw [hadvances.run_for_eq steps]
    exact hadvances
  · exact absurd h hother

/-- The budget that is named and the instructions that were counted before make no difference to
where a run leads. -/
theorem run_for_with_budget (limits : Limits) (budget first n steps : Nat) (c : Context) :
    (runFor (limits.withBudget budget) n (first + steps) c).context =
        (runFor limits n steps c).context ∧
      (runFor (limits.withBudget budget) n (first + steps) c).steps =
        first + (runFor limits n steps c).steps ∧
      (runFor (limits.withBudget budget) n (first + steps) c).ending =
        (runFor limits n steps c).ending := by
  induction n generalizing steps c with
  | zero =>
      rw [runFor, runFor, turn_with_budget]
      cases c.turn limits with
      | ready c' => exact ⟨rfl, Nat.add_assoc first steps 1, rfl⟩
      | done c' => exact ⟨rfl, rfl, rfl⟩
      | stopped e c' => exact ⟨rfl, rfl, rfl⟩
  | succ n ih =>
      rw [runFor, runFor, turn_with_budget]
      cases c.turn limits with
      | done c' => exact ⟨rfl, rfl, rfl⟩
      | stopped e c' => exact ⟨rfl, rfl, rfl⟩
      | ready c' =>
          simp only [step_or_fail_with_budget]
          cases c'.stepOrFail limits with
          | ok r c'' => exact ih (steps + 1) c''
          | error e c'' => exact ⟨rfl, Nat.add_assoc first steps 1, rfl⟩

/-- An instruction that is executed is counted. -/
theorem one_le_steps {n : Nat} {c : Context} (hrunning : c.isRunning = true) (hn : 0 < n) :
    1 ≤ (runFor limits n 0 c).steps := by
  obtain ⟨n, rfl⟩ := Nat.exists_eq_add_of_lt hn
  rw [Nat.zero_add, runFor]
  simp only [turn_of_running hrunning]
  cases c.stepOrFail limits with
  | error e c' => exact Nat.le_refl 1
  | ok r c' =>
      have hcount := (run_for_with_budget limits limits.maxExecutionSteps 1 n 0 c').2.1
      exact Nat.le.intro hcount.symm

/-- A run by what it counts, whatever budget it names. -/
theorem run_with_budget (limits : Limits) (c : Context) (n : Nat) :
    (c.run (limits.withBudget n)).context = (runFor limits n 0 c).context ∧
      (c.run (limits.withBudget n)).steps = (runFor limits n 0 c).steps ∧
      (c.run (limits.withBudget n)).ending = (runFor limits n 0 c).ending := by
  have hrun := run_for_with_budget limits n 0 n 0 c
  rw [Nat.zero_add, Nat.zero_add] at hrun
  exact hrun

/-- A run that is stopped for want of budget has advanced by it. -/
theorem advances_of_stopped {n : Nat} {c : Context}
    (h : (c.run (limits.withBudget n)).stopped = some (.fault (.stepLimitExceeded n))) :
    Advances limits n c (c.run (limits.withBudget n)).context := by
  obtain ⟨hcontext, _, hending⟩ := run_with_budget limits c n
  rw [hcontext]
  apply run_for_ending_limit
  rw [← hending, RunReport.ending, h]

namespace Advances

variable {n : Nat} {c c' : Context}

theorem with_budget (h : Advances limits n c c') (budget : Nat) :
    Advances (limits.withBudget budget) n c c' := by
  induction h with
  | ready hturn => exact .ready (by rwa [turn_with_budget])
  | step hturn hstep _ ih =>
      exact .step (by rwa [turn_with_budget]) (by rwa [step_or_fail_with_budget]) ih

/-- What a run of as many instructions leaves. -/
theorem run_eq (h : Advances limits n c c') :
    c.run (limits.withBudget n) = ⟨c', n + 1, some (.fault (.stepLimitExceeded n))⟩ := by
  have hrun := (h.with_budget n).run_for_eq 0
  rwa [Nat.zero_add] at hrun

/-- A run from there leads to where a run with both budgets leads. -/
theorem run_add (h : Advances limits n c c') (m : Nat) :
    (c'.run (limits.withBudget m)).context = (c.run (limits.withBudget (n + m))).context ∧
      n + (c'.run (limits.withBudget m)).steps = (c.run (limits.withBudget (n + m))).steps ∧
      (c'.run (limits.withBudget m)).ending = (c.run (limits.withBudget (n + m))).ending := by
  -- The run with both budgets has counted `n` instructions when it comes to `c'`.
  have hlater := run_for_with_budget limits limits.maxExecutionSteps n m 0 c'
  have hwhole : runFor limits (n + m) 0 c =
      runFor (limits.withBudget limits.maxExecutionSteps) m (n + 0) c' := by
    rw [h.run_for_add m 0, Nat.zero_add]
    rfl
  obtain ⟨hcontext, hsteps, hending⟩ := run_with_budget limits c (n + m)
  obtain ⟨hcontext', hsteps', hending'⟩ := run_with_budget limits c' m
  rw [hcontext, hsteps, hending, hcontext', hsteps', hending', hwhole]
  exact ⟨hlater.1.symm, hlater.2.1.symm, hlater.2.2.symm⟩

end Advances

/-- A run is not stopped exactly if it is done. -/
theorem ending_done_iff (report : RunReport) : report.ending = .done ↔ report.stopped = none := by
  unfold RunReport.ending
  split <;> simp [*]

/-- A run has advanced by its budget, or a larger budget makes no difference to it. -/
theorem run_cases (limits : Limits) (n : Nat) (c : Context) :
    (∃ c', Advances limits n c c') ∨
      (c.run (limits.withBudget n)).ending ≠ .limit ∧ (c.run (limits.withBudget n)).steps ≤ n ∧
        ∀ m, n ≤ m →
          (c.run (limits.withBudget m)).context = (c.run (limits.withBudget n)).context ∧
          (c.run (limits.withBudget m)).steps = (c.run (limits.withBudget n)).steps ∧
          (c.run (limits.withBudget m)).ending = (c.run (limits.withBudget n)).ending := by
  obtain ⟨hcontext, hsteps, hending⟩ := run_with_budget limits c n
  rcases run_for_cases limits n 0 c with hadvances | ⟨hother, hbound, hmore⟩
  · exact .inl hadvances
  · refine .inr ⟨hending ▸ hother, ?_, fun m hm => ?_⟩
    · rw [Nat.zero_add] at hbound
      rwa [hsteps]
    · have hsame := hmore (m - n)
      rw [Nat.add_sub_cancel' hm] at hsame
      obtain ⟨hcontext', hsteps', hending'⟩ := run_with_budget limits c m
      rw [hcontext, hsteps, hending, hcontext', hsteps', hending', hsame]
      exact ⟨rfl, rfl, rfl⟩

/-- A run that counts more than `k` instructions is stopped by a budget of `k`. -/
theorem advances_of_lt_steps {k count : Nat} {c : Context} (hle : k ≤ count)
    (hlt : k < (c.run (limits.withBudget count)).steps) : ∃ c', Advances limits k c c' := by
  rcases run_cases limits k c with hadvances | ⟨_, hsteps, hmore⟩
  · exact hadvances
  · have hsame := (hmore count hle).2.1
    omega

/-! ## Traces -/

/-- A trace goes on after its first row if the instruction was not the last. -/
theorem trace_of_advances {c c₁ : Context} (h : Advances limits 1 c c₁) (count : Nat) :
    c.trace limits (count + 1) =
      (c₁.traceRow?.toList ++ (c₁.trace limits count).1, (c₁.trace limits count).2) := by
  have hrun : c.run { limits with maxExecutionSteps := 1 } = _ := h.run_eq
  simp only [trace, hrun]

/-- A trace has one row if there is no further instruction. -/
theorem trace_of_ending {c : Context} (h : (c.run (limits.withBudget 1)).ending ≠ .limit)
    (count : Nat) :
    c.trace limits (count + 1) =
      ((c.run (limits.withBudget 1)).context.traceRow?.toList,
        (c.run (limits.withBudget 1)).ending, (c.run (limits.withBudget 1)).context) := by
  have hstopped : ∀ n, (c.run (limits.withBudget 1)).stopped ≠
      some (.fault (.stepLimitExceeded n)) := by
    intro n hstopped
    rw [RunReport.ending, hstopped] at h
    exact h rfl
  unfold Limits.withBudget at hstopped
  simp only [trace, RunReport.ending, Limits.withBudget]
  split
  · simp [*]
  · exact absurd ‹_› (hstopped _)
  · simp [*]

/-- A trace shows the context before every instruction of a run but the first one, and what the run
leaves. -/
theorem trace_eq (limits : Limits) (count : Nat) (c : Context) :
    c.trace limits (count + 1) =
      ((List.range (min (count + 1) (c.run (limits.withBudget (count + 1))).steps - 1)).filterMap
          (fun k => (c.run (limits.withBudget (k + 1))).context.traceRow?) ++
        (c.run (limits.withBudget (count + 1))).context.traceRow?.toList,
        (c.run (limits.withBudget (count + 1))).ending,
        (c.run (limits.withBudget (count + 1))).context) := by
  induction count generalizing c with
  | zero =>
      have hrows : min (0 + 1) (c.run (limits.withBudget (0 + 1))).steps - 1 = 0 := by omega
      rw [hrows]
      rcases run_cases limits 1 c with ⟨c₁, hadvances⟩ | ⟨hending, _⟩
      · rw [trace_of_advances hadvances, hadvances.run_eq]
        simp [trace, RunReport.ending]
      · rw [trace_of_ending hending]
        simp
  | succ count ih =>
      rcases run_cases limits 1 c with ⟨c₁, hadvances⟩ | ⟨hending, hsteps, hmore⟩
      · obtain ⟨hcontext, hsteps, hending⟩ := hadvances.run_add (count + 1)
        rw [Nat.add_comm 1 (count + 1)] at hcontext hsteps hending
        have hcounted : 1 ≤ (c₁.run (limits.withBudget (count + 1))).steps := by
          rw [(run_with_budget limits c₁ (count + 1)).2.1]
          exact one_le_steps hadvances.running (Nat.succ_pos count)
        have hrows : min (count + 1 + 1) (1 + (c₁.run (limits.withBudget (count + 1))).steps) - 1 =
            min (count + 1) (c₁.run (limits.withBudget (count + 1))).steps - 1 + 1 := by omega
        -- What is shown later from `c₁` is shown by runs from `c` with one more instruction.
        have hshift : ∀ k, (c₁.run (limits.withBudget (k + 1))).context =
            (c.run (limits.withBudget (k + 1 + 1))).context := by
          intro k
          rw [(hadvances.run_add (k + 1)).1, Nat.add_comm 1 (k + 1)]
        rw [trace_of_advances hadvances, ih, ← hcontext, ← hsteps, ← hending, hrows,
          List.range_succ_eq_map, List.filterMap_cons, List.filterMap_map, hadvances.run_eq]
        simp only [hshift, Function.comp_def, Nat.succ_eq_add_one]
        cases c₁.traceRow? <;> simp
      · obtain ⟨hcontext, hcount, hend⟩ := hmore (count + 1 + 1) (by omega)
        have hrows : min (count + 1 + 1) (c.run (limits.withBudget (count + 1 + 1))).steps - 1 = 0 := by
          omega
        rw [trace_of_ending hending, hrows, hcontext, hend]
        simp

/-- Running in slices agrees with running through. A run that is stopped by a budget of `n` has
executed `n` instructions and leaves a running frame that is about to execute another; a run with a
budget of `m` from there leads to where a run with a budget of `n + m` leads, and ends the same way. A
trace therefore shows the contexts of the whole run: the one before each instruction after the first,
in which a smaller budget would have stopped it, and the one it leaves. -/
theorem run_in_slices (limits : Limits) (c : Context) :
    (∀ n m, (c.run (limits.withBudget n)).stopped = some (.fault (.stepLimitExceeded n)) →
      let first := c.run (limits.withBudget n)
      let rest := first.context.run (limits.withBudget m)
      let whole := c.run (limits.withBudget (n + m))
      (∃ states, Trail limits ⟨c, none⟩ states ⟨first.context, none⟩ ∧ instructions states = n) ∧
        first.context.isRunning = true ∧ first.steps = n + 1 ∧
        rest.context = whole.context ∧ n + rest.steps = whole.steps ∧
        rest.ending = whole.ending ∧ (rest.stopped = none ↔ whole.stopped = none)) ∧
    ∀ count, 0 < count →
      let whole := c.run (limits.withBudget count)
      (∀ k ≤ count, k < whole.steps →
        (c.run (limits.withBudget k)).stopped = some (.fault (.stepLimitExceeded k))) ∧
      c.trace limits count =
        ((List.range (min count whole.steps - 1)).filterMap
            (fun k => (c.run (limits.withBudget (k + 1))).context.traceRow?) ++
          whole.context.traceRow?.toList, whole.ending, whole.context) := by
  constructor
  · intro n m hstopped first rest whole
    have hadvances : Advances limits n c first.context := advances_of_stopped hstopped
    have hsteps : first.steps = n + 1 := congrArg RunReport.steps hadvances.run_eq
    obtain ⟨hcontext, hcount, hending⟩ := hadvances.run_add m
    refine ⟨hadvances.trail, hadvances.running, hsteps, hcontext, hcount, hending, ?_⟩
    rw [← ending_done_iff, ← ending_done_iff, hending]
  · intro count hcount
    obtain ⟨count, rfl⟩ := Nat.exists_eq_succ_of_ne_zero (Nat.pos_iff_ne_zero.1 hcount)
    refine ⟨fun k hle hlt => ?_, trace_eq limits count c⟩
    obtain ⟨c', hadvances⟩ := advances_of_lt_steps hle hlt
    rw [hadvances.run_eq]

/-- A frame that makes an internal call, whose target returns at once, and stops. -/
def callingStart : Context :=
  launch {} ∅ ⟨#[0x60, 100, 0x60, 6, 0xE3, 0, 0x5B, 0xE4]⟩ 1000
    (.transaction 1 2 0 ByteArray.empty) { txn := ⟨1, 0⟩ }

/-- A budget of five instructions ends with the one by which the internal call returns. The call has
been finished then, and the frame below is about to execute the last instruction. -/
theorem calling_start_in_slices :
    let limits : Limits := {}
    let first := callingStart.run (limits.withBudget 5)
    let rest := first.context.run (limits.withBudget 2)
    let whole := callingStart.run (limits.withBudget 7)
    first.stopped = some (.fault (.stepLimitExceeded 5)) ∧ first.context.depth = 1 ∧
      first.context.isRunning = true ∧ rest.context = whole.context ∧ 5 + rest.steps = whole.steps ∧
      whole.stopped = none ∧ rest.stopped = none ∧ whole.steps = 6 ∧
      callingStart.trace limits 7 =
        ((List.range 5).filterMap
            (fun k => (callingStart.run (limits.withBudget (k + 1))).context.traceRow?) ++
          whole.context.traceRow?.toList, .done, whole.context) := by
  intro limits first rest whole
  obtain ⟨hslices, htrace⟩ := run_in_slices limits callingStart
  have hstopped : first.stopped = some (.fault (.stepLimitExceeded 5)) := by decide +kernel
  have hwhole : whole.stopped = none ∧ whole.steps = 6 ∧ whole.ending = .done := by decide +kernel
  have hdepth : first.context.depth = 1 := by decide +kernel
  obtain ⟨_, hrunning, _, hcontext, hsteps, _, hdone⟩ := hslices 5 2 hstopped
  obtain ⟨_, hrows⟩ := htrace 7 (by decide)
  refine ⟨hstopped, hdepth, hrunning, hcontext, hsteps, hwhole.1, hdone.2 hwhole.1, hwhole.2.1, ?_⟩
  rw [hwhole.2.2, hwhole.2.1] at hrows
  exact hrows

end Context
end CallTree
