import CallTree.Proofs.FrameMoves

/-!
# Runs of a single frame

A run that begins with one frame never gets stuck: it ends with that frame halted, or when its budget
is used up, or at an overflow (`blocked_overflows`, `run_root_end`). Since there is never more than one
move to make, the state in which a run ends is the only one without a move that can be reached
(`Reaches.terminal_unique`). `execute_ends` says how the outcome of a transaction comes from the end of
such a run.
-/

namespace CallTree

/-! ## Reachable states -/

/-- There is no frame only if there was none. -/
theorem FrameMove.ne_nil {executed : Bool} {frames frames' : List Frame}
    (h : FrameMove executed frames frames') (hne : frames ≠ []) : frames' ≠ [] := by
  cases h with
  | executes _ hexecutes => cases hexecutes <;> simp
  | finishes => simp
  | resumes => simp
  | idles => exact hne

/-- The workspaces of all frames stay in use throughout a run. -/
theorem Reaches.housed {limits : Limits} {s t : RunState} (h : Reaches limits s t)
    (hne : s.context.frames.toList ≠ [])
    (hhoused : Housed s.context.pool s.context.frames.toList) :
    t.context.frames.toList ≠ [] ∧ Housed t.context.pool t.context.frames.toList := by
  induction h with
  | refl => exact ⟨hne, hhoused⟩
  | tail _ hmove ih =>
      have hmoved := hmove.moved
      exact ⟨hmoved.frames.ne_nil ih.1, hmoved.housed ih.2⟩

/-- The bounds in force stay the same throughout a run. -/
theorem Reaches.limits_eq {limits : Limits} {s t : RunState} (h : Reaches limits s t) :
    t.context.limits = s.context.limits := by
  induction h with
  | refl => rfl
  | tail _ hmove ih => exact hmove.moved.limits.trans ih

/-- The topmost of several frames can be finished once it has halted. -/
theorem Housed.not_stuck {c : Context} (hhoused : Housed c.pool c.frames.toList)
    (hne : c.frames.toList ≠ []) : ¬c.Stuck := by
  rintro ⟨hhalted, hdepth, hfinish⟩
  match hframes : c.frames.toList with
  | [] => exact hne hframes
  | [f] => exact hdepth (by rw [Context.depth, c.frames.size_eq, hframes]; rfl)
  | child :: parent :: below =>
      have hchild : child.running = false := by simpa [Context.isRunning, hframes] using hhalted
      obtain ⟨result, c', hok⟩ := Context.finish_child_of_housed hframes hchild hhoused
      exact hfinish result c' hok

/-- A state without a move that can be reached lies ahead of every other one. -/
theorem Reaches.to_terminal {limits : Limits} {s t u : RunState} (ht : Reaches limits s t)
    (hu : Reaches limits s u) (hlast : t.next? limits = none) : Reaches limits u t := by
  induction hu with
  | refl => exact ht
  | tail _ hmove ih =>
      rcases Relation.ReflTransGen.cases_head ih with rfl | ⟨v, hfirst, hrest⟩
      · rw [move_iff, hlast] at hmove
        cases hmove
      · rw [move_iff] at hmove hfirst
        cases hmove.symm.trans hfirst
        exact hrest

/-- Two states without a move that can both be reached are equal. -/
theorem Reaches.terminal_unique {limits : Limits} {s t u : RunState} (ht : Reaches limits s t)
    (hu : Reaches limits s u) (hlast : t.next? limits = none) (hlast' : u.next? limits = none) :
    u = t := by
  rcases Relation.ReflTransGen.cases_head (ht.to_terminal hu hlast) with rfl | ⟨v, hfirst, _⟩
  · rfl
  · rw [move_iff, hlast'] at hfirst
    cases hfirst

namespace Context

variable {limits : Limits} {c c' : Context} {root f : Frame}

/-- A single frame that has halted has no move to make. -/
theorem next_halted (hframes : c.frames.toList = [f]) (hhalted : f.running = false) :
    RunState.next? limits ⟨c, none⟩ = none := by
  obtain ⟨⟨frames, size, hsize⟩, pool, txn, world, own⟩ := c
  cases hframes
  simp [RunState.next?, isRunning, hhalted, finishChild]

/-- What can be reached from a single frame is blocked only by an overflow. -/
theorem blocked_overflows {s : RunState} {e : Abort} (hroot : c.frames.toList = [root])
    (hreach : Reaches limits ⟨c, none⟩ s) (hblocked : s.Blocked limits e) :
    e = .overflow ∧ s.Overflows limits := by
  rcases hblocked with hover | ⟨_, hstuck⟩
  · exact hover
  · have hne : c.frames.toList ≠ [] := by simp [hroot]
    have hhoused : Housed c.pool c.frames.toList := hroot ▸ .single c.pool root
    obtain ⟨hne', hhoused'⟩ := hreach.housed hne hhoused
    exact absurd hstuck (hhoused'.not_stuck hne')

end Context

/-! ## The end of a run -/

/-- How a run leaves its root frame, with the states it went through and the committed accounts at
its end. -/
inductive RootEnd (limits : Limits) (c₀ : Context) : List RunState → Frame → World → Prop
  /-- The root has halted. -/
  | halted {states : List RunState} {c : Context} {root : Frame}
      (hstopped : (c₀.run limits).stopped = none)
      (htrail : Trail limits ⟨c₀, none⟩ states ⟨c, none⟩) (hframes : c.frames.toList = [root])
      (hhalted : root.running = false) : RootEnd limits c₀ states root c.world
  /-- The budget is used up, and the root is made to fail. -/
  | exhausted {states : List RunState} {c : Context} {root : Frame}
      (hstopped : (c₀.run limits).stopped =
        some (.fault (.stepLimitExceeded limits.maxExecutionSteps)))
      (htrail : Trail limits ⟨c₀, none⟩ states ⟨c, none⟩) (hrunning : c.isRunning = true)
      (hlast : c.frames.toList.getLast? = some root) :
      RootEnd limits c₀ states (root.fail (.stepLimitExceeded limits.maxExecutionSteps)) c.world

namespace Context

variable {limits : Limits} {c c' c₀ : Context} {root f : Frame} {outcome : Outcome}

/-- What is left of a call stack that was given up is the frame at its bottom. -/
theorem abandon_last (cause : Fault) (hlast : c.frames.toList.getLast? = some f) :
    (c.abandon cause).frames.toList = [f.fail cause] := by
  obtain ⟨htop, _⟩ := update_top_eq (Frame.fail cause)
    (c.frames.toList.dropLast.foldl (fun c f => c.release f) { c with frames := c.frames.keep 1 })
  rw [foldl_release] at htop
  rw [abandon, foldl_release, htop]
  show (c.frames.toList.drop (c.frames.size - 1)).modifyHead (Frame.fail cause) = _
  obtain ⟨upper, hframes⟩ := List.getLast?_eq_some_iff.1 hlast
  rw [c.frames.size_eq, hframes]
  simp

/-- Giving a call stack up leaves the bounds in force. -/
theorem abandon_limits (cause : Fault) (c : Context) : (c.abandon cause).limits = c.limits := by
  rw [abandon, foldl_release]
  unfold updateTop
  split <;> rfl

/-- A run of a single frame that is not cut short by an overflow leaves that frame. -/
theorem run_root_end (hroot : c.frames.toList = [root]) {taken : Option Frame}
    (h : runRoot c = some (taken, c')) :
    c'.limits = c.limits ∧
      ∃ f states, taken = some f ∧ RootEnd c.limits c states f c'.world := by
  have hends : Ends c.limits c.limits.maxExecutionSteps 0 ⟨c, none⟩ (c.run c.limits) :=
    run_for_ends c.limits c.limits.maxExecutionSteps 0 c
  unfold runRoot at h
  generalize hreport : c.run c.limits = report at h hends
  cases hends with
  | @halted states c₁ f _ htrail hframes hhalted _ =>
      simp only [popFrame, hframes] at h
      cases h
      refine ⟨htrail.reaches.limits_eq, f, states, rfl, ?_⟩
      show RootEnd _ _ _ _ c₁.world
      exact .halted (by rw [hreport]) htrail hframes hhalted
  | @exhausted states c₁ _ htrail hrunning _ _ =>
      let cause : Fault := .stepLimitExceeded c.limits.maxExecutionSteps
      have hne : c₁.frames.toList ≠ [] := by
        intro hnil
        simp [isRunning, hnil] at hrunning
      have hlast := List.getLast?_eq_some_getLast hne
      have hleft : (c₁.abandon cause).frames.toList = _ := abandon_last cause hlast
      have hworld : (c₁.abandon cause).world = c₁.world := (abandon_eq cause c₁).1
      have hlimits : (c₁.abandon cause).limits = c₁.limits := abandon_limits cause c₁
      simp only [popFrame, cause, hleft] at h
      cases h
      refine ⟨hlimits.trans htrail.reaches.limits_eq, _, states, rfl, ?_⟩
      show RootEnd _ _ _ _ (c₁.abandon cause).world
      rw [hworld]
      exact .exhausted (by rw [hreport]) htrail hrunning hlast
  | blocked htrail hblocked _ =>
      obtain ⟨rfl, _⟩ := blocked_overflows hroot htrail.reaches hblocked
      cases h

/-- A root frame that is put on the call stack of a transaction is alone there. -/
theorem push_seeded_frames (h : pushFrame root (c.seeded root) = .ok () c₀) :
    c₀.frames.toList = [root] ∧ c₀.world = c.world ∧ c₀.limits = c.limits := by
  obtain ⟨hframes, hworld, hlimits⟩ := seeded_eq root c
  unfold pushFrame at h
  split at h
  · split at h
    · cases h
    · cases h
  · cases h
    refine ⟨?_, hworld, hlimits⟩
    show root :: (c.seeded root).frames.toList = [root]
    rw [hframes]
    rfl

/-- A frame that is not put on the call stack leaves the committed accounts as they were. -/
theorem push_frame_refused {e : Abort} (h : pushFrame f c = .error e c') : c'.world = c.world := by
  unfold pushFrame onPool at h
  split at h
  · cases hsettle : f.settleShared false c.pool with
    | ok r pool =>
        simp only [hsettle] at h
        cases h
        rfl
    | error e pool =>
        simp only [hsettle] at h
        cases h
        rfl
  · cases h

/-- The run of a transaction has been started in `c₀`. -/
def Starts (root : Frame) (c c₀ : Context) : Prop :=
  (root.creation && c.clear.world.hasCode root.call.contract) = false ∧
    pushFrame root (c.seeded root) = .ok () c₀

/-- A transaction ends before its run is started, or by the conclusion of its root frame. -/
theorem execute_ends (h : c.execute root = some (outcome, c')) :
    ((∀ c₀, ¬Starts root c c₀) ∧ c'.world = c.world ∧ ∃ e, outcome = .failed e) ∨
      ∃ c₀ states f c₁ c₂, Starts root c c₀ ∧ RootEnd c.limits c₀ states f c₁.world ∧
        c₁.limits = c.limits ∧ conclude f c₁ = some (outcome, c₂) ∧ c' = c₂.release f := by
  rw [execute_eq] at h
  by_cases hexists : (root.creation && c.clear.world.hasCode root.call.contract) = true
  · rw [if_pos hexists] at h
    cases h
    refine .inl ⟨fun c₀ hstarts => ?_, (clear_eq c).2.1, _, rfl⟩
    rw [hstarts.1] at hexists
    cases hexists
  rw [if_neg hexists] at h
  cases hpush : pushFrame root (c.seeded root) with
  | error e c₀ =>
      cases e with
      | overflow => simp [hpush] at h
      | fault e =>
          simp only [hpush] at h
          cases h
          refine .inl ⟨fun c₁ hstarts => ?_, ?_, _, rfl⟩
          · cases hpush.symm.trans hstarts.2
          · exact (push_frame_refused hpush).trans (seeded_eq root c).2.1
  | ok r c₀ =>
      obtain ⟨hframes, hworld, hlimits⟩ := push_seeded_frames hpush
      simp only [hpush] at h
      cases hrun : runRoot c₀ with
      | none => simp [hrun] at h
      | some ended =>
          obtain ⟨taken, c₁⟩ := ended
          obtain ⟨hlimits₁, f, states, rfl, hend⟩ := run_root_end hframes hrun
          simp only [hrun] at h
          obtain ⟨⟨outcome', c₂⟩, hconclude, hlast⟩ := Option.map_eq_some_iff.1 h
          cases hlast
          obtain ⟨_, hworld₁, hcleared⟩ := clear_eq c₁
          rw [hlimits] at hend hlimits₁
          refine .inr ⟨c₀, states, f, c₁.clear, c₂, ⟨by simpa using hexists, hpush⟩, ?_,
            hcleared.trans hlimits₁, hconclude, rfl⟩
          rw [hworld₁]
          exact hend

/-! ## The conclusion of a root frame -/

/-- A commit changes nothing but the world and the workspaces. -/
theorem commit_root_inv (h : commitRoot root c = .ok () c') :
    c'.limits = c.limits ∧
      ∃ slots storages codes, c'.world = c.world.commit root slots storages codes := by
  unfold commitRoot onPool at h
  cases hmodify : Pool.modify .storage root.home (Action.ofTotal fun w : Workspace =>
      ((w.storage.slots, w.pending.accounts), { w with pending := {} })) c.pool with
  | ok r pool =>
      simp only [hmodify] at h
      cases h
      exact ⟨rfl, _, _, _, rfl⟩
  | error e pool =>
      simp only [hmodify] at h
      cases h

/-- How a root frame is concluded: it has failed, or its commit is refused, or it is committed, what it
has emitted is handed out and its refund is paid. -/
theorem conclude_cases (h : conclude root c = some (outcome, c')) :
    (root.isSuccess = false ∧ c' = c ∧ outcome.success = false ∧
        outcome.gasUsed = root.gas.used ∧ outcome.gasRefund = 0) ∨
      (root.isSuccess = true ∧ ∃ e, commitRoot root c = .error (.fault e) c' ∧
        outcome = .failed e) ∨
      (root.isSuccess = true ∧ commitRoot root c = .ok () c' ∧ outcome.logs = root.logs ∧
        outcome.gasUsed + outcome.gasRefund = root.gas.used ∧
        outcome.gasRefund =
          Gas.refundPaid root.gas.used root.gas.refunds c'.limits.maxRefundQuotient) := by
  unfold conclude at h
  by_cases hsuccess : root.isSuccess = true
  · simp only [hsuccess, Bool.not_true, Bool.false_eq_true, if_false] at h
    cases hcommit : commitRoot root c with
    | error e c₁ =>
        cases e with
        | overflow => simp [hcommit] at h
        | fault e =>
            simp only [hcommit] at h
            cases h
            exact .inr (.inl ⟨hsuccess, e, rfl, rfl⟩)
    | ok r c₁ =>
        simp only [hcommit] at h
        obtain ⟨used, hused, h⟩ := Option.bind_eq_some_iff.1 h
        cases h
        refine .inr (.inr ⟨hsuccess, rfl, rfl, ?_, rfl⟩)
        unfold sub? at hused
        split at hused
        · cases hused
          exact Nat.sub_add_cancel ‹_›
        · cases hused
  · have hfailed : root.isSuccess = false := by simpa using hsuccess
    simp only [hfailed, Bool.not_false, if_true] at h
    cases h
    exact .inl ⟨hfailed, rfl, rfl, rfl, rfl⟩

end Context
end CallTree
