import CallTree.Proofs.Overflow

/-!
# What holds of all workspaces of a run

A run changes workspaces in few ways: an instruction touches the parts of one, an internal call opens
checkpoints on all four containers and closes them again, a finished child is folded into the storage and
the pending state of its parent, and a new frame gets a fresh workspace. A property that is stable under
these holds of every workspace in every state that a run reaches (`Reaches.holds`).
-/

namespace CallTree

open CallTree.Action (Triple)

/-- A property of workspaces that survives whatever a run does to one. Fresh workspaces within the given
limits have it. -/
structure Workspace.Stable (own : Limits) (P : Workspace → Prop) : Prop where
  touch : ∀ {part : Part} {f g : Frame} {v w : Workspace},
    Touch part ⟨f, some v⟩ ⟨g, some w⟩ → P v → P w
  checkpoint : ∀ {w : Workspace}, P w → P w.checkpoint.2
  settle : ∀ {w : Workspace} (keep : Bool) (marks : Marks), P w → P (w.settle keep marks)
  fold : ∀ {w : Workspace} (storage : Storage) (pending : Pending), P w →
    P { w with storage := storage, pending := pending }
  fresh : ∀ storage : Storage, P
    { stack := .withLimit own.maxStackSize
      memory := .withLimit own.maxMemorySize
      storage := storage }

/-- The call stack has the given limits, and all its workspaces have the property. -/
structure Context.Holds (own : Limits) (P : Workspace → Prop) (c : Context) : Prop where
  limits : c.limits = own
  pool : c.pool.All P

/-- The workspace that an activation reaches has the property. -/
def Activation.Holds (P : Workspace → Prop) (x : Activation) : Prop :=
  ∀ w, x.space = some w → P w

/-- A touch neither takes a workspace away nor brings one. -/
theorem Touch.space_eq {part : Part} {x y : Activation} (h : Touch part x y) {w : Workspace}
    (hw : y.space = some w) :
    ∃ v, x.space = some v ∧ Touch part ⟨x.frame, some v⟩ ⟨y.frame, some w⟩ := by
  have hsome : ∃ v, x.space = some v := by
    cases h <;> first | exact ⟨_, rfl⟩ | exact ⟨w, hw⟩
  obtain ⟨v, hv⟩ := hsome
  refine ⟨v, hv, ?_⟩
  obtain ⟨f, _⟩ := x
  obtain ⟨g, _⟩ := y
  cases hv
  cases hw
  exact h

section

variable {own limits : Limits} {P : Workspace → Prop} {α : Type} {parts : List Part}

/-- What an action does to the workspace of a pool that it takes out and puts back. -/
theorem Exec.in_pool_all {act : Exec α}
    (h : Triple (Activation.Holds P) act (fun _ => Activation.Holds P) fun _ => Activation.Holds P) :
    Triple (fun s : Frame × Pool Workspace => s.2.All P) act.inPool (fun _ s => s.2.All P)
      fun _ s => s.2.All P := by
  rintro ⟨f, pool⟩ hpool
  have hend := h ⟨f, pool.get? f.home.cell⟩ fun w hw => hpool _ w hw
  have hback : ∀ space : Option Workspace, (∀ w, space = some w → P w) →
      (space.elim (pool.free f.home.cell) fun w =>
        (pool.free f.home.cell).set f.home.cell w).All P := by
    intro space hspace
    cases space with
    | none => exact hpool.free _
    | some w => exact (hpool.free _).set _ (hspace w rfl)
  cases hact : act ⟨f, pool.get? f.home.cell⟩ with
  | ok r b =>
      rw [hact] at hend
      simp only [inPool, hact]
      exact hback _ hend
  | error e b =>
      rw [hact] at hend
      simp only [inPool, hact]
      exact hback _ hend

namespace Workspace.Stable

variable (hP : Stable own P)
include hP

/-- Touches keep it. -/
theorem touches {x y : Activation} (h : Touches parts x y) (hx : x.Holds P) : y.Holds P := by
  refine h.preserves (fun part _ x y htouch hx w hw => ?_) hx
  obtain ⟨v, hv, htouch⟩ := htouch.space_eq hw
  exact hP.touch htouch (hx v hv)

/-- What an instruction does keeps it, whether it is completed or refused. -/
theorem within {act : Exec α} (h : ∀ x, ∃ parts, Touches parts x (Action.after act x)) :
    Triple (Activation.Holds P) act (fun _ => Activation.Holds P) fun _ => Activation.Holds P := by
  refine .of_results (fun x r y hx hact => ?_) fun x e y hx hact => ?_
  · obtain ⟨parts, htouches⟩ := h x
    rw [Action.after_ok hact] at htouches
    exact hP.touches htouches hx
  · obtain ⟨parts, htouches⟩ := h x
    rw [Action.after_error hact] at htouches
    exact hP.touches htouches hx

/-- Closing the checkpoints of an internal call keeps it. -/
theorem settle_shared (f : Frame) (keep : Bool) :
    Triple (Pool.All P) (f.settleShared keep) (fun _ => Pool.All P) fun _ => Pool.All P := by
  intro pool hpool
  cases hmarks : f.marks with
  | none =>
      rw [Frame.settle_shared_none keep hmarks]
      exact hpool
  | some marks =>
      cases hget : pool.get? f.home.cell with
      | some w =>
          rw [Frame.settle_shared_marks keep hmarks hget]
          exact hpool.set _ (hP.settle keep marks (hpool _ w hget))
      | none =>
          simp only [Frame.settleShared, hmarks, Pool.modify, hget]
          exact hpool

/-! ### Folding -/

theorem fold_storage (address : Address) (slots : Slots) :
    Triple (Activation.Holds P) (Exec.foldStorage address slots) (fun _ => Activation.Holds P)
      fun _ => Activation.Holds P := by
  have hframe : Triple (Activation.Holds P) Exec.frame (fun _ => Activation.Holds P)
      fun _ => Activation.Holds P := fun x hx => hx
  refine hframe.bind fun f => .ite (fun _ => ?_) fun _ => ?_
  · rintro ⟨f, _ | w⟩ hx
    · exact hx
    · rintro _ ⟨⟩
      exact hP.fold _ w.pending (hx w rfl)
  · rintro ⟨f, _ | w⟩ hx
    · exact hx
    · rintro _ ⟨⟩
      exact hP.fold w.storage _ (hx w rfl)

theorem fold_storages (entries : List (Address × Slots)) :
    Triple (Activation.Holds P) (Exec.foldStorages entries) (fun _ => Activation.Holds P)
      fun _ => Activation.Holds P := by
  induction entries with
  | nil => exact .pure fun _ hx => hx
  | cons entry entries ih => exact (hP.fold_storage entry.1 entry.2).bind fun _ => ih

/-- Taking over the changes of a child keeps it. -/
theorem fold_child (child : Frame) (space : Workspace) :
    Triple (Activation.Holds P) (Exec.foldChild child space) (fun _ => Activation.Holds P)
      fun _ => Activation.Holds P := by
  refine (hP.fold_storage _ _).bind fun _ => (hP.fold_storages _).bind fun _ => ?_
  rintro ⟨f, _ | w⟩ hx
  · exact hx
  · rintro _ ⟨⟩
    exact hP.fold w.storage _ (hx w rfl)

/-- Handing over to the parent keeps it. -/
theorem hand_over (child : Frame) :
    Triple (fun s : Frame × Pool Workspace => s.2.All P) child.handOver (fun _ s => s.2.All P)
      fun _ s => s.2.All P := by
  rintro ⟨parent, pool⟩ hpool
  by_cases hkind : child.call.kind = .internal
  · have hsettle := hP.settle_shared child child.isSuccess pool hpool
    simp only [Frame.handOver, hkind, if_true]
    cases hresult : child.settleShared child.isSuccess pool with
    | ok r pool' =>
        rw [hresult] at hsettle
        exact hsettle
    | error e pool' =>
        rw [hresult] at hsettle
        exact hsettle
  by_cases hsuccess : child.isSuccess = true
  · simp only [Frame.handOver, hkind, if_false, hsuccess, if_true]
    cases hread : pool.get? child.home.cell with
    | none =>
        simp only [Pool.read, hread]
        exact hpool
    | some space =>
        simp only [Pool.read, hread]
        exact Exec.in_pool_all (hP.fold_child child space) (parent, pool) hpool
  · simp only [Frame.handOver, hkind, if_false, hsuccess]
    exact hpool

end Workspace.Stable

namespace Context

/-- What is done in the topmost frame. -/
theorem on_top_holds {act : Exec α}
    (h : Triple (Activation.Holds P) act (fun _ => Activation.Holds P) fun _ => Activation.Holds P) :
    Triple (Holds own P) (onTop act) (fun _ => Holds own P) fun _ => Holds own P := by
  rintro ⟨⟨frames, size, hsize⟩, pool, txn, world, limits⟩ ⟨hlimits, hpool⟩
  cases frames with
  | nil => exact ⟨hlimits, hpool⟩
  | cons f below =>
      have hend := Exec.in_pool_all h (f, pool) hpool
      cases hact : act.inPool (f, pool) with
      | ok r s =>
          rw [hact] at hend
          simp only [onTop, hact]
          exact ⟨hlimits, hend⟩
      | error e s =>
          rw [hact] at hend
          simp only [onTop, hact]
          exact ⟨hlimits, hend⟩

/-- Changing the topmost frame touches no workspace. -/
theorem Holds.update_top {c : Context} (h : c.Holds own P) (g : Frame → Frame) :
    (c.updateTop g).Holds own P := by
  obtain ⟨⟨frames, size, hsize⟩, pool, txn, world, limits⟩ := c
  cases frames with
  | nil => exact h
  | cons f below => exact ⟨h.limits, h.pool⟩

end Context

namespace Workspace.Stable

open Context

variable (hP : Stable own P)
include hP

/-! ### Serving -/

theorem prepare_internal (target gas : Nat) :
    Triple (Context.Holds own P) (prepareInternal target gas) (fun _ => Context.Holds own P)
      fun _ => Context.Holds own P := by
  intro c hc
  cases htop : c.top with
  | error e =>
      simp only [prepareInternal, htop]
      exact hc
  | ok parent =>
      cases hget : c.pool.get? parent.home.cell with
      | none =>
          simp only [prepareInternal, htop, onPool, Pool.modify, hget]
          exact hc
      | some w =>
          have hmodify := Pool.modify_of_get .stack parent.home Workspace.checkpoint hget
          simp only [prepareInternal, htop, onPool, hmodify]
          exact ⟨hc.limits, hc.pool.set _ (hP.checkpoint (hc.pool _ w hget))⟩

theorem new_frame {c : Context} (hc : c.Holds own P) (storage : Storage) (code : Bytes) (gas : Nat)
    (call : CallData) : (c.newFrame own storage code gas call).2.Holds own P :=
  ⟨hc.limits, hc.pool.alloc (hP.fresh storage)⟩

theorem prepare_external (code : Bytes) (gas : Nat) (call : CallData) :
    Triple (Context.Holds own P) (prepareExternal code gas call) (fun _ => Context.Holds own P)
      fun _ => Context.Holds own P := by
  intro c hc
  cases hview : c.storageView call.contract with
  | error e =>
      simp only [prepareExternal, hview]
      exact hc
  | ok slots =>
      simp only [prepareExternal, hview, hc.limits]
      exact hP.new_frame hc (.ofSlots slots) code gas call

theorem push_frame (child : Frame) :
    Triple (Context.Holds own P) (pushFrame child) (fun _ => Context.Holds own P)
      fun _ => Context.Holds own P := by
  intro c hc
  by_cases hdeep : c.limits.maxCallDepth < c.depth + 1
  · have hsettle := hP.settle_shared child false c.pool hc.pool
    rw [pushFrame, if_pos hdeep]
    cases hresult : child.settleShared false c.pool with
    | ok r pool =>
        rw [hresult] at hsettle
        simp only [onPool, hresult]
        exact ⟨hc.limits, hsettle.release _⟩
    | error e pool =>
        rw [hresult] at hsettle
        simp only [onPool, hresult]
        exact ⟨hc.limits, hsettle.release _⟩
  · rw [push_frame_ok hdeep]
    exact ⟨hc.limits, hc.pool⟩

/-- Opening the frame that an instruction has asked for keeps it. -/
theorem serve (request : Request) :
    Triple (Context.Holds own P) (Context.serve request) (fun _ => Context.Holds own P)
      fun _ => Context.Holds own P := by
  have hreads : ∀ {β : Type} (result : Except Fault β),
      Triple (Context.Holds own P) (Action.ofExcept result) (fun _ => Context.Holds own P)
        fun _ => Context.Holds own P :=
    fun _ => .of_except (fun _ _ hc _ => hc) fun _ _ hc _ => hc
  have hget : Triple (Context.Holds own P) (MonadState.get : Action Context Context)
      (fun _ => Context.Holds own P) fun _ => Context.Holds own P := fun c hc => hc
  cases request with
  | proceed => exact .pure fun _ hc => hc
  | internal target gas =>
      exact (hP.prepare_internal target gas).bind fun child => hP.push_frame child
  | message call gas region =>
      refine hget.bind fun c => (hreads _).bind fun code => ?_
      exact (hP.prepare_external code gas call).bind fun child => hP.push_frame _
  | create value initCode gas =>
      have hpays : Triple (Context.Holds own P) (onTop (Exec.consumeGas gas))
          (fun _ => Context.Holds own P) fun _ => Context.Holds own P :=
        on_top_holds (hP.within fun x => ⟨[.gas], Exec.Within.consume_gas (by decide) gas x⟩)
      have hpushes : Triple (Context.Holds own P) (onTop (Exec.push 0))
          (fun _ => Context.Holds own P) fun _ => Context.Holds own P :=
        on_top_holds (hP.within fun x => ⟨[.stack], Exec.Within.push (by decide) 0 x⟩)
      refine hget.bind fun c => (hreads _).bind fun creator => ?_
      refine Triple.bind (R := fun _ => Context.Holds own P) ?_ fun address => ?_
      · exact fun c hc => ⟨hc.limits, hc.pool⟩
      refine hget.bind fun c => (hreads _).bind fun existing => hpays.bind fun _ => ?_
      refine .ite (fun _ => hpushes) fun _ => hget.bind fun c => ?_
      exact (hP.prepare_external initCode gas _).bind fun child => hP.push_frame child

/-! ### Moves -/

theorem step (limits : Limits) :
    Triple (Context.Holds own P) (Context.step limits) (fun _ => Context.Holds own P)
      fun _ => Context.Holds own P := by
  intro c hc
  have hwithin := hP.within fun x => ⟨_, fetch_within ⟨limits, c.depth, c.txn.origin⟩ x⟩
  have hfetch := on_top_holds hwithin c hc
  cases hresult : onTop (Instruction.fetchAndDispatch ⟨limits, c.depth, c.txn.origin⟩) c with
  | error e c₁ =>
      rw [hresult] at hfetch
      rw [step_error hresult]
      exact hfetch
  | ok request c₁ =>
      rw [hresult] at hfetch
      rw [step_ok hresult]
      exact hP.serve request c₁ hfetch

/-- An instruction keeps it, and so does the fault that it raises. -/
theorem step_or_fail (limits : Limits) :
    Triple (Context.Holds own P) (stepOrFail limits) (fun _ => Context.Holds own P)
      fun _ => Context.Holds own P := by
  intro c hc
  have hend := hP.step limits c hc
  cases hresult : c.step limits with
  | ok r c₁ =>
      rw [hresult] at hend
      simp only [stepOrFail, hresult]
      exact hend
  | error e c₁ =>
      rw [hresult] at hend
      cases e with
      | overflow =>
          simp only [stepOrFail, hresult]
          exact hend
      | fault e =>
          simp only [stepOrFail, hresult]
          exact hend.update_top _

/-- Taking up the result of a child keeps it. -/
theorem resume_or_fail (limits : Limits) (result : FinishedCall) :
    Triple (Context.Holds own P) (resumeOrFail limits result) (fun _ => Context.Holds own P)
      fun _ => Context.Holds own P := by
  intro c hc
  have hwithin := hP.within fun x => ⟨_, Exec.Within.resume limits result x⟩
  have hend := on_top_holds hwithin c hc
  cases hact : onTop (Exec.resume limits result) c with
  | ok r c₁ =>
      rw [hact] at hend
      simp only [resumeOrFail, hact]
      exact hend
  | error e c₁ =>
      rw [hact] at hend
      cases e with
      | overflow =>
          simp only [resumeOrFail, hact]
          exact hend
      | fault e =>
          simp only [resumeOrFail, hact]
          exact hend.update_top _

/-- Finishing a child keeps it. -/
theorem finish_child {c c' : Context} {result : FinishedCall} (hc : c.Holds own P)
    (hfinish : c.finishChild = .ok result c') : c'.Holds own P := by
  obtain ⟨⟨frames, size, hsize⟩, pool, txn, world, limits⟩ := c
  match frames with
  | [] => simp [finishChild] at hfinish
  | [_] => simp [finishChild] at hfinish
  | child :: parent :: below =>
      by_cases hrunning : child.running = true
      · simp [finishChild, hrunning] at hfinish
      cases hover : child.handOver (parent, pool) with
      | error e s => simp [finishChild, hrunning, Frame.finishInto, hover] at hfinish
      | ok r s =>
          have hpool := (hP.hand_over child).ok (s := (parent, pool)) hc.pool hover
          simp [finishChild, hrunning, Frame.finishInto, hover] at hfinish
          obtain ⟨-, rfl⟩ := hfinish
          exact ⟨hc.limits, hpool.release _⟩

end Workspace.Stable

variable {s t : RunState}

/-- Every move keeps it. -/
theorem Move.holds (hP : Workspace.Stable own P) (hmove : Move limits s t)
    (hs : s.context.Holds own P) : t.context.Holds own P := by
  cases hmove with
  | instruction _ hstep => exact (hP.step_or_fail limits).ok hs hstep
  | finish _ hfinish => exact hP.finish_child hs hfinish
  | resume hresume => exact (hP.resume_or_fail limits _).ok hs hresume

/-- A stable property holds of all workspaces of a run if it does so at the start. -/
theorem Reaches.holds (hP : Workspace.Stable own P) (h : Reaches limits s t)
    (hs : s.context.Holds own P) : t.context.Holds own P := by
  induction h with
  | refl => exact hs
  | tail _ hmove ih => exact hmove.holds hP ih

end
end CallTree
