import CallTree.Proofs.Fitting
import CallTree.Proofs.FrameMoves

/-!
# Runs without overflow

A context is within the bounds on sizes (`Context.Sized`) if its limit on memories is, and so are all
its workspaces, frames and codes. Every move keeps this (`Move.sized`), and no move from such a context
overflows (`Context.Sized.not_overflows`).
-/

namespace CallTree

namespace Pool

variable {α : Type}

/-- All values in use have the property. -/
def All (P : α → Prop) (p : Pool α) : Prop :=
  ∀ cell value, p.get? cell = some value → P value

theorem get_eq_some {p : Pool α} {cell : Nat} {value : α} :
    p.get? cell = some value ↔ p.cells[cell]? = some (some value) :=
  Option.join_eq_some_iff

namespace All

variable {P : α → Prop} {p : Pool α} {value : α}

theorem free (h : p.All P) (cell : Nat) : (p.free cell).All P := by
  intro other v hv
  rw [get_eq_some, Pool.free, Array.getElem?_setIfInBounds] at hv
  split at hv
  · split at hv <;> cases hv
  · exact h other v (get_eq_some.2 hv)

theorem set (h : p.All P) (cell : Nat) (hvalue : P value) : (p.set cell value).All P := by
  intro other v hv
  rw [get_eq_some, Pool.set, Array.getElem?_setIfInBounds] at hv
  split at hv
  · split at hv
    · cases hv
      exact hvalue
    · cases hv
  · exact h other v (get_eq_some.2 hv)

theorem alloc (h : p.All P) (hvalue : P value) : (p.alloc value).2.All P := by
  intro other v hv
  rw [get_eq_some, Pool.alloc, Array.getElem?_push] at hv
  split at hv
  · cases hv
    exact hvalue
  · exact h other v (get_eq_some.2 hv)

theorem release (h : p.All P) (handle : Handle) : (p.release handle).All P := by
  cases handle with
  | owned cell => exact h.free cell
  | shared cell => exact h

end All
end Pool

/-! ## Contexts -/

/-- A frame and a pool that are within the bounds. -/
def Placed (s : Frame × Pool Workspace) : Prop :=
  s.1.Sized ∧ s.2.All Workspace.Sized

/-- The context is within the bounds. -/
structure Context.Sized (c : Context) : Prop where
  limit : c.limits.maxMemorySize ≤ largestMemory
  codes : ∀ (a : Address) (code : Bytes), c.world.code? a = some code → code.size ≤ largestCode
  pool : c.pool.All Workspace.Sized
  frames : ∀ f ∈ c.frames.toList, f.Sized

open CallTree.Action (Triple)

variable {α : Type} {Q : α → Prop}

/-- What is done in a frame whose workspace is in a pool. -/
theorem Exec.Fits.in_pool {act : Exec α} (h : Fits act Q) :
    Triple Placed act.inPool (fun r s => Q r ∧ Placed s) (Refused Placed) := by
  rintro ⟨f, pool⟩ ⟨hf, hpool⟩
  have hend := h ⟨f, pool.get? f.home.cell⟩ ⟨hf, fun w hw => hpool _ w hw⟩
  -- The workspace is put back where it was taken from.
  have hback : ∀ space : Option Workspace, (∀ w, space = some w → w.Sized) →
      (space.elim (pool.free f.home.cell) fun w =>
        (pool.free f.home.cell).set f.home.cell w).All Workspace.Sized := by
    intro space hspace
    cases space with
    | none => exact hpool.free _
    | some w => exact (hpool.free _).set _ (hspace w rfl)
  cases hact : act ⟨f, pool.get? f.home.cell⟩ with
  | ok r b =>
      rw [hact] at hend
      simp only [inPool, hact]
      exact ⟨hend.1, hend.2.frame, hback _ hend.2.space⟩
  | error e b =>
      rw [hact] at hend
      simp only [inPool, hact]
      exact ⟨hend.1, hend.2.frame, hback _ hend.2.space⟩

/-- Closing the checkpoints of an internal call. -/
theorem Frame.settle_shared_sized (f : Frame) (keep : Bool) :
    Triple (Pool.All Workspace.Sized) (f.settleShared keep) (fun _ => Pool.All Workspace.Sized)
      (Refused (Pool.All Workspace.Sized)) := by
  intro pool hpool
  cases hmarks : f.marks with
  | none =>
      rw [settle_shared_none keep hmarks]
      exact hpool
  | some marks =>
      cases hget : pool.get? f.home.cell with
      | some w =>
          rw [settle_shared_marks keep hmarks hget]
          exact hpool.set _ ((hpool _ w hget).settle keep marks)
      | none =>
          simp only [settleShared, hmarks, Pool.modify, hget]
          exact ⟨by simp, hpool⟩

/-! ## Finishing -/

namespace Exec

/-- A change to the slots. -/
theorem Fits.change_storage (g : Storage → Storage) :
    Fits (Exec.onStorage (Action.ofTotal fun s => ((), g s))) fun _ => True := by
  rintro ⟨f, _ | w⟩ ⟨hf, hspace⟩
  · exact ⟨by simp, hf, hspace⟩
  · refine ⟨trivial, hf, ?_⟩
    rintro _ ⟨⟩
    exact ⟨(hspace w rfl).memory, (hspace w rfl).pending⟩

/-- A change to what is pending. -/
theorem Fits.change_pending {g : Pending → Pending} (h : ∀ p, p.Sized → (g p).Sized) :
    Fits (Exec.onPending (Action.ofTotal fun p => ((), g p))) fun _ => True := by
  rintro ⟨f, _ | w⟩ ⟨hf, hspace⟩
  · exact ⟨by simp, hf, hspace⟩
  · refine ⟨trivial, hf, ?_⟩
    rintro _ ⟨⟩
    exact ⟨(hspace w rfl).memory, h _ (hspace w rfl).pending⟩

theorem fold_storage_fits (address : Address) (slots : Slots) :
    Fits (foldStorage address slots) fun _ => True := by
  refine Fits.frame.bind fun f _ => .ite (.change_storage _) (.change_pending fun p hp => ?_)
  exact hp.set_storage address slots

theorem fold_storages_fits (entries : List (Address × Slots)) :
    Fits (foldStorages entries) fun _ => True := by
  induction entries with
  | nil => exact .pure trivial
  | cons entry entries ih => exact (fold_storage_fits _ _).bind fun _ _ => ih

/-- What a successful child hands over is within the bounds, its output included. -/
theorem fold_child_fits {child : Frame} {space : Workspace} (hchild : child.Sized)
    (hspace : space.Sized) : Fits (foldChild child space) fun _ => True := by
  have hcodes : ∀ e ∈ space.pending.accounts.code.toList, e.2.size ≤ largestCode := by
    rintro ⟨a, code⟩ he
    exact hspace.pending.accounts a code (Std.ExtTreeMap.mem_toList_iff_getElem?_eq_some.1 he)
  have houtput : child.output.size ≤ largestCode := Nat.le_trans hchild.output (by decide)
  refine (fold_storage_fits _ _).bind fun _ _ => (fold_storages_fits _).bind fun _ _ => ?_
  refine .change_pending fun p hp => ?_
  split
  · exact (hp.set_codes hcodes).set_code _ houtput
  · exact hp.set_codes hcodes

end Exec

namespace Frame

variable {child parent : Frame} {pool : Pool Workspace} {s : Frame × Pool Workspace}

/-- A parent stages the output of its child. -/
theorem Sized.learn (hparent : parent.Sized) (hchild : child.Sized) :
    (child.learn parent).Sized := by
  have hrefund : ∀ (f : Frame) (amount : Nat), f.Sized → (f.refundGas amount).Sized := by
    intro f amount hf
    unfold refundGas
    split
    · exact ⟨hf.code, hf.output, hf.staged⟩
    · exact hf
  simp only [Frame.learn]
  refine hrefund _ _ ?_
  split
  · exact ⟨hparent.code, hparent.output, hchild.output⟩
  · exact ⟨hparent.code, hparent.output, hchild.output⟩

/-- What a finished child hands over keeps its parent within the bounds. -/
theorem hand_over_sized (hchild : child.Sized) (hs : Placed (parent, pool))
    (h : child.handOver (parent, pool) = .ok () s) : Placed s := by
  by_cases hkind : child.call.kind = .internal
  · have hsettle := child.settle_shared_sized child.isSuccess pool hs.2
    simp only [handOver, hkind, if_true] at h
    cases hresult : child.settleShared child.isSuccess pool with
    | ok r pool' =>
        rw [hresult] at hsettle
        simp only [hresult] at h
        cases h
        exact ⟨hs.1, hsettle⟩
    | error e pool' => simp [hresult] at h
  by_cases hsuccess : child.isSuccess = true
  · simp only [handOver, hkind, if_false, hsuccess, if_true] at h
    cases hread : pool.get? child.home.cell with
    | none => simp [Pool.read, hread] at h
    | some space =>
        simp only [Pool.read, hread] at h
        exact ((Exec.fold_child_fits hchild (hs.2 _ space hread)).in_pool.ok hs h).2
  · simp only [handOver, hkind, if_false, hsuccess] at h
    cases h
    exact hs

end Frame

namespace Context

variable {limits : Limits} {c c' : Context} {child : Frame}

/-- What is done in the topmost frame. -/
theorem on_top_sized {act : Exec α} (h : Exec.Fits act Q) :
    Triple Sized (onTop act) (fun r c => Q r ∧ c.Sized) (Refused Sized) := by
  rintro ⟨⟨frames, size, hsize⟩, pool, txn, world, own⟩ ⟨hlimit, hcodes, hpool, hframes⟩
  cases frames with
  | nil => exact ⟨by simp, hlimit, hcodes, hpool, hframes⟩
  | cons f below =>
      obtain ⟨hf, hbelow⟩ := List.forall_mem_cons.1 hframes
      have hend := h.in_pool (f, pool) ⟨hf, hpool⟩
      cases hact : act.inPool (f, pool) with
      | ok r s =>
          rw [hact] at hend
          simp only [onTop, hact]
          exact ⟨hend.1, hlimit, hcodes, hend.2.2, List.forall_mem_cons.2 ⟨hend.2.1, hbelow⟩⟩
      | error e s =>
          rw [hact] at hend
          simp only [onTop, hact]
          exact ⟨hend.1, hlimit, hcodes, hend.2.2, List.forall_mem_cons.2 ⟨hend.2.1, hbelow⟩⟩

/-- A frame that fails keeps its results. -/
theorem Sized.fail_top (h : c.Sized) (cause : Fault) : (c.updateTop (Frame.fail cause)).Sized := by
  obtain ⟨⟨frames, size, hsize⟩, pool, txn, world, own⟩ := c
  cases frames with
  | nil => exact h
  | cons f below =>
      obtain ⟨hf, hbelow⟩ := List.forall_mem_cons.1 h.frames
      refine ⟨h.limit, h.codes, h.pool, List.forall_mem_cons.2 ⟨?_, hbelow⟩⟩
      unfold Frame.fail
      split
      · exact ⟨hf.code, hf.output, hf.staged⟩
      · exact hf

/-- Code that children have left pending is within the bounds. -/
theorem pending_code_sized {pool : Pool Workspace} (hpool : pool.All Workspace.Sized)
    {address : Address} {code : Bytes} {frames : List Frame}
    (h : pendingCode? pool address frames = .ok (some code)) : code.size ≤ largestCode := by
  induction frames with
  | nil => cases h
  | cons f below ih =>
      cases hget : pool.get? f.home.cell with
      | none => simp [pendingCode?, Pool.read, hget, bind, Except.bind] at h
      | some w =>
          cases hcode : w.pending.code? address with
          | none => exact ih (by simpa [pendingCode?, Pool.read, hget, bind, Except.bind, hcode] using h)
          | some found =>
              simp only [pendingCode?, Pool.read, hget, bind, Except.bind, hcode] at h
              cases h
              exact (hpool _ w hget).pending.accounts address code hcode

/-- Every code that can be called is within the bounds. -/
theorem Sized.code_at (h : c.Sized) {address : Address} {code : Bytes}
    (hcode : c.codeAt address = .ok code) : code.size ≤ largestCode := by
  cases hpending : pendingCode? c.pool address c.frames.toList with
  | error e => simp [codeAt, hpending, bind, Except.bind] at hcode
  | ok found =>
      simp only [codeAt, hpending, bind, Except.bind, pure, Except.pure] at hcode
      cases hcode
      cases found with
      | some code => exact pending_code_sized h.pool hpending
      | none =>
          show ((c.world.code? address).getD ByteArray.empty).size ≤ largestCode
          cases hworld : c.world.code? address with
          | none => exact Nat.zero_le _
          | some code => exact h.codes address code hworld

/-! ## Serving requests -/

theorem prepare_internal_sized (target gas : Nat) :
    Triple Sized (prepareInternal target gas) (fun child c => child.Sized ∧ c.Sized)
      (Refused Sized) := by
  intro c hc
  cases htop : c.top with
  | error e =>
      simp only [prepareInternal, htop]
      exact ⟨by simp, hc⟩
  | ok parent =>
      have hparent : parent.Sized := hc.frames parent (List.mem_of_mem_head? (head_of_top htop))
      cases hget : c.pool.get? parent.home.cell with
      | none =>
          simp only [prepareInternal, htop, onPool, Pool.modify, hget]
          exact ⟨by simp, hc⟩
      | some w =>
          have hmodify := Pool.modify_of_get .stack parent.home Workspace.checkpoint hget
          simp only [prepareInternal, htop, onPool, hmodify]
          refine ⟨⟨hparent.code, Nat.zero_le _, Nat.zero_le _⟩, hc.limit, hc.codes, ?_, hc.frames⟩
          exact hc.pool.set _ (hc.pool _ w hget).checkpoint

/-- A new frame and its workspace are within the bounds. -/
theorem Sized.new_frame (h : c.Sized) (limits : Limits) (storage : Storage) (code : Bytes)
    (gas : Nat) (call : CallData) (hlimit : limits.maxMemorySize ≤ largestMemory)
    (hcode : code.size ≤ largestCode) :
    (c.newFrame limits storage code gas call).1.Sized ∧
      (c.newFrame limits storage code gas call).2.Sized := by
  refine ⟨⟨hcode, Nat.zero_le _, Nat.zero_le _⟩, h.limit, h.codes, ?_, h.frames⟩
  refine h.pool.alloc ⟨⟨hlimit, Nat.zero_le _, ?_⟩, ?_, ?_⟩
  · simp [Memory.withLimit, Pile.empty]
  · intro a found hfound
    simp at hfound
  · simp [Pile.empty]

theorem prepare_external_sized {code : Bytes} (hcode : code.size ≤ largestCode) (gas : Nat)
    (call : CallData) :
    Triple Sized (prepareExternal code gas call) (fun child c => child.Sized ∧ c.Sized)
      (Refused Sized) := by
  intro c hc
  cases hview : c.storageView call.contract with
  | error e =>
      simp only [prepareExternal, hview]
      exact ⟨by simp, hc⟩
  | ok slots =>
      simp only [prepareExternal, hview]
      exact hc.new_frame c.limits (.ofSlots slots) code gas call hc.limit hcode

theorem push_frame_sized (hchild : child.Sized) :
    Triple Sized (pushFrame child) (fun _ => Sized) (Refused Sized) := by
  intro c hc
  by_cases hdeep : c.limits.maxCallDepth < c.depth + 1
  · have hsettle := child.settle_shared_sized false c.pool hc.pool
    rw [pushFrame, if_pos hdeep]
    cases hresult : child.settleShared false c.pool with
    | ok r pool =>
        rw [hresult] at hsettle
        simp only [onPool, hresult]
        exact ⟨by simp, hc.limit, hc.codes, hsettle.release _, hc.frames⟩
    | error e pool =>
        rw [hresult] at hsettle
        simp only [onPool, hresult]
        exact ⟨hsettle.1, hc.limit, hc.codes, hsettle.2.release _, hc.frames⟩
  · rw [push_frame_ok hdeep]
    exact ⟨hc.limit, hc.codes, hc.pool, List.forall_mem_cons.2 ⟨hchild, hc.frames⟩⟩

/-- A request is served without overflow. -/
theorem serve_sized {request : Request} (hrequest : request.Sized) :
    Triple Sized (serve request) (fun _ => Sized) (Refused Sized) := by
  cases request with
  | proceed => exact .pure fun _ hc => hc
  | internal target gas =>
      exact (prepare_internal_sized target gas).bind fun child => .assume push_frame_sized
  | message call gas region =>
      refine Triple.bind .get fun c => ?_
      refine Triple.bind (R := fun code c => code.size ≤ largestCode ∧ Sized c)
        (.of_except ?_ fun e s hs _ => ⟨by simp, hs.2⟩) fun code => .assume fun hcode => ?_
      · rintro code s ⟨rfl, hs⟩ hcode
        exact ⟨hs.code_at hcode, hs⟩
      refine (prepare_external_sized hcode gas call).bind fun child => .assume fun hchild => ?_
      exact push_frame_sized ⟨hchild.code, Nat.zero_le _, hchild.staged⟩
  | create value initCode gas =>
      have hpays := on_top_sized (Exec.Fits.consume_gas gas)
      have hpushes := on_top_sized (Exec.Fits.push 0)
      refine Triple.bind .get fun c => ?_
      refine Triple.bind (R := fun _ => Sized)
        (.of_except (fun _ _ hs _ => hs.2) fun e s hs _ => ⟨by simp, hs.2⟩) fun creator => ?_
      refine Triple.bind (R := fun _ => Sized) ?_ fun address => Triple.bind .get fun c => ?_
      · exact fun s hs => ⟨hs.limit, hs.codes, hs.pool, hs.frames⟩
      refine Triple.bind (R := fun _ => Sized)
        (.of_except (fun _ _ hs _ => hs.2) fun e s hs _ => ⟨by simp, hs.2⟩) fun existing => ?_
      refine (hpays.post fun _ _ hs => hs.2).bind fun _ => .ite (fun _ => ?_) fun _ => ?_
      · exact hpushes.post fun _ _ hs => hs.2
      · refine Triple.bind .get fun c => ?_
        refine ((prepare_external_sized hrequest gas _).pre fun _ hs => hs.2).bind fun child => ?_
        exact .assume push_frame_sized

/-! ## Moves -/

/-- No instruction overflows. -/
theorem step_sized (limits : Limits) :
    Triple Sized (step limits) (fun _ => Sized) (Refused Sized) := by
  intro c hc
  have hfetch := on_top_sized (Instruction.fetch_fits ⟨limits, c.depth, c.txn.origin⟩) c hc
  cases hresult : onTop (Instruction.fetchAndDispatch ⟨limits, c.depth, c.txn.origin⟩) c with
  | error e c₁ =>
      rw [hresult] at hfetch
      rw [step_error hresult]
      exact hfetch
  | ok request c₁ =>
      rw [hresult] at hfetch
      rw [step_ok hresult]
      exact serve_sized hfetch.1 c₁ hfetch.2

/-- Finishing a child keeps a context within the bounds. -/
theorem finish_child_sized {result : FinishedCall} (hc : c.Sized)
    (hfinish : c.finishChild = .ok result c') : c'.Sized := by
  obtain ⟨⟨frames, size, hsize⟩, pool, txn, world, own⟩ := c
  match frames with
  | [] => simp [finishChild] at hfinish
  | [_] => simp [finishChild] at hfinish
  | child :: parent :: below =>
      obtain ⟨hchild, hparent, hbelow⟩ := by simpa only [List.forall_mem_cons] using hc.frames
      by_cases hrunning : child.running = true
      · simp [finishChild, hrunning] at hfinish
      cases hover : child.handOver (parent, pool) with
      | error e s => simp [finishChild, hrunning, Frame.finishInto, hover] at hfinish
      | ok r s =>
          obtain ⟨hparent', hpool'⟩ := Frame.hand_over_sized hchild ⟨hparent, hc.pool⟩ hover
          simp [finishChild, hrunning, Frame.finishInto, hover] at hfinish
          obtain ⟨-, rfl⟩ := hfinish
          exact ⟨hc.limit, hc.codes, hpool'.release _,
            List.forall_mem_cons.2 ⟨hparent'.learn hchild, hbelow⟩⟩

/-- An instruction or the fault that it raises; there is no third possibility. -/
theorem step_or_fail_sized (limits : Limits) :
    Triple Sized (stepOrFail limits) (fun _ => Sized) (fun _ _ => False) := by
  intro c hc
  have hend := step_sized limits c hc
  cases hresult : c.step limits with
  | ok r c₁ =>
      rw [hresult] at hend
      simp only [stepOrFail, hresult]
      exact hend
  | error e c₁ =>
      rw [hresult] at hend
      cases e with
      | overflow => exact absurd rfl hend.1
      | fault e =>
          simp only [stepOrFail, hresult]
          exact hend.2.fail_top e

/-- The same of taking up the result of a child. -/
theorem resume_or_fail_sized (limits : Limits) (result : FinishedCall) :
    Triple Sized (resumeOrFail limits result) (fun _ => Sized) (fun _ _ => False) := by
  intro c hc
  have hend := on_top_sized (Exec.resume_fits limits result) c hc
  cases hact : onTop (Exec.resume limits result) c with
  | ok r c₁ =>
      rw [hact] at hend
      simp only [resumeOrFail, hact]
      exact hend.2
  | error e c₁ =>
      rw [hact] at hend
      cases e with
      | overflow => exact absurd rfl hend.1
      | fault e =>
          simp only [resumeOrFail, hact]
          exact hend.2.fail_top e

/-- Within the bounds, nothing overflows. -/
theorem Sized.not_overflows {s : RunState} (h : s.context.Sized) : ¬s.Overflows limits := by
  intro hover
  cases hover with
  | instruction _ hstep => exact (step_or_fail_sized limits).error h hstep
  | resume hresume => exact (resume_or_fail_sized limits _).error h hresume

end Context

/-- Moves stay within the bounds. -/
theorem Move.sized {limits : Limits} {s t : RunState} (hmove : Move limits s t)
    (h : s.context.Sized) : t.context.Sized := by
  cases hmove with
  | instruction _ hstep => exact (Context.step_or_fail_sized limits).ok h hstep
  | finish _ hfinish => exact Context.finish_child_sized h hfinish
  | resume hresume => exact (Context.resume_or_fail_sized limits _).ok h hresume

/-- Runs stay within the bounds. -/
theorem Reaches.sized {limits : Limits} {s t : RunState} (h : Reaches limits s t)
    (hs : s.context.Sized) : t.context.Sized := by
  induction h with
  | refl => exact hs
  | tail _ hmove ih => exact hmove.sized ih

end CallTree
