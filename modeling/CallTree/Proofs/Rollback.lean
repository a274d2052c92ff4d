import CallTree.Proofs.Waiting

/-!
# Internal calls

An internal call works on the workspace of its caller under checkpoints on all four containers.
Whatever happens above it, when it reverts the containers hold what they held right after the call
had taken its operands, and when it succeeds they keep what they hold
(`Context.internal_call_settled`). The checkpoints that are open on a workspace are at any time
those of the internal calls that are active on it, one level each (`Chain.levels`).
-/

namespace CallTree

/-- The internal calls that are active on the topmost workspace hold the marks of its checkpoints,
the topmost the highest. -/
theorem Chain.levels {pool : Pool Workspace} {l : Layer} {below : List Layer}
    {saved : List Contents} (h : Chain pool l below saved) :
    ((l :: below).filter fun m => m.frame.home = .shared l.cell).map (·.frame.marks) =
      (List.range saved.length).reverse.map fun n => some (Marks.level n) := by
  have howner : ∀ m : Layer, m.frame.home.isOwned = true →
      ∀ cell, ¬m.frame.home = .shared cell := by
    intro m howned cell hshared
    rw [hshared] at howned
    cases howned
  induction h with
  | @root l howned _ => simp [howner l howned]
  | @internal l parent below saved _ _ hshare _ _ _ hmarks ih =>
      have hcell : l.cell = parent.cell := by rw [Layer.cell, hshare]; rfl
      have hhome : l.frame.home = .shared parent.cell := hshare
      rw [hcell, List.filter_cons_of_pos (by simpa using hhome), List.map_cons, ih, hmarks,
        List.length_cons, List.range_succ, List.reverse_append]
      rfl
  | @own l parent below saved _ _ _ howned _ _ hfresh _ =>
      have hnone : ∀ m ∈ parent :: below, ¬m.frame.home = .shared l.cell := by
        intro m hm hshared
        exact hfresh m hm (by rw [Layer.cell, hshared]; rfl)
      rw [List.filter_cons_of_neg (by simpa using howner l howned l.cell),
        List.filter_eq_nil_iff.2 (by simpa using hnone)]
      rfl

/-- Every container of a workspace has as many checkpoints open as there are copies. -/
theorem Workspace.Recalls.open_eq {w : Workspace} {copies : List Contents} (h : w.Recalls copies) :
    w.stack.copies.size = copies.length ∧ w.memory.journal.depth = copies.length ∧
      w.storage.journal.depth = copies.length ∧ w.pending.copies.size = copies.length := by
  obtain ⟨hstack, hmemory, hstorage, hpending⟩ := h
  refine ⟨?_, ?_, ?_, ?_⟩
  · rw [w.stack.copies.size_eq, show w.stack.copies.toList = _ from hstack, List.length_map]
  · simpa using Journal.Recalls.depth_eq hmemory
  · simpa using Journal.Recalls.depth_eq hstorage
  · rw [w.pending.copies.size_eq, show w.pending.copies.toList = _ from hpending, List.length_map]

namespace Context

/-- An internal call that was opened at some point of a run and has halted can be finished. If it
has reverted, the workspace it shares with its caller then holds what it held when the call had
taken its two operands, and the caller has the logs and refunds it had. If it has succeeded, the
workspace holds what it held before. The checkpoints left open on each container are those of the
internal calls that are still active on the workspace. -/
theorem internal_call_settled (base : Context) {frameLimits limits : Limits} {slots : Slots}
    {code : Bytes} {gas : Nat} {call : CallData} {c₁ c₂ : Context} {caller opened child : Frame}
    {before : Workspace} {s : RunState}
    (hstart : Reaches limits ⟨base.launch frameLimits slots code gas call, none⟩ ⟨c₁, none⟩)
    (hcaller : c₁.top = .ok caller) (hbefore : c₁.pool.get? caller.home.cell = some before)
    (hopen : Move limits ⟨c₁, none⟩ ⟨c₂, none⟩) (hdepth : c₂.depth = c₁.depth + 1)
    (hopened : c₂.top = .ok opened) (hkind : opened.call.kind = .internal)
    (hrun : ReachesAbove limits c₁.depth ⟨c₂, none⟩ s) (hend : s.context.depth = c₁.depth + 1)
    (hchild : s.context.top = .ok child) (hhalted : child.running = false) :
    ∃ c' parent left after, s.context.finishChild = .ok child.finished c' ∧
      c'.top = .ok parent ∧ c'.depth = c₁.depth ∧
      s.context.pool.get? caller.home.cell = some left ∧
      c'.pool.get? caller.home.cell = some after ∧
      (child.isSuccess = false →
        2 ≤ before.stack.items.size ∧
        after.contents = { before.contents with operands := before.stack.items.drop 2 } ∧
        parent.logs = caller.logs ∧ parent.gas.refunds = caller.gas.refunds) ∧
      (child.isSuccess = true → after.contents = left.contents) ∧
      ∃ n, (c'.frames.toList.filter fun f => f.home = .shared caller.home.cell).map (·.marks) =
          (List.range n).reverse.map (fun i => some (Marks.level i)) ∧
        after.stack.copies.size = n ∧ after.memory.journal.depth = n ∧
        after.storage.journal.depth = n ∧ after.pending.copies.size = n := by
  obtain ⟨l₁, below, saved₁, hstands₁⟩ := hstart.stands (launch_stands _ _ _ _ _ base)
  obtain ⟨l₂, waiting, saved₂, hstands₂, hcalls⟩ := hstands₁.opened_internal hopen hdepth
  cases hcaller.symm.trans hstands₁.top_eq
  cases hopened.symm.trans hstands₂.top_eq
  have hcalls := hcalls hkind
  -- The caller waits on the layer that it was left with.
  rw [show c₁.depth = (waiting :: below).length from hstands₁.depth_eq] at hrun hend
  have hbottom : Stands c₂ l₂ ([] ++ waiting :: below) saved₂ := hstands₂
  obtain ⟨l, upper, saved, hstands, hsite⟩ := hbottom.run_above hrun
  cases hstands.upper_eq_nil hend
  cases hchild.symm.trans hstands.top_eq
  have hsite : l.frame.site = l₂.frame.site := by simpa using hsite
  have hinternal : l.frame.call.kind = .internal :=
    (congrArg (CallData.kind ∘ Site.call) hsite).trans hkind
  obtain ⟨c', x, saved', hfinish, hstands', _, hhanded, _⟩ := hstands.finish hhalted
  have hwaiting : waiting.cell = l₁.cell := congrArg (Handle.cell ∘ Site.home) hcalls.site
  have hparent : (Layer.mk (l.frame.learn waiting.frame) x).cell = l₁.cell :=
    (congrArg (Handle.cell ∘ Site.home) (Frame.site_learn _ _)).trans hwaiting
  have hcell : l.cell = l₁.cell := by
    cases hstands.chain with
    | internal _ _ hshare =>
        rw [← hwaiting, Layer.cell, hshare]
        rfl
    | own _ _ _ _ hother => exact absurd hinternal hother
  obtain ⟨left, hleft, hleftContents, _⟩ := hstands.backed
  obtain ⟨after, hafter, hafterContents, hsaved⟩ := hstands'.backed
  rw [hcell] at hleft
  rw [hparent] at hafter
  have hbeforeContents : before.contents = l₁.contents := by
    obtain ⟨w, hget, hcontents, _⟩ := hstands₁.backed
    cases hget.symm.trans hbefore
    exact hcontents
  have hdepth' : c'.depth = c₁.depth := hstands'.depth_eq.trans hstands₁.depth_eq.symm
  have hlevels := hstands'.chain.levels
  rw [hparent] at hlevels
  refine ⟨c', l.frame.learn waiting.frame, left, after, hfinish, hstands'.top_eq, hdepth', hleft,
    hafter, ?_, ?_, saved'.length, ?_, hsaved.open_eq⟩
  · intro hreverted
    have hrunning : waiting.frame.running = true := hstands.chain.running_below waiting (by simp)
    have hitems : before.stack.items = l₁.contents.operands :=
      congrArg Contents.operands hbeforeContents
    refine ⟨hitems ▸ hcalls.operands, ?_, ?_, ?_⟩
    · rw [hafterContents, hbeforeContents, hitems]
      exact (hhanded.reverted hreverted).trans hcalls.contents
    · rw [Frame.learn_reverted hrunning hreverted]
      exact hcalls.logs
    · rw [Frame.learn_reverted hrunning hreverted]
      exact hcalls.refunds
  · intro hsuccess
    rw [hafterContents, hleftContents]
    exact hhanded.internal hsuccess hinternal
  · rw [hstands'.frames, ← hlevels, ← List.map_cons (f := Layer.frame), List.filter_map,
      List.map_map]
    rfl

/-- A run in which the root frame makes an internal call that writes to the memory and reverts. -/
def revertingInternalCall : RunState where
  context := launch {} ∅
    ⟨#[0x60, 100, 0x60, 6, 0xE3, 0, 0x5B, 0x60, 5, 0x60, 0, 0x52, 0x60, 0, 0x60, 0, 0xFD]⟩ 100000
    (.transaction 1 2 0 ByteArray.empty) { txn := ⟨1, 0⟩ }

/-- The memory that the internal call has written to is as it was, and the operands of the call are
gone. -/
theorem reverting_internal_call_settled : ∃ c₁ c₂ s c' caller before child after,
    Reaches {} revertingInternalCall ⟨c₁, none⟩ ∧ c₁.top = .ok caller ∧
      c₁.pool.get? caller.home.cell = some before ∧ Move {} ⟨c₁, none⟩ ⟨c₂, none⟩ ∧
      ReachesAbove {} c₁.depth ⟨c₂, none⟩ s ∧ s.context.top = .ok child ∧
      child.running = false ∧ child.isSuccess = false ∧
      s.context.finishChild = .ok child.finished c' ∧
      c'.pool.get? caller.home.cell = some after ∧
      after.contents = { before.contents with operands := before.stack.items.drop 2 } := by
  have hfacts : (revertingInternalCall.excursion? {} 2 7).any (fun run =>
      run.1.finished == none && run.1.context.frames.toList.map (fun f =>
          (run.1.context.pool.get? f.home.cell).isSome) == [true] &&
        run.2.1.finished == none &&
        run.2.1.context.frames.toList.map (·.call.kind) == [.internal, .external] &&
        run.2.2.context.frames.toList.map (fun f => (f.running, f.isSuccess)) ==
          [(false, false), (true, false)]) = true := by
    decide +kernel
  obtain ⟨⟨⟨c₁, _⟩, ⟨c₂, _⟩, s⟩, hrun, hfacts⟩ := (Option.any_eq_true _ _).1 hfacts
  simp only [Bool.and_eq_true, beq_iff_eq] at hfacts
  obtain ⟨⟨⟨⟨rfl, hcells⟩, rfl⟩, hkinds⟩, hends⟩ := hfacts
  obtain ⟨hstart, hopen, habove⟩ := excursion_reaches hrun
  obtain ⟨caller, hcaller, hlive⟩ := top_of_map hcells
  obtain ⟨before, hbefore⟩ := Option.isSome_iff_exists.1 hlive
  obtain ⟨opened, hopened, hkind⟩ := top_of_map hkinds
  obtain ⟨child, hchild, hend⟩ := top_of_map hends
  obtain ⟨hhalted, hreverted⟩ := Prod.mk.inj hend
  have hdepth₁ : c₁.depth = 1 := depth_of_map hcells
  have hdepth₂ : c₂.depth = c₁.depth + 1 := (depth_of_map hkinds).trans (by rw [hdepth₁]; rfl)
  have hdepth : s.context.depth = c₁.depth + 1 := (depth_of_map hends).trans (by rw [hdepth₁]; rfl)
  obtain ⟨c', parent, left, after, hfinish, _, _, _, hafter, hback, _⟩ :=
    internal_call_settled _ hstart hcaller hbefore hopen hdepth₂ hopened hkind habove hdepth hchild
      hhalted
  exact ⟨c₁, c₂, s, c', caller, before, child, after, hstart, hcaller, hbefore, hopen, habove,
    hchild, hhalted, hreverted, hfinish, hafter, (hback hreverted).2.1⟩

end Context
end CallTree
