import CallTree.Proofs.Waiting

/-!
# Isolation of calls

A call on a workspace of its own cannot reach anything below it: no frame above the floor has a
handle to a workspace below (`Stands.run_apart`), and nothing is committed while it runs. What
the frames below own is therefore the same from the opening of the call to its end, and if it
reverts, its parent gets back the gas that is left and learns the reason, but nothing else
(`Stands.finish_reverted`). `Context.call_isolated` says both of every call in a run.
-/

namespace CallTree

namespace Stands

variable {limits : Limits} {s t : RunState} {c : Context} {l : Layer} {upper lower : List Layer}
  {saved : List Contents}

/-- The lowest frames are those of the lowest layers. -/
theorem keep_eq (h : Stands c l (upper ++ lower) saved) :
    (c.frames.keep lower.length).toList = lower.map (·.frame) := by
  have hsize : c.frames.size - lower.length = (l :: upper).length := by
    rw [c.frames.size_eq, h.frames]
    simp
    omega
  rw [Pile.keep, Pile.toList_drop, h.frames, hsize]
  simp

/-- A run above a floor stays apart from the workspaces below if it starts apart from them: they
keep what they hold, and nothing is committed. -/
theorem run_apart (h : Stands s.context l (upper ++ lower) saved)
    (hapart : ∀ m ∈ l :: upper, ∀ n ∈ lower, n.cell ≠ m.cell)
    (hrun : ReachesAbove limits lower.length s t) :
    ∃ l' upper' saved', Stands t.context l' (upper' ++ lower) saved' ∧
      (∀ m ∈ l' :: upper', ∀ n ∈ lower, n.cell ≠ m.cell) ∧
      (∀ n ∈ lower, ∀ w, s.context.pool.get? n.cell = some w →
        t.context.pool.get? n.cell = some w) ∧
      t.context.world.storage = s.context.world.storage ∧
      t.context.world.code = s.context.world.code := by
  induction hrun with
  | refl => exact ⟨l, upper, saved, h, hapart, fun _ _ _ hget => hget, rfl, rfl⟩
  | tail _ hlast ih =>
      obtain ⟨l₁, upper₁, saved₁, hstands, hapart₁, hpool, hstorage, hcode⟩ := ih
      obtain ⟨l', upper', saved', hstands', hconfined, _, hcells⟩ :=
        hstands.move_above hlast.1 hlast.2
      have hapart' : ∀ m ∈ l' :: upper', ∀ n ∈ lower, n.cell ≠ m.cell := by
        intro m hm n hn
        rcases hcells m hm with hold | hfresh
        · obtain ⟨m₁, hm₁, hcell⟩ := List.mem_map.1 hold
          rw [← hcell]
          exact hapart₁ m₁ hm₁ n hn
        · exact hfresh n hn
      refine ⟨l', upper', saved', hstands', hapart', fun n hn w hget => ?_,
        hconfined.storage.trans hstorage, hconfined.code.trans hcode⟩
      refine hconfined.pool n.cell w ?_ (hpool n hn w hget)
      simp [hapart₁ l₁ (by simp) n hn, hapart' l' (by simp) n hn]

end Stands

/-- A call that is apart from all frames below and has reverted is finished with no effect but on
the gas of the parent and on the result that is staged there. -/
theorem Stands.finish_reverted {c : Context} {l parent : Layer} {below : List Layer}
    {saved : List Contents} (h : Stands c l (parent :: below) saved)
    (hapart : ∀ n ∈ parent :: below, n.cell ≠ l.cell) (hhalted : l.frame.running = false)
    (hreverted : l.frame.isSuccess = false) :
    ∃ c', c.finishChild = .ok l.frame.finished c' ∧
      c'.frames.toList =
        { parent.frame with
          gas := parent.frame.gas.refund l.frame.gas.remaining
          staged := .reverted (l.frame.revertReason?.getD "") l.frame.output } ::
            below.map (·.frame) ∧
      (∀ n ∈ parent :: below, c'.pool.get? n.cell = c.pool.get? n.cell) ∧ c'.world = c.world := by
  -- A frame that shares no workspace with its parent is not an internal call.
  have hkind : l.frame.call.kind ≠ .internal := by
    cases h.chain with
    | internal _ _ hshare =>
        have hcell : parent.cell = l.cell := by
          rw [Layer.cell, Layer.cell, hshare]
          rfl
        exact absurd hcell (hapart parent (by simp))
    | own _ _ _ _ hother => exact hother
  have hrunning : parent.frame.running = true := h.chain.running_below parent (by simp)
  have hinto : l.frame.finishInto (parent.frame, c.pool) =
      .ok l.frame.finished (l.frame.learn parent.frame, c.pool.release l.frame.home) := by
    simp [Frame.finishInto, Frame.handOver, hkind, hreverted]
  obtain ⟨c', hfinish, hframes, hpool, hworld⟩ := Context.finish_child_ok h.frames hhalted hinto
  refine ⟨c', hfinish, ?_, fun n hn => ?_, hworld⟩
  · rw [hframes, Frame.learn_reverted hrunning hreverted]
  · have hne : l.frame.home ≠ .owned n.cell := by
      intro he
      exact hapart n hn (by rw [Layer.cell, Layer.cell, he]; rfl)
    rw [hpool, Pool.get_release_other _ hne]

namespace Context

/-- From the opening of a call on a workspace of its own until it is finished, all frames below and
their workspaces stay as they are, and so do the committed slots and codes. If the call reverts,
finishing it changes nothing in them but the gas of the parent, which gets what is left of the
child's, and the result that is staged there. -/
theorem call_isolated (base : Context) {frameLimits limits : Limits} {slots : Slots} {code : Bytes}
    {gas : Nat} {call : CallData} {c₁ c₂ : Context} {opened : Frame} {s : RunState}
    (hstart : Reaches limits ⟨base.launch frameLimits slots code gas call, none⟩ ⟨c₁, none⟩)
    (hopen : Move limits ⟨c₁, none⟩ ⟨c₂, none⟩) (hdepth : c₂.depth = c₁.depth + 1)
    (hopened : c₂.top = .ok opened) (hkind : opened.call.kind ≠ .internal)
    (hrun : ReachesAbove limits c₁.depth ⟨c₂, none⟩ s) :
    (s.context.frames.keep c₁.depth = c₂.frames.keep c₁.depth ∧
      (∀ f ∈ (c₂.frames.keep c₁.depth).toList, ∃ w,
        c₂.pool.get? f.home.cell = some w ∧ s.context.pool.get? f.home.cell = some w) ∧
      s.context.world.storage = c₂.world.storage ∧ s.context.world.code = c₂.world.code) ∧
    ∀ child parent below, (c₂.frames.keep c₁.depth).toList = parent :: below →
      s.context.depth = c₁.depth + 1 → s.context.top = .ok child → child.running = false →
      child.isSuccess = false →
      ∃ c', s.context.finishChild = .ok child.finished c' ∧
        c'.frames.toList =
          { parent with
            gas := parent.gas.refund child.gas.remaining
            staged := .reverted (child.revertReason?.getD "") child.output } :: below ∧
        (∀ f ∈ parent :: below, c'.pool.get? f.home.cell = c₂.pool.get? f.home.cell) ∧
        c'.world = s.context.world := by
  obtain ⟨l₁, lower₁, saved₁, hstands₁⟩ := hstart.stands (launch_stands _ _ _ _ _ base)
  obtain ⟨child₂, parent₂, saved₂, hstands₂, _⟩ := hstands₁.opened hopen hdepth
  have hstands₂ : Stands c₂ child₂ ([] ++ parent₂ :: lower₁) saved₂ := hstands₂
  -- The floor is the caller with all that is below it.
  have hfloor : c₁.depth = (parent₂ :: lower₁).length := hstands₁.depth_eq
  rw [hfloor] at hrun hdepth ⊢
  have htop : opened = child₂.frame := by
    have h := hopened.symm.trans hstands₂.top_eq
    cases h
    rfl
  have hapart₂ : ∀ m ∈ [child₂], ∀ n ∈ parent₂ :: lower₁, n.cell ≠ m.cell := by
    cases hstands₂.chain with
    | internal _ _ _ hinternal => exact absurd (htop ▸ hinternal) hkind
    | own _ _ _ _ _ _ hfresh => simpa using hfresh
  have hlive : ∀ n ∈ parent₂ :: lower₁, ∃ w, c₂.pool.get? n.cell = some w :=
    fun n hn => hstands₂.live n (List.mem_cons_of_mem _ hn)
  obtain ⟨l, upper, saved, hstands, hapart, hpool, hstorage, hcode⟩ :=
    hstands₂.run_apart hapart₂ hrun
  have hkeep₂ := hstands₂.keep_eq
  have hkeep := hstands.keep_eq
  refine ⟨⟨Pile.ext (hkeep.trans hkeep₂.symm), ?_, hstorage, hcode⟩, ?_⟩
  · rw [hkeep₂]
    intro f hf
    obtain ⟨n, hn, rfl⟩ := List.mem_map.1 hf
    obtain ⟨w, hget⟩ := hlive n hn
    exact ⟨w, hget, hpool n hn w hget⟩
  · intro child parent below hbelow hchildDepth hchild hhalted hreverted
    cases hstands.upper_eq_nil hchildDepth
    cases hchild.symm.trans hstands.top_eq
    rw [hkeep₂, List.map_cons] at hbelow
    cases hbelow
    obtain ⟨c', hfinish, hframes', hpool', hworld'⟩ :=
      Stands.finish_reverted hstands (hapart l (by simp)) hhalted hreverted
    refine ⟨c', hfinish, hframes', ?_, hworld'⟩
    rw [← List.map_cons (f := Layer.frame)]
    intro f hf
    obtain ⟨n, hn, rfl⟩ := List.mem_map.1 hf
    obtain ⟨w, hget⟩ := hlive n hn
    exact (hpool' n hn).trans ((hpool n hn w hget).trans hget.symm)

/-- A run in which the root frame calls a contract that writes a slot and reverts. -/
def revertingCall : RunState where
  context := launch {} ∅
    ⟨#[0x60, 0, 0x60, 0, 0x60, 0, 0x60, 0, 0x60, 0, 0x60, 3, 0x61, 0x80, 0, 0xF1]⟩ 100000
    (.transaction 1 2 0 ByteArray.empty)
    { txn := ⟨1, 0⟩
      world := World.setCode 3 ⟨#[0x60, 7, 0x60, 1, 0x55, 0x60, 0, 0x60, 0, 0xFD]⟩ {} }

/-- The slot that the contract has written does not reach the root frame. -/
theorem reverting_call_isolated : ∃ c₁ c₂ s opened child,
    Reaches {} revertingCall ⟨c₁, none⟩ ∧ Move {} ⟨c₁, none⟩ ⟨c₂, none⟩ ∧
      c₂.depth = c₁.depth + 1 ∧ c₂.top = .ok opened ∧ opened.call.kind = .external ∧
      ReachesAbove {} c₁.depth ⟨c₂, none⟩ s ∧ s.context.top = .ok child ∧
      child.running = false ∧ child.isSuccess = false ∧
      s.context.frames.keep c₁.depth = c₂.frames.keep c₁.depth ∧
      ∀ parent below, (c₂.frames.keep c₁.depth).toList = parent :: below →
        ∃ c', s.context.finishChild = .ok child.finished c' ∧
          c'.frames.toList = { parent with
            gas := parent.gas.refund child.gas.remaining
            staged := .reverted (child.revertReason?.getD "") child.output } :: below := by
  have hfacts : (revertingCall.excursion? {} 7 6).any (fun run =>
      run.1.finished == none && run.1.context.depth == 1 && run.2.1.finished == none &&
        run.2.1.context.frames.toList.map (·.call.kind) == [.external, .external] &&
        run.2.2.context.frames.toList.map (fun f => (f.running, f.isSuccess)) ==
          [(false, false), (true, false)]) = true := by
    decide +kernel
  obtain ⟨⟨⟨c₁, _⟩, ⟨c₂, _⟩, s⟩, hrun, hfacts⟩ := (Option.any_eq_true _ _).1 hfacts
  simp only [Bool.and_eq_true, beq_iff_eq] at hfacts
  obtain ⟨⟨⟨⟨rfl, hdepth₁⟩, rfl⟩, hkinds⟩, hends⟩ := hfacts
  obtain ⟨hstart, hopen, habove⟩ := excursion_reaches hrun
  obtain ⟨opened, hopened, hkind⟩ := top_of_map hkinds
  obtain ⟨child, hchild, hend⟩ := top_of_map hends
  obtain ⟨hhalted, hreverted⟩ := Prod.mk.inj hend
  have hdepth₂ : c₂.depth = c₁.depth + 1 := (depth_of_map hkinds).trans (by rw [hdepth₁]; rfl)
  have hdepth : s.context.depth = c₁.depth + 1 := (depth_of_map hends).trans (by rw [hdepth₁]; rfl)
  obtain ⟨⟨hkeep, _⟩, hfinish⟩ :=
    call_isolated _ hstart hopen hdepth₂ hopened (by rw [hkind]; decide) habove
  refine ⟨c₁, c₂, s, opened, child, hstart, hopen, hdepth₂, hopened, hkind, habove, hchild,
    hhalted, hreverted, hkeep, fun parent below hbelow => ?_⟩
  obtain ⟨c', hok, hframes, _⟩ := hfinish child parent below hbelow hdepth hchild hhalted hreverted
  exact ⟨c', hok, hframes⟩

end Context
end CallTree
