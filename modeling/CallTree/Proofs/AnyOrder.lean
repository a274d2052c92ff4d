import CallTree.Proofs.Listings
import CallTree.Proofs.Waiting

/-!
# Runs in any order

The interpreter works off the entries of maps when it finishes a successful child and when it commits a
root frame. `Context.Finishes` and `Context.Commits` do the same in any order, and a run may choose another
one each time (`AnyMove`, `AnyReaches`).

Call stacks stand on their workspaces in layers all the same (`AnyReaches.stands`). So every storage can be
brought back to its open checkpoints wherever such a run has got, which is what makes the contexts that a
child is finished into alike (`Context.Finishes.alike`).
-/

namespace CallTree

namespace Context

/-- Takes the topmost frame off and lets its parent learn the result. What a successful child has
changed is met in some order. -/
inductive Finishes (c : Context) : FinishedCall → Context → Prop
  /-- A child with a workspace of its own has succeeded. -/
  | folded {child parent : Frame} {below : List Frame} {space v w : Workspace}
      (hframes : c.frames.toList = child :: parent :: below) (hhalted : child.running = false)
      (hkind : child.call.kind ≠ .internal) (hsuccess : child.isSuccess = true)
      (hspace : c.pool.get? child.home.cell = some space)
      (hparent : c.pool.get? parent.home.cell = some v)
      (hfolds : Workspace.Folds parent.call.contract child space v w) :
      Finishes c child.finished { c with
        frames := (c.frames.drop 2).push (child.learn parent)
        pool := (c.pool.set parent.home.cell w).release child.home }
  /-- In all other cases no entries are worked off. -/
  | other {child parent : Frame} {below : List Frame} {result : FinishedCall} {c' : Context}
      (hframes : c.frames.toList = child :: parent :: below)
      (hplain : ¬(child.call.kind ≠ .internal ∧ child.isSuccess = true))
      (hfinish : c.finishChild = .ok result c') : Finishes c result c'

/-- Commits what a successful root frame has changed, met in some order. -/
inductive Commits (root : Frame) (c : Context) : Context → Prop
  | mk {space : Workspace} {storages : List (Address × Slots)} {codes : List (Address × Bytes)}
      (hspace : c.pool.get? root.home.cell = some space)
      (hstorages : storages.Perm space.pending.accounts.storage.toList)
      (hcodes : codes.Perm space.pending.accounts.code.toList) :
      Commits root c { c with
        pool := c.pool.set root.home.cell { space with pending := {} }
        world := c.world.commit root space.storage.slots storages codes }

/-- Two contexts that cannot be told apart by their frames, by the world, or by what their workspaces
hold, now or after any operations on the storages of both. -/
structure Alike (c d : Context) : Prop where
  frames : c.frames = d.frames
  world : c.world = d.world
  txn : c.txn = d.txn
  limits : c.limits = d.limits
  pool : ∀ cell, Option.Rel Workspace.Alike (c.pool.get? cell) (d.pool.get? cell)

end Context

/-- What a cell holds agrees with itself. -/
theorem Workspace.rel_refl (space : Option Workspace) : Option.Rel Workspace.Alike space space := by
  cases space with
  | none => exact .none
  | some w => exact .some (.refl w)

/-- A context is like itself. -/
theorem Context.Alike.refl (c : Context) : c.Alike c :=
  ⟨rfl, rfl, rfl, rfl, fun _ => Workspace.rel_refl _⟩

/-- Pools agree after one cell was given values that agree and a handle has gone away. -/
theorem Pool.rel_set_release {p : Pool Workspace} {cell : Nat} {old v w : Workspace}
    (hget : p.get? cell = some old) (h : v.Alike w) (home : Handle) (other : Nat) :
    Option.Rel Workspace.Alike (((p.set cell v).release home).get? other)
      (((p.set cell w).release home).get? other) := by
  have hrel : Option.Rel Workspace.Alike ((p.set cell v).get? other) ((p.set cell w).get? other) := by
    by_cases hcell : cell = other
    · rw [← hcell, get_set_same hget, get_set_same hget]
      exact .some h
    · rw [get_set_other _ _ hcell, get_set_other _ _ hcell]
      exact Workspace.rel_refl _
  by_cases hhome : home = .owned other
  · subst hhome
    show Option.Rel _ (((p.set cell v).free other).get? other) (((p.set cell w).free other).get? other)
    rw [get_free_same, get_free_same]
    exact .none
  · rw [get_release_other _ hhome, get_release_other _ hhome]
    exact hrel

/-- One move of a run in which entries are met in some order. -/
inductive AnyMove (limits : Limits) : RunState → RunState → Prop
  /-- A running frame executes an instruction. -/
  | instruction {c c' : Context} (hrunning : c.isRunning = true)
      (hstep : c.stepOrFail limits = .ok () c') : AnyMove limits ⟨c, none⟩ ⟨c', none⟩
  /-- A halted frame is finished into its parent. -/
  | finish {c c' : Context} {result : FinishedCall} (hhalted : c.isRunning = false)
      (hfinish : c.Finishes result c') : AnyMove limits ⟨c, none⟩ ⟨c', some result⟩
  /-- The parent takes up the result. -/
  | resume {c c' : Context} {result : FinishedCall}
      (hresume : c.resumeOrFail limits result = .ok () c') :
      AnyMove limits ⟨c, some result⟩ ⟨c', none⟩

/-- Any number of such moves. -/
def AnyReaches (limits : Limits) : RunState → RunState → Prop :=
  Relation.ReflTransGen (AnyMove limits)

namespace Stands

variable {c c' : Context} {child parent : Layer} {below : List Layer} {saved : List Contents}

/-- A successful child with a workspace of its own stands on it, and its parent on another one that can
be brought back to the copies. -/
theorem own_of_kind (h : Stands c child (parent :: below) saved)
    (hkind : child.frame.call.kind ≠ .internal) :
    ∃ older, Chain c.pool parent below older ∧ parent.Backed c.pool older ∧
      child.frame.home.isOwned = true ∧ ∀ m ∈ parent :: below, m.cell ≠ child.cell := by
  cases h.chain with
  | internal _ _ _ hinternal => exact absurd hinternal hkind
  | own hbelow _ hbacked howned _ _ hfresh => exact ⟨_, hbelow, hbacked, howned, hfresh⟩

/-- The interpreter finishes a halted frame in one of the ways. -/
theorem finishes (h : Stands c child (parent :: below) saved)
    (hhalted : child.frame.running = false) :
    ∃ c', c.finishChild = .ok child.frame.finished c' ∧ c.Finishes child.frame.finished c' := by
  have hframes : c.frames.toList = child.frame :: parent.frame :: below.map (·.frame) := h.frames
  by_cases hplain : child.frame.call.kind ≠ .internal ∧ child.frame.isSuccess = true
  · obtain ⟨hkind, hsuccess⟩ := hplain
    obtain ⟨older, -, ⟨v, hparent, -, -⟩, -, -⟩ := h.own_of_kind hkind
    obtain ⟨space, hspace, -, -⟩ := h.backed
    obtain ⟨w, hfold, hfolds⟩ := Exec.fold_child_folds child.frame parent.frame space v
    have hread : c.pool.read .storage child.frame.home = .ok space := by
      rw [Pool.read, show c.pool.get? child.frame.home.cell = some space from hspace]
    have hinto : child.frame.finishInto (parent.frame, c.pool) =
        .ok child.frame.finished (child.frame.learn parent.frame,
          (c.pool.set parent.cell w).release child.frame.home) := by
      have hover : child.frame.handOver (parent.frame, c.pool) =
          .ok () (parent.frame, c.pool.set parent.cell w) := by
        have hget : c.pool.get? parent.frame.home.cell = some v := hparent
        simp only [Frame.handOver, hkind, if_false, hsuccess, if_true, hread, Exec.inPool, hget,
          hfold, Option.elim_some, Pool.set_free_same]
        rfl
      simp only [Frame.finishInto, hover]
    exact ⟨_, Context.finish_child_eq hframes hhalted hinto,
      .folded hframes hhalted hkind hsuccess hspace hparent hfolds⟩
  · obtain ⟨c', x, saved', hfinish, -⟩ := h.finish hhalted
    exact ⟨c', hfinish, .other hframes hplain hfinish⟩

/-- Wherever a frame is finished in some order, its parent stands where it has stood. -/
theorem after_finish (h : Stands c child below saved) {result : FinishedCall}
    (hhalted : child.frame.running = false) (hfinish : c.Finishes result c') :
    ∃ l' below' saved', Stands c' l' below' saved' := by
  cases hfinish with
  | other _ _ hfinish =>
      obtain ⟨l', below', saved', hstands, -⟩ :=
        h.finished (h.is_running.trans hhalted) hfinish
      exact ⟨l', below', saved', hstands⟩
  | @folded _ _ rest space v w hframes _ hkind _ _ hparent hfolds =>
      cases below with
      | nil => cases hframes.symm.trans h.frames
      | cons parent below =>
          cases hframes.symm.trans h.frames
          obtain ⟨older, hbelow, ⟨v', hget, -, hsaved⟩, howned, hfresh⟩ := h.own_of_kind hkind
          cases hget.symm.trans hparent
          -- Only the cell of the parent is given something else; the one of the child goes away.
          have hkeep : ∀ cell x, cell ≠ parent.cell → c.pool.get? cell = some x →
              (c.pool.set parent.cell w).get? cell = some x := fun cell x hne hold =>
            (Pool.get_set_other _ _ (Ne.symm hne)).trans hold
          let c' : Context := { c with
            frames := (c.frames.drop 2).push (child.frame.learn parent.frame)
            pool := (c.pool.set parent.cell w).release child.frame.home }
          have htop : c'.frames.toList =
              child.frame.learn parent.frame :: below.map (·.frame) := by
            simp [c', hframes]
          have hpool : c'.pool = (c.pool.set parent.cell w).release child.frame.home := rfl
          have hworld : c'.world = c.world := rfl
          have hstands := hbelow.freed howned hfresh (hfolds.retains.recalls _ hsaved)
            (Pool.get_set_same hget) hkeep htop hpool hworld
          exact ⟨_, _, _, hstands.1⟩

/-- Every move of a run in any order leads to layers again. -/
theorem any_move {limits : Limits} {s t : RunState} (h : Stands s.context child below saved)
    (hmove : AnyMove limits s t) : ∃ l' below' saved', Stands t.context l' below' saved' := by
  cases hmove with
  | instruction hrunning hstep =>
      obtain ⟨l', below', saved', hstands, -⟩ := h.move (.instruction hrunning hstep)
      exact ⟨l', below', saved', hstands⟩
  | finish hhalted hfinish => exact h.after_finish (h.is_running.symm.trans hhalted) hfinish
  | resume hresume =>
      obtain ⟨l', hstands, -⟩ := h.resume hresume
      exact ⟨l', below, saved, hstands⟩

end Stands

variable {limits : Limits} {s t : RunState}

/-- Every context that a run in any order reaches stands on its workspaces in layers. -/
theorem AnyReaches.stands (h : AnyReaches limits s t) {l : Layer} {below : List Layer}
    {saved : List Contents} (hstands : Stands s.context l below saved) :
    ∃ l' below' saved', Stands t.context l' below' saved' := by
  induction h with
  | refl => exact ⟨l, below, saved, hstands⟩
  | tail _ hmove ih =>
      obtain ⟨l₁, below₁, saved₁, hstands₁⟩ := ih
      exact hstands₁.any_move hmove

/-- The run of the interpreter is a run in one of the orders. -/
theorem Reaches.any (h : Reaches limits s t) {l : Layer} {below : List Layer}
    {saved : List Contents} (hstands : Stands s.context l below saved) : AnyReaches limits s t := by
  induction h with
  | refl => exact .refl
  | @tail s₁ t hrun hmove ih =>
      refine ih.tail ?_
      cases hmove with
      | instruction hrunning hstep => exact .instruction hrunning hstep
      | resume hresume => exact .resume hresume
      | finish hhalted hfinish =>
          obtain ⟨child, below₁, saved₁, hstands₁⟩ := Reaches.stands hrun hstands
          obtain ⟨parent, rest, rfl⟩ := hstands₁.below_of_finished hfinish
          obtain ⟨c', hdone, hfinishes⟩ := hstands₁.finishes (hstands₁.is_running.symm.trans hhalted)
          -- The interpreter knows one way to finish a frame only.
          cases hfinish.symm.trans hdone
          exact .finish hhalted hfinishes

namespace Context

variable {c c₁ c₂ : Context}

/-- In whatever order the changes of a child are met, it has the same result and the contexts it is
finished into are alike. -/
theorem Finishes.alike {child : Layer} {below : List Layer} {saved : List Contents}
    (h : Stands c child below saved) {r₁ r₂ : FinishedCall} (h₁ : c.Finishes r₁ c₁)
    (h₂ : c.Finishes r₂ c₂) : r₁ = r₂ ∧ c₁.Alike c₂ := by
  cases h₁ with
  | other hframes hplain hfinish =>
      cases h₂ with
      | other _ _ hfinish' =>
          cases hfinish.symm.trans hfinish'
          exact ⟨rfl, .refl _⟩
      | folded hframes' _ hkind hsuccess =>
          cases hframes.symm.trans hframes'
          exact absurd ⟨hkind, hsuccess⟩ hplain
  | @folded _ _ _ space v w hframes _ hkind hsuccess hspace hparent hfolds =>
      cases h₂ with
      | other hframes' hplain _ =>
          cases hframes.symm.trans hframes'
          exact absurd ⟨hkind, hsuccess⟩ hplain
      | folded hframes' _ _ _ hspace' hparent' hfolds' =>
          cases hframes.symm.trans hframes'
          cases hspace.symm.trans hspace'
          cases hparent.symm.trans hparent'
          cases below with
          | nil => cases hframes.symm.trans h.frames
          | cons parent below =>
              cases hframes.symm.trans h.frames
              obtain ⟨older, -, ⟨v', hget, -, hsaved⟩, -, -⟩ := h.own_of_kind hkind
              cases hget.symm.trans hparent
              -- The journals may differ, but both lead back to the copies that `saved` lists.
              have halike := hfolds.alike hsaved hfolds'
              exact ⟨rfl, rfl, rfl, rfl, rfl, Pool.rel_set_release hget halike _⟩

/-- In whatever order the changes of a root frame are met, the context they are committed in is the
same. -/
theorem Commits.unique {root : Frame} (h₁ : Commits root c c₁) (h₂ : Commits root c c₂) :
    c₁ = c₂ := by
  obtain ⟨hspace, hstorages, hcodes⟩ := h₁
  obtain ⟨hspace', hstorages', hcodes'⟩ := h₂
  cases hspace.symm.trans hspace'
  rw [World.commit_perm _ _ _ _ hstorages hcodes, World.commit_perm _ _ _ _ hstorages' hcodes']

/-- The interpreter commits a root frame in one of the orders. -/
theorem commit_root_commits {root : Frame} {w : Workspace}
    (hget : c.pool.get? root.home.cell = some w) :
    ∃ c', commitRoot root c = .ok () c' ∧ Commits root c c' := by
  have hmodify := Pool.modify_of_get .storage root.home
    (fun w : Workspace => ((w.storage.slots, w.pending.accounts), { w with pending := {} })) hget
  refine ⟨_, ?_, .mk hget (.refl _) (.refl _)⟩
  simp only [commitRoot, onPool, hmodify]

/-- The order in which the entries of maps are met leaves no trace. Two storages that have taken over the
same slots in different orders are alike: the slots agree, and they still do when a checkpoint is reverted
to or anything else is done to both. Wherever a run in any order has got from a single root frame, a halted
frame above another one can be finished, and whatever order is taken, the result is the same and so are the
frames, the world and what all workspaces hold; slots agree after any later operations, the reverting to
checkpoints that were open before the child was finished included. A root frame that is left alone can be
committed, with one context and one world as the outcome. -/
theorem order_irrelevant :
    (∀ (init : Slots) (ops : List Operation) (other : CleanStorage) (keys keys' : List Word)
      (entries entries' : List (Word × Word)),
      let s := Operation.run Storage.edit ops (.ofSlots init)
      keys.Perm (s.stale other) → keys'.Perm (s.stale other) →
      entries.Perm other.1.slots.toList → entries'.Perm other.1.slots.toList →
      (s.mergeIn keys entries).Alike (s.mergeIn keys' entries')) ∧
    ∀ (base : Context) (frameLimits limits : Limits) (slots : Slots) (code : Bytes) (gas : Nat)
      (call : CallData) (c : Context),
      AnyReaches limits ⟨base.launch frameLimits slots code gas call, none⟩ ⟨c, none⟩ →
      c.isRunning = false →
      (∀ child parent below, c.frames.toList = child :: parent :: below →
        (∃ c', c.finishChild = .ok child.finished c' ∧ c.Finishes child.finished c') ∧
        ∀ r₁ c₁ r₂ c₂, c.Finishes r₁ c₁ → c.Finishes r₂ c₂ → r₁ = r₂ ∧ c₁.Alike c₂) ∧
      (∀ root, c.frames.toList = [root] →
        (∃ c', commitRoot root c.popFrame.2 = .ok () c' ∧ Commits root c.popFrame.2 c') ∧
        ∀ c₁ c₂, Commits root c.popFrame.2 c₁ → Commits root c.popFrame.2 c₂ → c₁ = c₂) := by
  constructor
  · intro init ops other keys keys' entries entries' s hkeys hkeys' hentries hentries'
    obtain ⟨copies, hrecalls⟩ := Storage.recalls_run init ops
    exact hrecalls.merge_in_alike other.2 hkeys hkeys' hentries hentries'
  · intro base frameLimits limits slots code gas call c hrun hhalted
    obtain ⟨l, layers, saved, hstands⟩ := hrun.stands (launch_stands _ _ _ _ _ base)
    constructor
    · intro child parent below hframes
      cases layers with
      | nil => cases hframes.symm.trans hstands.frames
      | cons p layers =>
          cases hframes.symm.trans hstands.frames
          exact ⟨hstands.finishes (hstands.is_running.symm.trans hhalted),
            fun r₁ c₁ r₂ c₂ h₁ h₂ => Finishes.alike hstands h₁ h₂⟩
    · intro root hframes
      have htop : root = l.frame := (List.cons.inj (hframes.symm.trans hstands.frames)).1
      obtain ⟨w, hget, -⟩ := hstands.backed
      have hpop : c.popFrame.2 = { c with frames := c.frames.drop 1 } := by
        simp only [popFrame, hframes]
      rw [hpop]
      subst htop
      exact ⟨commit_root_commits hget, fun c₁ c₂ h₁ h₂ => h₁.unique h₂⟩

/-- Two slots that hold something. -/
def twoSlots : Slots :=
  (Std.ExtTreeMap.insert ∅ 1 1).insert 2 2

/-- A run in which an internal call of the root frame calls the account of the root frame, whose code
clears two slots. -/
def clearingCall : RunState where
  context := launch {} twoSlots
    ⟨#[0x61, 0xFF, 0xFF, 0x60, 7, 0xE3, 0, 0x5B, 0x60, 0, 0x60, 0, 0x60, 0, 0x60, 0, 0x60, 0, 0x60, 2,
      0x61, 0x80, 0, 0xF1]⟩ 100000
    (.transaction 1 2 0 ByteArray.empty)
    { txn := ⟨1, 0⟩
      world := World.setCode 2 ⟨#[0x60, 0, 0x60, 1, 0x55, 0x60, 0, 0x60, 2, 0x55, 0]⟩ {} }

/-- A context of its run, found by going forward and looking at the frames. -/
theorem clearing_call_reaches (n : Nat) (shown : List (Bool × Bool))
    (h : (clearingCall.advance? {} 0 n).any (fun s => s.finished == none &&
      s.context.frames.toList.map (fun f => (f.running, f.isSuccess)) == shown) = true) :
    ∃ c, AnyReaches {} clearingCall ⟨c, none⟩ ∧
      c.frames.toList.map (fun f => (f.running, f.isSuccess)) = shown := by
  obtain ⟨⟨c, finished⟩, hrun, hfacts⟩ := (Option.any_eq_true _ _).1 h
  simp only [Bool.and_eq_true, beq_iff_eq] at hfacts
  obtain ⟨rfl, hshown⟩ := hfacts
  exact ⟨c, Reaches.any (reaches_above_of_advance hrun).reaches (launch_stands _ _ _ _ _ _), hshown⟩

/-- The slots can be cleared in either order, which leaves different journals but no other trace: not in
the workspace of the root frame, and not in what is committed in the end. -/
theorem order_irrelevant_clearing_call :
    (let s := Operation.run Storage.edit [.checkpoint] (.ofSlots twoSlots)
     s.mergeIn [1, 2] [] ≠ s.mergeIn [2, 1] [] ∧
      (s.mergeIn [1, 2] []).Alike (s.mergeIn [2, 1] [])) ∧
    (∃ c child parent root, AnyReaches {} clearingCall ⟨c, none⟩ ∧
      c.frames.toList = [child, parent, root] ∧ child.isSuccess = true ∧
      (∃ c', c.Finishes child.finished c') ∧
      ∀ r₁ c₁ r₂ c₂, c.Finishes r₁ c₁ → c.Finishes r₂ c₂ → r₁ = r₂ ∧ c₁.Alike c₂) ∧
    ∃ c root, AnyReaches {} clearingCall ⟨c, none⟩ ∧
      c.frames.toList = [root] ∧ root.isSuccess = true ∧
      (∃ c', Commits root c.popFrame.2 c') ∧
      ∀ c₁ c₂, Commits root c.popFrame.2 c₁ → Commits root c.popFrame.2 c₂ → c₁ = c₂ := by
  refine ⟨?_, ?_, ?_⟩
  · refine ⟨by decide +kernel, ?_⟩
    exact order_irrelevant.1 twoSlots [.checkpoint] ⟨{}, Slots.no_zero_nonzero ∅⟩ [1, 2] [2, 1] [] []
      (by decide +kernel) (by decide +kernel) (.refl _) (.refl _)
  · obtain ⟨c, hrun, hshown⟩ := clearing_call_reaches 19
      [(false, true), (true, false), (true, false)] (by decide +kernel)
    obtain ⟨child, rest, hframes, hchild, hrest⟩ := List.map_eq_cons_iff.1 hshown
    obtain ⟨parent, last, rfl, -, hlast⟩ := List.map_eq_cons_iff.1 hrest
    obtain ⟨root, none, rfl, -, hnone⟩ := List.map_eq_cons_iff.1 hlast
    cases List.map_eq_nil_iff.1 hnone
    obtain ⟨hhalted, hsuccess⟩ := Prod.mk.inj hchild
    obtain ⟨⟨c', -, hfinishes⟩, halike⟩ :=
      (order_irrelevant.2 _ _ _ _ _ _ _ c hrun (by simp [isRunning, hframes, hhalted])).1 _ _ _ hframes
    exact ⟨c, child, parent, root, hrun, hframes, hsuccess, ⟨c', hfinishes⟩, halike⟩
  · obtain ⟨c, hrun, hshown⟩ := clearing_call_reaches 24 [(false, true)] (by decide +kernel)
    obtain ⟨root, none, hframes, hroot, hnone⟩ := List.map_eq_cons_iff.1 hshown
    cases List.map_eq_nil_iff.1 hnone
    obtain ⟨hhalted, hsuccess⟩ := Prod.mk.inj hroot
    obtain ⟨⟨c', -, hcommits⟩, hunique⟩ :=
      (order_irrelevant.2 _ _ _ _ _ _ _ c hrun (by simp [isRunning, hframes, hhalted])).2 _ hframes
    exact ⟨c, root, hrun, hframes, hsuccess, ⟨c', hcommits⟩, hunique⟩

end Context
end CallTree
