import CallTree.Proofs.Cells
import CallTree.Proofs.Footprints

/-!
# The call stack as a pile of layers

A layer is a frame with the contents it has at hand. The topmost frame works on its workspace
right now; a frame below it has the contents it was left with when the frame above was opened.
For a frame that waits for an internal call these contents are no longer in any container: the
internal call works on the same workspace, and only the checkpoints remember them.

`Chain` ties the layers of a call stack to the workspaces of a pool and `Stands` to a context.
The pool is read only where the chain says (`Chain.congr_pool`), so what is done in the topmost
workspace leaves all layers below alone (`Stands.put_top`).
-/

namespace CallTree

/-- A frame with the contents it has at hand. -/
structure Layer where
  /-- The frame. -/
  frame : Frame
  /-- What it sees of its workspace. -/
  contents : Contents

namespace Layer

/-- The number of the workspace. -/
def cell (l : Layer) : Nat :=
  l.frame.home.cell

/-- The account that is run. -/
def contract (l : Layer) : Address :=
  l.frame.call.contract

/-- The workspace of the layer holds its contents, and the listed copies can be brought back. -/
def Backed (pool : Pool Workspace) (l : Layer) (saved : List Contents) : Prop :=
  ∃ w, pool.get? l.cell = some w ∧ w.contents = l.contents ∧ w.Recalls saved

end Layer

/-- The layers of a call stack, the topmost apart, on the workspaces of a pool. The list at the end
holds what the checkpoints on the topmost workspace remember: the contents of the frames that wait
for an internal call on it. -/
inductive Chain (pool : Pool Workspace) : Layer → List Layer → List Contents → Prop
  /-- The frame at the bottom has a workspace of its own. -/
  | root {l : Layer} (hhome : l.frame.home.isOwned = true) (hmarks : l.frame.marks = none) :
      Chain pool l [] []
  /-- An internal call shares the workspace of the frame below and runs the same account. -/
  | internal {l parent : Layer} {below : List Layer} {saved : List Contents}
      (hbelow : Chain pool parent below saved) (hrunning : parent.frame.running = true)
      (hhome : l.frame.home = parent.frame.home.share) (hkind : l.frame.call.kind = .internal)
      (hcontract : l.contract = parent.contract) (hcreation : l.frame.creation = false)
      (hmarks : l.frame.marks = some (.level saved.length)) :
      Chain pool l (parent :: below) (parent.contents :: saved)
  /-- Any other call has a workspace of its own, which no frame below has. -/
  | own {l parent : Layer} {below : List Layer} {saved : List Contents}
      (hbelow : Chain pool parent below saved) (hrunning : parent.frame.running = true)
      (hbacked : parent.Backed pool saved)
      (hhome : l.frame.home.isOwned = true) (hkind : l.frame.call.kind ≠ .internal)
      (hmarks : l.frame.marks = none) (hfresh : ∀ m ∈ parent :: below, m.cell ≠ l.cell) :
      Chain pool l (parent :: below) []

namespace Chain

variable {pool pool' : Pool Workspace} {l l' : Layer} {below : List Layer} {saved : List Contents}

/-- Only what was settled when the topmost frame was opened matters. -/
theorem retop (h : Chain pool l below saved) (hsite : l'.frame.site = l.frame.site) :
    Chain pool l' below saved := by
  have hcall : l'.frame.call = l.frame.call := congrArg Site.call hsite
  have hcreation : l'.frame.creation = l.frame.creation := congrArg Site.creation hsite
  have hhome : l'.frame.home = l.frame.home := congrArg Site.home hsite
  have hmarks : l'.frame.marks = l.frame.marks := congrArg Site.marks hsite
  have hcell : l'.cell = l.cell := congrArg Handle.cell hhome
  have hcontract : l'.contract = l.contract := congrArg CallData.contract hcall
  cases h with
  | root howned hnone => exact .root (hhome ▸ howned) (hmarks ▸ hnone)
  | internal hbelow hrun hshare hkind hsame hplain hlevel =>
      exact .internal hbelow hrun (hhome ▸ hshare) (hcall ▸ hkind) (hcontract ▸ hsame)
        (hcreation ▸ hplain) (hmarks ▸ hlevel)
  | own hbelow hrun hbacked howned hkind hnone hfresh =>
      exact .own hbelow hrun hbacked (hhome ▸ howned) (hcall ▸ hkind) (hmarks ▸ hnone)
        (hcell ▸ hfresh)

/-- The topmost workspace does not matter to the chain, nor do those of other call stacks. -/
theorem congr_pool (h : Chain pool l below saved)
    (hkeep : ∀ m ∈ below, ∀ w, m.cell ≠ l.cell → pool.get? m.cell = some w →
      pool'.get? m.cell = some w) :
    Chain pool' l below saved := by
  induction h with
  | root howned hnone => exact .root howned hnone
  | @internal l parent below saved hbelow hrun hshare hkind hsame hplain hlevel ih =>
      have hcell : l.cell = parent.cell := by rw [Layer.cell, hshare]; rfl
      refine .internal (ih fun m hm w hne hget => ?_) hrun hshare hkind hsame hplain hlevel
      exact hkeep m (by simp [hm]) w (hcell ▸ hne) hget
  | @own l parent below saved hbelow hrun hbacked howned hkind hnone hfresh ih =>
      -- The cell of the topmost frame is fresh, so it is none of those below.
      have hbelow' := ih fun m hm w _ hget =>
        hkeep m (by simp [hm]) w (hfresh m (by simp [hm])) hget
      obtain ⟨w, hget, hcontents, hsaved⟩ := hbacked
      have hget' := hkeep parent (by simp) w (hfresh parent (by simp)) hget
      exact .own hbelow' hrun ⟨w, hget', hcontents, hsaved⟩ howned hkind hnone hfresh

/-- Every frame that waits is running. -/
theorem running_below (h : Chain pool l below saved) : ∀ m ∈ below, m.frame.running = true := by
  induction h with
  | root => simp
  | internal _ hrun _ _ _ _ _ ih => exact List.forall_mem_cons.2 ⟨hrun, ih⟩
  | own _ hrun _ _ _ _ _ ih => exact List.forall_mem_cons.2 ⟨hrun, ih⟩

/-- The workspace of every frame that waits is in use. -/
theorem live_below (h : Chain pool l below saved) (hlive : (pool.get? l.cell).isSome) :
    ∀ m ∈ below, (pool.get? m.cell).isSome := by
  induction h with
  | root => simp
  | @internal l parent _ _ _ _ hshare _ _ _ _ ih =>
      have hcell : l.cell = parent.cell := by rw [Layer.cell, hshare]; rfl
      have hparent : (pool.get? parent.cell).isSome := hcell ▸ hlive
      exact List.forall_mem_cons.2 ⟨hparent, ih hparent⟩
  | @own _ parent _ _ _ _ hbacked _ _ _ _ ih =>
      obtain ⟨w, hget, _, _⟩ := hbacked
      have hparent : (pool.get? parent.cell).isSome := by rw [hget]; rfl
      exact List.forall_mem_cons.2 ⟨hparent, ih hparent⟩

end Chain

/-- The call stack of a context consists of the given layers. -/
structure Stands (c : Context) (l : Layer) (below : List Layer) (saved : List Contents) :
    Prop where
  frames : c.frames.toList = l.frame :: below.map (·.frame)
  chain : Chain c.pool l below saved
  backed : l.Backed c.pool saved

/-- Nothing has changed but the workspaces in the listed cells, those that were not in use, and
the number of contracts that an account has created. -/
structure Confined (cells : List Nat) (c c' : Context) : Prop where
  pool : ∀ cell w, cell ∉ cells → c.pool.get? cell = some w → c'.pool.get? cell = some w
  storage : c'.world.storage = c.world.storage
  code : c'.world.code = c.world.code

namespace Confined

variable {cells more : List Nat} {c c' c'' : Context}

theorem refl (c : Context) : Confined cells c c :=
  ⟨fun _ _ _ h => h, rfl, rfl⟩

theorem trans (h : Confined cells c c') (h' : Confined cells c' c'') : Confined cells c c'' :=
  ⟨fun cell w hcell hget => h'.pool cell w hcell (h.pool cell w hcell hget),
    h'.storage.trans h.storage, h'.code.trans h.code⟩

/-- More cells allow more. -/
theorem mono (h : Confined cells c c') (hsub : ∀ cell ∈ cells, cell ∈ more) : Confined more c c' :=
  ⟨fun cell w hcell => h.pool cell w fun hmem => hcell (hsub cell hmem), h.storage, h.code⟩

end Confined

namespace Context

/-- Gives the topmost frame and its workspace a new state. -/
def putTop (f : Frame) (w : Workspace) (c : Context) : Context :=
  { c with frames := (c.frames.drop 1).push f, pool := c.pool.set f.home.cell w }

end Context

namespace Stands

variable {c : Context} {l : Layer} {below : List Layer} {saved : List Contents} {α : Type}

/-- The depth counts all layers. -/
theorem depth_eq (h : Stands c l below saved) : c.depth = below.length + 1 := by
  show c.frames.size = below.length + 1
  rw [c.frames.size_eq, h.frames]
  simp

theorem top_eq (h : Stands c l below saved) : c.top = .ok l.frame := by
  simp [Context.top, h.frames]

/-- The workspace of every layer is in use. -/
theorem live (h : Stands c l below saved) : ∀ m ∈ l :: below, ∃ w, c.pool.get? m.cell = some w := by
  obtain ⟨w, hget, _, _⟩ := h.backed
  refine List.forall_mem_cons.2 ⟨⟨w, hget⟩, fun m hm => ?_⟩
  exact Option.isSome_iff_exists.1 (h.chain.live_below (by rw [hget]; rfl) m hm)

theorem is_running (h : Stands c l below saved) : c.isRunning = l.frame.running := by
  simp [Context.isRunning, h.frames]

/-- A context with a new state of the topmost layer, in which no other workspace has changed. -/
theorem transfer (h : Stands c l below saved) {c' : Context} {l' : Layer}
    (hframes : c'.frames.toList = l'.frame :: below.map (·.frame))
    (hsite : l'.frame.site = l.frame.site) (hbacked : l'.Backed c'.pool saved)
    (hconfined : Confined [l.cell] c c') : Stands c' l' below saved := by
  refine ⟨hframes, (h.chain.congr_pool fun m _ w hne hget => ?_).retop hsite, hbacked⟩
  exact hconfined.pool m.cell w (by simpa using hne) hget

/-- A new state of the topmost frame and its workspace. -/
theorem put_top (h : Stands c l below saved) {f : Frame} {w : Workspace}
    (hsite : f.site = l.frame.site) (hsaved : w.Recalls saved) :
    Stands (c.putTop f w) ⟨f, w.contents⟩ below saved ∧ Confined [l.cell] c (c.putTop f w) := by
  have hcell : f.home.cell = l.cell := Frame.cell_of_site hsite
  obtain ⟨old, hold, _, _⟩ := h.backed
  have hconfined : Confined [l.cell] c (c.putTop f w) := by
    refine ⟨fun cell v hother hget => ?_, rfl, rfl⟩
    have hne : f.home.cell ≠ cell := by
      intro he
      exact hother (by simp [← he, hcell])
    show (c.pool.set f.home.cell w).get? cell = some v
    rw [Pool.get_set_other _ _ hne]
    exact hget
  refine ⟨h.transfer ?_ hsite ⟨w, ?_, rfl, hsaved⟩ hconfined, hconfined⟩
  · simp [Context.putTop, h.frames]
  · exact Pool.get_set_same (hcell.symm ▸ hold)

/-- A change to the topmost frame alone. -/
theorem update_top (h : Stands c l below saved) {g : Frame → Frame}
    (hsite : (g l.frame).site = l.frame.site) :
    Stands (c.updateTop g) ⟨g l.frame, l.contents⟩ below saved ∧
      Confined [l.cell] c (c.updateTop g) := by
  obtain ⟨⟨frames, size, hsize⟩, pool, txn, world, own⟩ := c
  obtain ⟨hframes, hchain, w, hget, hcontents, hsaved⟩ := h
  cases hframes
  have hcell : (g l.frame).home.cell = l.cell := Frame.cell_of_site hsite
  refine ⟨⟨rfl, hchain.retop hsite, w, ?_, hcontents, hsaved⟩, fun _ _ _ hold => hold, rfl, rfl⟩
  show pool.get? (g l.frame).home.cell = some w
  rw [hcell]
  exact hget

/-- An action in the topmost frame, whether it is completed or refused. What it has done before a
refusal stays done. -/
theorem on_top_eq (h : Stands c l below saved) {v w : Workspace} {f : Frame} {act : Exec α}
    (hget : c.pool.get? l.cell = some v) (hhome : f.home = l.frame.home)
    (hafter : Action.after act ⟨l.frame, some v⟩ = ⟨f, some w⟩) :
    Context.onTop act c =
      match act ⟨l.frame, some v⟩ with
      | .ok r _ => .ok r (c.putTop f w)
      | .error e _ => .error e (c.putTop f w) := by
  obtain ⟨⟨frames, size, hsize⟩, pool, txn, world, own⟩ := c
  cases h.frames
  have hspace : pool.get? l.frame.home.cell = some v := hget
  have hpile : (⟨f :: below.map (·.frame), size, hsize⟩ : Pile Frame) =
      (Pile.drop 1 ⟨l.frame :: below.map (·.frame), size, hsize⟩).push f := Pile.ext rfl
  cases hact : act ⟨l.frame, some v⟩ with
  | ok r b =>
      rw [Action.after_ok hact] at hafter
      simp only [Context.onTop, Exec.inPool, hspace, hact, hafter, Option.elim_some,
        Pool.set_free_same, Context.putTop, hhome, hpile]
  | error e b =>
      rw [Action.after_error hact] at hafter
      simp only [Context.onTop, Exec.inPool, hspace, hact, hafter, Option.elim_some,
        Pool.set_free_same, Context.putTop, hhome, hpile]

/-- An action that keeps to its parts gives the topmost frame and its workspace a new state,
whether it is completed or refused. The layers below stay as they are. -/
theorem on_top (h : Stands c l below saved) (act : Exec α) (parts : List Part)
    (hwithin : ∀ v, Touches parts ⟨l.frame, some v⟩ (Action.after act ⟨l.frame, some v⟩)) :
    ∃ v w f, c.pool.get? l.cell = some v ∧ v.contents = l.contents ∧
      Touches parts ⟨l.frame, some v⟩ ⟨f, some w⟩ ∧
      Stands (c.putTop f w) ⟨f, w.contents⟩ below saved ∧ Confined [l.cell] c (c.putTop f w) ∧
      ((∃ r, act ⟨l.frame, some v⟩ = .ok r ⟨f, some w⟩ ∧
          Context.onTop act c = .ok r (c.putTop f w)) ∨
        ∃ e, act ⟨l.frame, some v⟩ = .error e ⟨f, some w⟩ ∧
          Context.onTop act c = .error e (c.putTop f w)) := by
  obtain ⟨v, hget, hcontents, hsaved⟩ := h.backed
  obtain ⟨w, hspace, hsaved'⟩ := (hwithin v).recalls rfl hsaved
  have hsite := (hwithin v).site_eq
  have htouches := hwithin v
  obtain ⟨f, s, hafter⟩ : ∃ f s, Action.after act ⟨l.frame, some v⟩ = ⟨f, s⟩ := ⟨_, _, rfl⟩
  rw [hafter] at htouches hspace hsite
  cases hspace
  obtain ⟨hstands, hconfined⟩ := h.put_top hsite hsaved'
  refine ⟨v, w, f, hget, hcontents, htouches, hstands, hconfined, ?_⟩
  rw [h.on_top_eq hget (congrArg Site.home hsite) hafter]
  cases hact : act ⟨l.frame, some v⟩ with
  | ok r b =>
      rw [Action.after_ok hact] at hafter
      exact .inl ⟨r, by rw [hafter], rfl⟩
  | error e b =>
      rw [Action.after_error hact] at hafter
      exact .inr ⟨e, by rw [hafter], rfl⟩

end Stands
end CallTree
