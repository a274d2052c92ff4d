import CallTree.Proofs.LayerMoves

/-!
# Frames that wait

`Context.launch` is where a run starts: a single root frame with a new workspace. The call stack
of every context that a run reaches stands on its workspaces in layers (`Reaches.stands`). As long
as a run stays above a floor, the layers below the floor are exactly what they were
(`Stands.run_above`), whatever the frames above do.
-/

namespace CallTree

namespace Context

/-- A call stack with a single root frame on it, which has a new workspace with the given slots. -/
def launch (limits : Limits) (slots : Slots) (code : Bytes) (gas : Nat) (call : CallData)
    (base : Context) : Context :=
  let (root, c) := base.newFrame limits (.ofSlots slots) code gas call
  { c with frames := .ofList [root] }

/-- It stands on a single layer. -/
theorem launch_stands (limits : Limits) (slots : Slots) (code : Bytes) (gas : Nat) (call : CallData)
    (base : Context) :
    Stands (base.launch limits slots code gas call)
      ⟨.new code gas call (.owned base.pool.cells.size), .fresh slots.nonzero⟩ [] [] := by
  refine ⟨rfl, .root rfl rfl, _, Pool.get_alloc_same _ _, rfl, rfl, ?_, ?_, rfl⟩
  · exact Memory.recalls_with_limit _
  · exact Storage.recalls_of_slots _

end Context

/-- The shape of a change: the topmost frame goes on, another is put on top of it, or it is taken
off. -/
theorem Change.shape {world : World} {event : Event} {l l' : Layer} {below below' : List Layer}
    (h : Change world event (l :: below) (l' :: below')) :
    (below' = below ∧ l'.frame.site = l.frame.site) ∨
    (∃ parent, below' = parent :: below ∧ parent.frame.site = l.frame.site) ∨
    ∃ parent, below = parent :: below' ∧ l'.frame.site = parent.frame.site := by
  cases h with
  | quiet hsame => exact .inl ⟨rfl, hsame.site⟩
  | load key hsame => exact .inl ⟨rfl, hsame.site⟩
  | store key value hsite => exact .inl ⟨rfl, hsite⟩
  | enterInternal hcalls => exact .inr (.inl ⟨_, rfl, hcalls.site⟩)
  | enterOwn hsame => exact .inr (.inl ⟨_, rfl, hsame.site⟩)
  | leave => exact .inr (.inr ⟨_, rfl, Frame.site_learn _ _⟩)
  | rollback => exact .inr (.inr ⟨_, rfl, Frame.site_learn _ _⟩)

/-- The topmost workspace is that of the frame below or one that no frame below has. -/
theorem Chain.cell_cases {pool : Pool Workspace} {l parent : Layer} {below : List Layer}
    {saved : List Contents} (h : Chain pool l (parent :: below) saved) :
    l.cell = parent.cell ∨ ∀ m ∈ parent :: below, m.cell ≠ l.cell := by
  cases h with
  | internal _ _ hshare =>
      refine .inl ?_
      rw [Layer.cell, hshare]
      rfl
  | own _ _ _ _ _ _ hfresh => exact .inr hfresh

namespace Stands

variable {limits : Limits} {s t : RunState} {c c' : Context} {l : Layer}
  {below upper lower : List Layer} {saved : List Contents}

/-- The limits of all workspaces are what they were where the topmost one has its own. -/
theorem limit_kept (h : Stands c l below saved) (hconfined : Confined [l.cell] c c')
    (hlimit : c'.operandLimit? l.cell = c.operandLimit? l.cell) :
    ∀ m ∈ l :: below, c'.operandLimit? m.cell = c.operandLimit? m.cell := by
  intro m hm
  -- Layers of internal calls share their workspace, so `m` need not be the topmost one here.
  by_cases hsame : m.cell = l.cell
  · rw [hsame]
    exact hlimit
  · obtain ⟨w, hget⟩ := h.live m hm
    have hbefore := Context.operand_limit_eq hget
    exact (hconfined.operand_limit (by simpa using hsame) hbefore).trans hbefore.symm

/-- Once a child is finished, the workspaces below it have the limits that they had. -/
theorem limit_below {child parent : Layer} (h : Stands c child (parent :: below) saved)
    (hconfined : Confined [child.cell, parent.cell] c c')
    (hlimit : c'.operandLimit? parent.cell = c.operandLimit? parent.cell) :
    ∀ m ∈ parent :: below, c'.operandLimit? m.cell = c.operandLimit? m.cell := by
  intro m hm
  by_cases hsame : m.cell = parent.cell
  · rw [hsame]
    exact hlimit
  · -- This workspace is neither that of the parent nor one that only the child had.
    have hother : m.cell ≠ child.cell := by
      rcases h.chain.cell_cases with hchild | hfresh
      · rw [hchild]
        exact hsame
      · exact hfresh m hm
    obtain ⟨w, hget⟩ := h.live m (List.mem_cons_of_mem _ hm)
    have hbefore := Context.operand_limit_eq hget
    exact (hconfined.operand_limit (by simp [hsame, hother]) hbefore).trans hbefore.symm

/-- A move above a floor leaves the layers below it as they are. The frame right above the floor is
still the same one. The workspaces above are those that were there before, or one that no layer
below has. -/
theorem move_above (h : Stands s.context l (upper ++ lower) saved) (hmove : Move limits s t)
    (hfloor : lower.length < t.context.depth) :
    ∃ l' upper' saved', Stands t.context l' (upper' ++ lower) saved' ∧
      Confined [l.cell, l'.cell] s.context t.context ∧
      ((l' :: upper').map (·.frame.site)).getLast? = ((l :: upper).map (·.frame.site)).getLast? ∧
      ∀ m ∈ l' :: upper', m.cell ∈ (l :: upper).map (·.cell) ∨ ∀ n ∈ lower, n.cell ≠ m.cell := by
  obtain ⟨l', below', saved', hstands, hchange, hconfined⟩ := h.move hmove
  rw [hstands.depth_eq] at hfloor
  rcases hchange.shape with ⟨rfl, hsite⟩ | ⟨parent, rfl, hsite⟩ | ⟨parent, hbelow, hsite⟩
  · refine ⟨l', upper, saved', hstands, hconfined, by simp [hsite], fun m hm => .inl ?_⟩
    have hcell : l'.cell = l.cell := Frame.cell_of_site hsite
    rcases List.mem_cons.1 hm with rfl | hm
    · simp [hcell]
    · exact List.mem_map_of_mem (List.mem_cons_of_mem _ hm)
  · refine ⟨l', parent :: upper, saved', hstands, hconfined, by simp [hsite], fun m hm => ?_⟩
    have hcell : parent.cell = l.cell := Frame.cell_of_site hsite
    rcases List.mem_cons.1 hm with rfl | hm
    · rcases hstands.chain.cell_cases with hsame | hfresh
      · exact .inl (by simp [hsame, hcell])
      · exact .inr fun n hn => hfresh n (by simp [hn])
    · rcases List.mem_cons.1 hm with rfl | hm
      · exact .inl (by simp [hcell])
      · exact .inl (List.mem_map_of_mem (List.mem_cons_of_mem _ hm))
  · have hcell : l'.cell = parent.cell := Frame.cell_of_site hsite
    cases upper with
    | nil =>
        -- The floor itself would have gone down.
        rw [List.nil_append] at hbelow
        rw [hbelow, List.length_cons] at hfloor
        exact absurd hfloor (Nat.lt_irrefl _)
    | cons first upper =>
        cases hbelow
        refine ⟨l', upper, saved', hstands, hconfined, by simp [hsite], fun m hm => .inl ?_⟩
        rcases List.mem_cons.1 hm with rfl | hm
        · simp [hcell]
        · exact List.mem_map_of_mem (List.mem_cons_of_mem _ (List.mem_cons_of_mem _ hm))

/-- With a single frame above the floor there is nothing in between. -/
theorem upper_eq_nil {c : Context} (h : Stands c l (upper ++ lower) saved)
    (hdepth : c.depth = lower.length + 1) : upper = [] := by
  rw [h.depth_eq, List.length_append] at hdepth
  exact List.eq_nil_of_length_eq_zero (by omega)

/-- As long as a run stays above a floor, the layers below it are what they were, and the frame
right above it is the same one. -/
theorem run_above (h : Stands s.context l (upper ++ lower) saved)
    (hrun : ReachesAbove limits lower.length s t) :
    ∃ l' upper' saved', Stands t.context l' (upper' ++ lower) saved' ∧
      ((l' :: upper').map (·.frame.site)).getLast? =
        ((l :: upper).map (·.frame.site)).getLast? := by
  induction hrun with
  | refl => exact ⟨l, upper, saved, h, rfl⟩
  | tail _ hlast ih =>
      obtain ⟨l₁, upper₁, saved₁, hstands, hfirst⟩ := ih
      obtain ⟨l', upper', saved', hstands', _, hfirst', _⟩ := hstands.move_above hlast.1 hlast.2
      exact ⟨l', upper', saved', hstands', hfirst'.trans hfirst⟩

end Stands

/-- Every context that a run reaches stands on its workspaces in layers. -/
theorem Reaches.stands {limits : Limits} {s t : RunState} (h : Reaches limits s t) {l : Layer}
    {below : List Layer} {saved : List Contents} (hstands : Stands s.context l below saved) :
    ∃ l' below' saved', Stands t.context l' below' saved' := by
  induction h with
  | refl => exact ⟨l, below, saved, hstands⟩
  | tail _ hmove ih =>
      obtain ⟨l₁, below₁, saved₁, hstands₁⟩ := ih
      obtain ⟨l', below', saved', hstands', _⟩ := hstands₁.move hmove
      exact ⟨l', below', saved', hstands'⟩

/-- A move that opens a frame puts a layer on top of the one that was topmost. -/
theorem Stands.opened {limits : Limits} {s t : RunState} {l : Layer} {below : List Layer}
    {saved : List Contents} (h : Stands s.context l below saved) (hmove : Move limits s t)
    (hdepth : t.context.depth = s.context.depth + 1) :
    ∃ child parent saved', Stands t.context child (parent :: below) saved' ∧
      Change s.context.world (s.event limits) (l :: below) (child :: parent :: below) := by
  obtain ⟨child, below', saved', hstands, hchange, _⟩ := h.move hmove
  rw [h.depth_eq, hstands.depth_eq] at hdepth
  rcases hchange.shape with ⟨rfl, _⟩ | ⟨parent, rfl, _⟩ | ⟨parent, rfl, _⟩
  · omega
  · exact ⟨child, parent, saved', hstands, hchange⟩
  · rw [List.length_cons] at hdepth
    omega

/-- The caller of an internal call waits on what it was left with when its two operands were
taken. -/
theorem Stands.opened_internal {limits : Limits} {s t : RunState} {l : Layer} {below : List Layer}
    {saved : List Contents} (h : Stands s.context l below saved) (hmove : Move limits s t)
    (hdepth : t.context.depth = s.context.depth + 1) :
    ∃ child parent saved', Stands t.context child (parent :: below) saved' ∧
      (child.frame.call.kind = .internal → l.Calls parent) := by
  obtain ⟨child, parent, saved', hstands, hchange⟩ := h.opened hmove hdepth
  refine ⟨child, parent, saved', hstands, fun hkind => ?_⟩
  generalize s.event limits = event at hchange
  cases hchange with
  | enterInternal hcalls => exact hcalls
  | enterOwn _ hother => exact absurd hkind hother

end CallTree
