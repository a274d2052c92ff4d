import CallTree.Proofs.CreatePreimages

/-!
# Worlds that come about

A world is empty at first. It is then changed from outside and by the moves and the transactions of
contexts that hold it. What is proved about worlds whose slots hold no zero is proved about every world
that comes about in this way (`World.Made.no_zero`).
-/

namespace CallTree

/-! ## Runs -/

/-- No move touches the committed slots. -/
theorem Move.world_storage {limits : Limits} {s t : RunState} (h : Move limits s t) :
    t.context.world.storage = s.context.world.storage := by
  rw [h.moved.world]
  cases s.creator? limits <;> rfl

theorem Trail.world_storage {limits : Limits} {s t : RunState} {states : List RunState}
    (h : Trail limits s states t) : t.context.world.storage = s.context.world.storage := by
  induction h with
  | nil s => rfl
  | cons hmove _ ih => exact ih.trans hmove.world_storage

/-! ## Transactions -/

namespace Context

variable {c c' : Context} {root f : Frame} {outcome : Outcome}

/-- The run of a root frame leaves the committed slots alone. -/
theorem root_end_storage {limits : Limits} {states : List RunState} {world : World}
    (h : RootEnd limits c states f world) : world.storage = c.world.storage := by
  cases h with
  | halted _ htrail _ _ => exact htrail.world_storage
  | exhausted _ htrail _ _ => exact htrail.world_storage

/-- The conclusion of a root frame puts no zeros into the world. -/
theorem conclude_no_zero (h : conclude root c = some (outcome, c')) (hworld : c.world.NoZero) :
    c'.world.NoZero := by
  rcases conclude_cases h with ⟨_, rfl, _⟩ | ⟨_, e, hrefused, _⟩ | ⟨_, hcommit, _⟩
  · exact hworld
  · rw [(commit_root_error hrefused).1]
    exact hworld
  · obtain ⟨_, slots, storages, codes, hafter⟩ := commit_root_inv hcommit
    rw [hafter]
    exact hworld.commit root slots storages codes

/-- A transaction puts no zeros into the world, whether or not it succeeds. -/
theorem execute_no_zero (h : c.execute root = some (outcome, c')) (hworld : c.world.NoZero) :
    c'.world.NoZero := by
  rcases execute_ends h with
    ⟨_, hsame, _⟩ | ⟨c₀, states, f, c₁, c₂, hstarts, hend, _, hconclude, rfl⟩
  · rw [hsame]
    exact hworld
  · have hstart : c₀.world = c.world := (push_seeded_frames hstarts.2).2.1
    have hrun : c₁.world.NoZero :=
      hworld.of_storage ((root_end_storage hend).trans (congrArg World.storage hstart))
    show c₂.world.NoZero
    exact conclude_no_zero hconclude hrun

end Context

/-! ## All worlds -/

namespace World

/-- The worlds that come about. -/
inductive Made : World → Prop
  /-- An empty world, with any digest. -/
  | new (digest : Bytes → Bytes) : Made { digest := digest }
  /-- A change from outside. -/
  | edit {w : World} (h : Made w) (e : WorldEdit) : Made (w.edit e)
  /-- A move of a run. -/
  | move {limits : Limits} {s t : RunState} (h : Made s.context.world) (hmove : Move limits s t) :
      Made t.context.world
  /-- A whole transaction. -/
  | execute {c c' : Context} {root : Frame} {outcome : Outcome} (h : Made c.world)
      (hexecute : c.execute root = some (outcome, c')) : Made c'.world

/-- A change from outside puts no zeros into the world. -/
theorem NoZero.edit {w : World} (h : w.NoZero) (e : WorldEdit) : (w.edit e).NoZero := by
  cases e with
  | create creator => exact h
  | deploy address code => exact h.set_code address code
  | store address key value => exact h.store address key value
  | setStorage address slots => exact h.set_storage address slots

/-- The committed slots of a world that comes about hold no zero. -/
theorem Made.no_zero {w : World} (h : Made w) : w.NoZero := by
  induction h with
  | new digest => exact no_zero_empty.of_storage rfl
  | edit _ e ih => exact ih.edit e
  | move _ hmove ih => exact ih.of_storage hmove.world_storage
  | execute _ hexecute ih => exact Context.execute_no_zero hexecute ih

end World
end CallTree
