import CallTree.Proofs.MemoryCopies
import CallTree.Proofs.Waiting
import CallTree.Proofs.Workspaces

/-!
# How large memories get

The limit of a memory is tested against the end of a region, but a memory grows by whole words. So it
may exceed its limit by the rest of the last word: it never has more bytes than the words that cover the
limit (`Reached.size_le`), and it can have that many (`exists_full`).

Every memory of a run is one that operations lead to from an empty memory (`Reaches.memory_reached`), so
the same bound holds of all of them, and of what is put on the stack for the size of one
(`Context.run_memory_le`).
-/

namespace CallTree

namespace Memory

/-! ## Memories that operations lead to -/

/-- Operations lead to the memory from an empty one with the given limit. -/
def Reached (limit : Nat) (m : Memory) : Prop :=
  ∃ ops, m = Operation.run edit ops (withLimit limit)

namespace Reached

variable {limit : Nat} {m m' : Memory}

theorem with_limit (limit : Nat) : (withLimit limit).Reached limit :=
  ⟨[], rfl⟩

/-- One more operation. -/
theorem perform (h : m.Reached limit) (op : Operation) : (op.perform edit m).Reached limit := by
  obtain ⟨ops, rfl⟩ := h
  refine ⟨ops ++ [op], ?_⟩
  unfold Operation.run
  rw [List.foldl_append]
  rfl

theorem act {e : Edit} {added : Nat} (h : m.Reached limit) (hact : e.act m = .ok added m') :
    m'.Reached limit := by
  have hedit : Operation.perform edit (.edit e) m = m' := Action.after_ok hact
  rw [← hedit]
  exact h.perform (.edit e)

theorem checkpoint (h : m.Reached limit) : (Checkpointed.checkpoint m).2.Reached limit :=
  h.perform .checkpoint

theorem settle (h : m.Reached limit) (keep : Bool) (handle : Nat) :
    (CallTree.settle keep handle m).Reached limit := by
  cases keep with
  | true => exact h.perform (.commit handle)
  | false => exact h.perform (.revertTo handle)

end Reached

/-! ## Bounds -/

/-- The limit of the memory is the given one, and neither its length nor one noted at an open
checkpoint is more than the words that cover it. -/
structure Covered (limit : Nat) (m : Memory) : Prop where
  limit_eq : m.limit = limit
  size_le : m.size ≤ wordsFor limit * 32
  notes_le : ∀ mark ∈ m.journal.marks.toList, mark.note ≤ wordsFor limit * 32

/-- A memory grows to no more than the words that cover its limit. -/
theorem size_expand_le {m m' : Memory} {offset size added : Nat}
    (h : expand offset size m = .ok added m') : m'.size ≤ max m.size (wordsFor m.limit * 32) := by
  unfold expand at h
  split at h
  · cases h
    exact Nat.le_max_left _ _
  · split at h
    · cases h
    · split at h
      · cases h
        exact Nat.le_max_left _ _
      · split at h
        · cases h
        · rename_i hlimit
          cases hfit : fit? (wordsFor (offset + size) * 32) with
          | none => simp [hfit] at h
          | some newSize =>
              simp only [hfit] at h
              cases h
              obtain ⟨_, rfl⟩ := fit?_eq_some_iff.1 hfit
              have hwords : wordsFor (offset + size) ≤ wordsFor m.limit :=
                Nat.div_le_div_right (by omega)
              rw [Memory.size, Bytes.size_extendZeros]
              unfold Memory.size
              omega

namespace Covered

variable {limit : Nat} {m m' : Memory}

theorem with_limit (limit : Nat) : (withLimit limit).Covered limit where
  limit_eq := rfl
  size_le := Nat.zero_le _
  notes_le := by intro mark hmark; exact nomatch hmark

theorem expand {offset size added : Nat} (h : m.Covered limit)
    (hexpand : expand offset size m = .ok added m') : m'.Covered limit := by
  have hsize := size_expand_le hexpand
  obtain ⟨n, rfl, _⟩ := expand_cases hexpand
  refine ⟨h.limit_eq, Nat.le_trans hsize ?_, h.notes_le⟩
  rw [h.limit_eq]
  exact Nat.max_le.2 ⟨h.size_le, Nat.le_refl _⟩

theorem write {offset added : Nat} {part : Bytes} (h : m.Covered limit)
    (hwrite : write offset part m = .ok added m') : m'.Covered limit := by
  unfold Memory.write at hwrite
  split at hwrite
  · cases hwrite
    exact h
  · rename_i hpart
    cases hexpand : Memory.expand offset part.size m with
    | error e grown => simp [hexpand] at hwrite
    | ok count grown =>
        simp only [hexpand] at hwrite
        cases hwrite
        obtain ⟨_, _, hinside⟩ := expand_cases hexpand
        obtain ⟨hlimit, hsize, hnotes⟩ := h.expand hexpand
        refine ⟨hlimit, ?_, ?_⟩
        · show (grown.data.splice offset part).size ≤ _
          rw [Bytes.size_splice (hinside hpart).1]
          exact hsize
        · intro mark hmark
          refine hnotes mark ?_
          simp only [Journal.record] at hmark
          split at hmark
          · exact hmark
          · exact hmark

theorem act {e : Edit} {added : Nat} (h : m.Covered limit) (hdone : e.act m = .ok added m') :
    m'.Covered limit := by
  obtain ⟨offset, size, hact⟩ | ⟨offset, part, hact⟩ := e.act_eq
  · rw [hact] at hdone
    exact h.expand hdone
  · rw [hact] at hdone
    exact h.write hdone

/-- Reverting cuts the bytes to a length that was noted. -/
theorem revert_to (h : m.Covered limit) (handle : Nat) :
    (Checkpointed.revertTo handle m).Covered limit := by
  obtain ⟨limit, data, journal⟩ := m
  simp only [Checkpointed.revertTo]
  cases hmark : journal.mark? handle with
  | none => exact h
  | some mark =>
      refine ⟨h.limit_eq, ?_, fun mark hmark => h.notes_le mark (Pile.mem_of_keep hmark)⟩
      show ByteArray.size (Bytes.takeFirst _ mark.note) ≤ _
      rw [Bytes.size_take_first]
      exact Nat.le_trans (Nat.min_le_left _ _) (h.notes_le mark (Pile.mem_from_bottom hmark))

theorem commit (h : m.Covered limit) (handle : Nat) :
    (Checkpointed.commit handle m).Covered limit := by
  refine ⟨h.limit_eq, h.size_le, ?_⟩
  show ∀ mark ∈ (m.journal.commitFrom handle).marks.toList, mark.note ≤ _
  simp only [Journal.commitFrom]
  split
  · simp [Pile.empty]
  · exact fun mark hmark => h.notes_le mark (Pile.mem_of_keep hmark)

/-- Every operation keeps a memory within the words that cover its limit. -/
theorem perform (h : m.Covered limit) (op : Operation) : (op.perform edit m).Covered limit := by
  cases op with
  | edit e =>
      show (e.act.after m).Covered limit
      cases hact : e.act m with
      | ok added grown =>
          rw [Action.after_ok hact]
          exact h.act hact
      | error cause same =>
          rw [Action.after_error hact, act_refused hact]
          exact h
  | checkpoint =>
      exact ⟨h.limit_eq, h.size_le, List.forall_mem_cons.2 ⟨h.size_le, h.notes_le⟩⟩
  | revertTo handle => exact h.revert_to handle
  | commit handle => exact h.commit handle

end Covered

/-- Operations lead to no memory with more bytes than the words that cover the limit. -/
theorem Reached.covered {limit : Nat} {m : Memory} (h : m.Reached limit) : m.Covered limit := by
  obtain ⟨ops, rfl⟩ := h
  refine List.foldlRecOn ops _ (motive := Covered limit) (.with_limit limit) ?_
  intro m hm op _
  exact hm.perform op

/-- They do lead to one with as many, as long as the number of bytes is an amount. -/
theorem exists_full {limit : Nat} (h : wordsFor limit * 32 ≤ maxAmount) :
    ∃ m : Memory, m.Reached limit ∧ m.size = wordsFor limit * 32 := by
  have hlimit : limit ≤ wordsFor limit * 32 := Edit.le_words limit
  by_cases hzero : limit = 0
  · refine ⟨withLimit limit, .with_limit limit, ?_⟩
    rw [hzero]
    rfl
  let m := withLimit limit
  have hgrown : expand 0 limit m = .ok (wordsFor limit - m.words) (m.grown limit) := by
    unfold expand m
    rw [if_neg hzero, Nat.zero_add, if_neg (by omega), if_neg (by simp [withLimit, Memory.size]; omega),
      if_neg (by simp [withLimit])]
    simp only [fit?, if_pos h]
    rfl
  refine ⟨_, (Reached.with_limit limit).act (e := .expand 0 limit) hgrown, ?_⟩
  exact (size_grown m limit).trans (Nat.zero_max _)

end Memory

/-! ## Memories of a run -/

namespace Memory

/-- What is done to a memory in a workspace are operations. -/
theorem Reached.touch {limit : Nat} {part : Part} {f g : Frame} {v w : Workspace}
    (h : v.memory.Reached limit) (htouch : Touch part ⟨f, some v⟩ ⟨g, some w⟩) :
    w.memory.Reached limit := by
  cases htouch with
  | expand hexpand => exact h.act (e := .expand _ _) hexpand
  | write hwrite => exact h.act (e := .write _ _) hwrite
  | _ => exact h

/-- What a run does to a memory are operations. -/
theorem reached_stable (own : Limits) :
    Workspace.Stable own fun w => w.memory.Reached own.maxMemorySize where
  touch htouch h := h.touch htouch
  checkpoint h := h.checkpoint
  settle keep marks h := h.settle keep marks.memory
  fold _ _ h := h
  fresh _ := .with_limit _

/-- Operations lead to the memory, within a limit that gas can pay for. -/
def Bounded (m : Memory) : Prop :=
  ∃ limit ≤ largestMemory, m.Reached limit

namespace Bounded

variable {m : Memory}

theorem touch {part : Part} {f g : Frame} {v w : Workspace} (h : v.memory.Bounded)
    (htouch : Touch part ⟨f, some v⟩ ⟨g, some w⟩) : w.memory.Bounded := by
  obtain ⟨limit, hlimit, hreached⟩ := h
  exact ⟨limit, hlimit, hreached.touch htouch⟩

theorem checkpoint (h : m.Bounded) : (Checkpointed.checkpoint m).2.Bounded := by
  obtain ⟨limit, hlimit, hreached⟩ := h
  exact ⟨limit, hlimit, hreached.checkpoint⟩

theorem settle (h : m.Bounded) (keep : Bool) (handle : Nat) :
    (CallTree.settle keep handle m).Bounded := by
  obtain ⟨limit, hlimit, hreached⟩ := h
  exact ⟨limit, hlimit, hreached.settle keep handle⟩

/-- A bounded memory has whole words and stays within the largest one. -/
theorem small (h : m.Bounded) :
    m.WholeWords ∧ m.size ≤ largestMemory ∧ m.limit ≤ largestMemory := by
  obtain ⟨limit, hlimit, hreached⟩ := h
  have hcovered := hreached.covered
  have hsize : wordsFor limit * 32 ≤ largestMemory := by
    unfold largestMemory at hlimit ⊢
    unfold wordsFor
    omega
  have hlt : limit < 2 ^ 63 := by
    unfold largestMemory at hlimit
    omega
  obtain ⟨ops, rfl⟩ := hreached
  have hfollows := (follows_with_limit limit).run hlt ops
  refine ⟨hfollows.whole_words hlt, Nat.le_trans hcovered.size_le hsize, ?_⟩
  rw [hcovered.limit_eq]
  exact hlimit

/-- What was overwritten lies inside a bounded memory. -/
theorem entry_fits (h : m.Bounded) {entry : Overwrite} (hentry : entry ∈ m.journal.entries.toList) :
    entry.offset + entry.previous.size ≤ m.size := by
  obtain ⟨limit, hlimit, ops, rfl⟩ := h
  have hlt : limit < 2 ^ 63 := by
    unfold largestMemory at hlimit
    omega
  exact Rewind.Recalls.fits ((follows_with_limit limit).run hlt ops).recalls entry hentry

end Bounded

/-- A run keeps memories bounded if its call stack has no larger limit. -/
theorem bounded_stable {own : Limits} (hlimit : own.maxMemorySize ≤ largestMemory) :
    Workspace.Stable own fun w => w.memory.Bounded where
  touch htouch h := h.touch htouch
  checkpoint h := h.checkpoint
  settle keep marks h := h.settle keep marks.memory
  fold _ _ h := h
  fresh _ := ⟨own.maxMemorySize, hlimit, .with_limit _⟩

end Memory

/-- Every memory of a run is one that operations lead to. -/
theorem Reaches.memory_reached {own limits : Limits} {s t : RunState} (h : Reaches limits s t)
    (hs : s.context.Holds own fun w => w.memory.Reached own.maxMemorySize) :
    t.context.Holds own fun w => w.memory.Reached own.maxMemorySize :=
  h.holds (Memory.reached_stable own) hs

/-- What is put on the stack for the size of a memory. -/
theorem Instruction.fetch_msize {env : Surroundings} {a b : Activation} {request : Request}
    {w : Workspace} (h : fetchAndDispatch env a = .ok request b) (hop : a.frame.currentOp = .msize)
    (hw : a.space = some w) :
    ∃ w', b.space = some w' ∧
      w'.stack.items.toList = Word.ofNat w.memory.size :: w.stack.items.toList := by
  obtain ⟨_, pc, immediate, f, _, h⟩ := fetch_local h (by simp [hop]) (by rw [hop]; rfl)
  rw [hop, hw] at h
  obtain ⟨size, a₁, hread, h⟩ := Action.bind_eq_ok h
  cases hread
  obtain ⟨w₁, hw₁, rfl⟩ := Exec.push_ok h
  cases hw₁
  exact ⟨_, rfl, rfl⟩

namespace Context

/-- In every state of a run, no memory has more bytes than the words that cover the limit of the call
stack, and no more are put on the stack for the size of one. Any sequence of operations on a memory
keeps this bound, and some operations lead to a memory that has as many bytes: the limit itself is
exceeded exactly when it is no whole number of words. -/
theorem run_memory_le {base : Context} {limits : Limits} {slots : Slots} {code : Bytes} {gas : Nat}
    {call : CallData} {t : RunState}
    (hbase : base.pool.All fun w => w.memory.Reached base.limits.maxMemorySize)
    (hrun : Reaches limits ⟨base.launch base.limits slots code gas call, none⟩ t) :
    let limit := base.limits.maxMemorySize
    (∀ ops, (Memory.Operation.run Memory.edit ops (.withLimit limit)).size ≤ wordsFor limit * 32) ∧
      (wordsFor limit * 32 ≤ maxAmount → ∃ ops,
        (Memory.Operation.run Memory.edit ops (.withLimit limit)).size = wordsFor limit * 32) ∧
      (∀ cell w, t.context.pool.get? cell = some w →
        w.memory.Reached limit ∧ w.memory.size ≤ wordsFor limit * 32) ∧
      ∀ f w env request b, t.context.pool.get? f.home.cell = some w → f.currentOp = .msize →
        Instruction.fetchAndDispatch env ⟨f, some w⟩ = .ok request b →
          ∃ w' size, b.space = some w' ∧ w'.stack.items.toList = size :: w.stack.items.toList ∧
            size.toNat ≤ wordsFor limit * 32 := by
  intro limit
  have hstart : (base.launch base.limits slots code gas call).Holds base.limits
      fun w => w.memory.Reached limit :=
    ⟨rfl, hbase.alloc (Memory.Reached.with_limit _)⟩
  have hall := (hrun.memory_reached hstart).pool
  refine ⟨fun ops => Memory.Reached.covered ⟨ops, rfl⟩ |>.size_le, fun hfits => ?_,
    fun cell w hget => ⟨hall cell w hget, (hall cell w hget).covered.size_le⟩, ?_⟩
  · obtain ⟨m, ⟨ops, rfl⟩, hsize⟩ := Memory.exists_full hfits
    exact ⟨ops, hsize⟩
  · intro f w env request b hget hop hfetch
    obtain ⟨w', hw', hitems⟩ := Instruction.fetch_msize hfetch hop rfl
    refine ⟨w', _, hw', hitems, Nat.le_trans ?_ (hall _ w hget).covered.size_le⟩
    rw [Word.ofNat_eq, BitVec.toNat_ofNat]
    exact Nat.mod_le _ _

/-- A context in which memories are limited to 33 bytes. -/
def wideningBase : Context :=
  { txn := ⟨1, 0⟩, limits := { maxMemorySize := 33 } }

/-- A frame that writes the 33rd byte of its memory there and asks for the size. -/
def wideningStart : Context :=
  wideningBase.launch wideningBase.limits ∅ ⟨#[0x60, 1, 0x60, 32, 0x53, 0x59]⟩ 100
    (.transaction 1 2 0 ByteArray.empty)

/-- The memory of that frame keeps to the words that cover the limit. -/
theorem widening_start_memory : ∃ t w, Reaches {} ⟨wideningStart, none⟩ t ∧
    t.context.pool.get? 0 = some w ∧ w.stack.items.toList.map (·.toNat) = [64] ∧
    w.memory.size ≤ wordsFor 33 * 32 := by
  have hfacts : (RunState.advance? {} 0 4 ⟨wideningStart, none⟩).any (fun t =>
      (t.context.pool.get? 0).any fun w => w.stack.items.toList.map (·.toNat) == [64]) = true := by
    decide +kernel
  obtain ⟨t, hadvance, hfacts⟩ := (Option.any_eq_true _ _).1 hfacts
  obtain ⟨w, hget, hstack⟩ := (Option.any_eq_true _ _).1 hfacts
  have hrun := (reaches_above_of_advance hadvance).reaches
  have hempty : wideningBase.pool.All fun w =>
      w.memory.Reached wideningBase.limits.maxMemorySize := fun cell w hw => by cases hw
  obtain ⟨_, _, hmemory, _⟩ := run_memory_le hempty hrun
  exact ⟨t, w, hrun, hget, beq_iff_eq.1 hstack, (hmemory 0 w hget).2⟩

/-- A memory can have more bytes than its limit, and its frame gets to know. -/
theorem widening_start_exceeds :
    0 < wideningStart.limits.maxMemorySize ∧
      wideningStart.limits.maxMemorySize <
        (Memory.edit (.expand 0 33) (.withLimit wideningStart.limits.maxMemorySize)).size ∧
      ((wideningStart.run wideningStart.limits).context.pool.get? 0).map (fun w =>
        (w.memory.limit, w.memory.size, w.stack.items.toList.map (·.toNat))) =
          some (33, 64, [64]) := by
  decide +kernel

end Context
end CallTree
