import CallTree.Checkpoint.Snapshots
import CallTree.Proofs.Slots

/-!
# Storage and full copies

The undo journal of a storage does what a machine would do that takes a full copy of the slots at
each checkpoint. The two are compared over any sequence of operations, with any handles: those of
checkpoints that were closed long ago, or never opened, included (`run_refines_copies`).

A handle is the number of a copy from the bottom of the pile. When a journal is reverted to a
handle that is not the newest, the later checkpoints are closed first, which keeps the contents and
the older copies (`Rewind.Recalls.older`); what is left is to rewind to the newest.

The history of a storage is a copying machine too: one whose contents are the edits themselves. A
checkpoint remembers the edits up to it, and reverting forgets the later ones. What survives decides
what a load finds.
-/

namespace CallTree

/-! ## Any handle -/

/-- Closing the newest checkpoints without undoing keeps the older copies. -/
theorem Rewind.Recalls.older {σ τ ε : Type} {r : Rewind σ τ ε} {entries : List ε}
    {marks : List (Mark τ)} {s : σ} {copies : List σ} (h : r.Recalls entries marks s copies) {n : Nat}
    (hn : n < marks.length) : r.Recalls entries (marks.drop n) s (copies.drop n) := by
  induction n generalizing marks copies with
  | zero => exact h
  | succ n ih =>
      cases marks with
      | nil => exact absurd hn (Nat.not_lt_zero _)
      | cons first marks =>
          cases copies with
          | nil => exact h.elim
          | cons copy copies =>
              have hn : n < marks.length := Nat.lt_of_succ_lt_succ hn
              cases marks with
              | nil => exact absurd hn (Nat.not_lt_zero _)
              | cons second marks => exact ih h.drop hn

namespace Pile

variable {α β : Type}

/-- The item with `n` items below it, as one of the list. -/
theorem from_bottom_of_lt {p : Pile α} {n : Nat} (h : n < p.size) :
    ∃ a, p.fromBottom? n = some a ∧ p.toList.drop (p.size - 1 - n) = a :: (p.keep n).toList := by
  have hlt : p.size - 1 - n < p.toList.length := by
    rw [← p.size_eq]
    omega
  refine ⟨p.toList[p.size - 1 - n], ?_, ?_⟩
  · rw [fromBottom?, if_pos h]
    exact List.getElem?_eq_getElem hlt
  · have hnext : p.size - 1 - n + 1 = p.size - n := by omega
    rw [List.drop_eq_getElem_cons hlt, hnext]
    rfl

/-- No item has more items below it than there are. -/
theorem from_bottom_of_le {p : Pile α} {n : Nat} (h : p.size ≤ n) : p.fromBottom? n = none :=
  if_neg (Nat.not_lt.2 h)

/-- All items are changed, each in its place. -/
def map (f : α → β) (p : Pile α) : Pile β :=
  ⟨p.toList.map f, p.size, by rw [p.size_eq, List.length_map]⟩

/-- What is kept is changed in the same way. -/
theorem map_keep (f : α → β) (p : Pile α) (n : Nat) : (p.keep n).map f = (p.map f).keep n :=
  Pile.ext List.map_drop

/-- Counting from the bottom finds the changed item. -/
theorem from_bottom_map (f : α → β) (p : Pile α) (n : Nat) :
    (p.map f).fromBottom? n = (p.fromBottom? n).map f := by
  show (if n < p.size then (p.toList.map f)[p.size - 1 - n]? else none) = _
  rw [List.getElem?_map]
  unfold fromBottom?
  split <;> rfl

end Pile

namespace Journal

variable {σ τ ε : Type} {r : Rewind σ τ ε} {j : Journal τ ε} {s : σ} {copies : Pile σ}

/-- Reverting to an open checkpoint, whatever was opened after it, brings its copy back and leaves
the older copies. -/
theorem Recalls.rewind_to (h : j.Recalls r s copies.toList) {handle : Nat}
    (hopen : handle < copies.size) :
    ∃ mark copy, j.mark? handle = some mark ∧ copies.fromBottom? handle = some copy ∧
      r.cut mark.note ((j.since mark).foldl r.undo s) = copy ∧
      (j.forgetFrom handle mark).Recalls r copy (copies.keep handle).toList := by
  have hdepth : j.marks.size = copies.size := h.depth_eq.trans copies.size_eq.symm
  obtain ⟨copy, hcopy, hdrop⟩ := Pile.from_bottom_of_lt hopen
  have hlength : (copies.keep handle).toList.length = handle := by
    rw [← (copies.keep handle).size_eq, Pile.size_keep]
    omega
  -- The same entries under the marks that are left when the later checkpoints are closed.
  have hlater : ({ j with marks := j.marks.drop (copies.size - 1 - handle) } : Journal τ ε).Recalls r s
      (copy :: (copies.keep handle).toList) := by
    rw [← hdrop]
    refine Rewind.Recalls.older h ?_
    rw [← j.marks.size_eq]
    omega
  obtain ⟨mark, hmark, hback, hrest⟩ := hlater.rewind
  rw [hlength] at hmark hrest
  refine ⟨mark, copy, ?_, hcopy, hback, ?_⟩
  · obtain ⟨mark', hmark', hdrop'⟩ := Pile.from_bottom_of_lt (hdepth ▸ hopen : handle < j.marks.size)
    rw [hdepth] at hdrop'
    have hsize : j.marks.size - (copies.size - 1 - handle) = handle + 1 := by omega
    have hfirst : (j.marks.drop (copies.size - 1 - handle)).fromBottom? handle = some mark' := by
      show (if handle < j.marks.size - (copies.size - 1 - handle) then
        (j.marks.toList.drop (copies.size - 1 - handle))[j.marks.size - (copies.size - 1 - handle) -
          1 - handle]? else none) = _
      rw [hsize, if_pos (Nat.lt_succ_self _), hdrop']
      simp
    exact hmark'.trans (hfirst.symm.trans hmark)
  · have hmarks : (j.marks.drop (copies.size - 1 - handle)).keep handle = j.marks.keep handle := by
      refine Pile.ext ?_
      show (j.marks.toList.drop _).drop (j.marks.size - (copies.size - 1 - handle) - handle) =
        j.marks.toList.drop (j.marks.size - handle)
      rw [List.drop_drop]
      congr 1
      omega
    have hforget : j.forgetFrom handle mark =
        ⟨j.entries.keep mark.position, (j.marks.drop (copies.size - 1 - handle)).keep handle⟩ := by
      rw [hmarks]
      rfl
    rw [hforget]
    exact hrest

/-- Committing keeps the contents and the copies below the handle, whatever the handle. -/
theorem Recalls.commit_from (h : j.Recalls r s copies.toList) (handle : Nat) :
    (j.commitFrom handle).Recalls r s (copies.keep handle).toList := by
  have hdepth : j.marks.size = copies.size := h.depth_eq.trans copies.size_eq.symm
  show (if (j.marks.keep handle).isEmpty then ({} : Journal τ ε) else
    { j with marks := j.marks.keep handle }).Recalls r s (copies.keep handle).toList
  split
  · rename_i hempty
    have hnone : (copies.keep handle).toList = [] := by
      rw [Pile.isEmpty, beq_iff_eq, Pile.size_keep] at hempty
      rw [← List.length_eq_zero_iff, ← (copies.keep handle).size_eq, Pile.size_keep]
      omega
    rw [hnone]
    exact Recalls.init s
  · rename_i hsome
    show r.Recalls j.entries.toList (j.marks.toList.drop (j.marks.size - handle)) s
      (copies.toList.drop (copies.size - handle))
    rw [← hdepth]
    refine Rewind.Recalls.older h ?_
    rw [Pile.isEmpty, beq_iff_eq, Pile.size_keep] at hsome
    rw [← j.marks.size_eq]
    omega

end Journal

/-! ## Copying machines -/

/-- Contents with a full copy for each open checkpoint. -/
structure Copied (α : Type) where
  /-- What is there now. -/
  contents : α
  /-- What was there at each open checkpoint, the newest on top. -/
  copies : Pile α := .empty

namespace Copied

variable {α β : Type}

/-- A checkpoint is a copy; its handle is the number of copies below. Reverting restores a copy and
leaves those below it, committing only leaves those below. -/
instance : Checkpointed (Copied α) where
  checkpoint c := (c.copies.size, { c with copies := c.copies.push c.contents })
  revertTo handle c :=
    let (contents, copies) := Snapshots.revertTo c.contents c.copies handle
    ⟨contents, copies⟩
  commit handle c := { c with copies := c.copies.keep handle }

/-- Changes the contents only. -/
def modify {ε : Type} (change : ε → α → α) (e : ε) (c : Copied α) : Copied α :=
  { c with contents := change e c.contents }

/-- Everything is changed, copies as well. -/
def map (f : α → β) (c : Copied α) : Copied β :=
  ⟨f c.contents, c.copies.map f⟩

/-- Reverting to an open checkpoint. -/
theorem revert_of_lt {c : Copied α} {handle : Nat} {copy : α}
    (h : c.copies.fromBottom? handle = some copy) :
    Checkpointed.revertTo handle c = ⟨copy, c.copies.keep handle⟩ := by
  simp [Checkpointed.revertTo, Snapshots.revertTo, h]

/-- Reverting to a checkpoint that is not open. -/
theorem revert_of_le {c : Copied α} {handle : Nat} (h : c.copies.fromBottom? handle = none) :
    Checkpointed.revertTo handle c = c := by
  simp [Checkpointed.revertTo, Snapshots.revertTo, h]

/-- The contents and all copies have a property. -/
def All (P : α → Prop) (c : Copied α) : Prop :=
  P c.contents ∧ ∀ copy ∈ c.copies.toList, P copy

/-- A property that a change keeps survives it. -/
theorem All.edited {ε : Type} {P : α → Prop} {change : ε → α → α} {e : ε} {c : Copied α}
    (h : c.All P) (hchange : P c.contents → P (change e c.contents)) :
    (c.modify change e).All P :=
  ⟨hchange h.1, h.2⟩

/-- A new copy is a copy of the contents. -/
theorem All.checkpoint {P : α → Prop} {c : Copied α} (h : c.All P) :
    (Checkpointed.checkpoint c).2.All P :=
  ⟨h.1, List.forall_mem_cons.2 h⟩

/-- Committing leaves copies that were there. -/
theorem All.commit {P : α → Prop} {c : Copied α} (h : c.All P) (handle : Nat) :
    (Checkpointed.commit handle c).All P :=
  ⟨h.1, fun copy hcopy => h.2 copy (List.mem_of_mem_drop hcopy)⟩

/-- Reverting restores a copy that was there. -/
theorem All.revert_to {P : α → Prop} {c : Copied α} (h : c.All P) (handle : Nat) :
    (Checkpointed.revertTo handle c).All P := by
  obtain ⟨hcontents, hcopies⟩ := h
  by_cases hopen : handle < c.copies.size
  · obtain ⟨copy, hcopy, hdrop⟩ := Pile.from_bottom_of_lt hopen
    have hmem : copy ∈ c.copies.toList :=
      List.mem_of_mem_drop (hdrop ▸ List.mem_cons_self)
    rw [revert_of_lt hcopy]
    exact ⟨hcopies copy hmem, fun other hother => hcopies other (List.mem_of_mem_drop hother)⟩
  · rw [revert_of_le (Pile.from_bottom_of_le (Nat.not_lt.1 hopen))]
    exact ⟨hcontents, hcopies⟩

/-- A change to the contents, seen through a map. -/
theorem map_modify {ε : Type} {f : α → β} {change : ε → α → α} {change' : ε → β → β} {e : ε}
    {c : Copied α} (hchange : f (change e c.contents) = change' e (f c.contents)) :
    (c.modify change e).map f = (c.map f).modify change' e := by
  show Copied.mk (f (change e c.contents)) (c.copies.map f) = _
  rw [hchange]
  rfl

/-- Committing, seen through a map. -/
theorem map_commit (f : α → β) (handle : Nat) (c : Copied α) :
    (Checkpointed.commit handle c).map f = Checkpointed.commit handle (c.map f) := by
  show Copied.mk (f c.contents) ((c.copies.keep handle).map f) = _
  rw [Pile.map_keep]
  rfl

/-- Reverting, seen through a map. -/
theorem map_revert_to (f : α → β) (handle : Nat) (c : Copied α) :
    (Checkpointed.revertTo handle c).map f = Checkpointed.revertTo handle (c.map f) := by
  have hfound : (c.map f).copies.fromBottom? handle = (c.copies.fromBottom? handle).map f :=
    Pile.from_bottom_map f c.copies handle
  cases hcopy : c.copies.fromBottom? handle with
  | some copy =>
      rw [hcopy] at hfound
      rw [revert_of_lt hcopy, revert_of_lt hfound]
      show Copied.mk (f copy) ((c.copies.keep handle).map f) = _
      rw [Pile.map_keep]
      rfl
  | none =>
      rw [hcopy] at hfound
      rw [revert_of_le hcopy, revert_of_le hfound]

end Copied

/-! ## Operations on a storage -/

/-- A storage in which no slot holds a zero. -/
abbrev CleanStorage := { s : Storage // s.slots.NoZero }

/-- An order in which items can be listed. -/
abbrev Listing (α : Type) := { list : List α → List α // ∀ items, (list items).Perm items }

/-- A change to the slots of a storage. -/
inductive Edit where
  /-- Writes one slot. -/
  | store (key value : Word)
  /-- Takes over the slots of another storage. Keys to clear and entries to write are met in some
  order. -/
  | merge (other : CleanStorage) (keys : Listing Word) (entries : Listing (Word × Word))

/-- An operation on a container with checkpoints. -/
inductive Operation where
  /-- Changes the slots. -/
  | edit (e : Edit)
  /-- Opens a checkpoint. -/
  | checkpoint
  /-- Undoes everything since the checkpoint of a handle. -/
  | revertTo (handle : Nat)
  /-- Closes the checkpoint of a handle. -/
  | commit (handle : Nat)

namespace Operation

variable {σ : Type} [Checkpointed σ]

/-- What an operation makes of a container, given what an edit does. -/
def perform (change : Edit → σ → σ) : Operation → σ → σ
  | edit e, s => change e s
  | checkpoint, s => (Checkpointed.checkpoint s).2
  | revertTo handle, s => Checkpointed.revertTo handle s
  | commit handle, s => Checkpointed.commit handle s

/-- What operations make of a container, one after another. -/
def run (change : Edit → σ → σ) (ops : List Operation) (s : σ) : σ :=
  ops.foldl (fun s op => op.perform change s) s

end Operation

namespace Copied

variable {α β : Type}

/-- A property that every edit keeps survives every operation. -/
theorem All.perform {P : α → Prop} {change : Edit → α → α} {c : Copied α}
    (hchange : ∀ e a, P a → P (change e a)) (h : c.All P) (op : Operation) :
    (op.perform (modify change) c).All P := by
  cases op with
  | edit e => exact h.edited (hchange e _)
  | checkpoint => exact h.checkpoint
  | commit handle => exact h.commit handle
  | revertTo handle => exact h.revert_to handle

/-- Two machines whose edits correspond do corresponding things. -/
theorem map_perform {f : α → β} {change : Edit → α → α} {change' : Edit → β → β}
    (hchange : ∀ e a, f (change e a) = change' e (f a)) (op : Operation) (c : Copied α) :
    (op.perform (modify change) c).map f = op.perform (modify change') (c.map f) := by
  cases op with
  | edit e => exact map_modify (hchange e _)
  | checkpoint => rfl
  | commit handle => exact map_commit f handle c
  | revertTo handle => exact map_revert_to f handle c

/-- Two machines whose edits correspond stay in correspondence. -/
theorem map_run {f : α → β} {change : Edit → α → α} {change' : Edit → β → β}
    (hchange : ∀ e a, f (change e a) = change' e (f a)) (ops : List Operation) (c : Copied α) :
    (Operation.run (modify change) ops c).map f = Operation.run (modify change') ops (c.map f) := by
  induction ops generalizing c with
  | nil => rfl
  | cons op ops ih =>
      show (Operation.run (modify change) ops (op.perform (modify change) c)).map f =
        Operation.run (modify change') ops (op.perform (modify change') (c.map f))
      rw [ih, map_perform hchange]

end Copied

namespace Slots

/-- What an edit makes of slots. -/
def edit : Edit → Slots → Slots
  | .store key value, s => s.store key value
  | .merge other _ _, _ => other.1.slots

/-- Edits keep zeros out. -/
theorem NoZero.edit (e : Edit) (s : Slots) (h : s.NoZero) : (s.edit e).NoZero := by
  cases e with
  | store key value => exact h.store key value
  | merge other keys entries => exact other.2

/-- What a load finds after a store. -/
theorem load_store (s : Slots) (key value other : Word) :
    (s.store key value).load other = if key = other then value else s.load other := by
  unfold load
  rw [get_store]
  by_cases hkey : key = other
  · rw [if_pos hkey, if_pos hkey]
    by_cases hvalue : value = 0
    · rw [if_pos hvalue, hvalue]
      rfl
    · rw [if_neg hvalue]
      rfl
  · rw [if_neg hkey, if_neg hkey]

/-- Leaving zeros out does not change what a load finds. -/
theorem load_nonzero (s : Slots) (key : Word) : s.nonzero.load key = s.load key := by
  unfold load nonzero
  rw [Std.ExtTreeMap.getElem?_filter]
  cases s[key]? with
  | none => rfl
  | some value =>
      by_cases hvalue : value = 0
      · rw [hvalue]
        rfl
      · rw [Option.pfilter_some, if_pos (decide_eq_true hvalue)]

/-- The value that was written last to a slot in a history, the newest edit first; at first it is
what the slots hold that were there at the start. -/
def lastWritten (init : Slots) : List Edit → Word → Word
  | [], key => init.load key
  | .store written value :: older, key =>
    if written = key then value else lastWritten init older key
  | .merge other _ _ :: _, key => other.1.load key

/-- Loads from the edited slots find the value written last. -/
theorem load_foldr_edit (init : Slots) (history : List Edit) (key : Word) :
    (history.foldr edit init.nonzero).load key = init.lastWritten history key := by
  induction history with
  | nil => exact load_nonzero init key
  | cons e older ih =>
      cases e with
      | store written value =>
          show ((older.foldr edit init.nonzero).store written value).load key = _
          rw [load_store, ih]
          rfl
      | merge other keys entries => rfl

end Slots

namespace Storage

/-- What an edit makes of a storage. -/
def edit : Edit → Storage → Storage
  | .store key value, s => (s.store key value).2
  | .merge other keys entries, s =>
    s.mergeIn (keys.1 (s.stale other)) (entries.1 other.1.slots.toList)

/-- A storage that stands where a copying machine stands: it has the same slots, and its journal
leads back to the copies. -/
structure Follows (s : Storage) (c : Copied Slots) : Prop where
  slots_eq : s.slots = c.contents
  recalls : s.Recalls c.copies.toList

/-- At the start there are no copies. -/
theorem follows_of_slots (init : Slots) : (ofSlots init).Follows ⟨init.nonzero, .empty⟩ :=
  ⟨rfl, recalls_of_slots init⟩

/-- Edits have the same effect on a storage and on a copying machine. -/
theorem Follows.edit {s : Storage} {c : Copied Slots} (h : s.Follows c) (e : Edit) :
    (s.edit e).Follows (c.modify Slots.edit e) := by
  cases e with
  | store key value =>
      refine ⟨?_, h.recalls.store key value⟩
      show s.slots.store key value = c.contents.store key value
      rw [h.slots_eq]
  | merge other keys entries =>
      exact ⟨slots_merge_in s other.2 (keys.2 _) (entries.2 _), h.recalls.merge_in _ _⟩

/-- Each operation keeps a storage in step with a copying machine. -/
theorem Follows.perform {s : Storage} {c : Copied Slots} (h : s.Follows c) (op : Operation) :
    (op.perform Storage.edit s).Follows (op.perform (Copied.modify Slots.edit) c) := by
  cases op with
  | edit e => exact h.edit e
  | checkpoint =>
      refine ⟨h.slots_eq, ?_⟩
      obtain ⟨_, _, hrecalls⟩ := h.recalls.checkpoint
      rw [h.slots_eq] at hrecalls
      exact hrecalls
  | commit handle => exact ⟨h.slots_eq, Journal.Recalls.commit_from h.recalls handle⟩
  | revertTo handle =>
      show (Checkpointed.revertTo handle s).Follows (Checkpointed.revertTo handle c)
      by_cases hopen : handle < c.copies.size
      · obtain ⟨mark, copy, hmark, hcopy, hback, hrest⟩ := Journal.Recalls.rewind_to h.recalls hopen
        have hrevert : Checkpointed.revertTo handle s =
            ⟨copy, s.journal.forgetFrom handle mark⟩ := by
          rw [← hback]
          simp only [Checkpointed.revertTo, hmark]
          rfl
        rw [hrevert, Copied.revert_of_lt hcopy]
        exact ⟨rfl, hrest⟩
      · have hclosed : s.journal.mark? handle = none := by
          refine Pile.from_bottom_of_le ?_
          have hdepth : s.journal.marks.size = c.copies.toList.length := h.recalls.depth_eq
          rw [hdepth, ← c.copies.size_eq]
          exact Nat.not_lt.1 hopen
        have hrevert : Checkpointed.revertTo handle s = s := by
          simp only [Checkpointed.revertTo, hclosed]
        rw [hrevert, Copied.revert_of_le (Pile.from_bottom_of_le (Nat.not_lt.1 hopen))]
        exact h

/-- Operations keep a storage in step with a copying machine. -/
theorem Follows.run {s : Storage} {c : Copied Slots} (h : s.Follows c) (ops : List Operation) :
    (Operation.run Storage.edit ops s).Follows (Operation.run (Copied.modify Slots.edit) ops c) := by
  induction ops generalizing s c with
  | nil => exact h
  | cons op ops ih => exact ih (h.perform op)

/-- A storage refines full copies. After any operations, with any handles, its slots are those of a
machine that copies all slots at each checkpoint, and the next checkpoint gets the number of the next
copy; no slot holds a zero. A load finds the value written last on the history that survives, which
is what a machine keeps that copies histories; a store yields what a load would have found; and a
merge leaves the slots it takes over, in whatever order they are met. -/
theorem run_refines_copies (init : Slots) (ops : List Operation) :
    let s := Operation.run edit ops (ofSlots init)
    let copied := Operation.run (Copied.modify Slots.edit) ops ⟨init.nonzero, .empty⟩
    let history := Operation.run (Copied.modify List.cons) ops ⟨[], .empty⟩
    s.slots = copied.contents ∧ (Checkpointed.checkpoint s).1 = copied.copies.size ∧
      s.slots.NoZero ∧ (∀ key, s.load key = init.lastWritten history.contents key) ∧
      (∀ key value, (s.store key value).1 = s.load key) ∧
      (∀ other : CleanStorage, (s.mergeFrom other).slots = other.1.slots) ∧
      ∀ (other : CleanStorage) (keys : Listing Word) (entries : Listing (Word × Word)),
        (s.edit (.merge other keys entries)).slots = other.1.slots := by
  intro s copied history
  have hfollows : s.Follows copied := (follows_of_slots init).run ops
  have hclean : copied.All Slots.NoZero := by
    refine List.foldlRecOn ops _ (motive := Copied.All Slots.NoZero)
      ⟨Slots.no_zero_nonzero init, by intro copy hcopy; exact nomatch hcopy⟩ ?_
    intro c hc op _
    exact hc.perform Slots.NoZero.edit op
  have hhistory : history.map (List.foldr Slots.edit init.nonzero) = copied :=
    @Copied.map_run _ _ _ List.cons Slots.edit (fun _ _ => rfl) ops ⟨[], .empty⟩
  have hcontents : history.contents.foldr Slots.edit init.nonzero = copied.contents :=
    congrArg Copied.contents hhistory
  refine ⟨hfollows.slots_eq, ?_, ?_, ?_, ?_, ?_, ?_⟩
  · exact hfollows.recalls.checkpoint.1.trans copied.copies.size_eq.symm
  · rw [hfollows.slots_eq]
    exact hclean.1
  · intro key
    show s.slots.load key = _
    rw [hfollows.slots_eq, ← hcontents]
    exact Slots.load_foldr_edit init history.contents key
  · intro key value
    rfl
  · intro other
    exact slots_merge s other.2
  · intro other keys entries
    exact slots_merge_in s other.2 (keys.2 _) (entries.2 _)

end Storage
end CallTree
