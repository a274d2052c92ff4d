import CallTree.Storage
import CallTree.Proofs.Recall

/-!
# Slots and the storage journal

A storage never holds a zero, `mergeFrom` makes its slots equal to those it takes over
(`slots_merge`), and its journal leads back to the slots at each open checkpoint whatever is
written in between (`Storage.Recalls`).
-/

namespace CallTree

namespace Slots

/-- No slot holds a zero. -/
def NoZero (s : Slots) : Prop :=
  ∀ key : Word, s[key]? ≠ some 0

/-- What a slot holds after a store. -/
theorem get_store (s : Slots) (key value other : Word) :
    (s.store key value)[other]? =
      if key = other then (if value = 0 then none else some value) else s[other]? := by
  unfold store
  by_cases hv : value = 0
  · simp [hv, Std.ExtTreeMap.getElem?_erase]
  · rw [if_neg hv, if_neg hv]
    simp [Std.ExtTreeMap.getElem?_insert]

/-- Giving a slot back what it held undoes a store. -/
theorem restore_store (s : Slots) (key value : Word) :
    (s.store key value).restore key s[key]? = s := by
  apply Std.ExtTreeMap.ext_getElem?
  intro other
  by_cases ho : key = other
  · subst ho
    cases s[key]? <;> simp [restore]
  · cases s[key]? <;>
      simp [restore, Std.ExtTreeMap.getElem?_erase, Std.ExtTreeMap.getElem?_insert, get_store, ho]

/-- An empty set of slots holds no zero. -/
theorem no_zero_empty : NoZero ∅ := by
  intro key
  simp

/-- Writing keeps zeros out. -/
theorem NoZero.store {s : Slots} (h : s.NoZero) (key value : Word) :
    (s.store key value).NoZero := by
  intro other
  rw [get_store]
  split
  · split
    · simp
    · simpa using ‹¬value = 0›
  · exact h other

/-- Leaving zeros out leaves none. -/
theorem no_zero_nonzero (s : Slots) : s.nonzero.NoZero := by
  intro key
  cases hk : s[key]? <;> simp [nonzero, hk]

/-- Where there is no zero, none is left out. -/
theorem NoZero.nonzero_eq {s : Slots} (h : s.NoZero) : s.nonzero = s := by
  apply Std.ExtTreeMap.ext_getElem?
  intro key
  cases hk : s[key]? with
  | none => simp [nonzero, hk]
  | some value =>
      have hv : value ≠ 0 := by
        rintro rfl
        exact h key hk
      simpa [nonzero, hk] using hv

end Slots

namespace Storage

/-! ## Merging -/

/-- Clearing keys removes exactly those. -/
theorem get_clear_all (keys : List Word) (s : Storage) (key : Word) :
    (s.clearAll keys).slots[key]? = if key ∈ keys then none else s.slots[key]? := by
  induction keys generalizing s with
  | nil => simp [clearAll]
  | cons first keys ih =>
      have hstep : s.clearAll (first :: keys) = (s.store first 0).2.clearAll keys := rfl
      rw [hstep, ih]
      by_cases hf : key = first
      · subst hf
        simp [store, Slots.get_store]
      · have hf' : first ≠ key := Ne.symm hf
        simp [store, Slots.get_store, hf, hf']

/-- Writing entries leaves the other keys alone. -/
theorem get_store_changed_other (entries : List (Word × Word)) (s : Storage) {key : Word}
    (h : ∀ e ∈ entries, e.1 ≠ key) : (s.storeChanged entries).slots[key]? = s.slots[key]? := by
  induction entries generalizing s with
  | nil => rfl
  | cons e entries ih =>
      have he : e.1 ≠ key := h e (by simp)
      have hrest : ∀ x ∈ entries, x.1 ≠ key := fun x hx => h x (by simp [hx])
      simp only [storeChanged, List.foldl_cons] at ih ⊢
      rw [ih _ hrest]
      split
      · rfl
      · simp [store, Slots.get_store, he]

/-- An entry that is written, once and not as zero, is found under its key. -/
theorem get_store_changed_mem {entries : List (Word × Word)} (s : Storage) {key value : Word}
    (hdistinct : entries.Pairwise fun a b => a.1 ≠ b.1) (hmem : (key, value) ∈ entries)
    (hv : value ≠ 0) : (s.storeChanged entries).slots[key]? = some value := by
  induction entries generalizing s with
  | nil => simp at hmem
  | cons e entries ih =>
      obtain ⟨hfirst, hdistinct⟩ := List.pairwise_cons.1 hdistinct
      have hstep : s.storeChanged (e :: entries) =
          (if s.slots[e.1]? = some e.2 then s else (s.store e.1 e.2).2).storeChanged entries := rfl
      rcases List.mem_cons.1 hmem with rfl | hmem
      · rw [hstep, get_store_changed_other entries _ fun x hx => (hfirst x hx).symm]
        split
        · assumption
        · simpa [store, Slots.get_store] using hv
      · rw [hstep]
        exact ih _ hdistinct hmem

/-- After merging, the slots are those taken over, in whatever order keys and entries are listed. -/
theorem slots_merge_in (s : Storage) {other : Storage} (h : other.slots.NoZero) {keys : List Word}
    {entries : List (Word × Word)} (hkeys : keys.Perm (s.stale other))
    (hentries : entries.Perm other.slots.toList) : (s.mergeIn keys entries).slots = other.slots := by
  apply Std.ExtTreeMap.ext_getElem?
  intro key
  unfold mergeIn
  cases hk : other.slots[key]? with
  | some value =>
      have hv : value ≠ 0 := by
        rintro rfl
        exact h key hk
      refine get_store_changed_mem _ ?_
        (hentries.mem_iff.2 (Std.ExtTreeMap.mem_toList_iff_getElem?_eq_some.2 hk)) hv
      refine hentries.symm.pairwise ?_ fun hne he => hne he.symm
      exact Std.ExtTreeMap.distinct_keys_toList.imp fun hne he => hne (by simp [he])
  | none =>
      have hother : ∀ e ∈ entries, e.1 ≠ key := by
        rintro ⟨k, v⟩ he rfl
        rw [hentries.mem_iff, Std.ExtTreeMap.mem_toList_iff_getElem?_eq_some, hk] at he
        exact nomatch he
      rw [get_store_changed_other _ _ hother, get_clear_all]
      split
      · rfl
      · rename_i hstale
        cases hs : s.slots[key]? with
        | none => rfl
        | some value =>
            have hmine : key ∈ s.slots := Std.ExtTreeMap.mem_iff_isSome_getElem?.2 (by rw [hs]; rfl)
            have hnone : other.slots.contains key = false := by
              rw [Std.ExtTreeMap.contains_eq_isSome_getElem?, hk]
              rfl
            refine absurd (hkeys.mem_iff.2 (List.mem_filter.2 ⟨Std.ExtTreeMap.mem_keys.2 hmine, ?_⟩))
              hstale
            rw [hnone]
            rfl

/-- After merging, the slots are those taken over. -/
theorem slots_merge (s : Storage) {other : Storage} (h : other.slots.NoZero) :
    (s.mergeFrom other).slots = other.slots :=
  slots_merge_in s h (.refl _) (.refl _)

/-! ## The journal -/

/-- Slots are taken back by giving each key what it held. -/
def rewind : Rewind Slots Unit (Word × Option Word) where
  undo s e := s.restore e.1 e.2
  cut _ s := s
  Fits _ _ := True
  Covers _ _ := True
  Begins s t := s = t
  fits_undo _ := Iff.rfl
  covers_undo _ := Iff.rfl
  fits_of_begins _ _ := trivial
  covers_of_begins _ _ := trivial
  begins_cut _ _ := rfl
  begins_undo h _ := by rw [h]
  cut_of_begins h _ := h.symm

/-- The storage can be brought back to the slots at each open checkpoint, the newest first. -/
def Recalls (s : Storage) (copies : List Slots) : Prop :=
  s.journal.Recalls rewind s.slots copies

/-- A storage without a past has no copies. -/
theorem recalls_of_slots (slots : Slots) : (ofSlots slots).Recalls [] :=
  Journal.Recalls.init _

/-- Writes can be undone. -/
theorem Recalls.store {s : Storage} {copies : List Slots} (h : s.Recalls copies)
    (key value : Word) : (s.store key value).2.Recalls copies := by
  refine Journal.Recalls.record (r := rewind) trivial ?_
  show s.journal.Recalls rewind ((s.slots.store key value).restore key s.slots[key]?) copies
  rw [Slots.restore_store]
  exact h

/-- Merges can be undone, whatever is cleared and written. -/
theorem Recalls.merge_in {s : Storage} {copies : List Slots} (h : s.Recalls copies)
    (keys : List Word) (entries : List (Word × Word)) : (s.mergeIn keys entries).Recalls copies := by
  have hclear : ∀ (keys : List Word) (t : Storage), t.Recalls copies →
      (t.clearAll keys).Recalls copies := by
    intro keys
    induction keys with
    | nil => intro t ht; exact ht
    | cons key keys ih => intro t ht; exact ih _ (ht.store key 0)
  have hstore : ∀ (entries : List (Word × Word)) (t : Storage), t.Recalls copies →
      (t.storeChanged entries).Recalls copies := by
    intro entries
    induction entries with
    | nil => intro t ht; exact ht
    | cons e entries ih =>
        intro t ht
        refine ih _ ?_
        show (if t.slots[e.1]? = some e.2 then t else (t.store e.1 e.2).2).Recalls copies
        split
        · exact ht
        · exact ht.store e.1 e.2
  exact hstore _ _ (hclear _ _ h)

/-- Merges can be undone. -/
theorem Recalls.merge_from {s : Storage} {copies : List Slots} (h : s.Recalls copies)
    (other : Storage) : (s.mergeFrom other).Recalls copies :=
  h.merge_in _ _

/-- Opening a checkpoint yields the number of those open and adds the slots to the copies. -/
theorem Recalls.checkpoint {s : Storage} {copies : List Slots} (h : s.Recalls copies) :
    (Checkpointed.checkpoint s).1 = copies.length ∧
      (Checkpointed.checkpoint s).2.slots = s.slots ∧
      (Checkpointed.checkpoint s).2.Recalls (s.slots :: copies) :=
  ⟨h.depth_eq, rfl, Journal.Recalls.openWith h trivial rfl⟩

/-- Closing the newest checkpoint keeps the slots or brings its copy back, and leaves the older
copies. -/
theorem Recalls.settle {s : Storage} {copy : Slots} {copies : List Slots}
    (h : s.Recalls (copy :: copies)) (keep : Bool) :
    (settle keep copies.length s).slots = (if keep then s.slots else copy) ∧
      (settle keep copies.length s).Recalls copies := by
  cases keep with
  | true => exact ⟨rfl, Journal.Recalls.commit h⟩
  | false =>
      obtain ⟨mark, hmark, hcopy, hrest⟩ := Journal.Recalls.rewind h
      have hrevert : CallTree.settle false copies.length s =
          ⟨copy, s.journal.forgetFrom copies.length mark⟩ := by
        rw [← hcopy]
        simp only [CallTree.settle, Checkpointed.revertTo, hmark]
        rfl
      rw [hrevert]
      exact ⟨rfl, hrest⟩

end Storage
end CallTree
