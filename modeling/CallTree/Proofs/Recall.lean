import CallTree.Checkpoint.Journal

/-!
# What an undo journal remembers

A journal with open checkpoints stands for the copies that could have been taken when they were
opened. `Recalls` says so for one journal: the entries recorded since the newest checkpoint lead
back to its copy, and the older entries lead from that copy to the older copies.

The newest checkpoint can be reverted (`Recalls.rewind`) or committed (`Recalls.commit`); a change
that is recorded, or that only makes the contents longer, keeps all copies (`Recalls.record`,
`Recalls.grow`). `Rewind` collects what the contents and the entries of a container must satisfy
for this.
-/

namespace CallTree

/-- How the changes to contents of type `σ` are taken back: entries of type `ε` one after another,
and then what a note of type `τ` says about the outline. -/
structure Rewind (σ τ ε : Type) where
  /-- Takes one recorded change back. -/
  undo : σ → ε → σ
  /-- Cuts contents back to a noted outline. -/
  cut : τ → σ → σ
  /-- The place of an entry lies inside the contents. -/
  Fits : ε → σ → Prop
  /-- A noted outline lies inside the contents. -/
  Covers : σ → τ → Prop
  /-- The second contents begin with the first. -/
  Begins : σ → σ → Prop
  fits_undo : ∀ {e e' : ε} {s : σ}, Fits e s → (Fits e' (undo s e) ↔ Fits e' s)
  covers_undo : ∀ {e : ε} {s : σ} {n : τ}, Fits e s → (Covers (undo s e) n ↔ Covers s n)
  fits_of_begins : ∀ {e : ε} {s t : σ}, Begins s t → Fits e s → Fits e t
  covers_of_begins : ∀ {s t : σ} {n : τ}, Begins s t → Covers s n → Covers t n
  begins_cut : ∀ (n : τ) (s : σ), Begins (cut n s) s
  begins_undo : ∀ {e : ε} {s t : σ}, Begins s t → Fits e s → Begins (undo s e) (undo t e)
  cut_of_begins : ∀ {s t : σ} {n : τ}, Begins s t → Covers s n → cut n t = cut n s

namespace Rewind

variable {σ τ ε : Type} {r : Rewind σ τ ε}

/-- Entries and marks, the newest first, that lead back from given contents to given copies. -/
def Recalls (r : Rewind σ τ ε) : List ε → List (Mark τ) → σ → List σ → Prop
  | entries, [], _, copies => entries = [] ∧ copies = []
  | _, _ :: _, _, [] => False
  | entries, mark :: marks, s, copy :: copies =>
    (∀ e ∈ entries, r.Fits e s) ∧ r.Covers s mark.note ∧
    ∃ recent older, entries = recent ++ older ∧ mark.position = older.length ∧
      copy = r.cut mark.note (recent.foldl r.undo s) ∧ r.Recalls older marks copy copies

/-- There is one copy for each open checkpoint. -/
theorem Recalls.length_eq {entries : List ε} {marks : List (Mark τ)} {s : σ} {copies : List σ}
    (h : r.Recalls entries marks s copies) : marks.length = copies.length := by
  induction marks generalizing entries s copies with
  | nil => simp [h.2]
  | cons mark marks ih =>
      cases copies with
      | nil => exact h.elim
      | cons copy copies =>
          obtain ⟨_, _, recent, older, _, _, _, hrest⟩ := h
          simp [ih hrest]

/-- All entries lie inside the contents. -/
theorem Recalls.fits {entries : List ε} {marks : List (Mark τ)} {s : σ} {copies : List σ}
    (h : r.Recalls entries marks s copies) : ∀ e ∈ entries, r.Fits e s := by
  cases marks with
  | nil => simp [h.1]
  | cons mark marks =>
      cases copies with
      | nil => exact h.elim
      | cons copy copies => exact h.1

/-- Undoing entries keeps which outlines lie inside the contents. -/
theorem covers_foldl_undo {entries : List ε} {s : σ} {n : τ} (hs : ∀ x ∈ entries, r.Fits x s) :
    r.Covers (entries.foldl r.undo s) n ↔ r.Covers s n := by
  induction entries generalizing s with
  | nil => rfl
  | cons x entries ih =>
      have hx : r.Fits x s := hs x (by simp)
      rw [List.foldl_cons, ih fun y hy => (r.fits_undo hx).2 (hs y (by simp [hy]))]
      exact r.covers_undo hx

/-- The same entries undone from contents and from their beginning. -/
theorem begins_foldl_undo {entries : List ε} {s t : σ} (h : r.Begins s t)
    (hs : ∀ x ∈ entries, r.Fits x s) :
    r.Begins (entries.foldl r.undo s) (entries.foldl r.undo t) := by
  induction entries generalizing s t with
  | nil => exact h
  | cons x entries ih =>
      have hx : r.Fits x s := hs x (by simp)
      exact ih (r.begins_undo h hx) fun y hy => (r.fits_undo hx).2 (hs y (by simp [hy]))

/-- Contents that only got longer lead back to the same copies. -/
theorem Recalls.grow {entries : List ε} {marks : List (Mark τ)} {s t : σ} {copies : List σ}
    (h : r.Recalls entries marks s copies) (hbegins : r.Begins s t) :
    r.Recalls entries marks t copies := by
  cases marks with
  | nil => exact h
  | cons mark marks =>
      cases copies with
      | nil => exact h.elim
      | cons copy copies =>
          obtain ⟨hfits, hcovers, recent, older, rfl, hposition, hcopy, hrest⟩ := h
          have hrecent : ∀ e ∈ recent, r.Fits e s := fun e he => hfits e (by simp [he])
          refine ⟨fun e he => r.fits_of_begins hbegins (hfits e he),
            r.covers_of_begins hbegins hcovers, recent, older, rfl, hposition, ?_, hrest⟩
          rw [hcopy]
          exact (r.cut_of_begins (begins_foldl_undo hbegins hrecent)
            ((covers_foldl_undo hrecent).2 hcovers)).symm

/-- A recorded change leads back to the same copies. -/
theorem Recalls.push {entries : List ε} {mark : Mark τ} {marks : List (Mark τ)} {s : σ} {e : ε}
    {copies : List σ} (hfits : r.Fits e s)
    (h : r.Recalls entries (mark :: marks) (r.undo s e) copies) :
    r.Recalls (e :: entries) (mark :: marks) s copies := by
  cases copies with
  | nil => exact h.elim
  | cons copy copies =>
      obtain ⟨hall, hcovers, recent, older, rfl, hposition, hcopy, hrest⟩ := h
      refine ⟨?_, (r.covers_undo hfits).1 hcovers, e :: recent, older, rfl, hposition, hcopy,
        hrest⟩
      intro x hx
      rcases List.mem_cons.1 hx with rfl | hx
      · exact hfits
      · exact (r.fits_undo hfits).1 (hall x hx)

/-- Closing the newest checkpoint without undoing keeps the older copies. -/
theorem Recalls.drop {entries : List ε} {first second : Mark τ} {marks : List (Mark τ)} {s : σ}
    {copy : σ} {copies : List σ}
    (h : r.Recalls entries (first :: second :: marks) s (copy :: copies)) :
    r.Recalls entries (second :: marks) s copies := by
  obtain ⟨hfits, hcovers, recent, older, rfl, _, hcopy, hrest⟩ := h
  have hrecent : ∀ e ∈ recent, r.Fits e s := fun e he => hfits e (by simp [he])
  have hbegins : r.Begins copy (recent.foldl r.undo s) := hcopy ▸ r.begins_cut _ _
  -- The older entries can be undone before or after the contents are cut back.
  have hlong := hrest.grow hbegins
  cases copies with
  | nil => exact hlong.elim
  | cons next copies =>
      obtain ⟨_, hcovers', recent', older', rfl, hposition', hcopy', hrest'⟩ := hlong
      refine ⟨hfits, (covers_foldl_undo hrecent).1 hcovers', recent ++ recent', older',
        by simp, hposition', ?_, hrest'⟩
      rw [List.foldl_append, ← hcopy']

end Rewind

namespace Journal

variable {σ τ ε : Type} {r : Rewind σ τ ε}

/-- The journal leads back from the contents to one copy for each open checkpoint, the newest
first. -/
def Recalls (r : Rewind σ τ ε) (j : Journal τ ε) (s : σ) (copies : List σ) : Prop :=
  r.Recalls j.entries.toList j.marks.toList s copies

/-- A new journal has no copies. -/
theorem Recalls.init (s : σ) : ({} : Journal τ ε).Recalls r s [] :=
  ⟨rfl, rfl⟩

/-- There is one copy for each open checkpoint. -/
theorem Recalls.depth_eq {j : Journal τ ε} {s : σ} {copies : List σ} (h : j.Recalls r s copies) :
    j.depth = copies.length := by
  rw [depth, j.marks.size_eq]
  exact Rewind.Recalls.length_eq h

/-- Opening a checkpoint adds the contents to the copies. -/
theorem Recalls.openWith {j : Journal τ ε} {s : σ} {copies : List σ} {note : τ}
    (h : j.Recalls r s copies) (hcovers : r.Covers s note) (hcut : r.cut note s = s) :
    (j.openWith note).Recalls r s (s :: copies) := by
  refine ⟨h.fits, hcovers, [], j.entries.toList, rfl, ?_, hcut.symm, h⟩
  exact j.entries.size_eq

/-- Contents that only got longer lead back to the same copies. -/
theorem Recalls.grow {j : Journal τ ε} {s t : σ} {copies : List σ} (h : j.Recalls r s copies)
    (hbegins : r.Begins s t) : j.Recalls r t copies :=
  Rewind.Recalls.grow h hbegins

/-- A change that is recorded leads back to the same copies. -/
theorem Recalls.record {j : Journal τ ε} {s : σ} {e : ε} {copies : List σ} (hfits : r.Fits e s)
    (h : j.Recalls r (r.undo s e) copies) : (j.record e).Recalls r s copies := by
  obtain ⟨⟨entries, _, _⟩, ⟨marks, size, hsize⟩⟩ := j
  cases marks with
  | nil =>
      cases hsize
      exact h
  | cons mark marks =>
      cases hsize
      exact Rewind.Recalls.push hfits h

/-- Reverting to the newest checkpoint brings its copy back and leaves the older copies. -/
theorem Recalls.rewind {j : Journal τ ε} {s copy : σ} {copies : List σ}
    (h : j.Recalls r s (copy :: copies)) :
    ∃ mark, j.mark? copies.length = some mark ∧
      r.cut mark.note ((j.since mark).foldl r.undo s) = copy ∧
      (j.forgetFrom copies.length mark).Recalls r copy copies := by
  have hdepth := h.depth_eq
  obtain ⟨⟨entries, size, hsize⟩, ⟨marks, count, hcount⟩⟩ := j
  cases marks with
  | nil => exact nomatch h.2
  | cons mark marks =>
      cases hsize
      cases hcount
      obtain ⟨_, _, recent, older, rfl, hposition, hcopy, hrest⟩ := h
      have hlength : marks.length = copies.length := Rewind.Recalls.length_eq hrest
      refine ⟨mark, ?_, ?_, ?_⟩
      · simp [mark?, Pile.fromBottom?, hlength]
      · simp [since, hposition, ← hcopy]
      · simpa [Recalls, forgetFrom, Pile.keep, hposition, hlength] using hrest

/-- Committing the newest checkpoint keeps the contents and the older copies. -/
theorem Recalls.commit {j : Journal τ ε} {s copy : σ} {copies : List σ}
    (h : j.Recalls r s (copy :: copies)) : (j.commitFrom copies.length).Recalls r s copies := by
  obtain ⟨entries, ⟨marks, count, hcount⟩⟩ := j
  cases marks with
  | nil => exact nomatch h.2
  | cons mark marks =>
      cases hcount
      have hlength : marks.length = copies.length :=
        Nat.succ.inj (Rewind.Recalls.length_eq h)
      cases marks with
      | nil =>
          obtain rfl : copies = [] := List.length_eq_zero_iff.1 hlength.symm
          exact Recalls.init s
      | cons second marks =>
          have hrest := Rewind.Recalls.drop h
          simpa [Recalls, commitFrom, Pile.keep, Pile.drop, Pile.isEmpty, ← hlength] using hrest

end Journal
end CallTree
