import CallTree.Proofs.Commit
import CallTree.Proofs.Copies

/-!
# Any order of the entries

A map has no order, and whoever works off its entries one after another meets them in some order. This
module says where that order stays without effect: when a storage takes over the slots of another one
(`Storage.Alike.merge_in`), when a frame takes over what its child has changed (`Workspace.Folds.alike`) and
when a root frame is committed (`World.commit_perm`).

Entries with different keys concern different accounts or slots, so taking them over commutes
(`FinMap.foldl_perm`). Only the undo journal of a storage knows the order. What it leads back to does not
depend on it: a storage that can be brought back to some slots is brought back to them by either journal.
-/

namespace CallTree

namespace FinMap

variable {κ β σ : Type} [Ord κ] [Std.TransOrd κ] [Std.LawfulEqOrd κ]

/-- Entries with different keys can be put into a map in either order. -/
theorem insert_comm (m : FinMap κ β) {a b : κ} (h : a ≠ b) (u v : β) :
    (m.insert a u).insert b v = (m.insert b v).insert a u := by
  apply Std.ExtTreeMap.ext_getElem?
  intro key
  by_cases hb : b = key
  · subst hb
    have hne : ¬compare a b = .eq := by simpa using h
    rw [Std.ExtTreeMap.getElem?_insert_self, Std.ExtTreeMap.getElem?_insert, if_neg hne,
      Std.ExtTreeMap.getElem?_insert_self]
  · simp [Std.ExtTreeMap.getElem?_insert, hb]

/-- The entries of a map can be worked off in any order, if those with different keys can be
exchanged. -/
theorem foldl_perm {m : FinMap κ β} {entries : List (κ × β)} (h : entries.Perm m.toList)
    {g : σ → κ × β → σ} (hcomm : ∀ s e e', e.1 ≠ e'.1 → g (g s e) e' = g (g s e') e) (s : σ) :
    entries.foldl g s = m.toList.foldl g s := by
  refine h.foldl_eq' (fun e he e' he' s => ?_) s
  by_cases hkey : e.1 = e'.1
  · -- A map has one entry for each key.
    have hvalue : e.2 = e'.2 := by
      have hget := Std.ExtTreeMap.mem_toList_iff_getElem?_eq_some.1 (h.mem_iff.1 he)
      have hget' := Std.ExtTreeMap.mem_toList_iff_getElem?_eq_some.1 (h.mem_iff.1 he')
      rw [hkey, hget'] at hget
      exact (Option.some.inj hget).symm
    rw [Prod.ext hkey hvalue]
  · exact hcomm s e e' hkey

end FinMap

/-! ## Storages -/

namespace Storage

/-- Two storages that cannot be told apart by their slots, now or after any operations on both of
them. -/
def Alike (s t : Storage) : Prop :=
  ∀ ops, (Operation.run edit ops s).slots = (Operation.run edit ops t).slots

/-- Storages with the same slots that can be brought back to the same copies are alike. -/
theorem Recalls.alike {s t : Storage} {copies : List Slots} (hslots : s.slots = t.slots)
    (hs : s.Recalls copies) (ht : t.Recalls copies) : s.Alike t := by
  intro ops
  let copied : Copied Slots := ⟨s.slots, ⟨copies, copies.length, rfl⟩⟩
  have hsfollows : s.Follows copied := ⟨rfl, hs⟩
  have htfollows : t.Follows copied := ⟨hslots.symm, ht⟩
  rw [(hsfollows.run ops).slots_eq, (htfollows.run ops).slots_eq]

/-- The order in which a storage meets what it clears and what it writes makes no difference. -/
theorem Recalls.merge_in_alike {s other : Storage} {copies : List Slots} (h : s.Recalls copies)
    (hother : other.slots.NoZero) {keys keys' : List Word} {entries entries' : List (Word × Word)}
    (hkeys : keys.Perm (s.stale other)) (hkeys' : keys'.Perm (s.stale other))
    (hentries : entries.Perm other.slots.toList) (hentries' : entries'.Perm other.slots.toList) :
    (s.mergeIn keys entries).Alike (s.mergeIn keys' entries') := by
  refine Recalls.alike ?_ (h.merge_in keys entries) (h.merge_in keys' entries')
  rw [slots_merge_in s hother hkeys hentries, slots_merge_in s hother hkeys' hentries']

/-- Whatever has been done to a storage, it can be brought back to some copies. -/
theorem recalls_run (init : Slots) (ops : List Operation) :
    ∃ copies, (Operation.run edit ops (ofSlots init)).Recalls copies :=
  ⟨_, ((follows_of_slots init).run ops).recalls⟩

end Storage

/-! ## Committing -/

namespace World

/-- A root frame is committed with the same effect whichever account comes first. -/
theorem commit_perm (w : World) (root : Frame) (slots : Slots) (accounts : Accounts)
    {storages : List (Address × Slots)} {codes : List (Address × Bytes)}
    (hstorages : storages.Perm accounts.storage.toList) (hcodes : codes.Perm accounts.code.toList) :
    w.commit root slots storages codes =
      w.commit root slots accounts.storage.toList accounts.code.toList := by
  have hset : ∀ v : World, v.setStorages storages = v.setStorages accounts.storage.toList := by
    refine FinMap.foldl_perm hstorages fun v e e' hne => ?_
    simp only [setStorage, FinMap.insert_comm _ hne]
  have hdeploy : ∀ v : World, v.setCodes codes = v.setCodes accounts.code.toList := by
    refine FinMap.foldl_perm hcodes fun v e e' hne => ?_
    simp only [setCode, FinMap.insert_comm _ hne]
  simp only [commit, hset, hdeploy]

end World

/-! ## Folding -/

namespace Contents

/-- Takes over a view of an account in a frame that runs `own`. -/
def take (own : Address) (x : Contents) (entry : Address × Slots) : Contents :=
  if own = entry.1 then
    { x with slots := entry.2.nonzero }
  else
    { x with accounts.storage := x.accounts.storage.insert entry.1 entry.2 }

/-- Views of different accounts can be taken over in either order. -/
theorem take_comm {own : Address} (x : Contents) {e e' : Address × Slots} (h : e.1 ≠ e'.1) :
    (x.take own e).take own e' = (x.take own e').take own e := by
  unfold take
  by_cases he : own = e.1
  · have he' : own ≠ e'.1 := fun h' => h (he.symm.trans h')
    simp only [if_pos he, if_neg he']
  · by_cases he' : own = e'.1
    · simp only [if_neg he, if_pos he']
    · simp only [if_neg he, if_neg he', FinMap.insert_comm _ h]

end Contents

namespace Pending

/-- The codes deployed below a child, and by the child itself. -/
def deploy (child : Frame) (codes : List (Address × Bytes)) (p : Pending) : Pending :=
  let p := p.setCodes codes
  if child.creation then p.setCode child.call.contract child.output else p

/-- Codes at different addresses can be deployed in any order. -/
theorem deploy_perm (child : Frame) (p : Pending) {codes : List (Address × Bytes)}
    {m : FinMap Address Bytes} (h : codes.Perm m.toList) :
    p.deploy child codes = p.deploy child m.toList := by
  have hcodes : p.setCodes codes = p.setCodes m.toList := by
    refine FinMap.foldl_perm h (fun q e e' hne => ?_) p
    simp only [setCode, FinMap.insert_comm _ hne]
  rw [deploy, deploy, hcodes]

/-- Deploying keeps the copies. -/
theorem copies_deploy (child : Frame) (p : Pending) (codes : List (Address × Bytes)) :
    (p.deploy child codes).copies = p.copies := by
  have hcopies := (set_codes_keeps codes p).2
  unfold deploy
  split <;> exact hcopies

end Pending

namespace Workspace

/-- Takes over a view of an account in a frame that runs `own`, meeting keys and entries in some
order. -/
inductive Takes (own : Address) (v : Workspace) : Address × Slots → Workspace → Prop
  /-- The slots of the account that is run are merged. -/
  | merged {slots : Slots} {keys : List Word} {entries : List (Word × Word)}
      (hkeys : keys.Perm (v.storage.stale (.ofSlots slots)))
      (hentries : entries.Perm (Storage.ofSlots slots).slots.toList) :
      Takes own v (own, slots) { v with storage := v.storage.mergeIn keys entries }
  /-- Those of another account become pending. -/
  | pended {address : Address} {slots : Slots} (hother : own ≠ address) :
      Takes own v (address, slots) { v with pending := v.pending.setStorage address slots }

/-- Takes over several views, one after another. -/
inductive TakesAll (own : Address) : Workspace → List (Address × Slots) → Workspace → Prop
  | nil (v : Workspace) : TakesAll own v [] v
  | cons {v w x : Workspace} {entry : Address × Slots} {entries : List (Address × Slots)}
      (hfirst : Takes own v entry w) (hrest : TakesAll own w entries x) :
      TakesAll own v (entry :: entries) x

/-- Takes over all that a successful child has changed in its workspace, meeting the accounts in some
order. -/
inductive Folds (own : Address) (child : Frame) (space v : Workspace) : Workspace → Prop
  | mk {storages : List (Address × Slots)} {codes : List (Address × Bytes)} {w : Workspace}
      (hstorages : storages.Perm space.pending.accounts.storage.toList)
      (hcodes : codes.Perm space.pending.accounts.code.toList)
      (htakes : TakesAll own v ((child.call.contract, space.storage.slots) :: storages) w) :
      Folds own child space v { w with pending := w.pending.deploy child codes }

/-- Only slots and pending changes have been replaced, and what could be brought back still can. -/
structure Retains (v w : Workspace) : Prop where
  stack : w.stack = v.stack
  memory : w.memory = v.memory
  copies : w.pending.copies = v.pending.copies
  recalls : ∀ saved, v.Recalls saved → w.Recalls saved

namespace Retains

variable {v w x : Workspace}

theorem refl (v : Workspace) : v.Retains v :=
  ⟨rfl, rfl, rfl, fun _ h => h⟩

theorem trans (h : v.Retains w) (h' : w.Retains x) : v.Retains x :=
  ⟨h'.stack.trans h.stack, h'.memory.trans h.memory, h'.copies.trans h.copies,
    fun saved hsaved => h'.recalls saved (h.recalls saved hsaved)⟩

/-- Replacing pending changes keeps the copies. -/
theorem of_pending {p : Pending} (h : p.copies = v.pending.copies) :
    v.Retains { v with pending := p } := by
  refine ⟨rfl, rfl, h, ?_⟩
  rintro saved ⟨hstack, hmemory, hstorage, hpending⟩
  exact ⟨hstack, hmemory, hstorage, (congrArg Pile.toList h).trans hpending⟩

end Retains

variable {own : Address} {child : Frame} {space v w w' : Workspace}

/-- A view that is taken over changes the contents in one way only. -/
theorem Takes.contents_eq {entry : Address × Slots} (h : v.Takes own entry w) :
    w.contents = v.contents.take own entry ∧ v.Retains w := by
  cases h with
  | @merged slots keys entries hkeys hentries =>
      have hslots := Storage.slots_merge_in v.storage (Slots.no_zero_nonzero slots) hkeys hentries
      refine ⟨?_, rfl, rfl, rfl, ?_⟩
      · rw [Contents.take, if_pos rfl, contents, hslots]
        rfl
      · rintro saved ⟨hstack, hmemory, hstorage, hpending⟩
        exact ⟨hstack, hmemory, hstorage.merge_in _ _, hpending⟩
  | pended hother =>
      refine ⟨?_, Retains.of_pending rfl⟩
      rw [Contents.take, if_neg hother]
      rfl

/-- So do several of them. -/
theorem TakesAll.contents_eq {entries : List (Address × Slots)} (h : TakesAll own v entries w) :
    w.contents = entries.foldl (Contents.take own) v.contents ∧ v.Retains w := by
  induction h with
  | nil v => exact ⟨rfl, .refl v⟩
  | cons hfirst _ ih =>
      obtain ⟨hcontents, hretains⟩ := hfirst.contents_eq
      obtain ⟨hcontents', hretains'⟩ := ih
      rw [hcontents] at hcontents'
      exact ⟨hcontents', hretains.trans hretains'⟩

/-- Taking over the view that the interpreter takes over next is one way to do it. -/
theorem takes_take_slots (own : Address) (v : Workspace) (entry : Address × Slots) :
    v.Takes own entry (v.takeSlots own entry) := by
  obtain ⟨address, slots⟩ := entry
  unfold takeSlots
  split
  · rename_i hown
    cases hown
    exact .merged (.refl _) (.refl _)
  · rename_i hother
    exact .pended hother

/-- So is taking over several. -/
theorem takes_all_foldl (own : Address) (entries : List (Address × Slots)) (v : Workspace) :
    TakesAll own v entries (entries.foldl (takeSlots own) v) := by
  induction entries generalizing v with
  | nil => exact .nil v
  | cons entry entries ih => exact .cons (takes_take_slots own v entry) (ih _)

/-- Taking over a child's changes keeps the rest. -/
theorem Folds.retains (h : Folds own child space v w) : v.Retains w := by
  obtain ⟨_, _, htakes⟩ := h
  exact htakes.contents_eq.2.trans (.of_pending (Pending.copies_deploy _ _ _))

/-- What is pending and the slots of the account that is run do not depend on the order in which a child's
changes are taken over. -/
theorem Folds.same (h : Folds own child space v w) (h' : Folds own child space v w') :
    w.pending = w'.pending ∧ w.storage.slots = w'.storage.slots := by
  obtain @⟨storages, codes, w, hstorages, hcodes, htakes⟩ := h
  obtain @⟨storages', codes', w', hstorages', hcodes', htakes'⟩ := h'
  obtain ⟨hcontents, hretains⟩ := htakes.contents_eq
  obtain ⟨hcontents', hretains'⟩ := htakes'.contents_eq
  -- The child's own slots come first in any order.
  have hsame : w.contents = w'.contents := by
    have hcomm := @Contents.take_comm own
    rw [hcontents, hcontents', List.foldl_cons, List.foldl_cons,
      FinMap.foldl_perm hstorages fun x e e' hne => hcomm x hne,
      FinMap.foldl_perm hstorages' fun x e e' hne => hcomm x hne]
  have haccounts : w.pending.accounts = w'.pending.accounts := congrArg Contents.accounts hsame
  have hpending : w.pending = w'.pending := by
    have hcopies := hretains.copies.trans hretains'.copies.symm
    cases hp : w.pending
    cases hp' : w'.pending
    rw [hp, hp'] at haccounts hcopies
    cases haccounts
    cases hcopies
    rfl
  refine ⟨?_, congrArg Contents.slots hsame⟩
  show w.pending.deploy child codes = w'.pending.deploy child codes'
  rw [hpending, Pending.deploy_perm child _ hcodes, Pending.deploy_perm child _ hcodes']

/-- Two workspaces that cannot be told apart by what they hold, now or after any operations on both of
their storages. -/
structure Alike (v w : Workspace) : Prop where
  stack : v.stack = w.stack
  memory : v.memory = w.memory
  pending : v.pending = w.pending
  storage : v.storage.Alike w.storage

/-- A workspace is like itself. -/
theorem Alike.refl (v : Workspace) : v.Alike v :=
  ⟨rfl, rfl, rfl, fun _ => rfl⟩

/-- The order in which a frame takes over what its child has changed makes no difference, if its storage
can be brought back to each of its open checkpoints. -/
theorem Folds.alike {saved : List Contents} (hsaved : v.Recalls saved)
    (h : Folds own child space v w) (h' : Folds own child space v w') : w.Alike w' := by
  obtain ⟨hpending, hslots⟩ := h.same h'
  have hretains := h.retains
  have hretains' := h'.retains
  exact ⟨hretains.stack.trans hretains'.stack.symm, hretains.memory.trans hretains'.memory.symm,
    hpending, Storage.Recalls.alike hslots (hretains.recalls saved hsaved).storage
      (hretains'.recalls saved hsaved).storage⟩

end Workspace

namespace Exec

/-- The interpreter takes over a child's changes in one of the orders. -/
theorem fold_child_folds (child f : Frame) (space v : Workspace) :
    ∃ w, foldChild child space ⟨f, some v⟩ = .ok () ⟨f, some w⟩ ∧
      Workspace.Folds f.call.contract child space v w := by
  refine ⟨_, ?_, .mk (.refl _) (.refl _) (Workspace.takes_all_foldl _ _ v)⟩
  rw [foldChild, foldChanges, Action.bind_ok (fold_storage_ok f v _ _),
    Action.bind_ok (fold_storages_ok f _ _)]
  rfl

end Exec
end CallTree
