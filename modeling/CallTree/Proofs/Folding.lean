import CallTree.Context.Finish
import CallTree.Proofs.Contents
import CallTree.Proofs.Effects

/-!
# What a successful child hands over

A child that succeeds on a workspace of its own hands its view of every account it has changed
to its parent, one after another. `fold_child_absorbs` says what the parent holds afterwards,
account by account: the child's view of it where it has one, and what the parent had where it has
none. Operands and memory of the parent stay, and so do its checkpoints.
-/

namespace CallTree

namespace FinMap

variable {κ β γ σ : Type} [Ord κ] [Std.TransOrd κ] [Std.LawfulEqOrd κ]

/-- When all entries of a map are worked off, what is seen of one key is decided by its entry. -/
theorem observe_foldl (m : FinMap κ β) (g : σ → κ × β → σ) (see : σ → Option γ) (f : β → γ) {a : κ}
    (hsame : ∀ s e, e.1 = a → see (g s e) = some (f e.2))
    (hother : ∀ s e, e.1 ≠ a → see (g s e) = see s) (s : σ) :
    see (m.toList.foldl g s) = (m[a]?.map f <|> see s) := by
  have hdistinct := Std.ExtTreeMap.distinct_keys_toList (t := m)
  -- Keys that are listed later do not matter to a key that was met.
  have hskip : ∀ (entries : List (κ × β)) (s : σ), (∀ e ∈ entries, e.1 ≠ a) →
      see (entries.foldl g s) = see s := by
    intro entries s hne
    refine List.foldlRecOn entries g (motive := fun t => see t = see s) rfl ?_
    intro t ht e he
    rw [hother t e (hne e he), ht]
  have hmeet : ∀ (entries : List (κ × β)) (s : σ) (v : β),
      entries.Pairwise (fun x y => ¬compare x.1 y.1 = .eq) → (a, v) ∈ entries →
      see (entries.foldl g s) = some (f v) := by
    intro entries
    induction entries with
    | nil => simp
    | cons e entries ih =>
        intro s v hpair hmem
        obtain ⟨hfirst, hpair⟩ := List.pairwise_cons.1 hpair
        rw [List.foldl_cons]
        rcases List.mem_cons.1 hmem with rfl | hmem
        · rw [hskip entries _ fun x hx he => hfirst x hx (by simp [he])]
          exact hsame s _ rfl
        · exact ih _ v hpair hmem
  cases hget : m[a]? with
  | some v =>
      have hmem : (a, v) ∈ m.toList := Std.ExtTreeMap.mem_toList_iff_getElem?_eq_some.2 hget
      rw [hmeet m.toList s v hdistinct hmem]
      rfl
  | none =>
      rw [hskip m.toList s]
      · rfl
      · rintro ⟨k, v⟩ he rfl
        rw [Std.ExtTreeMap.mem_toList_iff_getElem?_eq_some.1 he] at hget
        cases hget

end FinMap

namespace Contents

/-- The slots of an account that are at hand in a frame that runs `own`. -/
def slotsAt? (own address : Address) (x : Contents) : Option Slots :=
  x.accounts.storage[address]? <|> if own = address then some x.slots else none

/-- What a frame that runs `own` and has the contents `x` holds after a successful child with the
contents `y`. -/
structure Absorbs (own : Address) (child : Frame) (y x x' : Contents) : Prop where
  operands : x'.operands = x.operands
  bytes : x'.bytes = x.bytes
  slots : x'.slots = ((y.slotsAt? child.call.contract own).map Slots.nonzero).getD x.slots
  storage : ∀ a, x'.accounts.storage[a]? =
    if own = a then x.accounts.storage[a]?
    else (y.slotsAt? child.call.contract a <|> x.accounts.storage[a]?)
  code : ∀ a, x'.accounts.code[a]? =
    if child.creation = true ∧ child.call.contract = a then some child.output
    else (y.accounts.code[a]? <|> x.accounts.code[a]?)

end Contents

namespace Workspace

/-- Takes over a view of an account in a frame that runs `own`. -/
def takeSlots (own : Address) (w : Workspace) (entry : Address × Slots) : Workspace :=
  if own = entry.1 then
    { w with storage := w.storage.mergeFrom (.ofSlots entry.2) }
  else
    { w with pending := w.pending.setStorage entry.1 entry.2 }

variable {own a : Address} {w : Workspace} {entry : Address × Slots}

/-- The slots of the account that is run are replaced by the view of it. -/
theorem slots_take_same (h : entry.1 = own) :
    (w.takeSlots own entry).storage.slots = entry.2.nonzero := by
  rw [takeSlots, if_pos h.symm]
  exact Storage.slots_merge _ (Slots.no_zero_nonzero _)

/-- They stay as they are when another account is viewed. -/
theorem slots_take_other (h : entry.1 ≠ own) :
    (w.takeSlots own entry).storage.slots = w.storage.slots := by
  rw [takeSlots, if_neg (Ne.symm h)]

/-- A view of another account is pending afterwards. -/
theorem storage_take_same (hown : own ≠ a) (h : entry.1 = a) :
    (w.takeSlots own entry).pending.accounts.storage[a]? = some entry.2 := by
  have hne : own ≠ entry.1 := by rw [h]; exact hown
  rw [takeSlots, if_neg hne]
  simp [Pending.setStorage, h]

/-- What is pending for an account stays when another account is viewed, or the account is the one
that is run. -/
theorem storage_take_other (h : entry.1 ≠ a ∨ entry.1 = own) :
    (w.takeSlots own entry).pending.accounts.storage[a]? = w.pending.accounts.storage[a]? := by
  by_cases hown : own = entry.1
  · rw [takeSlots, if_pos hown]
  · rw [takeSlots, if_neg hown]
    have hne : entry.1 ≠ a := h.resolve_right (Ne.symm hown)
    simp [Pending.setStorage, Std.ExtTreeMap.getElem?_insert, hne]

/-- Nothing else changes, and the checkpoints remember what they did. -/
theorem take_slots_keeps (own : Address) (w : Workspace) (entry : Address × Slots) :
    (w.takeSlots own entry).stack = w.stack ∧ (w.takeSlots own entry).memory = w.memory ∧
      (w.takeSlots own entry).pending.accounts.code = w.pending.accounts.code ∧
      ∀ saved, w.Recalls saved → (w.takeSlots own entry).Recalls saved := by
  unfold takeSlots
  split
  · refine ⟨rfl, rfl, rfl, ?_⟩
    rintro saved ⟨hstack, hmemory, hstorage, hpending⟩
    exact ⟨hstack, hmemory, hstorage.merge_from _, hpending⟩
  · refine ⟨rfl, rfl, rfl, ?_⟩
    rintro saved ⟨hstack, hmemory, hstorage, hpending⟩
    exact ⟨hstack, hmemory, hstorage, hpending⟩

/-- Takes over all views of a child. -/
def takeAll (own : Address) (child : Frame) (w space : Workspace) : Workspace :=
  space.pending.accounts.storage.toList.foldl (takeSlots own)
    (w.takeSlots own (child.call.contract, space.storage.slots))

/-- The slots of the account that is run are those of the child's view of it, if it has one. -/
theorem slots_take_all (own : Address) (child : Frame) (space w : Workspace) :
    (w.takeAll own child space).storage.slots =
      ((space.contents.slotsAt? child.call.contract own).map Slots.nonzero).getD
        w.storage.slots := by
  have hfold := FinMap.observe_foldl space.pending.accounts.storage (takeSlots own)
    (fun w => some w.storage.slots) Slots.nonzero (a := own)
    (fun s e he => by rw [slots_take_same he]) (fun s e he => by rw [slots_take_other he])
    (w.takeSlots own (child.call.contract, space.storage.slots))
  have hstart : (w.takeSlots own (child.call.contract, space.storage.slots)).storage.slots =
      if child.call.contract = own then space.storage.slots.nonzero else w.storage.slots := by
    split
    · rename_i h
      exact slots_take_same h
    · rename_i h
      exact slots_take_other h
  rw [hstart] at hfold
  refine Option.some.inj (hfold.trans ?_)
  cases hpending : space.pending.accounts.storage[own]? with
  | some slots => simp [Contents.slotsAt?, contents, hpending]
  | none =>
      by_cases hown : child.call.contract = own <;>
        simp [Contents.slotsAt?, contents, hpending, hown]

/-- What is pending for any other account is the child's view of it, if it has one. -/
theorem storage_take_all (own : Address) (child : Frame) (space w : Workspace) (a : Address) :
    (w.takeAll own child space).pending.accounts.storage[a]? =
      if own = a then w.pending.accounts.storage[a]?
      else (space.contents.slotsAt? child.call.contract a <|> w.pending.accounts.storage[a]?) := by
  by_cases hown : own = a
  · -- Nothing becomes pending for the account that is run.
    rw [if_pos hown]
    cases hown
    refine List.foldlRecOn _ _ (motive := fun v : Workspace =>
      v.pending.accounts.storage[own]? = w.pending.accounts.storage[own]?) ?_ ?_
    · exact storage_take_other (Decidable.not_or_of_imp id)
    · intro v hv entry _
      exact (storage_take_other (Decidable.not_or_of_imp id)).trans hv
  · rw [if_neg hown]
    have hfold := FinMap.observe_foldl space.pending.accounts.storage (takeSlots own)
      (fun w => w.pending.accounts.storage[a]?) id (a := a)
      (fun s e he => storage_take_same hown he) (fun s e he => storage_take_other (.inl he))
      (w.takeSlots own (child.call.contract, space.storage.slots))
    refine hfold.trans ?_
    by_cases hcontract : child.call.contract = a
    · rw [storage_take_same hown hcontract]
      cases hpending : space.pending.accounts.storage[a]? <;>
        simp [Contents.slotsAt?, contents, hpending, hcontract]
    · rw [storage_take_other (.inl hcontract)]
      cases hpending : space.pending.accounts.storage[a]? <;>
        simp [Contents.slotsAt?, contents, hpending, hcontract]

/-- Nothing else changes, and the checkpoints remember what they did. -/
theorem take_all_keeps (own : Address) (child : Frame) (space w : Workspace) :
    (w.takeAll own child space).stack = w.stack ∧ (w.takeAll own child space).memory = w.memory ∧
      (w.takeAll own child space).pending.accounts.code = w.pending.accounts.code ∧
      ∀ saved, w.Recalls saved → (w.takeAll own child space).Recalls saved := by
  refine List.foldlRecOn _ _ (motive := fun v : Workspace => v.stack = w.stack ∧
    v.memory = w.memory ∧ v.pending.accounts.code = w.pending.accounts.code ∧
      ∀ saved, w.Recalls saved → v.Recalls saved) (take_slots_keeps own w _) ?_
  rintro v ⟨hstack, hmemory, hcode, hsaved⟩ entry _
  obtain ⟨hstack', hmemory', hcode', hsaved'⟩ := take_slots_keeps own v entry
  exact ⟨hstack'.trans hstack, hmemory'.trans hmemory, hcode'.trans hcode,
    fun saved h => hsaved' saved (hsaved saved h)⟩

end Workspace

namespace Pending

/-- Deploying code leaves slots and checkpoints alone. -/
theorem set_codes_keeps (entries : List (Address × Bytes)) (p : Pending) :
    (p.setCodes entries).accounts.storage = p.accounts.storage ∧
      (p.setCodes entries).copies = p.copies := by
  refine List.foldlRecOn entries _ (motive := fun q : Pending =>
    q.accounts.storage = p.accounts.storage ∧ q.copies = p.copies) ⟨rfl, rfl⟩ ?_
  intro q hq entry _
  exact hq

/-- The code at an address after the codes of a map were deployed. -/
theorem code_set_codes (codes : FinMap Address Bytes) (p : Pending) (a : Address) :
    (p.setCodes codes.toList).accounts.code[a]? = (codes[a]? <|> p.accounts.code[a]?) := by
  have hfold := FinMap.observe_foldl codes (fun p e => p.setCode e.1 e.2)
    (fun p => p.accounts.code[a]?) id (a := a)
    (fun s e he => by simp [setCode, he])
    (fun s e he => by simp [setCode, Std.ExtTreeMap.getElem?_insert, he]) p
  rw [Option.map_id] at hfold
  exact hfold

end Pending

namespace Exec

/-- Taking over one view. -/
theorem fold_storage_ok (f : Frame) (w : Workspace) (address : Address) (slots : Slots) :
    foldStorage address slots ⟨f, some w⟩ =
      .ok () ⟨f, some (w.takeSlots f.call.contract (address, slots))⟩ := by
  unfold foldStorage Workspace.takeSlots
  have hframe : Exec.frame ⟨f, some w⟩ = .ok f ⟨f, some w⟩ := rfl
  rw [Action.bind_ok hframe]
  by_cases hown : f.call.contract = address
  · simp only [hown, if_true]
    rfl
  · simp only [hown, if_false]
    rfl

/-- Taking over several views. -/
theorem fold_storages_ok (f : Frame) (entries : List (Address × Slots)) :
    ∀ w : Workspace, foldStorages entries ⟨f, some w⟩ =
      .ok () ⟨f, some (entries.foldl (Workspace.takeSlots f.call.contract) w)⟩ := by
  induction entries with
  | nil => intro w; rfl
  | cons entry entries ih =>
      intro w
      rw [foldStorages, Action.bind_ok (fold_storage_ok f w entry.1 entry.2)]
      exact ih _

/-- Taking over all that a successful child has changed always succeeds. -/
theorem fold_child_absorbs (child f : Frame) (space w : Workspace) :
    ∃ w', foldChild child space ⟨f, some w⟩ = .ok () ⟨f, some w'⟩ ∧
      Contents.Absorbs f.call.contract child space.contents w.contents w'.contents ∧
      (∀ saved, w.Recalls saved → w'.Recalls saved) ∧ w'.stack = w.stack := by
  let taken := w.takeAll f.call.contract child space
  let deployed := taken.pending.setCodes space.pending.accounts.code.toList
  let final :=
    if child.creation then deployed.setCode child.call.contract child.output else deployed
  obtain ⟨hstack, hmemory, hcode, hsaved⟩ := Workspace.take_all_keeps f.call.contract child space w
  obtain ⟨hstorage, hcopies⟩ :=
    Pending.set_codes_keeps space.pending.accounts.code.toList taken.pending
  have hfinal : final.accounts.storage = taken.pending.accounts.storage ∧
      final.copies = taken.pending.copies := by
    show (if child.creation then _ else _ : Pending).accounts.storage = _ ∧
      (if child.creation then _ else _ : Pending).copies = _
    split
    · exact ⟨hstorage, hcopies⟩
    · exact ⟨hstorage, hcopies⟩
  refine ⟨{ taken with pending := final }, ?_, ⟨?_, ?_, ?_, ?_, ?_⟩, ?_, hstack⟩
  · show foldChanges _ _ _ _ _ = _
    rw [foldChanges, Action.bind_ok (fold_storage_ok f w _ _),
      Action.bind_ok (fold_storages_ok f _ _)]
    rfl
  · exact congrArg Stack.items hstack
  · exact congrArg Memory.data hmemory
  · exact Workspace.slots_take_all f.call.contract child space w
  · intro a
    show final.accounts.storage[a]? = _
    rw [hfinal.1]
    exact Workspace.storage_take_all f.call.contract child space w a
  · intro a
    have hdeployed : deployed.accounts.code[a]? =
        (space.pending.accounts.code[a]? <|> w.pending.accounts.code[a]?) := by
      rw [← hcode]
      exact Pending.code_set_codes _ _ a
    show (if child.creation then _ else _ : Pending).accounts.code[a]? = _
    by_cases hcreation : child.creation = true
    · by_cases hcontract : child.call.contract = a
      · simp [hcreation, hcontract, Pending.setCode]
      · simp [hcreation, hcontract, Pending.setCode, Std.ExtTreeMap.getElem?_insert, hdeployed,
          Workspace.contents]
    · simp [hcreation, hdeployed, Workspace.contents]
  · intro saved h
    obtain ⟨hs, hm, hst, hp⟩ := hsaved saved h
    exact ⟨hs, hm, hst, (congrArg Pile.toList hfinal.2).trans hp⟩

end Exec
end CallTree
