import CallTree.Proofs.Folding
import CallTree.Transaction

/-!
# What a commit leaves in the world

A root frame that has succeeded is committed account by account. `World.storage_of_commit` and
`World.code_commit` say what is found in the world afterwards.

The committed slots never hold a zero: the empty world has none, and neither an operation on a world
(`World.NoZero.store`, `World.NoZero.set_storage`) nor a commit (`World.NoZero.commit`) puts one there.
-/

namespace CallTree

namespace World

variable {w : World}

/-- The slots of an account after those of one were replaced. -/
theorem storage_of_set_storage (w : World) (address : Address) (slots : Slots) (a : Address) :
    (w.setStorage address slots).storageOf a =
      if address = a then slots.nonzero else w.storageOf a := by
  by_cases h : address = a
  · subst h
    simp [setStorage, storageOf]
  · simp [setStorage, storageOf, Std.ExtTreeMap.getElem?_insert, h]

/-- The code of an account after some was deployed. -/
theorem code_set_code (w : World) (address : Address) (code : Bytes) (a : Address) :
    (w.setCode address code).code? a = if address = a then some code else w.code? a := by
  by_cases h : address = a
  · subst h
    simp [setCode, code?]
  · simp [setCode, code?, Std.ExtTreeMap.getElem?_insert, h]

/-- Replacing slots leaves the codes alone. -/
theorem set_storages_code (entries : List (Address × Slots)) (w : World) :
    (w.setStorages entries).code = w.code := by
  refine List.foldlRecOn entries _ (motive := fun v : World => v.code = w.code) rfl ?_
  intro v hv entry _
  exact hv

/-- Deploying code leaves the slots alone. -/
theorem set_codes_storage (entries : List (Address × Bytes)) (w : World) :
    (w.setCodes entries).storage = w.storage := by
  refine List.foldlRecOn entries _ (motive := fun v : World => v.storage = w.storage) rfl ?_
  intro v hv entry _
  exact hv

/-- The slots of an account after a commit: those that were pending, those of the root frame if it
runs the account, or the ones from before. -/
theorem storage_of_commit (w : World) (root : Frame) (slots : Slots) (accounts : Accounts)
    (a : Address) :
    (w.commit root slots accounts.storage.toList accounts.code.toList).storageOf a =
      (accounts.storage[a]?.map Slots.nonzero).getD
        (if root.call.contract = a then slots.nonzero else w.storageOf a) := by
  have hfold := FinMap.observe_foldl accounts.storage
    (fun (v : World) (e : Address × Slots) => v.setStorage e.1 e.2)
    (fun v => some (v.storageOf a)) Slots.nonzero (a := a)
    (fun v e he => by rw [storage_of_set_storage, if_pos he])
    (fun v e he => by rw [storage_of_set_storage, if_neg he])
    (w.setStorage root.call.contract slots)
  have hcodes : (w.commit root slots accounts.storage.toList accounts.code.toList).storageOf a =
      ((w.setStorage root.call.contract slots).setStorages
        accounts.storage.toList).storageOf a := by
    unfold commit
    split
    · simp only [storageOf, setCode, set_codes_storage]
    · simp only [storageOf, set_codes_storage]
  rw [hcodes]
  rw [storage_of_set_storage] at hfold
  refine Option.some.inj (hfold.trans ?_)
  cases accounts.storage[a]? <;> rfl

/-- The code of an account after a commit. -/
theorem code_commit (w : World) (root : Frame) (slots : Slots) (accounts : Accounts)
    (a : Address) :
    (w.commit root slots accounts.storage.toList accounts.code.toList).code? a =
      if root.creation = true ∧ root.call.contract = a then some root.output
      else (accounts.code[a]? <|> w.code? a) := by
  have hfold := FinMap.observe_foldl accounts.code
    (fun (v : World) (e : Address × Bytes) => v.setCode e.1 e.2) (fun v => v.code? a) id (a := a)
    (fun v e he => by rw [code_set_code, if_pos he]; rfl)
    (fun v e he => by rw [code_set_code, if_neg he])
    ((w.setStorage root.call.contract slots).setStorages accounts.storage.toList)
  have hcodes : (((w.setStorage root.call.contract slots).setStorages
      accounts.storage.toList).setCodes accounts.code.toList).code? a =
        (accounts.code[a]? <|> w.code? a) := by
    refine hfold.trans ?_
    rw [Option.map_id, code?, set_storages_code]
    rfl
  unfold commit
  by_cases hcreation : root.creation = true
  · simp only [hcreation, if_true, true_and, code_set_code, hcodes]
  · simp only [hcreation, Bool.false_eq_true, if_false, false_and, hcodes]

/-- The committed slots hold no zero. -/
def NoZero (w : World) : Prop :=
  ∀ a, (w.storageOf a).NoZero

/-- The empty world holds nothing. -/
theorem no_zero_empty : NoZero {} := by
  intro a
  exact Slots.no_zero_empty

/-- Only the slots matter. -/
theorem NoZero.of_storage {w' : World} (h : w.NoZero) (hsame : w'.storage = w.storage) :
    w'.NoZero := by
  intro a
  rw [storageOf, hsame]
  exact h a

/-- Writing zero removes a slot. -/
theorem NoZero.store (h : w.NoZero) (address : Address) (key value : Word) :
    (w.store address key value).NoZero := by
  intro a
  by_cases ha : address = a
  · subst ha
    simpa [World.store, storageOf] using (h address).store key value
  · simpa [World.store, storageOf, Std.ExtTreeMap.getElem?_insert, ha] using h a

/-- Deploying code leaves the slots alone. -/
theorem NoZero.set_code (h : w.NoZero) (address : Address) (code : Bytes) :
    (w.setCode address code).NoZero :=
  h

/-- Zeros are left out when slots are replaced. -/
theorem NoZero.set_storage (h : w.NoZero) (address : Address) (slots : Slots) :
    (w.setStorage address slots).NoZero := by
  intro a
  rw [storage_of_set_storage]
  split
  · exact Slots.no_zero_nonzero slots
  · exact h a

/-- A commit puts no zeros into the world. -/
theorem NoZero.commit (h : w.NoZero) (root : Frame) (slots : Slots)
    (storages : List (Address × Slots)) (codes : List (Address × Bytes)) :
    (w.commit root slots storages codes).NoZero := by
  have hstorages : ((w.setStorage root.call.contract slots).setStorages storages).NoZero :=
    List.foldlRecOn storages _ (motive := NoZero) (h.set_storage _ _) fun _ hv entry _ =>
      hv.set_storage entry.1 entry.2
  have hcodes : (((w.setStorage root.call.contract slots).setStorages storages).setCodes
      codes).NoZero := hstorages.of_storage (set_codes_storage codes _)
  unfold World.commit
  by_cases hcreation : root.creation = true
  · rw [if_pos hcreation]
    exact hcodes.set_code _ _
  · rw [if_neg hcreation]
    exact hcodes

end World
end CallTree
