import Mathlib.Logic.Function.Basic
import CallTree.Proofs.Commit
import CallTree.Proofs.LayerMoves

/-!
# One ledger for all accounts

A ledger is the simple picture of a transaction: one map of slots and one of codes for all
accounts, and a copy of both for every frame that may have to be rolled back. `Ledger.next?` acts
on it what a move means to the accounts.

The call stack keeps the same information spread over its layers. `Tracks` says how: the maps are
what is seen from the top, and each copy is what is seen from the frame that waits there. Every
change of the layers is a step of the ledger (`Tracks.change`). This needs that no layer has its own
account pending, and that no zeros are kept (`Layer.Sound`).
-/

namespace CallTree

/-- Slots and code of all accounts, with the copies to go back to, the newest first. -/
structure Ledger where
  /-- The slots of each account. -/
  storage : Address → Slots
  /-- The code of each account, if any was ever deployed there. -/
  code : Address → Option Bytes
  /-- The copies. -/
  copies : List ((Address → Slots) × (Address → Option Bytes)) := []

namespace Ledger

/-- The committed accounts. -/
def ofWorld (world : World) : Ledger where
  storage := world.storageOf
  code := world.code?

/-- Deploys code, if there is any to deploy. -/
def deploy (m : Ledger) : Option (Address × Bytes) → Ledger
  | none => m
  | some (address, code) => { m with code := Function.update m.code address (some code) }

/-- What an event does. There is no way on from a slot that is found to have another value than in
the ledger, or from the end of a frame that was never opened. -/
def next? (m : Ledger) : Event → Option Ledger
  | .quiet => some m
  | .load account key value => if (m.storage account).load key = value then some m else none
  | .store account key value =>
    some { m with
      storage := Function.update m.storage account ((m.storage account).store key value) }
  | .enter => some { m with copies := (m.storage, m.code) :: m.copies }
  | .leave deployed =>
    match m.copies with
    | [] => none
    | _ :: older => some ({ m with copies := older }.deploy deployed)
  | .rollback =>
    match m.copies with
    | [] => none
    | (storage, code) :: older => some ⟨storage, code, older⟩

/-- What several events do, one after another. -/
def run? (m : Ledger) : List Event → Option Ledger
  | [] => some m
  | event :: rest => (m.next? event).bind fun m => m.run? rest

/-- One more event. -/
theorem run_append_one {m m' m'' : Ledger} {events : List Event} {event : Event}
    (h : m.run? events = some m') (hnext : m'.next? event = some m'') :
    m.run? (events ++ [event]) = some m'' := by
  induction events generalizing m with
  | nil =>
      cases h
      simp [run?, hnext]
  | cons first events ih =>
      obtain ⟨m₁, hfirst, hrest⟩ := Option.bind_eq_some_iff.1 h
      simp only [List.cons_append, run?, hfirst, Option.bind_some]
      exact ih hrest

end Ledger

/-! ## What is seen from the top -/

namespace Contents

/-- No zeros are kept, and nothing is pending for the account that is run. -/
structure Sound (own : Address) (x : Contents) : Prop where
  slots : x.slots.NoZero
  pending : ∀ (a : Address) (slots : Slots), x.accounts.storage[a]? = some slots → slots.NoZero
  own : x.accounts.storage[own]? = none

/-- A new workspace without zeros is sound. -/
theorem sound_fresh (own : Address) (slots : Slots) : (fresh slots.nonzero).Sound own := by
  refine ⟨Slots.no_zero_nonzero _, ?_, ?_⟩
  · simp [fresh]
  · simp [fresh]

/-- The slots of the account that is run, where nothing is pending for it. -/
theorem slots_at_own {own : Address} {x : Contents} (h : x.accounts.storage[own]? = none) :
    x.slotsAt? own own = some x.slots := by
  simp [slotsAt?, h]

/-- Of any other account, what is pending is at hand. -/
theorem slots_at_other {own a : Address} (x : Contents) (h : own ≠ a) :
    x.slotsAt? own a = x.accounts.storage[a]? := by
  simp [slotsAt?, h]

/-- Slots that are at hand hold no zero. -/
theorem Sound.at_no_zero {own a : Address} {x : Contents} {slots : Slots} (h : x.Sound own)
    (hslots : x.slotsAt? own a = some slots) : slots.NoZero := by
  by_cases hown : own = a
  · subst hown
    rw [slots_at_own h.own] at hslots
    cases hslots
    exact h.slots
  · rw [slots_at_other x hown] at hslots
    exact h.pending a slots hslots

/-- A frame that has absorbed a sound child is sound. -/
theorem Absorbs.sound {own : Address} {child : Frame} {y x x' : Contents}
    (h : Absorbs own child y x x') (hy : y.Sound child.call.contract) (hx : x.Sound own) :
    x'.Sound own := by
  refine ⟨?_, fun a slots hslots => ?_, ?_⟩
  · rw [h.slots]
    cases hview : y.slotsAt? child.call.contract own with
    | some slots => exact Slots.no_zero_nonzero slots
    | none => exact hx.slots
  · rw [h.storage] at hslots
    by_cases hown : own = a
    · rw [if_pos hown] at hslots
      exact hx.pending a slots hslots
    · rw [if_neg hown] at hslots
      cases hview : y.slotsAt? child.call.contract a with
      | some found =>
          simp [hview] at hslots
          exact hslots ▸ hy.at_no_zero hview
      | none =>
          simp [hview] at hslots
          exact hx.pending a slots hslots
  · rw [h.storage, if_pos rfl]
    exact hx.own

/-- What is at hand in a frame that has absorbed a sound child: the child's view where it has
one. -/
theorem Absorbs.slots_at {own : Address} {child : Frame} {y x x' : Contents}
    (h : Absorbs own child y x x') (hy : y.Sound child.call.contract) (hx : x.Sound own)
    (a : Address) :
    x'.slotsAt? own a = (y.slotsAt? child.call.contract a <|> x.slotsAt? own a) := by
  by_cases hown : own = a
  · subst hown
    have hpending : x'.accounts.storage[own]? = none := by
      rw [h.storage, if_pos rfl]
      exact hx.own
    rw [slots_at_own hpending, slots_at_own hx.own, h.slots]
    cases hview : y.slotsAt? child.call.contract own with
    | some slots => simp [(hy.at_no_zero hview).nonzero_eq]
    | none => rfl
  · rw [slots_at_other x' hown, slots_at_other x hown, h.storage, if_neg hown]

end Contents

/-- No zeros are kept in a layer, and it has nothing pending for its own account. -/
def Layer.Sound (l : Layer) : Prop :=
  l.contents.Sound l.contract

section Seen

variable {world : World} {l l' child parent : Layer} {below : List Layer} {a : Address}

theorem slots_seen_cons (world : World) (l : Layer) (below : List Layer) (a : Address) :
    slotsSeen world (l :: below) a =
      (l.slotsAt? a <|> (rooms (l :: below)).tail.findSome? (Layer.slotsAt? a)).getD
        (world.storageOf a) := by
  rw [slotsSeen, rooms_cons, List.findSome?_cons]
  cases l.slotsAt? a <;> rfl

/-- Of a frame on a workspace of its own, only what it has at hand hides what is seen below. -/
theorem slots_seen_own (h : child.frame.home.isOwned = true) :
    slotsSeen world (child :: below) a = (child.slotsAt? a).getD (slotsSeen world below a) := by
  rw [slots_seen_cons, rooms_own h, List.tail_cons]
  cases child.slotsAt? a <;> rfl

theorem code_seen_own (h : child.frame.home.isOwned = true) :
    codeSeen world (child :: below) a = (child.codeAt? a <|> codeSeen world below a) := by
  rw [code_seen_cons, rooms_own h, List.tail_cons]
  rfl

/-- A frame that shares its workspace with the frame below hides it. -/
theorem slots_seen_shared (h : child.frame.home.isOwned = false) :
    slotsSeen world (child :: parent :: below) a =
      (child.slotsAt? a <|> (rooms (parent :: below)).tail.findSome? (Layer.slotsAt? a)).getD
        (world.storageOf a) := by
  rw [slots_seen_cons, rooms_shared h, List.tail_cons]

theorem code_seen_shared (h : child.frame.home.isOwned = false) :
    codeSeen world (child :: parent :: below) a =
      (child.codeAt? a <|> (rooms (parent :: below)).tail.findSome? (Layer.codeAt? a) <|>
        world.code? a) := by
  rw [code_seen_cons, rooms_shared h, List.tail_cons]

/-- The slots of the account that is run are those that are seen of it. -/
theorem slots_seen_self (h : l.Sound) :
    slotsSeen world (l :: below) l.contract = l.contents.slots := by
  rw [slots_seen_cons, Layer.slotsAt?, Contents.slots_at_own h.own]
  rfl

/-- No zero is ever seen. -/
theorem slots_seen_no_zero (hworld : world.NoZero) {layers : List Layer}
    (h : ∀ n ∈ layers, n.Sound) (a : Address) : (slotsSeen world layers a).NoZero := by
  rw [slotsSeen]
  cases hfound : (rooms layers).findSome? (Layer.slotsAt? a) with
  | none => exact hworld a
  | some slots =>
      obtain ⟨n, hn, hslots⟩ := List.exists_of_findSome?_eq_some hfound
      exact (h n (mem_of_mem_rooms n hn)).at_no_zero hslots

/-- A frame that starts on a workspace of its own with the slots that are seen of its account hides
nothing else. -/
theorem fresh_sees (below : List Layer) (howned : child.frame.home.isOwned = true)
    (hseen : (slotsSeen world below child.contract).NoZero)
    (hcontents : child.contents = .fresh (slotsSeen world below child.contract).nonzero) :
    child.Sound ∧ slotsSeen world (child :: below) = slotsSeen world below ∧
      codeSeen world (child :: below) = codeSeen world below := by
  have hsound : child.Sound := by
    rw [Layer.Sound, hcontents]
    exact Contents.sound_fresh _ _
  refine ⟨hsound, ?_, ?_⟩
  · funext a
    rw [slots_seen_own howned, Layer.slotsAt?]
    by_cases ha : child.contract = a
    · subst ha
      rw [Contents.slots_at_own hsound.own, hcontents]
      exact hseen.nonzero_eq
    · rw [Contents.slots_at_other _ ha, hcontents]
      simp [Contents.fresh]
  · funext a
    rw [code_seen_own howned, Layer.codeAt?, hcontents]
    simp [Contents.fresh]

end Seen

namespace Layer.Same

variable {world : World} {l l' : Layer} {below : List Layer}

theorem contract_eq (h : l.Same l') : l'.contract = l.contract :=
  congrArg (CallData.contract ∘ Site.call) h.site

theorem slots_at (h : l.Same l') (a : Address) : l'.slotsAt? a = l.slotsAt? a := by
  simp only [Layer.slotsAt?, Contents.slotsAt?, h.contract_eq, h.slots, h.accounts]

theorem sound (h : l.Same l') (hsound : l.Sound) : l'.Sound := by
  refine ⟨?_, ?_, ?_⟩
  · rw [h.slots]
    exact hsound.slots
  · rw [h.accounts]
    exact hsound.pending
  · rw [h.accounts, h.contract_eq]
    exact hsound.own

/-- Nothing else is seen from a layer that has gone on without a change to any account. -/
theorem slots_seen (h : l.Same l') (world : World) (below : List Layer) :
    slotsSeen world (l' :: below) = slotsSeen world (l :: below) := by
  funext a
  rw [slots_seen_cons, slots_seen_cons, h.slots_at, rooms_tail_congr (congrArg Site.home h.site)]

end Layer.Same

/-- The caller of an internal call has not changed any account. -/
theorem Layer.Calls.same {l parent : Layer} (h : l.Calls parent) : l.Same parent :=
  ⟨h.site, by rw [h.contents], by rw [h.contents]⟩

/-- What is seen from each of some layers, the topmost first. -/
def pasts (world : World) : List Layer → List ((Address → Slots) × (Address → Option Bytes))
  | [] => []
  | l :: below =>
    (slotsSeen world (l :: below), codeSeen world (l :: below)) :: pasts world below

/-- The ledger is what is seen from the top, and its copies are what is seen from the frames that
wait. -/
structure Tracks (world : World) (m : Ledger) (layers : List Layer) : Prop where
  storage : m.storage = slotsSeen world layers
  code : m.code = codeSeen world layers
  copies : m.copies = pasts world layers.tail
  sound : ∀ n ∈ layers, n.Sound

namespace Tracks

variable {world : World} {m : Ledger} {l l' child parent : Layer} {below : List Layer}

/-- A frame that goes on without a change to any account. -/
theorem same (h : Tracks world m (l :: below)) (hsame : l.Same l') :
    Tracks world m (l' :: below) := by
  refine ⟨?_, ?_, h.copies, ?_⟩
  · rw [hsame.slots_seen]
    exact h.storage
  · rw [hsame.code_seen]
    exact h.code
  · obtain ⟨hl, hbelow⟩ := List.forall_mem_cons.1 h.sound
    exact List.forall_mem_cons.2 ⟨hsame.sound hl, hbelow⟩

/-- A slot that is read has the value that it has in the ledger. -/
theorem load (h : Tracks world m (l :: below)) (key : Word) :
    m.next? (.load l.contract key (l.contents.slots.load key)) = some m := by
  have hslots : m.storage l.contract = l.contents.slots := by
    rw [h.storage]
    exact slots_seen_self (h.sound l (by simp))
  simp [Ledger.next?, hslots]

/-- A slot that is written. -/
theorem store (h : Tracks world m (l :: below)) {key value : Word}
    (hsite : l'.frame.site = l.frame.site) (haccounts : l'.contents.accounts = l.contents.accounts)
    (hslots : l'.contents.slots = l.contents.slots.store key value) :
    ∃ m', m.next? (.store l.contract key value) = some m' ∧ Tracks world m' (l' :: below) := by
  obtain ⟨hl, hbelow⟩ := List.forall_mem_cons.1 h.sound
  have hcontract : l'.contract = l.contract := congrArg (CallData.contract ∘ Site.call) hsite
  have hl' : l'.Sound := by
    refine ⟨?_, ?_, ?_⟩
    · rw [hslots]
      exact hl.slots.store key value
    · rw [haccounts]
      exact hl.pending
    · rw [haccounts, hcontract]
      exact hl.own
  have hstorage : m.storage l.contract = l.contents.slots := by
    rw [h.storage]
    exact slots_seen_self hl
  refine ⟨_, rfl, ?_, ?_, h.copies, List.forall_mem_cons.2 ⟨hl', hbelow⟩⟩
  · funext a
    rw [hstorage, ← hslots]
    show Function.update m.storage l.contract l'.contents.slots a = _
    by_cases ha : a = l.contract
    · subst ha
      rw [Function.update_self, ← hcontract]
      exact (slots_seen_self hl').symm
    · have hother : l'.slotsAt? a = l.slotsAt? a := by
        rw [Layer.slotsAt?, Layer.slotsAt?, hcontract, Contents.slots_at_other _ (Ne.symm ha),
          Contents.slots_at_other _ (Ne.symm ha), haccounts]
      rw [Function.update_of_ne ha, h.storage, slots_seen_cons, slots_seen_cons, hother,
        rooms_tail_congr (congrArg Site.home hsite)]
  · funext a
    show m.code a = codeSeen world (l' :: below) a
    rw [h.code, code_seen_cons, code_seen_cons, rooms_tail_congr (congrArg Site.home hsite)]
    simp only [Layer.codeAt?, haccounts]

/-- An internal call sees what its caller sees. -/
theorem enter_internal (h : Tracks world m (parent :: below))
    (hshared : child.frame.home.isOwned = false) (hcontract : child.contract = parent.contract)
    (hcontents : child.contents = parent.contents) :
    ∃ m', m.next? .enter = some m' ∧ Tracks world m' (child :: parent :: below) := by
  have hslots : ∀ a, child.slotsAt? a = parent.slotsAt? a := fun a => by
    rw [Layer.slotsAt?, Layer.slotsAt?, hcontract, hcontents]
  have hsound : child.Sound := by
    rw [Layer.Sound, hcontract, hcontents]
    exact h.sound parent (by simp)
  refine ⟨_, rfl, ?_, ?_, ?_, List.forall_mem_cons.2 ⟨hsound, h.sound⟩⟩
  · funext a
    rw [slots_seen_shared hshared, hslots, ← slots_seen_cons]
    exact congrFun h.storage a
  · funext a
    rw [code_seen_shared hshared, Layer.codeAt?, hcontents]
    rw [show m.code = _ from h.code, code_seen_cons]
    rfl
  · show (m.storage, m.code) :: m.copies = _
    rw [h.storage, h.code, h.copies]
    rfl

/-- A root frame sees what was committed. -/
theorem start (hworld : world.NoZero) (howned : l.frame.home.isOwned = true)
    (hcontents : l.contents = .fresh (world.storageOf l.contract).nonzero) :
    Tracks world (.ofWorld world) [l] := by
  obtain ⟨hsound, hslots, hcode⟩ := fresh_sees [] howned (hworld l.contract) hcontents
  exact ⟨hslots.symm, hcode.symm, rfl, by simpa using hsound⟩

/-- Any other call sees what its caller sees too. -/
theorem enter_own (hworld : world.NoZero) (h : Tracks world m (parent :: below))
    (howned : child.frame.home.isOwned = true)
    (hcontents : child.contents =
      .fresh (slotsSeen world (parent :: below) child.contract).nonzero) :
    ∃ m', m.next? .enter = some m' ∧ Tracks world m' (child :: parent :: below) := by
  obtain ⟨hsound, hslots, hcode⟩ :=
    fresh_sees (parent :: below) howned (slots_seen_no_zero hworld h.sound child.contract) hcontents
  refine ⟨_, rfl, h.storage.trans hslots.symm, h.code.trans hcode.symm, ?_,
    List.forall_mem_cons.2 ⟨hsound, h.sound⟩⟩
  show (m.storage, m.code) :: m.copies = _
  rw [h.storage, h.code, h.copies]
  rfl

/-- The parent of a successful internal call has what the call has left behind, and sees what it
saw. -/
theorem leave_internal (h : Tracks world m (child :: parent :: below))
    (hshared : child.frame.home.isOwned = false) (hcontract : child.contract = parent.contract)
    (hcontents : l'.contents = child.contents) (hsite : l'.frame.site = parent.frame.site) :
    ∃ m', m.next? (.leave none) = some m' ∧ Tracks world m' (l' :: below) := by
  have hcontract' : l'.contract = child.contract :=
    (congrArg (CallData.contract ∘ Site.call) hsite).trans hcontract.symm
  have htail : (rooms (l' :: below)).tail = (rooms (parent :: below)).tail :=
    rooms_tail_congr (congrArg Site.home hsite)
  obtain ⟨hchild, hbelow⟩ := List.forall_mem_cons.1 h.sound
  have hsound : l'.Sound := by
    rw [Layer.Sound, hcontract', hcontents]
    exact hchild
  refine ⟨{ m with copies := pasts world below }, ?_, ?_, ?_, rfl,
    List.forall_mem_cons.2 ⟨hsound, fun n hn => hbelow n (by simp [hn])⟩⟩
  · simp [Ledger.next?, h.copies, pasts, Ledger.deploy]
  · funext a
    show m.storage a = _
    rw [h.storage, slots_seen_shared hshared, slots_seen_cons, htail, Layer.slotsAt?,
      Layer.slotsAt?, hcontract', hcontents]
  · funext a
    show m.code a = _
    rw [h.code, code_seen_shared hshared, code_seen_cons, htail, Layer.codeAt?, Layer.codeAt?,
      hcontents]

/-- The parent of any other successful call has absorbed what the child saw. -/
theorem leave_own (h : Tracks world m (child :: parent :: below))
    (howned : child.frame.home.isOwned = true) (hsite : l'.frame.site = parent.frame.site)
    (habsorbs : Contents.Absorbs parent.contract child.frame child.contents parent.contents
      l'.contents) :
    ∃ m', m.next? (.leave
        (if child.frame.creation then some (child.contract, child.frame.output) else none)) =
          some m' ∧
      Tracks world m' (l' :: below) := by
  have hcontract : l'.contract = parent.contract :=
    congrArg (CallData.contract ∘ Site.call) hsite
  have htail : (rooms (l' :: below)).tail = (rooms (parent :: below)).tail :=
    rooms_tail_congr (congrArg Site.home hsite)
  obtain ⟨hchild, hparent, hbelow⟩ := by
    simpa only [List.forall_mem_cons] using h.sound
  have hsound : l'.Sound := by
    rw [Layer.Sound, hcontract]
    exact habsorbs.sound hchild hparent
  have hslots : ∀ a, l'.slotsAt? a = (child.slotsAt? a <|> parent.slotsAt? a) := by
    intro a
    rw [Layer.slotsAt?, hcontract]
    exact habsorbs.slots_at hchild hparent a
  have hstorage : m.storage = slotsSeen world (l' :: below) := by
    funext a
    rw [h.storage, slots_seen_own howned, slots_seen_cons, slots_seen_cons, hslots, htail]
    cases child.slotsAt? a <;> simp
  have hcode : ∀ a, codeSeen world (l' :: below) a =
      if child.frame.creation = true ∧ child.contract = a then some child.frame.output
      else m.code a := by
    intro a
    have hat : l'.codeAt? a =
        if child.frame.creation = true ∧ child.contract = a then some child.frame.output
        else (child.codeAt? a <|> parent.codeAt? a) := habsorbs.code a
    rw [h.code, code_seen_own howned, code_seen_cons, code_seen_cons, htail, hat]
    split
    · rfl
    · cases child.codeAt? a <;> simp
  refine ⟨{ m with copies := pasts world below }.deploy
    (if child.frame.creation then some (child.contract, child.frame.output) else none), ?_, ?_, ?_,
    ?_, List.forall_mem_cons.2 ⟨hsound, hbelow⟩⟩
  · simp [Ledger.next?, h.copies, pasts]
  · by_cases hcreation : child.frame.creation = true <;>
      simpa [hcreation, Ledger.deploy] using hstorage
  · funext a
    rw [hcode]
    by_cases hcreation : child.frame.creation = true
    · simp [hcreation, Ledger.deploy, Function.update_apply, eq_comm]
    · simp [hcreation, Ledger.deploy]
  · by_cases hcreation : child.frame.creation = true <;> simp [hcreation, Ledger.deploy]

/-- After a revert the parent sees what it saw before. -/
theorem rollback (h : Tracks world m (child :: parent :: below)) (hsame : parent.Same l') :
    ∃ m', m.next? .rollback = some m' ∧ Tracks world m' (l' :: below) := by
  have hback : Tracks world
      ⟨slotsSeen world (parent :: below), codeSeen world (parent :: below), pasts world below⟩
      (parent :: below) :=
    ⟨rfl, rfl, rfl, (List.forall_mem_cons.1 h.sound).2⟩
  refine ⟨_, ?_, hback.same hsame⟩
  simp [Ledger.next?, h.copies, pasts]

/-- Every change of the layers is a step of the ledger. -/
theorem change {pool pool' : Pool Workspace} {below' : List Layer} {saved saved' : List Contents}
    {event : Event} (hworld : world.NoZero) (h : Tracks world m (l :: below))
    (hchain : Chain pool l below saved) (hchain' : Chain pool' l' below' saved')
    (hchange : Change world event (l :: below) (l' :: below')) :
    ∃ m', m.next? event = some m' ∧ Tracks world m' (l' :: below') := by
  cases hchange with
  | quiet hsame => exact ⟨m, rfl, h.same hsame⟩
  | load key hsame => exact ⟨m, h.load key, h.same hsame⟩
  | store key value hsite haccounts hslots => exact h.store hsite haccounts hslots
  | enterInternal hcalls hkind hcontents =>
      cases hchain' with
      | internal _ _ hshare _ hcontract =>
          exact (h.same hcalls.same).enter_internal (by rw [hshare]; rfl) hcontract hcontents
      | own _ _ _ _ hother => exact absurd hkind hother
  | enterOwn hsame hkind hcontents _ =>
      cases hchain' with
      | internal _ _ _ hinternal => exact absurd hinternal hkind
      | own _ _ _ howned => exact (h.same hsame).enter_own hworld howned hcontents
  | @leave child parent below x hsuccess hhanded =>
      cases hchain with
      | internal _ _ hshare hkind hcontract hcreation =>
          rw [hcreation]
          exact h.leave_internal (by rw [hshare]; rfl) hcontract (hhanded.internal hsuccess hkind)
            (Frame.site_learn _ _)
      | own _ _ _ howned hkind =>
          exact h.leave_own howned (Frame.site_learn _ _) (hhanded.own hsuccess hkind)
  | rollback => exact h.rollback ⟨Frame.site_learn _ _, rfl, rfl⟩

end Tracks
end CallTree
