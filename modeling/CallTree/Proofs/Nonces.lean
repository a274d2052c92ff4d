import CallTree.Proofs.Commit
import CallTree.Proofs.RootRuns

/-!
# Nonces

Slots and codes are committed when a root frame succeeds, but nonces are not: a creation uses one up
at once, and nothing gives it back. `execute_nonces` says that a transaction raises the nonce of every
account by the number of creations that the account has begun, whether or not the transaction succeeds.
A failed transaction therefore leaves all nonces as they were only if no creation was begun.
-/

namespace CallTree

namespace World

variable (w : World)

/-- The nonce of an account after an address was used up. -/
theorem nonce_use_up (creator : Option Address) (a : Address) :
    (w.useUp creator).nonce a = w.nonce a + creator.toList.count a := by
  cases creator with
  | none => rfl
  | some b =>
      by_cases h : b = a
      · subst h
        simp [useUp, nextCreateAddress, nonce]
      · simp [useUp, nextCreateAddress, nonce, Std.ExtTreeMap.getElem?_insert, h]

/-- Replacing slots leaves the nonces alone. -/
theorem set_storages_nonces (entries : List (Address × Slots)) :
    (w.setStorages entries).nonces = w.nonces := by
  refine List.foldlRecOn entries _ (motive := fun v : World => v.nonces = w.nonces) rfl ?_
  intro v hv entry _
  exact hv

/-- Deploying code leaves the nonces alone. -/
theorem set_codes_nonces (entries : List (Address × Bytes)) :
    (w.setCodes entries).nonces = w.nonces := by
  refine List.foldlRecOn entries _ (motive := fun v : World => v.nonces = w.nonces) rfl ?_
  intro v hv entry _
  exact hv

/-- A commit leaves the nonces alone. -/
theorem commit_nonces (root : Frame) (slots : Slots) (storages : List (Address × Slots))
    (codes : List (Address × Bytes)) : (w.commit root slots storages codes).nonces = w.nonces := by
  have hcodes := (set_codes_nonces ((w.setStorage root.call.contract slots).setStorages storages)
    codes).trans (set_storages_nonces _ storages)
  unfold commit
  by_cases hcreation : root.creation = true
  · simp only [hcreation, if_true]
    exact hcodes
  · simp only [hcreation]
    exact hcodes

end World

/-- The accounts that use up an address in the moves that start from the given states, one after
another. -/
def creators (limits : Limits) (states : List RunState) : List Address :=
  states.filterMap (·.creator? limits)

/-- A sequence of moves raises the nonce of an account by the number of creations that it begins. -/
theorem Trail.nonce {limits : Limits} {s t : RunState} {states : List RunState}
    (h : Trail limits s states t) (a : Address) :
    t.context.world.nonce a = s.context.world.nonce a + (creators limits states).count a := by
  induction h with
  | nil s => rfl
  | @cons s t u states hmove _ ih =>
      have hfirst : creators limits (s :: states) =
          (s.creator? limits).toList ++ creators limits states := by
        cases hcreator : s.creator? limits <;> simp [creators, hcreator]
      rw [ih, hmove.moved.world, World.nonce_use_up, hfirst, List.count_append, Nat.add_assoc]

namespace Context

variable {limits : Limits} {c c' c₀ : Context} {root f : Frame} {outcome : Outcome}

/-- The conclusion of a root frame leaves the nonces alone. -/
theorem conclude_nonces (h : conclude root c = some (outcome, c')) :
    c'.world.nonces = c.world.nonces := by
  rcases conclude_cases h with ⟨_, rfl, _⟩ | ⟨_, e, hrefused, _⟩ | ⟨_, hcommit, _⟩
  · rfl
  · rw [(commit_root_error hrefused).1]
  · obtain ⟨_, slots, storages, codes, hworld⟩ := commit_root_inv hcommit
    rw [hworld, World.commit_nonces]

/-- At the end of a run the nonces have been raised by the creations that were begun. -/
theorem root_end_nonce {states : List RunState} {world : World}
    (h : RootEnd limits c states f world) (a : Address) :
    world.nonce a = c.world.nonce a + (creators limits states).count a := by
  cases h with
  | halted _ htrail _ _ => exact htrail.nonce a
  | exhausted _ htrail _ _ => exact htrail.nonce a

/-- A transaction whose run is not started leaves all nonces as they were. Any other one raises the
nonce of each account by the number of creations that the account has begun, whether or not the
transaction succeeds; so it leaves all of them as they were exactly if no creation was begun. -/
theorem execute_nonces (h : c.execute root = some (outcome, c')) :
    ((∀ c₀, ¬Starts root c c₀) ∧ ∀ a, c'.world.nonce a = c.world.nonce a) ∨
      ∃ c₀ states f world, Starts root c c₀ ∧ RootEnd c.limits c₀ states f world ∧
        (∀ a, c'.world.nonce a = c.world.nonce a + (creators c.limits states).count a) ∧
        ((∀ a, c'.world.nonce a = c.world.nonce a) ↔ creators c.limits states = []) := by
  rcases execute_ends h with
    ⟨hnever, hworld, _⟩ | ⟨c₀, states, f, c₁, c₂, hstarts, hend, _, hconclude, rfl⟩
  · exact .inl ⟨hnever, fun a => by rw [hworld]⟩
  · have hstart : c₀.world = c.world := (push_seeded_frames hstarts.2).2.1
    have hraised : ∀ a, (c₂.release f).world.nonce a =
        c.world.nonce a + (creators c.limits states).count a := by
      intro a
      rw [← hstart, ← root_end_nonce hend a]
      show c₂.world.nonces[a]?.getD 0 = c₁.world.nonces[a]?.getD 0
      rw [conclude_nonces hconclude]
    refine .inr ⟨c₀, states, f, c₁.world, hstarts, hend, hraised, fun hsame => ?_, fun hnone a => ?_⟩
    · refine List.eq_nil_iff_forall_not_mem.2 fun a ha => ?_
      have hpos := List.count_pos_iff.2 ha
      have hzero := (hraised a).symm.trans (hsame a)
      omega
    · rw [hraised, hnone]
      rfl

/-- A root frame that creates a contract and then meets an invalid instruction. -/
def creatingRoot : Frame × Context :=
  newFrame {} {} ⟨#[0x60, 0, 0x60, 0, 0x60, 0, 0xF0, 0xFE]⟩ 100000
    (.transaction 1 2 0 ByteArray.empty) { txn := ⟨1, 0⟩ }

/-- The transaction fails, and the account has used up a nonce. -/
theorem creating_root_fails : ∃ outcome c', creatingRoot.2.execute creatingRoot.1 = some (outcome, c') ∧
    outcome.success = false ∧ c'.world.nonce 2 = 1 := by
  have hrun : (creatingRoot.2.execute creatingRoot.1).map (fun r =>
      (r.1.success, r.2.world.nonce 2)) = some (false, 1) := by
    decide +kernel
  obtain ⟨⟨outcome, c'⟩, hexecute, hresult⟩ := Option.map_eq_some_iff.1 hrun
  obtain ⟨hfailed, hafter⟩ := Prod.mk.inj hresult
  exact ⟨outcome, c', hexecute, hfailed, hafter⟩

/-- The nonce is accounted for by the creation that was begun. -/
theorem creating_root_nonces : ∃ outcome c' c₀ states f world,
    creatingRoot.2.execute creatingRoot.1 = some (outcome, c') ∧ outcome.success = false ∧
      Starts creatingRoot.1 creatingRoot.2 c₀ ∧ RootEnd {} c₀ states f world ∧
      (∀ a, c'.world.nonce a = creatingRoot.2.world.nonce a + (creators {} states).count a) ∧
      (creators {} states).count 2 = 1 := by
  obtain ⟨outcome, c', hexecute, hfailed, hafter⟩ := creating_root_fails
  have hbefore : creatingRoot.2.world.nonce 2 = 0 := rfl
  rcases execute_nonces hexecute with
    ⟨_, hsame⟩ | ⟨c₀, states, f, world, hstarts, hend, hraised, _⟩
  · have hnone := hsame 2
    rw [hafter, hbefore] at hnone
    cases hnone
  · have hone := hraised 2
    rw [hafter, hbefore, Nat.zero_add] at hone
    exact ⟨outcome, c', c₀, states, f, world, hexecute, hfailed, hstarts, hend, hraised, hone.symm⟩

/-- It is not so that every transaction that fails leaves all nonces as they were. -/
theorem failed_creation_raises_nonce :
    ¬∀ (root : Frame) (c c' : Context) (outcome : Outcome),
      c.execute root = some (outcome, c') → outcome.success = false →
        ∀ a, c'.world.nonce a = c.world.nonce a := by
  intro hunchanged
  obtain ⟨outcome, c', hexecute, hfailed, hafter⟩ := creating_root_fails
  have hsame := hunchanged creatingRoot.1 creatingRoot.2 c' outcome hexecute hfailed 2
  have hbefore : creatingRoot.2.world.nonce 2 = 0 := rfl
  rw [hafter, hbefore] at hsame
  cases hsame

end Context
end CallTree
