import CallTree.Proofs.BigEndian
import CallTree.Proofs.Regular
import CallTree.Proofs.Sizes

/-!
# Memory that can be paid for

Whatever the limit of a memory is, a frame that goes on has paid for the memory it has, so the memory
has no more than `largestMemory` bytes, and no output is larger. `Instruction.fetch_affords` says so of
every instruction and `Exec.resume_affords` of taking up the result of a child. What was grown before
an overflow was noticed is of no concern, since no frame survives that.
-/

namespace CallTree

open CallTree.Action (Triple)

/-- A memory whose growth has a cost has less than `2 ^ 32` words. -/
theorem Gas.words_of_growth {old new cost : Nat} (hold : old < 2 ^ 32)
    (h : memoryGrowth? old new = some cost) : new < 2 ^ 32 := by
  unfold memoryGrowth? at h
  split at h
  · omega
  · obtain ⟨after, hafter, _⟩ := Option.bind_eq_some_iff.1 h
    obtain ⟨square, hsquare, _⟩ := Option.bind_eq_some_iff.1 hafter
    obtain ⟨hle, _⟩ := fit?_eq_some_iff.1 hsquare
    refine Nat.lt_of_not_le fun hlarge => ?_
    have hsquare : 2 ^ 32 * 2 ^ 32 ≤ new * new := Nat.mul_le_mul hlarge hlarge
    unfold maxAmount at hle
    omega

/-- Neither the memory nor an output is larger than a memory that can be paid for. -/
structure Activation.Afforded (x : Activation) : Prop where
  memory : ∀ w, x.space = some w → w.memory.data.size ≤ largestMemory
  output : x.frame.output.size ≤ largestMemory
  staged : x.frame.staged.data.size ≤ largestMemory

/-- The region lies inside the memory of the activation, or it is empty. -/
def Activation.Covers (region : Region) (x : Activation) : Prop :=
  ∀ w, x.space = some w → w.Covers region

/-- A touch of another part than the memory and the output. -/
theorem Touch.afforded {part : Part} {x y : Activation} (h : Touch part x y)
    (hpart : part ≠ .memory ∧ part ≠ .output) (hx : x.Afforded) : y.Afforded := by
  obtain ⟨hmemory, houtput, hstaged⟩ := hx
  cases h with
  | expand _ => exact absurd rfl hpart.1
  | write _ => exact absurd rfl hpart.1
  | output _ => exact absurd rfl hpart.2
  | staged => exact ⟨hmemory, houtput, Nat.zero_le _⟩
  | @stack f w items =>
      have hsame : w.memory.data.size ≤ largestMemory := hmemory w rfl
      refine ⟨?_, houtput, hstaged⟩
      rintro _ ⟨⟩
      exact hsame
  | @slots f w key value =>
      have hsame : w.memory.data.size ≤ largestMemory := hmemory w rfl
      refine ⟨?_, houtput, hstaged⟩
      rintro _ ⟨⟩
      exact hsame
  | _ => exact ⟨hmemory, houtput, hstaged⟩

/-- A memory whose growth has a cost is small enough, if it was so before. -/
theorem Memory.size_le_of_growth {m m' : Memory} {cost : Nat} (h : m.data.size ≤ largestMemory)
    (hcost : Gas.memoryGrowth? m.words m'.words = some cost) : m'.data.size ≤ largestMemory := by
  have hold : m.words < 2 ^ 32 := by
    unfold largestMemory at h
    unfold Memory.words Memory.size wordsFor
    omega
  have hnew := Gas.words_of_growth hold hcost
  unfold Memory.words Memory.size wordsFor at hnew
  unfold largestMemory
  omega

/-- Work that leaves the memory alone leaves what lies inside it. -/
theorem Touches.covers {parts : List Part} {a b : Activation} (h : Touches parts a b)
    (hparts : Part.memory ∉ parts) {region : Region} (ha : a.Covers region) : b.Covers region := by
  have hmemory := h.memory_eq hparts
  obtain ⟨f, s⟩ := a
  intro w hw
  rw [hw] at hmemory
  obtain ⟨v, rfl, hsame⟩ := Option.map_eq_some_iff.1 hmemory.symm
  have hcovers := ha v rfl
  rw [Workspace.Covers, hsame] at hcovers
  exact hcovers

namespace Exec

variable {α β : Type} {parts : List Part} {Q : α → Prop} {P : Activation → Prop}

/-- From `P` the action ends with a result with `Q`, or it is refused; unless it overflows it affords
what it has used. -/
def Affords (P : Activation → Prop) (act : Exec α) (Q : α → Prop) : Prop :=
  Triple P act (fun r x => Q r ∧ x.Afforded) fun e x => e ≠ .overflow → x.Afforded

namespace Affords

/-- An action that uses no memory and gives no output. -/
theorem of_within {act : Exec α} (h : Within parts act)
    (hparts : Part.memory ∉ parts ∧ Part.output ∉ parts) :
    Affords Activation.Afforded act fun _ => True := by
  have hkept := h.triple (P := Activation.Afforded) fun part hpart x y htouch hx =>
    htouch.afforded ⟨fun he => hparts.1 (he ▸ hpart), fun he => hparts.2 (he ▸ hpart)⟩ hx
  exact hkept.weaken (fun _ hx => hx) (fun _ _ hx => ⟨trivial, hx⟩) fun _ _ hx _ => hx

theorem pure {r : α} (h : Q r) : Affords Activation.Afforded (Pure.pure r : Exec α) Q :=
  Triple.pure fun _ hx => ⟨h, hx⟩

theorem refuse (cause : Fault) : Affords Activation.Afforded (Action.refuse cause : Exec α) Q :=
  Triple.refuse fun _ hx _ => hx

/-- One action after another. -/
theorem bind {R : β → Prop} {act : Exec β} {next : β → Exec α} (h : Affords P act R)
    (hnext : ∀ r, R r → Affords Activation.Afforded (next r) Q) : Affords P (act >>= next) Q :=
  Triple.bind h fun r => .assume (hnext r)

theorem ite {c : Prop} [Decidable c] {act other : Exec α} (h : Affords P act Q)
    (hother : Affords P other Q) : Affords P (if c then act else other) Q :=
  Triple.ite (fun _ => h) fun _ => hother

/-- An action that is taken only under a condition, before the rest. -/
theorem when {c : Prop} [Decidable c] {act : Exec Unit} {rest : Unit → Exec α}
    (h : Affords Activation.Afforded act fun _ => True)
    (hrest : ∀ r, Affords Activation.Afforded (rest r) Q) :
    Affords Activation.Afforded (if c then act >>= rest else rest ()) Q :=
  ite (h.bind fun r _ => hrest r) (hrest ())

/-- A number that may be no amount. -/
theorem of_checked (result : Option α) :
    Affords Activation.Afforded (Action.ofChecked result : Exec α) fun _ => True := by
  cases result with
  | some r => exact fun x hx => ⟨trivial, hx⟩
  | none => exact fun x _ hfault => absurd rfl hfault

/-! ### The frame -/

theorem frame : Affords Activation.Afforded Exec.frame fun _ => True :=
  fun _ hx => ⟨trivial, hx⟩

theorem advance (count : Nat) :
    Affords Activation.Afforded (Exec.update (Frame.advance count)) fun _ => True :=
  of_within (.advance (List.mem_singleton_self _) count) (by decide)

theorem stop : Affords Activation.Afforded (Exec.update Frame.stop) fun _ => True :=
  of_within (.stop (List.mem_singleton_self _)) (by decide)

theorem set_output {data : Bytes} (hdata : data.size ≤ largestMemory) :
    Affords Activation.Afforded (Exec.update (Frame.setOutput data)) fun _ => True :=
  fun _ hx => ⟨trivial, hx.memory, hdata, hx.staged⟩

theorem set_last_return (data : Bytes) :
    Affords Activation.Afforded (Exec.update (Frame.setLastReturn data)) fun _ => True :=
  of_within (.set_last_return (List.mem_singleton_self _) data) (by decide)

theorem consume_gas (amount : Nat) :
    Affords Activation.Afforded (Exec.consumeGas amount) fun _ => True :=
  of_within (.consume_gas (List.mem_singleton_self _) amount) (by decide)

/-! ### The containers -/

theorem push (word : Word) : Affords Activation.Afforded (Exec.push word) fun _ => True :=
  of_within (.push (List.mem_singleton_self _) word) (by decide)

theorem pop : Affords Activation.Afforded Exec.pop fun _ => True :=
  of_within (.pop (List.mem_singleton_self _)) (by decide)

theorem pop_amount : Affords Activation.Afforded Exec.popAmount fun _ => True :=
  of_within (.pop_amount (List.mem_singleton_self _)) (by decide)

theorem pop_many (n : Nat) : Affords Activation.Afforded (Exec.popMany n) fun _ => True :=
  of_within (.pop_many (List.mem_singleton_self _) n) (by decide)

/-- What is read is as large as it was asked for. -/
theorem read_memory (offset size : Nat) :
    Affords Activation.Afforded (Exec.readMemory offset size) fun data => data.size = size := by
  rintro ⟨f, _ | w⟩ hx
  · exact fun _ => hx
  · exact ⟨Bytes.size_window w.memory.data offset size, hx⟩

/-- A debit on a memory that covers the region. -/
theorem consume_gas_covers (amount : Nat) {region : Region} :
    Triple (fun x => x.Covers region ∧ x.Afforded) (Exec.consumeGas amount)
      (fun _ x => x.Covers region ∧ x.Afforded) (fun e x => e ≠ .overflow → x.Afforded) := by
  have hpay : Within [.gas] (Exec.consumeGas amount) :=
    .consume_gas (List.mem_singleton_self _) amount
  refine .of_results (fun x r y hx hact => ⟨?_, ((consume_gas amount).ok hx.2 hact).2⟩)
    fun x e y hx hact => (consume_gas amount).error hx.2 hact
  have htouches := Action.after_ok hact ▸ hpay x
  exact htouches.covers (by decide) hx.1

/-- A memory that was paid for covers the region, so the region is no larger. -/
theorem charge_memory_covers (offset size : Nat) :
    Triple Activation.Afforded (Exec.chargeMemory offset size)
      (fun _ x => size ≤ largestMemory ∧ x.Covers ⟨offset, size⟩ ∧ x.Afforded)
      (fun e x => e ≠ .overflow → x.Afforded) := by
  rintro ⟨f, s⟩ hx
  unfold chargeMemory
  by_cases hsize : size ≠ 0
  · rw [if_pos hsize]
    cases s with
    | none => exact fun _ => hx
    | some w =>
        obtain ⟨stack, memory, storage, pending⟩ := w
        have hwords : ∀ m : Memory, Exec.onMemory (Action.read (·.words))
            ⟨f, some ⟨stack, m, storage, pending⟩⟩ =
              .ok m.words ⟨f, some ⟨stack, m, storage, pending⟩⟩ := fun m => rfl
        rw [Action.bind_ok (hwords memory)]
        cases hexpand : Memory.expand offset size memory with
        | error e m =>
            have hrefused : Exec.onMemory (Memory.expand offset size)
                ⟨f, some ⟨stack, memory, storage, pending⟩⟩ =
                  .error e ⟨f, some ⟨stack, m, storage, pending⟩⟩ := by
              simp only [onMemory, hexpand]
            rw [Action.bind_error hrefused, Within.expand_error hexpand]
            exact fun _ => hx
        | ok added m =>
            have hgrown : Exec.onMemory (Memory.expand offset size)
                ⟨f, some ⟨stack, memory, storage, pending⟩⟩ =
                  .ok added ⟨f, some ⟨stack, m, storage, pending⟩⟩ := by
              simp only [onMemory, hexpand]
            rw [Action.bind_ok hgrown, Action.bind_ok (hwords m)]
            cases hcost : Gas.memoryGrowth? memory.words m.words with
            | none => exact fun hfault => absurd rfl hfault
            | some cost =>
                -- Only now that the growth has a cost is the memory known to be small enough.
                have hinside := Memory.size_le_of_growth (hx.memory _ rfl) hcost
                obtain ⟨_, _, hcovers⟩ := Memory.expand_cases hexpand
                have hsmall : size ≤ largestMemory := by
                  have hend := (hcovers hsize).1
                  omega
                have hcharge : (Action.ofChecked (some cost) : Exec Nat)
                    ⟨f, some ⟨stack, m, storage, pending⟩⟩ =
                      .ok cost ⟨f, some ⟨stack, m, storage, pending⟩⟩ := rfl
                rw [Action.bind_ok hcharge]
                refine (consume_gas_covers cost).post (fun _ y hy => ⟨hsmall, hy⟩) _
                  ⟨?_, ?_, hx.output, hx.staged⟩
                · rintro _ ⟨⟩
                  exact hcovers
                · rintro _ ⟨⟩
                  exact hinside
  · rw [if_neg hsize]
    refine ⟨by omega, fun w _ hne => absurd hne ?_, hx⟩
    exact hsize

theorem charge_memory (offset size : Nat) :
    Affords Activation.Afforded (Exec.chargeMemory offset size) fun _ => size ≤ largestMemory :=
  (charge_memory_covers offset size).post fun _ _ hx => ⟨hx.1, hx.2.2⟩

/-- A write inside the memory leaves it as large as it is. -/
theorem write_covered (offset : Nat) {size : Nat} {part : Bytes} (hpart : part.size ≤ size) :
    Affords (fun x => x.Covers ⟨offset, size⟩ ∧ x.Afforded)
      (Exec.onMemory (Memory.write offset part)) fun _ => True := by
  rintro ⟨f, s⟩ ⟨hcovers, hx⟩
  cases s with
  | none => exact fun _ => hx
  | some w =>
      obtain ⟨stack, memory, storage, pending⟩ := w
      have hinside : part.size ≠ 0 →
          offset + part.size ≤ memory.data.size ∧ offset + part.size ≤ maxAmount := by
        intro hne
        have hsize : size ≠ 0 := by omega
        have hend : offset + size ≤ memory.data.size ∧ offset + size ≤ maxAmount :=
          hcovers _ rfl hsize
        omega
      obtain ⟨m, hwrite, hkept, _⟩ := Memory.write_inside hinside
      have hmemory : memory.data.size ≤ largestMemory := hx.memory _ rfl
      simp only [onMemory, hwrite]
      refine ⟨trivial, ?_, hx.output, hx.staged⟩
      rintro _ ⟨⟩
      show m.data.size ≤ largestMemory
      rw [hkept]
      exact hmemory

/-- So does copying as much of an output as fits into the region that was kept for it. -/
theorem copy_output (region : Region) (data : Bytes) :
    Affords (fun x => x.Covers region ∧ x.Afforded) (copyOutput region data) fun _ => True := by
  refine Affords.bind (write_covered region.offset ?_) fun _ _ => pure trivial
  rw [Bytes.size_take_first]
  exact Nat.min_le_left _ _

/-- Ending with an output. -/
theorem complete_return (maxCodeSize : Nat) {data : Bytes} (hdata : data.size ≤ largestMemory) :
    Affords Activation.Afforded (Exec.completeReturn maxCodeSize data) fun _ => True := by
  have hend : ∀ _ : Unit, Affords Activation.Afforded (do
      Exec.update (Frame.setOutput data)
      Exec.update Frame.stop) fun _ => True := fun _ =>
    (set_output hdata).bind fun _ _ => stop
  refine frame.bind fun f _ => ite ?_ (hend ())
  refine when (refuse _) fun _ => ?_
  exact (of_checked _).bind fun deposit _ => (consume_gas deposit).bind fun _ _ => hend ()

end Affords
end Exec

/-! ## Instructions -/

namespace Instruction

open Exec

theorem return_data_copy_affords : Affords Activation.Afforded returnDataCopy fun _ => True := by
  refine Affords.pop_amount.bind fun dest _ => Affords.pop_amount.bind fun offset _ => ?_
  refine Affords.pop_amount.bind fun size _ => Affords.frame.bind fun f _ => ?_
  refine Affords.when (.refuse _) fun _ => ?_
  refine Triple.bind (Affords.charge_memory_covers dest size) fun _ => .assume fun _ => ?_
  refine Triple.bind (Affords.consume_gas_covers _) fun _ => ?_
  refine (Affords.write_covered dest ?_).bind fun _ _ => .pure trivial
  show (f.lastReturn.extract offset (offset + size)).size ≤ size
  rw [ByteArray.size_extract]
  omega

theorem log_affords (topics : Nat) : Affords Activation.Afforded (log topics) fun _ => True := by
  refine Affords.pop_amount.bind fun offset _ => Affords.pop_amount.bind fun size _ => ?_
  refine (Affords.pop_many topics).bind fun words _ => ?_
  refine (Affords.charge_memory offset size).bind fun _ _ => ?_
  refine (Affords.of_checked _).bind fun cost _ => (Affords.consume_gas cost).bind fun _ _ => ?_
  refine (Affords.read_memory offset size).bind fun data _ => ?_
  exact fun x hx => ⟨trivial, hx.memory, hx.output, hx.staged⟩

/-- What is read from the memory is no larger than a memory can be. -/
theorem pop_region_affords :
    Affords Activation.Afforded popRegion fun data => data.size ≤ largestMemory := by
  refine Affords.pop_amount.bind fun offset _ => Affords.pop_amount.bind fun size _ => ?_
  refine (Affords.charge_memory offset size).bind fun _ hsize => ?_
  refine (Affords.read_memory offset size).post fun data x hx => ⟨?_, hx.2⟩
  exact Nat.le_trans (Nat.le_of_eq hx.1) hsize

theorem revert_affords : Affords Activation.Afforded revert fun _ => True :=
  pop_region_affords.bind fun _ hdata _ hx => ⟨trivial, hx.memory, hdata, hx.staged⟩

/-- The instructions that neither call nor create. -/
theorem body_affords (limits : Limits) (pc : Nat) (immediate : Word) (op : Opcode) :
    Affords Activation.Afforded (body limits pc immediate op) fun _ => True := by
  have hwithin := Within.body_uses limits pc immediate op
  cases op with
  | returnDataCopy => exact return_data_copy_affords
  | mload =>
      refine Affords.pop_amount.bind fun offset _ => ?_
      refine (Affords.charge_memory offset 32).bind fun _ _ => ?_
      exact (Affords.read_memory offset 32).bind fun _ _ => .push _
  | mstore =>
      refine Affords.pop_amount.bind fun offset _ => Affords.pop.bind fun value _ => ?_
      refine Triple.bind (Affords.charge_memory_covers offset 32) fun _ => .assume fun _ => ?_
      have hword : value.toBytes.size ≤ 32 := Nat.le_of_eq (Bytes.size_of_nat 32 value.toNat)
      exact (Affords.write_covered offset hword).bind fun _ _ => .pure trivial
  | mstore8 =>
      refine Affords.pop_amount.bind fun offset _ => Affords.pop.bind fun value _ => ?_
      refine Triple.bind (Affords.charge_memory_covers offset 1) fun _ => .assume fun _ => ?_
      exact (Affords.write_covered offset (Nat.le_refl 1)).bind fun _ _ => .pure trivial
  | log topics => exact log_affords topics
  | ret => exact pop_region_affords.bind fun _ hdata => .complete_return _ hdata
  | revert => exact revert_affords
  | _ => exact .of_within hwithin (by simp [Opcode.uses, Part.plain])

theorem request_message_affords (env : Surroundings) (withValue : Bool) :
    Affords Activation.Afforded (requestMessage env withValue) fun _ => True := by
  refine Affords.pop_amount.bind fun requested _ => Affords.pop.bind fun callee _ => ?_
  refine Affords.ite (Affords.pop.bind ?hrest) ((Affords.pure trivial).bind ?hrest)
  intro value _
  refine Affords.pop_amount.bind fun argsOffset _ => Affords.pop_amount.bind fun argsSize _ => ?_
  refine Affords.pop_amount.bind fun retOffset _ => Affords.pop_amount.bind fun retSize _ => ?_
  refine (Affords.advance 1).bind fun _ _ => Affords.frame.bind fun f _ => ?_
  refine Affords.when (.refuse _) fun _ => ?_
  refine (Affords.charge_memory argsOffset argsSize).bind fun _ _ => ?_
  refine (Affords.charge_memory retOffset retSize).bind fun _ _ => ?_
  refine Affords.when (.consume_gas _) fun _ => (Affords.set_last_return _).bind fun _ _ => ?_
  refine Affords.ite ((Affords.push 0).bind fun _ _ => .pure trivial) ?_
  refine Affords.frame.bind fun f _ => (Affords.consume_gas _).bind fun _ _ => ?_
  refine (Affords.read_memory argsOffset argsSize).bind fun input _ => ?_
  exact Affords.frame.bind fun f _ => .pure trivial

theorem request_create_affords (env : Surroundings) :
    Affords Activation.Afforded (requestCreate env) fun _ => True := by
  refine Affords.pop.bind fun value _ => Affords.pop_amount.bind fun offset _ => ?_
  refine Affords.pop_amount.bind fun size _ => (Affords.advance 1).bind fun _ _ => ?_
  refine Affords.when (.refuse _) fun _ => ?_
  refine (Affords.charge_memory offset size).bind fun _ _ => ?_
  refine (Affords.consume_gas _).bind fun _ _ => (Affords.set_last_return _).bind fun _ _ => ?_
  refine Affords.ite ((Affords.push 0).bind fun _ _ => .pure trivial) ?_
  refine (Affords.read_memory offset size).bind fun initCode _ => ?_
  exact Affords.frame.bind fun f _ => .pure trivial

theorem dispatch_affords (env : Surroundings) (op : Opcode) :
    Affords Activation.Afforded (dispatch env op) fun _ => True := by
  have hlocal : Affords Activation.Afforded (do executeLocal env.limits op; return Request.proceed)
      fun _ => True := by
    refine Affords.bind (R := fun _ => True) ?_ fun _ _ => .pure trivial
    refine Affords.frame.bind fun f _ => Affords.frame.bind fun g _ => ?_
    refine (Affords.of_checked _).bind fun immediate _ => (Affords.advance _).bind fun _ _ => ?_
    exact body_affords env.limits f.pc immediate op
  cases op with
  | callInternal => exact .of_within (Within.request_internal env) (by decide)
  | call => exact request_message_affords env true
  | staticCall => exact request_message_affords env false
  | create => exact request_create_affords env
  | _ => exact hlocal

/-- Unless it overflows, an instruction affords the memory that it uses. -/
theorem fetch_affords (env : Surroundings) :
    Affords Activation.Afforded (fetchAndDispatch env) fun _ => True := by
  refine Affords.frame.bind fun f _ => ?_
  split
  · refine Affords.frame.bind fun g _ => ?_
    split
    · exact Affords.stop.bind fun _ _ => .pure trivial
    · exact .refuse _
  · refine Affords.frame.bind fun g _ => .ite (.refuse _) ?_
    exact (Affords.consume_gas _).bind fun _ _ => dispatch_affords env _

end Instruction

/-! ## Results of children -/

/-- The result that is staged goes, unless it comes from an internal call, to a region that the memory
covers. -/
structure Activation.Expects (result : FinishedCall) (x : Activation) : Prop where
  region : ∀ region data, x.frame.staged = .returned region data → region = result.returnRegion
  covers : result.kind ≠ .internal → x.Covers result.returnRegion

/-- Taking up the result of a child. -/
theorem Exec.resume_affords (limits : Limits) (result : FinishedCall) :
    Affords (fun x => x.Expects result ∧ x.Afforded) (Exec.resume limits result)
      fun _ => True := by
  obtain ⟨kind, address, success, exitsCall, region⟩ := result
  let P (x : Activation) : Prop := (kind ≠ .internal → x.Covers region) ∧ x.Afforded
  have hplain : ∀ {act : Exec Unit}, Affords Activation.Afforded act (fun _ => True) →
      Affords P act fun _ => True := fun h => Triple.pre h fun x hx => hx.2
  have hcopy : kind ≠ .internal → ∀ data, Affords P (copyOutput region data) fun _ => True :=
    fun hkind data => (Affords.copy_output region data).pre fun x hx => ⟨hx.1 hkind, hx.2⟩
  have hlast : ∀ data word, Affords Activation.Afforded (do
      Exec.update (Frame.setLastReturn data)
      Exec.push word) fun _ => True := fun data word =>
    (Affords.set_last_return data).bind fun _ _ => .push word
  refine Triple.bind (R := fun staged x => ((∀ aim data, staged = .returned aim data → aim = region) ∧
      staged.data.size ≤ largestMemory) ∧ P x) ?_ fun staged => .assume fun hstaged => ?_
  · intro x hx
    obtain ⟨⟨hregion, hcovers⟩, hmemory, houtput, hstaged⟩ := hx
    exact ⟨⟨hregion, hstaged⟩, hcovers, hmemory, houtput, Nat.zero_le _⟩
  obtain ⟨haim, hdata⟩ := hstaged
  cases staged with
  | empty => exact hplain (.refuse _)
  | returned aim data =>
      cases haim aim data rfl
      cases kind with
      | internal => exact hplain (.ite (.complete_return _ hdata) (.pure trivial))
      | create => exact hplain (.push _)
      | external | static => exact (hcopy (by simp) data).bind fun _ _ => hlast data 1
  | reverted reason data =>
      cases kind with
      | internal => exact hplain ((Affords.set_output hdata).bind fun _ _ => .refuse _)
      | create => exact hplain (hlast data 0)
      | external | static => exact (hcopy (by simp) data).bind fun _ _ => hlast data 0

end CallTree
