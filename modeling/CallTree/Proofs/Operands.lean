import CallTree.Proofs.Exact
import CallTree.Proofs.Fitting

/-!
# Oversized operands

An instruction that takes a word of 256 bits for an offset, a size or a jump target behaves as if it
computed with the number that the word spells (`Exact.fetch_agrees`), although it only sees an amount.
There is one lemma for every group of instructions that take such words; for all others the two readings
are the same by definition.
-/

namespace CallTree

/-- Jump destinations are offsets inside the code. -/
theorem lt_of_scan {offset skip dest : Nat} {bytes : List UInt8}
    (h : dest ∈ scanDestinations offset skip bytes) : dest < offset + bytes.length := by
  induction bytes generalizing offset skip with
  | nil => exact absurd h (List.not_mem_nil)
  | cons byte rest ih =>
      have hlater : ∀ skip', dest ∈ scanDestinations (offset + 1) skip' rest →
          dest < offset + (byte :: rest).length := fun skip' hdest => by
        have hlt := ih hdest
        rw [List.length_cons]
        omega
      cases skip with
      | succ skip => exact hlater skip h
      | zero =>
          simp only [scanDestinations] at h
          split at h
          · rcases List.mem_cons.1 h with rfl | hdest
            · rw [List.length_cons]
              omega
            · exact hlater _ hdest
          · exact hlater _ h

theorem lt_of_jump_destination {code : Bytes} {dest : Nat} (h : dest ∈ jumpDestinations code) :
    dest < code.size := by
  have hlt := lt_of_scan h
  rw [Array.length_toList, Nat.zero_add] at hlt
  exact hlt

namespace Exact

open Exec
open CallTree.Action (Triple)

/-- A number that is reported as a jump destination is one. -/
theorem reported_target {p : Program} (hcode : p.code.size ≤ largestCode) (dest : Nat) :
    p.isTarget (reported dest) = true ↔ dest ∈ jumpDestinations p.code := by
  rw [p.isTarget_iff]
  by_cases hfits : dest ≤ maxAmount
  · rw [reported, Nat.min_eq_left hfits]
  · rw [reported, Nat.min_eq_right (by omega)]
    unfold largestCode at hcode
    unfold maxAmount at hfits ⊢
    refine ⟨fun h => ?_, fun h => ?_⟩
    · have hlt := lt_of_jump_destination h
      omega
    · have hlt := lt_of_jump_destination h
      omega

/-- A jump destination is reported as it is. -/
theorem reported_of_target {code : Bytes} (hcode : code.size ≤ largestCode) {dest : Nat}
    (h : dest ∈ jumpDestinations code) : reported dest = dest := by
  have hlt := lt_of_jump_destination h
  unfold largestCode at hcode
  unfold reported maxAmount
  omega

/-! ## Instructions -/

variable {α β : Type} {lax : Prop}

/-- Jumping to a target. -/
theorem jump_same (dest : Nat) :
    SameOn lax Activation.Bounded (Exec.jump (reported dest)) (jump dest) := by
  refine SameOn.frame (fun _ hx => hx) fun f hf => ?_
  refine SameOn.ite (reported_target hf.code dest) (fun hdest => ?_) fun _ => .rfl
  rw [reported_of_target hf.code ((reported_target hf.code dest).1 hdest)]
  exact .rfl

/-- Ending with an output. -/
theorem complete_return_same (maxCodeSize : Nat) {data : Bytes} (hdata : data.size ≤ largestMemory) :
    Exec.completeReturn maxCodeSize data = completeReturn maxCodeSize data := by
  unfold Exec.completeReturn completeReturn
  rw [code_deposit_eq hdata]
  rfl

/-- Copying return data. What is copied lies inside the data, so its place is an amount. -/
theorem return_data_copy_same :
    SameOn lax Activation.Bounded Instruction.returnDataCopy returnDataCopy := by
  refine .pop_amount fun dest => .pop_amount fun offset => .pop_amount fun size => ?_
  refine .frame (fun _ hx => hx) fun f hf => ?_
  have hlast := hf.lastReturn
  have hbeyond : f.lastReturn.size < reported offset.toNat + reported size.toNat ↔
      f.lastReturn.size < offset.toNat + size.toNat := by
    unfold largestCode at hlast
    unfold reported maxAmount
    omega
  refine .guard hbeyond (fun _ => rfl) fun hinside => ?_
  have hsame : reported offset.toNat = offset.toNat ∧ reported size.toNat = size.toNat := by
    unfold largestCode at hlast
    unfold reported maxAmount at *
    omega
  refine .charge_covers rfl fun _ => .pay ?_ ?_
  · rw [hsame.2]
  · rw [hsame.1, hsame.2]
    refine write_same ?_
    rw [ByteArray.size_extract]
    omega

/-- Emitting an entry. -/
theorem log_same {topics : Nat} (htopics : topics ≤ 4) :
    SameOn lax Activation.Bounded (Instruction.log topics) (log topics) := by
  refine .pop_amount fun offset => .pop_amount fun size => ?_
  refine .keep (.pop_many (List.mem_singleton_self _) topics) (bounded_stable (by decide)) fun words => ?_
  refine .charge rfl fun hfits => ?_
  rw [read_memory_reported hfits]
  have hcost : Gas.logData? (reported size.toNat) topics =
      some (Gas.logTopic * topics + Gas.logByte * size.toNat) := by
    have hsame : reported size.toNat = size.toNat ∧ size.toNat ≤ largestMemory := by
      unfold largestMemory at *
      unfold reported maxAmount
      omega
    rw [hsame.1]
    exact log_data_eq hsame.2 htopics
  rw [hcost]
  exact .rfl

/-- Reading a region from the stack. -/
theorem pop_region_same : SameOn lax Activation.Bounded Instruction.popRegion popRegion := by
  refine .pop_amount fun offset => .pop_amount fun size => .charge rfl fun hfits => ?_
  rw [read_memory_reported hfits]
  exact .rfl

/-- What is read so is no larger than a memory. -/
theorem SameOn.pop_region {next next' : Bytes → Exec α}
    (h : ∀ data : Bytes, data.size ≤ largestMemory →
      SameOn lax (fun _ => True) (next data) (next' data)) :
    SameOn lax Activation.Bounded (Instruction.popRegion >>= next) (popRegion >>= next') := by
  refine bind (R := fun data _ => data.size ≤ largestMemory) pop_region_same (fun x data y hx hact => ?_)
    fun data y hdata => h data hdata y trivial
  have hread : Triple Activation.Bounded popRegion (fun data _ => data.size ≤ largestMemory)
      fun _ _ => True := by
    have hwithin : Within [.stack] popNat :=
      (Within.pop (List.mem_singleton_self _)).bind fun w => .pure w.toNat
    have hpop : Triple Activation.Bounded popNat (fun _ => Activation.Bounded) fun _ _ => True :=
      (hwithin.triple (bounded_stable (by decide))).refused fun _ _ _ => trivial
    refine hpop.bind fun offset => hpop.bind fun size => ?_
    refine (charge_memory_covers offset size).bind fun _ => .assume fun hfits => ?_
    refine .of_results (fun x data y _ hdata => ?_) fun _ _ _ _ _ => trivial
    obtain ⟨f, _ | w⟩ := x
    · exact nomatch hdata
    · cases hdata
      show (w.memory.data.window offset size).size ≤ _
      rw [Bytes.size_window]
      omega
  exact hread.ok hx ((pop_region_same.eq hx).symm.trans hact)

/-- The instructions that neither call nor create. -/
theorem body_same (limits : Limits) (pc : Nat) (immediate : Word) {op : Opcode}
    (htopics : ∀ topics, op = .log topics → topics ≤ 4) :
    SameOn lax Activation.Bounded (Instruction.body limits pc immediate op)
      (body limits pc immediate op) := by
  cases op with
  | callDataLoad =>
      refine .pop_amount fun offset => .frame (fun _ hx => hx) fun f hf => ?_
      have hwindow : f.call.input.window (reported offset.toNat) 32 =
          f.call.input.window offset.toNat 32 := by
        have hinput := hf.input
        unfold largestCode at hinput
        by_cases hfits : offset.toNat ≤ maxAmount
        · rw [reported, Nat.min_eq_left hfits]
        · unfold Bytes.window
          rw [if_neg (by unfold reported maxAmount at *; omega),
            if_neg (by unfold maxAmount at hfits; omega)]
      rw [hwindow]
      exact .rfl
  | returnDataCopy => exact return_data_copy_same
  | mload =>
      refine .pop_amount fun offset => ?_
      refine .charge (by decide) fun hfits => ?_
      have hword : reported 32 = 32 := by decide
      have hread := read_memory_reported hfits
      rw [hword] at hread
      rw [hread]
      exact .rfl
  | mstore =>
      refine .pop_amount fun offset => ?_
      refine .keep (.pop (List.mem_singleton_self _)) (bounded_stable (by decide)) fun value => ?_
      refine .charge_covers (by decide) fun _ => write_same (Nat.le_of_eq ?_)
      exact Bytes.size_of_nat 32 value.toNat
  | mstore8 =>
      refine .pop_amount fun offset => ?_
      refine .keep (.pop (List.mem_singleton_self _)) (bounded_stable (by decide)) fun value => ?_
      exact .charge_covers (by decide) fun _ => write_same (Nat.le_refl 1)
  | jump => exact .pop_amount fun dest => jump_same dest.toNat
  | jumpIf =>
      refine .pop_amount fun dest => ?_
      refine .keep (.pop (List.mem_singleton_self _)) (bounded_stable (by decide)) fun condition => ?_
      exact .ite Iff.rfl (fun _ => jump_same dest.toNat) fun _ => .rfl
  | log topics => exact log_same (htopics topics rfl)
  | ret =>
      refine .pop_region fun data hdata => ?_
      rw [complete_return_same _ hdata]
      exact .rfl
  | revert => exact .pop_region fun data _ => .rfl
  | _ => exact .rfl

/-- No bounded memory has room for a larger region. -/
theorem charge_memory_refused {x : Activation} (hx : x.Bounded) (offset : Nat) {size : Nat}
    (hsize : largestMemory < size) :
    ∃ cause, chargeMemory offset size x = .error (.fault cause) x := by
  have hne : size ≠ 0 := by omega
  obtain ⟨f, s⟩ := x
  cases s with
  | none =>
      rw [chargeMemory, if_pos hne]
      exact ⟨_, rfl⟩
  | some w =>
      obtain ⟨_, hsmall, hsmallLimit⟩ := (hx.memory w rfl).small
      rw [charge_memory_eq offset hne, if_pos (by omega)]
      exact ⟨_, rfl⟩

/-- What follows the clearing of the return data. -/
theorem SameOn.clear_last_return {next next' : Unit → Exec α}
    (h : SameOn lax Activation.Bounded (next ()) (next' ())) :
    SameOn lax Activation.Bounded (update (Frame.setLastReturn ByteArray.empty) >>= next)
      (update (Frame.setLastReturn ByteArray.empty) >>= next') := by
  refine bind (R := fun _ => Activation.Bounded) rfl (fun x r y hx hact => ?_) fun _ => h
  cases hact
  exact ⟨⟨hx.frame.code, hx.frame.input, Nat.zero_le _, hx.frame.gas⟩, hx.memory⟩

/-- The caller's part of an internal call. -/
theorem request_internal_same (env : Surroundings) :
    SameOn lax Activation.Bounded (Instruction.requestInternal env) (requestInternal env) := by
  refine .pop_amount fun target => .pop_amount fun requested => ?_
  refine .keep (.advance (List.mem_singleton_self _) 1) (bounded_stable (by decide)) fun _ => ?_
  refine .frame (fun _ hx => hx) fun f hf => ?_
  have htarget := reported_target hf.code target.toNat
  have hrefused : (!f.isValidJump (reported target.toNat)) = true ↔
      target.toNat ∉ jumpDestinations f.program.code := by
    rw [Bool.not_eq_true', ← Bool.not_eq_true]
    exact not_congr htarget
  refine .guard hrefused (fun _ => rfl) fun hvalid => .guard Iff.rfl (fun _ => rfl) fun _ => ?_
  have hgas : min (reported requested.toNat) f.gas.remaining = min requested.toNat f.gas.remaining := by
    have hle := hf.gas
    unfold reported
    omega
  have hmem := Decidable.not_not.1 (mt hrefused.2 hvalid)
  rw [hgas, reported_of_target hf.code hmem]
  exact .rfl

/-- The caller's part of a message. -/
theorem request_message_same (env : Surroundings) (withValue : Bool) :
    SameOn lax Activation.Bounded (Instruction.requestMessage env withValue)
      (requestMessage env withValue) := by
  have hpop : Within [.stack] pop := .pop (List.mem_singleton_self _)
  refine .pop_amount fun requested => .keep hpop (bounded_stable (by decide)) fun callee => ?_
  refine .choose hpop (.pure _) (bounded_stable (by decide)) fun value => ?_
  refine .pop_amount fun argsOffset => .pop_amount fun argsSize => ?_
  refine .pop_amount fun retOffset => .pop_amount fun retSize => ?_
  refine .keep (.advance (List.mem_singleton_self _) 1) (bounded_stable (by decide)) fun _ => ?_
  refine .frame (fun _ hx => hx) fun f hf => .guard Iff.rfl (fun _ => rfl) fun _ => ?_
  refine .charge rfl fun hargs => .charge rfl fun hret => ?_
  refine .when (.consume_gas (List.mem_singleton_self _) _) (bounded_stable (by decide)) fun _ => ?_
  refine .clear_last_return (.ite Iff.rfl (fun _ => .rfl) fun _ => ?_)
  refine .frame (fun _ hx => hx) fun f hf => ?_
  have hforwarded : Gas.forwarded f.gas.remaining (reported requested.toNat) =
      Gas.forwarded f.gas.remaining requested.toNat := by
    have hle := hf.gas
    unfold Gas.forwarded reported
    omega
  rw [hforwarded, read_memory_reported hargs]
  exact .rfl

/-- The creator's part of a creation. If no amount is more than the limit on init code, a larger size
gets past the limit, but then no memory has room for it. -/
theorem request_create_same {env : Surroundings} (hlax : maxAmount ≤ env.limits.maxInitCodeSize → lax) :
    SameOn lax Activation.Bounded (Instruction.requestCreate env) (requestCreate env) := by
  refine .keep (.pop (List.mem_singleton_self _)) (bounded_stable (by decide)) fun value => ?_
  refine .pop_amount fun offset => .pop_amount fun size => ?_
  refine .keep (.advance (List.mem_singleton_self _) 1) (bounded_stable (by decide)) fun _ => ?_
  by_cases hpast : env.limits.maxInitCodeSize < size.toNat ∧
      ¬env.limits.maxInitCodeSize < reported size.toNat
  · intro x hx
    have hsize : largestMemory < size.toNat := by
      unfold reported at hpast
      unfold largestMemory maxAmount at *
      omega
    have hlimit : maxAmount ≤ env.limits.maxInitCodeSize := by
      unfold reported at hpast
      omega
    rw [if_pos hpast.1, if_neg hpast.2]
    refine .inr ⟨hlax hlimit, ?_⟩
    obtain ⟨cause, hrefused⟩ := charge_memory_refused hx offset.toNat hsize
    have hrefused' := (charge_memory_same offset.toNat size.toNat hx).trans hrefused
    exact ⟨cause, _, _, x, Action.bind_error hrefused', Action.bind_error rfl⟩
  have htest : env.limits.maxInitCodeSize < reported size.toNat ↔
      env.limits.maxInitCodeSize < size.toNat := by
    unfold reported at *
    omega
  refine .guard htest (fun _ => rfl) fun _ => .charge rfl fun hfits => ?_
  have hcost : Gas.initCode (reported size.toNat) = Gas.initCode size.toNat := by
    have hsame : reported size.toNat = size.toNat := by
      unfold largestMemory at hfits
      unfold reported maxAmount
      omega
    rw [hsame]
  rw [hcost, read_memory_reported hfits]
  exact .rfl

theorem dispatch_same {env : Surroundings} {op : Opcode}
    (htopics : ∀ topics, op = .log topics → topics ≤ 4)
    (hlax : op = .create → maxAmount ≤ env.limits.maxInitCodeSize → lax) :
    SameOn lax Activation.Bounded (Instruction.dispatch env op) (dispatch env op) := by
  have hlocal : SameOn lax Activation.Bounded
      (do Instruction.executeLocal env.limits op; return Request.proceed)
      (do executeLocal env.limits op; return Request.proceed) := by
    refine SameOn.bind (R := fun _ _ => True) ?_ (fun _ _ _ _ _ => trivial) fun _ => .rfl
    refine .frame (fun _ hx => hx) fun f _ => .frame (fun _ hx => hx) fun g _ => ?_
    have hfetched : Within [] (Action.ofChecked (g.immediate? op.immediateSize) : Exec Word) :=
      .of_checked _
    refine .keep hfetched (bounded_stable (by decide)) fun immediate => ?_
    refine .keep (.advance (List.mem_singleton_self _) _) (bounded_stable (by decide)) fun _ => ?_
    exact body_same env.limits f.pc immediate htopics
  cases op with
  | callInternal => exact request_internal_same env
  | call => exact request_message_same env true
  | staticCall => exact request_message_same env false
  | create => exact request_create_same (hlax rfl)
  | _ => exact hlocal

/-- An instruction does what it would do if it computed with numbers of any size. Only where no amount
is more than the limit on init code may a creation be refused for another cause. -/
theorem fetch_agrees (env : Surroundings) {x : Activation} (hx : x.Bounded) :
    Agree (x.frame.currentOp = .create ∧ maxAmount ≤ env.limits.maxInitCodeSize)
      (Instruction.fetchAndDispatch env x) (fetchAndDispatch env x) := by
  have hframe : Exec.frame x = .ok x.frame x := rfl
  rw [Instruction.fetchAndDispatch, fetchAndDispatch, Action.bind_ok hframe, Action.bind_ok hframe]
  cases hop : x.frame.currentOp with
  | undefined => exact .inl rfl
  | _ =>
      refine SameOn.frame (fun _ hx => hx) (fun g _ => ?_) x hx
      refine .ite Iff.rfl (fun _ => .rfl) fun _ => ?_
      refine .keep (.consume_gas (List.mem_singleton_self _) _) (bounded_stable (by decide)) fun _ => ?_
      refine dispatch_same (fun topics htopics => Frame.topics_le (hop.trans htopics)) ?_
      exact fun hcreate hlimit => ⟨hcreate, hlimit⟩

end Exact
end CallTree
