import CallTree.Proofs.Footprints

/-!
# What a completed instruction has done

Footprints bound what an instruction may change. Here is what the instructions that matter to the
call stack do when they are completed: which requests come from which instruction
(`fetch_request`), what a load puts on the stack (`fetch_sload`), what a store writes
(`fetch_sstore`), and what an internal call takes (`fetch_internal`).
-/

namespace CallTree

namespace Action

variable {σ α β : Type}

/-- A sequence is completed when both of its parts are. -/
theorem bind_eq_ok {act : Action σ α} {next : α → Action σ β} {s t : σ} {r : β}
    (h : (act >>= next) s = .ok r t) : ∃ q u, act s = .ok q u ∧ next q u = .ok r t := by
  cases hact : act s with
  | ok q u =>
      rw [bind_ok hact] at h
      exact ⟨q, u, rfl, h⟩
  | error e u =>
      rw [bind_error hact] at h
      cases h

end Action

namespace Exec

variable {α β : Type}

/-- Whatever the action results in has a property. -/
def Yields (P : α → Prop) (act : Exec α) : Prop :=
  ∀ a r b, act a = .ok r b → P r

namespace Yields

variable {P : α → Prop}

/-- The result of a sequence is that of its last part. -/
theorem bind {act : Exec β} {next : β → Exec α} (h : ∀ q, Yields P (next q)) :
    Yields P (act >>= next) := by
  intro a r b hok
  obtain ⟨q, u, _, hnext⟩ := Action.bind_eq_ok hok
  exact h q u r b hnext

theorem pure {r : α} (h : P r) : Yields P (Pure.pure r : Exec α) := by
  intro a r' b hok
  cases hok
  exact h

theorem ite {c : Prop} [Decidable c] {act other : Exec α} (h : Yields P act)
    (hother : Yields P other) : Yields P (if c then act else other) := by
  split
  · exact h
  · exact hother

/-- What is done first under a condition does not matter. -/
theorem when {c : Prop} [Decidable c] {act : Exec Unit} {rest : Unit → Exec α}
    (h : ∀ r, Yields P (rest r)) : Yields P (if c then act >>= rest else rest ()) :=
  ite (bind h) (h ())

end Yields

/-- The action changes nothing but the given parts when it is refused. -/
def Refuses (parts : List Part) (act : Exec α) : Prop :=
  ∀ a e b, act a = .error e b → Touches parts a b

namespace Refuses

variable {parts : List Part}

theorem of_within {act : Exec α} (h : Within parts act) : Refuses parts act := by
  intro a e b herror
  exact Action.after_error herror ▸ h a

/-- A sequence is refused in its first part or after it. -/
theorem bind {act : Exec β} {next : β → Exec α} (h : Within parts act)
    (hnext : ∀ q, Refuses parts (next q)) : Refuses parts (act >>= next) := by
  intro a e b herror
  cases hact : act a with
  | error e' u =>
      rw [Action.bind_error hact] at herror
      cases herror
      exact Action.after_error hact ▸ h a
  | ok q u =>
      rw [Action.bind_ok hact] at herror
      exact (Action.after_ok hact ▸ h a).trans (hnext q u e b herror)

/-- What comes last cannot be refused. -/
theorem bind_pure {act : Exec β} {r : β → α} (h : Refuses parts act) :
    Refuses parts (act >>= fun q => Pure.pure (r q)) := by
  intro a e b herror
  cases hact : act a with
  | error e' u =>
      rw [Action.bind_error hact] at herror
      cases herror
      exact h a e b hact
  | ok q u =>
      rw [Action.bind_ok hact] at herror
      cases herror

theorem ite {c : Prop} [Decidable c] {act other : Exec α} (h : Refuses parts act)
    (hother : Refuses parts other) : Refuses parts (if c then act else other) := by
  split
  · exact h
  · exact hother

theorem when {c : Prop} [Decidable c] {act : Exec Unit} {rest : Unit → Exec α}
    (h : Within parts act) (hrest : ∀ r, Refuses parts (rest r)) :
    Refuses parts (if c then act >>= rest else rest ()) :=
  ite (bind h hrest) (hrest ())

end Refuses

/-! ## Completed steps -/

variable {a b : Activation}

/-- Debiting gas leaves the workspace alone. -/
theorem consume_gas_ok {amount : Nat} (h : Exec.consumeGas amount a = .ok () b) :
    b.space = a.space := by
  obtain ⟨f, s⟩ := a
  unfold Exec.consumeGas onFrame Frame.consumeGas at h
  by_cases hrunning : f.running = true
  · by_cases hlt : f.gas.remaining < amount
    · simp [hrunning, GasMeter.consume, hlt] at h
    · simp only [hrunning, if_true, GasMeter.consume, hlt, if_false] at h
      cases h
      rfl
  · simp [hrunning] at h

/-- A number that fits changes nothing. -/
theorem of_checked_ok {result : Option α} {r : α}
    (h : (Action.ofChecked result : Exec α) a = .ok r b) : b = a := by
  cases result with
  | none => cases h
  | some value =>
      cases h
      rfl

/-- Taking a word takes the topmost. -/
theorem pop_ok {word : Word} (h : Exec.pop a = .ok word b) :
    ∃ w rest, a.space = some w ∧ w.stack.items.toList = word :: rest ∧
      b = ⟨a.frame, some { w with stack.items := w.stack.items.drop 1 }⟩ := by
  obtain ⟨f, _ | w⟩ := a
  · cases h
  · unfold Exec.pop onStack Stack.pop at h
    cases hitems : w.stack.items.toList with
    | nil => simp [hitems] at h
    | cons top rest =>
        simp only [hitems] at h
        cases h
        exact ⟨w, rest, rfl, hitems, rfl⟩

/-- Taking an amount takes the topmost word. -/
theorem pop_amount_ok {amount : Nat} (h : Exec.popAmount a = .ok amount b) :
    ∃ w word rest, amount = word.toAmount ∧ a.space = some w ∧
      w.stack.items.toList = word :: rest ∧
      b = ⟨a.frame, some { w with stack.items := w.stack.items.drop 1 }⟩ := by
  obtain ⟨f, _ | w⟩ := a
  · cases h
  · unfold Exec.popAmount onStack Stack.popAmount Stack.pop at h
    cases hitems : w.stack.items.toList with
    | nil => simp [hitems] at h
    | cons top rest =>
        simp only [hitems] at h
        cases h
        exact ⟨w, top, rest, rfl, rfl, hitems, rfl⟩

/-- Taking several words takes the topmost ones. -/
theorem pop_many_ok {n : Nat} {words : List Word} (h : Exec.popMany n a = .ok words b)
    {w : Workspace} (hw : a.space = some w) :
    ∃ items, w.stack.items.toList = words ++ items.toList ∧ words.length = n ∧
      b = ⟨a.frame, some { w with stack.items := items }⟩ := by
  induction n generalizing a b w words with
  | zero =>
      cases h
      obtain ⟨f, _⟩ := a
      cases hw
      exact ⟨w.stack.items, rfl, rfl, rfl⟩
  | succ n ih =>
      obtain ⟨word, a₁, hpop, h⟩ := Action.bind_eq_ok h
      obtain ⟨w₀, rest, hw₀, hitems, rfl⟩ := pop_ok hpop
      cases hw.symm.trans hw₀
      obtain ⟨words, a₂, hmany, h⟩ := Action.bind_eq_ok h
      obtain ⟨items, hrest, hlength, rfl⟩ := ih hmany rfl
      cases h
      refine ⟨items, ?_, by rw [List.length_cons, hlength], rfl⟩
      rw [Pile.toList_drop, hitems, List.drop_succ_cons, List.drop_zero] at hrest
      rw [hitems, hrest, List.cons_append]

/-- What is charged for was added at the end of the memory. -/
theorem charge_memory_ok {offset size : Nat} (h : Exec.chargeMemory offset size a = .ok () b)
    {w : Workspace} (hw : a.space = some w) :
    ∃ n, b.space = some { w with memory.data := w.memory.data.extendZeros n } := by
  by_cases hsize : size ≠ 0
  · rw [Exec.chargeMemory, if_pos hsize] at h
    obtain ⟨old, a₁, hread, h⟩ := Action.bind_eq_ok h
    obtain ⟨added, a₂, hexpand, h⟩ := Action.bind_eq_ok h
    obtain ⟨new, a₃, hread', h⟩ := Action.bind_eq_ok h
    obtain ⟨cost, a₄, hcost, h⟩ := Action.bind_eq_ok h
    obtain ⟨f, _⟩ := a
    cases hw
    cases hread
    cases hgrown : Memory.expand offset size w.memory with
    | error e m => simp [onMemory, hgrown] at hexpand
    | ok added m =>
        simp only [onMemory, hgrown] at hexpand
        cases hexpand
        cases hread'
        cases of_checked_ok hcost
        obtain ⟨n, rfl, _⟩ := Memory.expand_cases hgrown
        exact ⟨n, consume_gas_ok h⟩
  · rw [Exec.chargeMemory, if_neg hsize] at h
    cases h
    exact ⟨0, hw⟩

/-- A word that is put on the stack is the topmost. -/
theorem push_ok {word : Word} (h : Exec.push word a = .ok () b) :
    ∃ w, a.space = some w ∧
      b = ⟨a.frame, some { w with stack.items := w.stack.items.push word }⟩ := by
  obtain ⟨f, _ | w⟩ := a
  · cases h
  · unfold Exec.push onStack Stack.push at h
    by_cases hfull : w.stack.limit ≤ w.stack.size
    · simp [hfull] at h
    · simp only [hfull, if_false] at h
      cases h
      exact ⟨w, rfl, rfl⟩

/-- A word is put on the stack only where there is room for it. -/
theorem push_operands {word : Word} (h : Action.after (Exec.push word) a = b) {v w : Workspace}
    (hv : a.space = some v) (hw : b.space = some w) (hle : v.stack.items.size ≤ v.stack.limit) :
    w.stack.items.size ≤ w.stack.limit := by
  obtain ⟨f, s⟩ := a
  cases hv
  by_cases hfull : v.stack.limit ≤ v.stack.items.size
  · have hsame : Action.after (Exec.push word) ⟨f, some v⟩ = ⟨f, some v⟩ := by
      simp [Action.after, Exec.push, onStack, Stack.push, Stack.size, hfull]
    rw [hsame] at h
    cases h
    cases hw
    exact hle
  · have hpushed : Action.after (Exec.push word) ⟨f, some v⟩ =
        ⟨f, some { v with stack.items := v.stack.items.push word }⟩ := by
      simp [Action.after, Exec.push, onStack, Stack.push, Stack.size, hfull]
    rw [hpushed] at h
    cases h
    cases hw
    exact Nat.lt_of_not_le hfull

/-- Reading the storage changes nothing. -/
theorem read_storage_ok {g : Storage → α} {r : α}
    (h : Exec.onStorage (Action.read g) a = .ok r b) :
    ∃ w, a.space = some w ∧ r = g w.storage ∧ b = a := by
  obtain ⟨f, _ | w⟩ := a
  · cases h
  · cases h
    exact ⟨w, rfl, rfl, rfl⟩

/-- What is completed was not refused. -/
theorem of_ite_refused {c : Prop} [Decidable c] {cause : Fault} {act : Exec α} {r : α}
    (h : (if c then Action.refuse cause else act) a = .ok r b) : act a = .ok r b := by
  by_cases hc : c
  · rw [if_pos hc] at h
    cases h
  · rw [if_neg hc] at h
    exact h

/-- What comes after a condition that may be refused. -/
theorem of_unless_refused {c : Prop} [Decidable c] {cause : Fault} {rest : Unit → Exec α} {r : α}
    (h : (if c then (Action.refuse cause : Exec Unit) >>= rest else rest ()) a = .ok r b) :
    rest () a = .ok r b :=
  of_ite_refused (show (if c then Action.refuse cause else rest ()) a = .ok r b from h)

/-- What comes after a refund that may be counted. -/
theorem of_refunded {c : Prop} [Decidable c] {amount : Nat} {rest : Unit → Exec α} {r : α}
    (h : (if c then Exec.update (Frame.recordRefund amount) >>= rest else rest ()) a = .ok r b) :
    rest () ⟨if c then a.frame.recordRefund amount else a.frame, a.space⟩ = .ok r b := by
  by_cases hc : c
  · rw [if_pos hc] at h
    obtain ⟨_, a₁, hrefund, h⟩ := Action.bind_eq_ok h
    cases hrefund
    rw [if_pos hc]
    exact h
  · rw [if_neg hc] at h
    rw [if_neg hc]
    exact h

/-- Writing a slot. -/
theorem store_ok {key value previous : Word}
    (h : Exec.onStorage (Action.ofTotal (Storage.store key value)) a = .ok previous b) :
    ∃ w, a.space = some w ∧
      b = ⟨a.frame, some { w with storage := (w.storage.store key value).2 }⟩ := by
  obtain ⟨f, _ | w⟩ := a
  · cases h
  · cases h
    exact ⟨w, rfl, rfl⟩

end Exec

/-! ## Requests -/

/-- The requests that an instruction can end in. -/
def Opcode.Asks (op : Opcode) : Request → Prop
  | .proceed => True
  | .internal _ _ => op = .callInternal
  | .message data _ _ =>
    (op = .call ∨ op = .staticCall) ∧ (data.kind = .external ∨ data.kind = .static)
  | .create _ _ _ => op = .create

namespace Instruction

open Exec

variable {env : Surroundings} {a b : Activation}

/-- A message is sent as an external or as a read-only call. -/
theorem request_message_asks (env : Surroundings) (withValue : Bool) {op : Opcode}
    (hop : op = .call ∨ op = .staticCall) : Yields op.Asks (requestMessage env withValue) := by
  refine .bind fun requested => .bind fun callee => ?_
  refine .ite (.bind ?hrest) (.bind ?hrest)
  intro value
  refine .bind fun argsOffset => .bind fun argsSize => .bind fun retOffset => ?_
  refine .bind fun retSize => .bind fun _ => .bind fun f => .when fun _ => ?_
  refine .bind fun _ => .bind fun _ => .when fun _ => .bind fun _ => ?_
  refine .ite (.bind fun _ => .pure trivial) ?_
  refine .bind fun f => .bind fun _ => .bind fun input => .bind fun g => .pure ?_
  refine ⟨hop, ?_⟩
  show (if _ then _ else _ : CallData).kind = .external ∨
    (if _ then _ else _ : CallData).kind = .static
  split
  · exact .inr rfl
  · exact .inl rfl

/-- An instruction ends in a request of its kind. -/
theorem dispatch_asks (env : Surroundings) (op : Opcode) : Yields op.Asks (dispatch env op) := by
  have hlocal : Yields op.Asks (do executeLocal env.limits op; return Request.proceed) :=
    .bind fun _ => .pure trivial
  cases op with
  | callInternal =>
      refine .bind fun target => .bind fun requested => .bind fun _ => .bind fun f => ?_
      exact .when fun _ => .when fun _ => .bind fun _ => .pure rfl
  | call => exact request_message_asks env true (.inl rfl)
  | staticCall => exact request_message_asks env false (.inr rfl)
  | create =>
      refine .bind fun value => .bind fun offset => .bind fun size => .bind fun _ => ?_
      refine .when fun _ => .bind fun _ => .bind fun _ => .bind fun _ => ?_
      refine .ite (.bind fun _ => .pure trivial) ?_
      exact .bind fun initCode => .bind fun f => .pure rfl
  | _ => exact hlocal

/-- A completed instruction has been paid for and then carried out. -/
theorem fetch_ok {request : Request} (h : fetchAndDispatch env a = .ok request b)
    (hop : a.frame.currentOp ≠ .undefined) :
    ∃ a₁, Exec.consumeGas (Gas.static a.frame.currentOp) a = .ok () a₁ ∧
      dispatch env a.frame.currentOp a₁ = .ok request b := by
  have hframe : Exec.frame a = .ok a.frame a := rfl
  have hcarry : ∀ op, a.frame.currentOp = op → op ≠ .undefined →
      ∃ a₁, Exec.consumeGas (Gas.static op) a = .ok () a₁ ∧ dispatch env op a₁ = .ok request b := by
    intro op hcur hne
    rw [fetchAndDispatch, Action.bind_ok hframe, hcur] at h
    cases op with
    | undefined => exact absurd rfl hne
    | _ =>
        obtain ⟨f, a₀, hread, h⟩ := Action.bind_eq_ok h
        cases hread
        obtain ⟨_, a₁, hgas, h⟩ := Action.bind_eq_ok (of_ite_refused h)
        exact ⟨a₁, hgas, h⟩
  exact hcarry _ rfl hop

/-- Instructions look at no other limits than the depth and the sizes of code. -/
theorem fetch_congr {limits limits' : Limits} (depth : Nat) (origin : Address)
    (hdepth : limits'.maxCallDepth = limits.maxCallDepth)
    (hcode : limits'.maxCodeSize = limits.maxCodeSize)
    (hinit : limits'.maxInitCodeSize = limits.maxInitCodeSize) :
    fetchAndDispatch ⟨limits', depth, origin⟩ = fetchAndDispatch ⟨limits, depth, origin⟩ := by
  have hdispatch : ∀ op, dispatch ⟨limits', depth, origin⟩ op = dispatch ⟨limits, depth, origin⟩ op := by
    intro op
    cases limits
    cases limits'
    cases hdepth
    cases hcode
    cases hinit
    cases op <;> rfl
  unfold fetchAndDispatch
  simp only [hdispatch]

/-- An instruction ends in a request of its kind. -/
theorem fetch_request {request : Request} (h : fetchAndDispatch env a = .ok request b) :
    a.frame.currentOp.Asks request := by
  by_cases hop : a.frame.currentOp = .undefined
  · have hframe : Exec.frame a = .ok a.frame a := rfl
    rw [fetchAndDispatch, Action.bind_ok hframe, hop] at h
    obtain ⟨f, a₀, hread, h⟩ := Action.bind_eq_ok h
    cases hbyte : f.currentByte? with
    | none =>
        simp only [hbyte] at h
        obtain ⟨_, a₁, _, h⟩ := Action.bind_eq_ok h
        cases h
        trivial
    | some byte =>
        simp only [hbyte] at h
        cases h
  · obtain ⟨a₁, _, h⟩ := fetch_ok h hop
    exact dispatch_asks env _ a₁ request b h

/-- A completed instruction that neither calls nor creates has moved on and then done its work. -/
theorem execute_local_ok {limits : Limits} {op : Opcode} (h : executeLocal limits op a = .ok () b) :
    ∃ pc immediate f, Touches [.pc] a ⟨f, a.space⟩ ∧
      body limits pc immediate op ⟨f, a.space⟩ = .ok () b := by
  obtain ⟨f, a₁, hread, h⟩ := Action.bind_eq_ok h
  cases hread
  obtain ⟨g, a₂, hread, h⟩ := Action.bind_eq_ok h
  cases hread
  obtain ⟨immediate, a₃, hread, h⟩ := Action.bind_eq_ok h
  obtain ⟨_, a₄, hmove, h⟩ := Action.bind_eq_ok h
  cases of_checked_ok hread
  have hmoved : Touches [.pc] a a₄ :=
    Action.after_ok hmove ▸ Within.advance (by decide) (1 + op.immediateSize) a
  cases hmove
  exact ⟨_, immediate, _, hmoved, h⟩

/-- A completed instruction, if it neither calls nor creates. -/
theorem fetch_local {request : Request} (h : fetchAndDispatch env a = .ok request b)
    (hdefined : a.frame.currentOp ≠ .undefined) (hlocal : a.frame.currentOp.isCall = false) :
    request = .proceed ∧ ∃ pc immediate f, Touches [.gas, .pc] a ⟨f, a.space⟩ ∧
      body env.limits pc immediate a.frame.currentOp ⟨f, a.space⟩ = .ok () b := by
  obtain ⟨a₁, hgas, h⟩ := fetch_ok h hdefined
  have hspace := consume_gas_ok hgas
  have hpaid : Touches [.gas, .pc] a a₁ := Action.after_ok hgas ▸ Within.consume_gas (by decide) _ a
  have hdispatch : ∀ op : Opcode, op.isCall = false →
      dispatch env op = (do executeLocal env.limits op; return Request.proceed) := by
    intro op hop
    cases op with
    | callInternal | call | staticCall | create => cases hop
    | _ => rfl
  rw [hdispatch _ hlocal] at h
  obtain ⟨_, a₂, hwork, h⟩ := Action.bind_eq_ok h
  cases h
  obtain ⟨pc, immediate, f, hmoved, hbody⟩ := execute_local_ok hwork
  rw [hspace] at hmoved hbody
  exact ⟨rfl, pc, immediate, f, hpaid.trans (hmoved.mono (by decide)), hbody⟩

/-- A completed load replaces the key by the value of the slot. -/
theorem fetch_sload {request : Request} {w : Workspace}
    (h : fetchAndDispatch env a = .ok request b) (hop : a.frame.currentOp = .sload)
    (hw : a.space = some w) :
    ∃ key rest, w.stack.items.toList = key :: rest ∧
      ∃ w', b.space = some w' ∧ w'.stack.items.toList = w.storage.load key :: rest := by
  obtain ⟨_, pc, immediate, f, _, h⟩ := fetch_local h (by simp [hop]) (by rw [hop]; rfl)
  rw [hop] at h
  obtain ⟨key, a₁, hpop, h⟩ := Action.bind_eq_ok h
  obtain ⟨w₀, rest, hw₀, hitems, rfl⟩ := pop_ok hpop
  cases hw.symm.trans hw₀
  obtain ⟨value, a₂, hread, h⟩ := Action.bind_eq_ok h
  obtain ⟨w₁, hw₁, rfl, rfl⟩ := read_storage_ok hread
  cases hw₁
  obtain ⟨w₂, hw₂, rfl⟩ := push_ok h
  cases hw₂
  exact ⟨key, rest, hitems, _, rfl, by simp [hitems]⟩

/-- A completed store takes a key and a value and writes the slot. It earns a refund if it clears
the slot. -/
theorem fetch_sstore {request : Request} {w : Workspace}
    (h : fetchAndDispatch env a = .ok request b) (hop : a.frame.currentOp = .sstore)
    (hw : a.space = some w) :
    ∃ key value rest, w.stack.items.toList = key :: value :: rest ∧
      (b.frame.gas.refunds = if w.storage.load key ≠ 0 ∧ value = 0
        then satAdd a.frame.gas.refunds Gas.storageClearRefund else a.frame.gas.refunds) ∧
      ∃ w', b.space = some w' ∧ w'.storage.slots = w.storage.slots.store key value := by
  obtain ⟨_, pc, immediate, f, hfetched, h⟩ := fetch_local h (by simp [hop]) (by rw [hop]; rfl)
  rw [hop] at h
  obtain ⟨key, a₁, hpop, h⟩ := Action.bind_eq_ok h
  obtain ⟨w₀, rest₀, hw₀, hkey, rfl⟩ := pop_ok hpop
  cases hw.symm.trans hw₀
  obtain ⟨value, a₂, hpop, h⟩ := Action.bind_eq_ok h
  obtain ⟨w₁, rest, hw₁, hvalue, rfl⟩ := pop_ok hpop
  cases hw₁
  obtain ⟨current, a₃, hread, h⟩ := Action.bind_eq_ok h
  obtain ⟨w₁, hw₁, rfl, rfl⟩ := read_storage_ok hread
  cases hw₁
  obtain ⟨_, a₄, hgas, h⟩ := Action.bind_eq_ok h
  have hspace := consume_gas_ok hgas
  -- Neither the price of the instruction nor that of the write touches the refunds.
  have hpaid : Touches [.gas] _ a₄ := Action.after_ok hgas ▸ Within.consume_gas (by decide) _ _
  have hrefunds : a₄.frame.gas.refunds = a.frame.gas.refunds :=
    (hpaid.refunds_eq (by decide)).trans (hfetched.refunds_eq (by decide))
  replace h := of_refunded h
  obtain ⟨previous, a₆, hwrite, h⟩ := Action.bind_eq_ok h
  obtain ⟨w₂, hw₂, rfl⟩ := store_ok hwrite
  cases h
  refine ⟨key, value, rest, ?_, ?_, ?_⟩
  · simp only [Pile.toList_drop, hkey, List.drop_succ_cons, List.drop_zero] at hvalue
    rw [hkey, hvalue]
  · rw [← hrefunds]
    show (if _ then a₄.frame.recordRefund _ else a₄.frame).gas.refunds = _
    split <;> rfl
  · cases hw₂.symm.trans hspace
    exact ⟨_, rfl, rfl⟩

/-- A completed log takes a region and the topics, and emits them with the contents of the region. -/
theorem fetch_log {request : Request} {topics : Nat} (h : fetchAndDispatch env a = .ok request b)
    (hop : a.frame.currentOp = .log topics) :
    ∃ w offset size words rest, a.space = some w ∧
      w.stack.items.toList = offset :: size :: (words ++ rest) ∧ words.length = topics ∧
      b.frame.logs = a.frame.logs.push
        ⟨a.frame.call.contract, words, w.memory.read offset.toAmount size.toAmount⟩ := by
  obtain ⟨_, pc, immediate, f, hfetched, h⟩ := fetch_local h (by simp [hop]) (by rw [hop]; rfl)
  rw [hop] at h
  obtain ⟨_, a₁, hpop, h⟩ := Action.bind_eq_ok h
  obtain ⟨w, offset, rest₀, rfl, hw, hoffset, rfl⟩ := pop_amount_ok hpop
  obtain ⟨_, a₂, hpop, h⟩ := Action.bind_eq_ok h
  obtain ⟨w₁, size, rest₁, rfl, hw₁, hsize, rfl⟩ := pop_amount_ok hpop
  cases hw₁
  obtain ⟨words, a₃, hmany, h⟩ := Action.bind_eq_ok h
  obtain ⟨items, hwords, hlength, rfl⟩ := pop_many_ok hmany rfl
  obtain ⟨_, a₄, hcharge, h⟩ := Action.bind_eq_ok h
  obtain ⟨n, hgrown⟩ := charge_memory_ok hcharge rfl
  obtain ⟨cost, a₅, hcost, h⟩ := Action.bind_eq_ok h
  cases of_checked_ok hcost
  obtain ⟨_, a₆, hgas, h⟩ := Action.bind_eq_ok h
  have hspace := (consume_gas_ok hgas).trans hgrown
  have hpaid : Touches [.gas, .memory] _ a₆ :=
    (Action.after_ok hcharge ▸ Within.charge_memory (by decide) (by decide) _ _ _).trans
      (Action.after_ok hgas ▸ Within.consume_gas (by decide) _ _)
  have hlogs : a₆.frame.logs = a.frame.logs :=
    (hpaid.logs_eq (by decide)).trans (hfetched.logs_eq (by decide))
  have hcall : a₆.frame.call = a.frame.call :=
    congrArg Site.call (hpaid.site_eq.trans hfetched.site_eq)
  obtain ⟨data, a₇, hread, h⟩ := Action.bind_eq_ok h
  obtain ⟨g, _⟩ := a₆
  cases hspace
  cases hread
  cases h
  refine ⟨w, offset, size, words, items.toList, hw, ?_, hlength, ?_⟩
  · simp only [Pile.toList_drop, hoffset, List.drop_succ_cons, List.drop_zero] at hsize
    simp only [Pile.toList_drop, hoffset, hsize, List.drop_succ_cons, List.drop_zero] at hwords
    rw [hoffset, hsize, hwords]
  · rw [← hlogs, ← hcall]
    show g.logs.push ⟨g.call.contract, words, Bytes.window (Bytes.extendZeros n _) _ _⟩ = _
    rw [Bytes.window_extend_zeros]
    rfl

/-- All that can be refused in a store comes before the write. -/
theorem storage_store_refuses : Refuses (.refunds :: Part.common) storageStore := by
  have hstack : Part.stack ∈ Part.refunds :: Part.common := by decide
  refine .bind (.pop hstack) fun key => .bind (.pop hstack) fun value => ?_
  refine .bind (.read_storage_with _) fun current => .bind (.consume_gas (by decide) _) fun _ => ?_
  refine .when (.of_touch (by decide : Part.refunds ∈ _) fun _ => .inr (.refunds _)) fun _ => ?_
  intro a e b h
  obtain ⟨f, _ | w⟩ := a
  · cases h
    exact .refl
  · cases h

/-- An instruction that is refused has not written to any slot. -/
theorem fetch_refused {e : Abort} (h : fetchAndDispatch env a = .error e b) :
    ∃ parts, Part.slots ∉ parts ∧ Touches parts a b := by
  by_cases hop : a.frame.currentOp = .sstore
  · refine ⟨.refunds :: Part.common, by decide, ?_⟩
    have hgas : Part.gas ∈ Part.refunds :: Part.common := by decide
    have hframe : Exec.frame a = .ok a.frame a := rfl
    rw [fetchAndDispatch, Action.bind_ok hframe, hop] at h
    refine Refuses.bind .frame (fun f => ?_) a e b h
    refine .ite (.of_within (.refuse _)) (.bind (.consume_gas hgas _) fun _ => ?_)
    refine .bind_pure (.bind .frame fun g => .bind .frame fun g' => ?_)
    refine .bind (.of_checked _) fun immediate => .bind (.advance (by decide) _) fun _ => ?_
    exact storage_store_refuses
  · refine ⟨_, ?_, Action.after_error h ▸ fetch_within env a⟩
    cases hcur : a.frame.currentOp with
    | sstore => exact absurd hcur hop
    | _ => simp [Opcode.touches, Part.common]

/-- A completed internal call has taken two operands and leaves the rest of the workspace alone. -/
theorem fetch_internal {target gas : Nat} {w : Workspace}
    (h : fetchAndDispatch env a = .ok (.internal target gas) b) (hw : a.space = some w) :
    2 ≤ w.stack.items.size ∧
      b.space = some { w with stack.items := w.stack.items.drop 2 } := by
  have hop : a.frame.currentOp = .callInternal := fetch_request h
  obtain ⟨a₁, hgas, h⟩ := fetch_ok h (by simp [hop])
  have hspace := consume_gas_ok hgas
  rw [hop] at h
  obtain ⟨dest, a₂, hpop, h⟩ := Action.bind_eq_ok h
  obtain ⟨w₀, word, rest₀, _, hw₀, hdest, rfl⟩ := pop_amount_ok hpop
  cases hw.symm.trans (hspace.symm.trans hw₀)
  obtain ⟨requested, a₃, hpop, h⟩ := Action.bind_eq_ok h
  obtain ⟨w₁, word', rest, _, hw₁, hrequested, rfl⟩ := pop_amount_ok hpop
  cases hw₁
  obtain ⟨_, a₄, hmove, h⟩ := Action.bind_eq_ok h
  cases hmove
  obtain ⟨f, a₅, hread, h⟩ := Action.bind_eq_ok h
  cases hread
  replace h := of_unless_refused (of_unless_refused h)
  obtain ⟨_, a₆, hgas, h⟩ := Action.bind_eq_ok h
  have hspace := consume_gas_ok hgas
  cases h
  have hitems : w.stack.items.toList = word :: word' :: rest := by
    simp only [Pile.toList_drop, hdest, List.drop_succ_cons, List.drop_zero] at hrequested
    rw [hdest, hrequested]
  have hdrop : (w.stack.items.drop 1).drop 1 = w.stack.items.drop 2 := by
    apply Pile.ext
    simp [hitems]
  refine ⟨?_, ?_⟩
  · rw [w.stack.items.size_eq, hitems]
    simp
  · rw [hspace, ← hdrop]

end Instruction
end CallTree
