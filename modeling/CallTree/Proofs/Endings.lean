import CallTree.Proofs.Boundaries
import CallTree.Proofs.Conservation
import CallTree.Proofs.Sizes

/-!
# How calls end

An internal call that stops, returns or comes to the end of its code ends the call around it too
(`Context.exits_of_move`), and a revert of it is one of its caller. What a caller is left with when it
takes up such a result is stated here for a single frame: `Frame.Returns` says how it ends with an
output, which for a creation is a deployment that may fail, and `Frame.PassesOn` how it reverts. Taking
up the result does not touch the workspace (`Exec.Leaves`).
-/

namespace CallTree

open CallTree.Action (Triple)

/-! ## What ends a call -/

/-- The frame stands at a stop, at a return or at the end of its code. -/
def Frame.AtEnd (f : Frame) : Prop :=
  f.currentOp = .stop ∨ f.currentOp = .ret ∨ f.program.code.size ≤ f.pc

/-- A frame that stops records a success, and an internal call also that it ends the call around
it. -/
theorem Frame.stop_eq (f : Frame) : f.stop = { f with
    running := false
    verdict := f.verdict.succeed
    exitsCall := f.call.kind == .internal || f.exitsCall } := by
  by_cases hkind : f.call.kind = .internal
  · simp [Frame.stop, Frame.markSuccess, Frame.halt, hkind]
  · simp [Frame.stop, Frame.markSuccess, Frame.halt, hkind]

/-- The frame is an internal call. -/
def Activation.Internal (x : Activation) : Prop :=
  x.frame.call.kind = .internal

namespace Exec

variable {α : Type} {parts : List Part}

theorem Within.internal {act : Exec α} (h : Within parts act) :
    Triple Activation.Internal act (fun _ => Activation.Internal) Abort.Any := by
  refine (h.triple fun part _ x y htouch hx => ?_).refused fun _ _ _ => trivial
  cases htouch <;> exact hx

/-- An internal call that stops ends the call around it. -/
theorem stop_exits : Triple Activation.Internal (Exec.update Frame.stop)
    (fun _ x => x.frame.exitsCall = true) Abort.Any := by
  refine update_triple fun x hx => ?_
  have hkind : x.frame.call.kind = .internal := hx
  rw [Frame.stop_eq, hkind]
  rfl

/-- So does one that ends with an output. -/
theorem complete_return_exits (maxCodeSize : Nat) (data : Bytes) :
    Triple Activation.Internal (Exec.completeReturn maxCodeSize data)
      (fun _ x => x.frame.exitsCall = true) Abort.Any := by
  have hend : ∀ _ : Unit, Triple Activation.Internal (do
      Exec.update (Frame.setOutput data)
      Exec.update Frame.stop) (fun _ x => x.frame.exitsCall = true) Abort.Any := fun _ =>
    ((Within.set_output (by decide) data : Within [.output] _).internal).bind fun _ => stop_exits
  refine Triple.bind ((Within.frame : Within [] Exec.frame).internal) fun f => ?_
  refine .ite (fun _ => ?_) fun _ => hend ()
  refine .guard (fun _ _ _ => trivial) fun _ => ?_
  refine Triple.bind ((Within.of_checked _ : Within [] _).internal) fun deposit => ?_
  exact ((Within.consume_gas (by decide) deposit : Within [.gas] _).internal).bind hend

end Exec

namespace Instruction

open Exec

variable {env : Surroundings} {a b : Activation}

/-- An internal call that is completed at one of these places ends the call around it. -/
theorem fetch_exits {request : Request} (hact : fetchAndDispatch env a = .ok request b)
    (hend : a.frame.AtEnd) (hkind : a.Internal) : request = .proceed ∧ b.frame.exitsCall = true := by
  have hlocal : ∀ {op : Opcode}, op = .stop ∨ op = .ret → Triple Activation.Internal
      (do executeLocal env.limits op; return Request.proceed)
      (fun request x => request = .proceed ∧ x.frame.exitsCall = true) Abort.Any := by
    intro op hop
    refine Triple.bind (R := fun _ x => x.frame.exitsCall = true) ?_ fun _ =>
      .pure fun x hx => ⟨rfl, hx⟩
    refine Triple.bind ((Within.frame : Within [] Exec.frame).internal) fun f => ?_
    refine Triple.bind ((Within.frame : Within [] Exec.frame).internal) fun g => ?_
    refine Triple.bind ((Within.of_checked _ : Within [] _).internal) fun immediate => ?_
    refine Triple.bind ((Within.advance (by decide) _ : Within [.pc] _).internal) fun _ => ?_
    rcases hop with rfl | rfl
    · exact stop_exits
    · have hregion : Within Part.common popRegion :=
        .pop_region (by decide) (by decide) (by decide)
      exact hregion.internal.bind fun data => complete_return_exits _ data
  have hdispatch : ∀ op, a.frame.currentOp = op → op = .stop ∨ op = .ret →
      request = .proceed ∧ b.frame.exitsCall = true := by
    intro op hcur hop
    obtain ⟨a₁, hgas, hdone⟩ := fetch_ok hact (by rcases hop with rfl | rfl <;> simp [hcur])
    have hpay : Within [.gas] (consumeGas (Gas.static a.frame.currentOp)) :=
      .consume_gas (by decide) _
    have hpaid : a₁.Internal := hpay.internal.ok hkind hgas
    rw [hcur] at hdone
    rcases hop with rfl | rfl
    · exact (hlocal (.inl rfl)).ok hpaid hdone
    · exact (hlocal (.inr rfl)).ok hpaid hdone
  rcases hend with hop | hop | hpast
  · exact hdispatch _ hop (.inl rfl)
  · exact hdispatch _ hop (.inr rfl)
  · cases hact.symm.trans (fetch_past hpast)
    exact ⟨rfl, Triple.ok stop_exits hkind rfl⟩

end Instruction

/-- An internal call that has succeeded at the end of a call has ended that call. -/
theorem Instructed.exits {env : Surroundings} {a : Activation} {child : Frame}
    (h : Instructed env a [child]) (hrunning : a.frame.running = true) (hend : a.frame.AtEnd)
    (hkind : child.call.kind = .internal) (hsuccess : child.isSuccess = true) :
    child.exitsCall = true := by
  have hcall : ∀ {request b}, Instruction.fetchAndDispatch env a = .ok request b →
      child.site = b.frame.site → a.Internal := by
    intro request b hact hsite
    have hsite' := hsite.trans (Action.after_ok hact ▸ fetch_within env a).site_eq
    exact (Frame.kind_of_site hsite').symm.trans hkind
  cases h with
  | refused hact =>
      have hfailing := Instruction.fetch_refused_running hact hrunning
      simp [Frame.fail, Frame.isSuccess, hfailing] at hsuccess
  | proceeds hact => exact (Instruction.fetch_exits hact hend (hcall hact rfl)).2
  | stays hact hrequest hpays =>
      exact absurd (Instruction.fetch_exits hact hend (hcall hact hpays.stays.site)).1 hrequest
  | @declined request b f e hact hrequest hpays =>
      have hsite : (f.fail e).site = b.frame.site := (Frame.site_fail e f).trans hpays.stays.site
      exact absurd (Instruction.fetch_exits hact hend (hcall hact hsite)).1 hrequest

namespace Context

/-- The same for an instruction of a run that leaves the call stack as high as it was. -/
theorem exits_of_move {limits : Limits} {c₀ c : Context} {f₀ child : Frame} {below : List Frame}
    (hmove : Move limits ⟨c₀, none⟩ ⟨c, none⟩) (hdepth : c₀.depth = c.depth)
    (htop : c₀.top = .ok f₀) (hend : f₀.AtEnd) (hframes : c.frames.toList = child :: below)
    (hkind : child.call.kind = .internal) (hsuccess : child.isSuccess = true) :
    child.exitsCall = true := by
  cases hmove with
  | instruction hrunning hstep =>
      obtain ⟨f, lower, hframes₀, hf⟩ := top_of_running hrunning
      obtain rfl : f = f₀ := by
        simpa [hframes₀] using head_of_top htop
      obtain ⟨top, hinstructed, hframes'⟩ := step_or_fail_instructed hframes₀ hstep
      have hone : top = [child] := by
        rw [hframes] at hframes'
        rw [depth_eq, depth_eq, hframes₀, hframes, hframes', List.length_append] at hdepth
        have hlength : top.length = 1 := by
          simp only [List.length_cons] at hdepth
          omega
        obtain ⟨first, rfl⟩ := List.length_eq_one_iff.1 hlength
        cases hframes'
        rfl
      exact (hone ▸ hinstructed).exits hf hend hkind hsuccess

end Context

/-! ## How a result is taken up -/

/-- In whatever workspace, the action leaves `g` of the frame `f` and does not touch the workspace. A
fault makes the frame fail. -/
def Exec.Leaves (act : Exec Unit) (f g : Frame) : Prop :=
  ∀ s, act ⟨f, s⟩ = .ok () ⟨g, s⟩ ∨
    ∃ e f', act ⟨f, s⟩ = .error (.fault e) ⟨f', s⟩ ∧ g = f'.fail e

/-- What is left of the frame `f` when it returns `data` with `gas` left. Code that is too large or
cannot be paid for is not deployed, which costs the frame all its gas. -/
structure Frame.Returns (maxCodeSize gas : Nat) (data : Bytes) (f g : Frame) : Prop where
  site : g.site = f.site
  halted : g.running = false
  exits : f.call.kind = .internal → g.isSuccess = true → g.exitsCall = true
  plain : f.creation = false → g.isSuccess = true ∧ g.output = data ∧ g.gas.remaining = gas
  deployed : f.creation = true → data.size ≤ maxCodeSize → Gas.codeDepositByte * data.size ≤ gas →
    g.isSuccess = true ∧ g.output = data ∧
      g.gas.remaining + Gas.codeDepositByte * data.size = gas
  refused : f.creation = true → maxCodeSize < data.size ∨ gas < Gas.codeDepositByte * data.size →
    g.isReverted = true ∧ g.gas.remaining = 0

/-- What is left of the frame `f` when an internal call above it, `child`, has reverted: it reverts for
the same reason with the same output, and has `gas` left. -/
structure Frame.PassesOn (gas : Nat) (child f g : Frame) : Prop where
  site : g.site = f.site
  halted : g.running = false
  reverted : g.isSuccess = false
  reason : g.revertReason? = child.revertReason?
  output : g.output = child.output
  remaining : g.gas.remaining = gas

namespace Frame

variable {f : Frame} {data : Bytes}

/-- How a frame ends depends on what was settled about it. -/
theorem Returns.congr {maxCodeSize gas : Nat} {f' g : Frame} (h : Returns maxCodeSize gas data f' g)
    (hsite : f'.site = f.site) : Returns maxCodeSize gas data f g := by
  have hcreation : f'.creation = f.creation := congrArg Site.creation hsite
  have hcall : f'.call = f.call := congrArg Site.call hsite
  obtain ⟨hsite', hhalted, hexits, hplain, hdeployed, hrefused⟩ := h
  rw [hcreation] at hplain hdeployed hrefused
  rw [hcall] at hexits
  exact ⟨hsite'.trans hsite, hhalted, hexits, hplain, hdeployed, hrefused⟩

/-- An undecided frame that stops has succeeded. -/
theorem stop_facts (hundecided : f.verdict = .undecided) :
    f.stop.site = f.site ∧ f.stop.running = false ∧ f.stop.isSuccess = true ∧
      f.stop.output = f.output ∧ f.stop.gas = f.gas ∧
      (f.call.kind = .internal → f.stop.exitsCall = true) := by
  rw [stop_eq, hundecided]
  refine ⟨rfl, rfl, rfl, rfl, rfl, fun hkind => ?_⟩
  simp [hkind]

/-- A running frame that fails for a fault other than a voluntary revert has no gas left. -/
theorem fail_facts (hrunning : f.running = true) {cause : Fault} (hall : cause.consumesAllGas = true) :
    (f.fail cause).site = f.site ∧ (f.fail cause).running = false ∧
      (f.fail cause).isSuccess = false ∧ (f.fail cause).isReverted = true ∧
      (f.fail cause).gas.remaining = 0 := by
  simp [fail, hrunning, hall, site, isSuccess, isReverted, Verdict.reason?, GasMeter.burn]

/-- A voluntary revert costs a running frame no gas. -/
theorem fail_reverted (hrunning : f.running = true) (reason : String) :
    f.fail (.reverted reason) = { f with verdict := .reverted reason false, running := false } := by
  simp [fail, hrunning, Fault.consumesAllGas, Fault.isRecoverable, Fault.revertReason]

/-- A frame that has halted and has not succeeded has a reason. -/
theorem reason_of_reverted (hhalted : f.running = false) (hreverted : f.isSuccess = false) :
    f.revertReason? = some (f.revertReason?.getD "") := by
  unfold isSuccess at hreverted
  unfold revertReason?
  cases hverdict : f.verdict with
  | undecided => simp [hverdict, hhalted] at hreverted
  | succeeded => simp [hverdict] at hreverted
  | reverted reason outOfGas => rfl

end Frame

/-- A creation whose code is refused has reverted without gas. -/
theorem Frame.Returns.of_refused {maxCodeSize gas : Nat} {data : Bytes} {f : Frame} {cause : Fault}
    (hrunning : f.running = true) (hcreation : f.creation = true)
    (hall : cause.consumesAllGas = true)
    (hrefused : maxCodeSize < data.size ∨ gas < Gas.codeDepositByte * data.size) :
    Frame.Returns maxCodeSize gas data f (f.fail cause) := by
  obtain ⟨hsite, hhalted, hfailed, hreverted, hburnt⟩ := Frame.fail_facts hrunning hall
  refine ⟨hsite, hhalted, ?_, ?_, ?_, fun _ _ => ⟨hreverted, hburnt⟩⟩
  · simp [hfailed]
  · simp [hcreation]
  · omega

namespace Exec

variable {f : Frame} {data : Bytes}

/-- A running frame that has the gas pays. -/
theorem consume_gas_enough (hrunning : f.running = true) {cost : Nat}
    (henough : ¬f.gas.remaining < cost) (s : Option Workspace) :
    Exec.consumeGas cost ⟨f, s⟩ = .ok () ⟨{ f with gas := { f.gas with
      remaining := f.gas.remaining - cost, used := satAdd f.gas.used cost } }, s⟩ := by
  simp [Exec.consumeGas, onFrame, Frame.consumeGas, GasMeter.consume, hrunning, henough]

/-- One that does not have it is refused. -/
theorem consume_gas_poor (hrunning : f.running = true) {cost : Nat} (hpoor : f.gas.remaining < cost)
    (s : Option Workspace) : Exec.consumeGas cost ⟨f, s⟩ = .error (.fault .outOfGas) ⟨f, s⟩ := by
  simp [Exec.consumeGas, onFrame, Frame.consumeGas, GasMeter.consume, hrunning, hpoor]

/-- A creation whose code is not too large is deployed if it can pay for the code. -/
theorem deposit_leaves (hrunning : f.running = true) (hundecided : f.verdict = .undecided)
    (hcreation : f.creation = true) {maxCodeSize : Nat} (hsmall : ¬maxCodeSize < data.size)
    (hdata : data.size ≤ largestMemory) :
    ∃ g, Leaves (completeReturn maxCodeSize data) f g ∧
      Frame.Returns maxCodeSize f.gas.remaining data f g := by
  obtain ⟨cost, hcost⟩ := Gas.code_deposit_fits hdata
  have hprice : Gas.codeDepositByte * data.size = cost := (fit?_eq_some_iff.1 hcost).2
  have hstart : ∀ s, completeReturn maxCodeSize data ⟨f, s⟩ = (do
      Exec.consumeGas cost
      Exec.update (Frame.setOutput data)
      Exec.update Frame.stop : Exec Unit) ⟨f, s⟩ := by
    intro s
    have hframe : Exec.frame ⟨f, s⟩ = .ok f ⟨f, s⟩ := rfl
    have hchecked : (Action.ofChecked (Gas.codeDeposit? data.size) : Exec Nat) ⟨f, s⟩ =
        .ok cost ⟨f, s⟩ := by
      rw [hcost]
      rfl
    rw [completeReturn, Action.bind_ok hframe, if_pos hcreation, if_neg hsmall]
    exact Action.bind_ok hchecked
  by_cases hpoor : f.gas.remaining < cost
  · refine ⟨_, fun s => .inr ⟨.outOfGas, f, ?_, rfl⟩,
      .of_refused hrunning hcreation rfl (.inr (hprice ▸ hpoor))⟩
    rw [hstart, Action.bind_error (consume_gas_poor hrunning hpoor s)]
  · let paid : Frame := { f with gas := { f.gas with
      remaining := f.gas.remaining - cost, used := satAdd f.gas.used cost } }
    obtain ⟨hsite, hhalted, hsuccess, houtput, hgas, hexits⟩ :=
      Frame.stop_facts (f := paid.setOutput data) hundecided
    refine ⟨_, fun s => .inl ?_, hsite, hhalted, fun hkind _ => hexits hkind, ?_, ?_, ?_⟩
    · rw [hstart, Action.bind_ok (consume_gas_enough hrunning hpoor s)]
      rfl
    · simp [hcreation]
    · refine fun _ _ _ => ⟨hsuccess, houtput, ?_⟩
      rw [hgas]
      show f.gas.remaining - cost + _ = _
      omega
    · omega

/-- Ending with an output does not touch the workspace. -/
theorem complete_return_leaves (hrunning : f.running = true) (hundecided : f.verdict = .undecided)
    (maxCodeSize : Nat) (hdata : data.size ≤ largestMemory) :
    ∃ g, Leaves (completeReturn maxCodeSize data) f g ∧
      Frame.Returns maxCodeSize f.gas.remaining data f g := by
  have hframe : ∀ s, Exec.frame ⟨f, s⟩ = .ok f ⟨f, s⟩ := fun _ => rfl
  by_cases hcreation : f.creation = true
  · by_cases hlarge : maxCodeSize < data.size
    · refine ⟨_, fun s => .inr ⟨.codeSizeExceeded data.size maxCodeSize, f, ?_, rfl⟩,
        .of_refused hrunning hcreation rfl (.inl hlarge)⟩
      rw [completeReturn, Action.bind_ok (hframe s), if_pos hcreation, if_pos hlarge]
      rfl
    · exact deposit_leaves hrunning hundecided hcreation hlarge hdata
  · obtain ⟨hsite, hhalted, hsuccess, houtput, hgas, hexits⟩ :=
      Frame.stop_facts (f := f.setOutput data) hundecided
    refine ⟨_, fun s => .inl ?_, hsite, hhalted, fun hkind _ => hexits hkind, ?_, ?_, ?_⟩
    · rw [completeReturn, Action.bind_ok (hframe s), if_neg hcreation]
      rfl
    · exact fun _ => ⟨hsuccess, houtput, by rw [hgas]; rfl⟩
    · exact fun h => absurd h hcreation
    · exact fun h => absurd h hcreation

end Exec

/-- What a parent finds staged is what it has learned. -/
theorem Exec.take_learned (child parent : Frame) (s : Option Workspace) :
    Exec.onFrame (Action.ofTotal Frame.takeStaged) ⟨child.learn parent, s⟩ =
      .ok child.result ⟨{ child.learn parent with staged := .empty }, s⟩ := by
  obtain ⟨gas, logs, hlearn⟩ := child.learn_eq parent
  rw [hlearn]
  rfl

/-- Where the call around an internal call ends with it, its caller ends with its output. -/
theorem Exec.resume_exit (limits : Limits) {child : Frame} (parent : Frame)
    (hkind : child.call.kind = .internal) (hsuccess : child.isSuccess = true)
    (hexits : child.exitsCall = true) (s : Option Workspace) :
    Exec.resume limits child.finished ⟨child.learn parent, s⟩ =
      Exec.completeReturn limits.maxCodeSize child.output
        ⟨{ child.learn parent with staged := .empty }, s⟩ := by
  have hresult : child.result = .returned child.returnRegion child.output := if_pos hsuccess
  rw [Exec.resume, Action.bind_ok (Exec.take_learned child parent s), hresult]
  simp only [Frame.finished, hkind, hexits, if_true]

/-- The revert of an internal call goes on to its caller. -/
theorem Exec.resume_reverted (limits : Limits) {child : Frame} (parent : Frame)
    (hkind : child.call.kind = .internal) (hreverted : child.isSuccess = false)
    (s : Option Workspace) :
    Exec.resume limits child.finished ⟨child.learn parent, s⟩ =
      .error (.fault (.reverted (child.revertReason?.getD "")))
        ⟨{ child.learn parent with staged := .empty, output := child.output }, s⟩ := by
  have hresult : child.result = .reverted (child.revertReason?.getD "") child.output := by
    rw [Frame.result, hreverted]
    rfl
  rw [Exec.resume, Action.bind_ok (Exec.take_learned child parent s), hresult]
  simp only [Frame.finished, hkind]
  rfl

end CallTree
