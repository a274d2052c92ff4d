import CallTree.Proofs.Refinement
import CallTree.Proofs.RootRuns
import CallTree.Proofs.TopFrame

/-!
# Deployed code

Code that is deployed stays what it is. The place for a new contract is checked when the frame that
creates it is opened, and the code is put there when the transaction is committed, with any number of
frames finished in between. `Layer.Lawful` is what holds meanwhile: all code that is pending is meant
for accounts without committed code and is not too large, and so is the code of a frame that deploys
once it has succeeded (`Frame.Deploys`). `Context.execute_deploys` is what follows for a transaction.

Nothing is asked of the digest that the addresses of new contracts are taken from.
-/

namespace CallTree

open CallTree.Action (Triple)

/-! ## Outputs -/

/-- A frame has no output before it halts, and if it has succeeded and deploys its output then that
is not too large. -/
structure Frame.Deploys (max : Nat) (f : Frame) : Prop where
  running : f.running = true → f.output.size = 0
  success : f.creation = true → f.isSuccess = true → f.output.size ≤ max

namespace Frame.Deploys

variable {max : Nat} {f child parent : Frame}

theorem of_empty (h : f.output.size = 0) : f.Deploys max :=
  ⟨fun _ => h, fun _ _ => by omega⟩

/-- A frame that fails deploys nothing. -/
theorem fail (h : f.running = true) (cause : Fault) : (f.fail cause).Deploys max := by
  refine ⟨fun hrunning => ?_, fun _ hsuccess => ?_⟩
  · rw [running_fail] at hrunning
    cases hrunning
  · simp [Frame.fail, h, isSuccess] at hsuccess

/-- What a parent learns does not end it. -/
theorem learn (h : parent.Deploys max) : (child.learn parent).Deploys max := by
  have hcreation : (child.learn parent).creation = parent.creation :=
    congrArg Site.creation (site_learn child parent)
  refine ⟨fun hrunning => ?_, fun hdeploys hsuccess => ?_⟩
  · rw [running_learn] at hrunning
    rw [output_learn]
    exact h.running hrunning
  · rw [success_learn] at hsuccess
    rw [output_learn]
    exact h.success (hcreation ▸ hdeploys) hsuccess

end Frame.Deploys

namespace Exec

/-- An output that becomes code is not too large. -/
theorem complete_return_deploys (maxCodeSize : Nat) (data : Bytes) :
    Triple (fun _ => True) (Exec.completeReturn maxCodeSize data)
      (fun _ x => x.frame.Deploys maxCodeSize) Abort.Any := by
  have hend : ∀ _ : Unit, Triple (fun x => x.frame.creation = true → data.size ≤ maxCodeSize) (do
      Exec.update (Frame.setOutput data)
      Exec.update Frame.stop) (fun _ x => x.frame.Deploys maxCodeSize) Abort.Any := by
    intro _
    refine Triple.bind (R := fun _ x => x.frame.output = data ∧
      (x.frame.creation = true → data.size ≤ maxCodeSize)) (update_triple fun x hx => ⟨rfl, hx⟩)
      fun _ => update_triple ?_
    rintro ⟨f, s⟩ ⟨houtput, hsize⟩
    have hstop : f.stop.output = f.output ∧ f.stop.creation = f.creation ∧
        f.stop.running = false := by
      by_cases hkind : f.call.kind = .internal
      · simp [Frame.stop, Frame.markSuccess, Frame.halt, hkind]
      · simp [Frame.stop, Frame.markSuccess, Frame.halt, hkind]
    refine ⟨fun hrunning => ?_, fun hdeploys _ => ?_⟩
    · cases hstop.2.2.symm.trans hrunning
    · show f.stop.output.size ≤ maxCodeSize
      rw [hstop.1, show f.output = data from houtput]
      exact hsize (hstop.2.1 ▸ hdeploys)
  refine frame_triple.bind fun f => .ite (fun _ => ?_) fun hplain => ?_
  · refine .guard (fun _ _ _ => trivial) fun hsize => ?_
    have hsmall : data.size ≤ maxCodeSize := Nat.le_of_not_lt hsize
    have hany : ∀ {β : Type} {P : Activation → Prop} (act : Exec β),
        Triple P act (fun _ x => x.frame.creation = true → data.size ≤ maxCodeSize) Abort.Any :=
      fun act => .of_results (fun _ _ _ _ _ _ => hsmall) fun _ _ _ _ _ => trivial
    exact (hany _).bind fun deposit => (hany _).bind hend
  · refine (hend ()).pre ?_
    rintro x ⟨_, rfl⟩ hdeploys
    exact absurd hdeploys hplain

end Exec

/-- A completed instruction of a running frame. -/
theorem Instruction.fetch_deploys {env : Surroundings} {a b : Activation} {request : Request}
    (h : fetchAndDispatch env a = .ok request b) (hempty : a.frame.output.size = 0) :
    b.frame.Deploys env.limits.maxCodeSize := by
  by_cases hparts : Part.output ∈ a.frame.currentOp.touches
  · cases hop : a.frame.currentOp with
    | ret =>
        obtain ⟨_, pc, immediate, f, _, hbody⟩ :=
          fetch_local h (by simp [hop]) (by rw [hop]; rfl)
        rw [hop] at hbody
        obtain ⟨data, a₁, _, hreturn⟩ := Action.bind_eq_ok hbody
        exact (Exec.complete_return_deploys _ data).ok trivial hreturn
    | revert =>
        obtain ⟨_, pc, immediate, f, _, hbody⟩ :=
          fetch_local h (by simp [hop]) (by rw [hop]; rfl)
        rw [hop] at hbody
        obtain ⟨data, a₁, _, hrevert⟩ := Action.bind_eq_ok hbody
        cases hrevert
        refine ⟨fun hrunning => ?_, fun _ hsuccess => ?_⟩
        · cases hrunning
        · -- A revert outweighs whatever verdict there was.
          cases hverdict : a₁.frame.verdict <;>
            simp [Frame.isSuccess, Frame.setReverted, Frame.setOutput, Frame.halt, Verdict.revert,
              hverdict] at hsuccess
    | _ => simp [hop, Opcode.touches, Part.common] at hparts
  · refine .of_empty ?_
    rw [(Action.after_ok h ▸ fetch_within env a : Touches _ a b).output_eq hparts]
    exact hempty

/-- A result that a running frame has taken up. -/
theorem Exec.resume_deploys {limits : Limits} {result : FinishedCall} {a b : Activation}
    (h : Exec.resume limits result a = .ok () b) (hempty : a.frame.output.size = 0) :
    b.frame.Deploys limits.maxCodeSize := by
  let Empty (x : Activation) : Prop := x.frame.output.size = 0
  have hkeeps : ∀ {β : Type} {parts : List Part} {act : Exec β}, Within parts act →
      Part.output ∉ parts → Triple Empty act (fun _ => Empty) Abort.Any := by
    intro β parts act hwithin hparts
    refine (hwithin.triple fun part hpart x y htouch hx => ?_).refused fun _ _ _ => trivial
    have htouches : Touches parts x y := .single ⟨part, hpart, htouch⟩
    show y.frame.output.size = 0
    rw [htouches.output_eq hparts]
    exact hx
  have hend : ∀ word, Triple Empty (Exec.push word)
      (fun _ x => x.frame.Deploys limits.maxCodeSize) Abort.Any := fun word =>
    (hkeeps (Within.push (by decide) word : Within [.stack] _) (by decide)).post fun _ _ hx =>
      .of_empty hx
  have hlast : ∀ data, Triple Empty (Exec.update (Frame.setLastReturn data)) (fun _ => Empty)
      Abort.Any := fun data =>
    hkeeps (Within.set_last_return (by decide) data : Within [.lastReturn] _) (by decide)
  have hcopy : ∀ region data, Triple Empty (copyOutput region data) (fun _ => Empty) Abort.Any :=
    fun region data =>
      hkeeps (Within.copy_output (by decide) region data : Within [.memory] _) (by decide)
  refine Triple.ok (P := Empty) (Q := fun _ x => x.frame.Deploys limits.maxCodeSize)
    (E := Abort.Any) (Triple.bind (R := fun _ => Empty) (fun x hx => hx) fun staged => ?_) hempty h
  split
  · exact .refuse fun _ _ => trivial
  · exact Triple.bind (R := fun _ _ => True) (update_triple fun _ _ => trivial) fun _ =>
      .refuse fun _ _ => trivial
  · exact .ite (fun _ => (complete_return_deploys _ _).pre fun _ _ => trivial) fun _ =>
      .pure fun _ hx => .of_empty hx
  · exact hend _
  · exact (hlast _).bind fun _ => hend _
  · exact (hcopy _ _).bind fun _ => (hlast _).bind fun _ => hend _
  · exact (hcopy _ _).bind fun _ => (hlast _).bind fun _ => hend _

/-! ## Moves -/

section

variable {limits : Limits} {env : Surroundings} {a : Activation}

/-- What an instruction leaves of a running frame. -/
theorem Instructed.deploys {top : List Frame} (h : Instructed env a top)
    (hrunning : a.frame.running = true) (hempty : a.frame.output.size = 0) :
    ∀ f ∈ top, f.Deploys env.limits.maxCodeSize := by
  cases h with
  | refused hact =>
      exact List.forall_mem_singleton.2 (.fail (Instruction.fetch_refused_running hact hrunning) _)
  | proceeds hact => exact List.forall_mem_singleton.2 (Instruction.fetch_deploys hact hempty)
  | stays hact hrequest hpays =>
      have hsame := (Frame.stays_of_request hact hrequest).trans hpays.stays
      exact List.forall_mem_singleton.2 (.of_empty (hsame.output ▸ hempty))
  | declined hact hrequest hpays =>
      have hsame := (Frame.stays_of_request hact hrequest).trans hpays.stays
      exact List.forall_mem_singleton.2 (.fail (hsame.running.trans hrunning) _)
  | opens hact hopens =>
      have hopened := Frame.opens_of_request hact hopens
      exact List.forall_mem_cons.2 ⟨.of_empty hopened.output,
        List.forall_mem_singleton.2 (.of_empty (hopened.stays.output ▸ hempty))⟩

/-- What taking up a result leaves of a running frame. -/
theorem Resumed.deploys {result : FinishedCall} {f : Frame} (h : Resumed limits result a f)
    (hrunning : a.frame.running = true) (hempty : a.frame.output.size = 0) :
    f.Deploys limits.maxCodeSize := by
  cases h with
  | refused hact => exact .fail ((Exec.resume_runs limits result).error hrunning hact) _
  | proceeds hact => exact Exec.resume_deploys hact hempty

/-- Every move keeps outputs in their bounds, if a result is taken up by a running frame. -/
theorem Move.deploys {s t : RunState} (h : Move limits s t)
    (hresuming : s.finished.isSome = true → s.context.isRunning = true)
    (hall : ∀ f ∈ s.context.frames.toList, f.Deploys limits.maxCodeSize) :
    ∀ f ∈ t.context.frames.toList, f.Deploys limits.maxCodeSize := by
  cases h with
  | @instruction c c' hrunning hstep =>
      obtain ⟨f, below, hframes, hf⟩ := Context.top_of_running hrunning
      obtain ⟨hfirst, hbelow⟩ := List.forall_mem_cons.1 (hframes ▸ hall)
      obtain ⟨top, htop, hframes'⟩ := Context.step_or_fail_instructed hframes hstep
      rw [hframes']
      exact List.forall_mem_append.2 ⟨htop.deploys hf (hfirst.running hf), hbelow⟩
  | @finish c c' result hhalted hfinish =>
      obtain ⟨child, parent, below, hframes, _, hframes', _⟩ := Context.finish_child_frames hfinish
      rw [hframes']
      obtain ⟨_, hrest⟩ := List.forall_mem_cons.1 (hframes ▸ hall)
      obtain ⟨hparent, hbelow⟩ := List.forall_mem_cons.1 hrest
      exact List.forall_mem_cons.2 ⟨hparent.learn, hbelow⟩
  | @resume c c' result hresume =>
      have hrunning : c.isRunning = true := hresuming rfl
      obtain ⟨f, below, hframes, hf⟩ := Context.top_of_running hrunning
      obtain ⟨hfirst, hbelow⟩ := List.forall_mem_cons.1 (hframes ▸ hall)
      obtain ⟨f', hresumed, hframes'⟩ := Context.resume_or_fail_resumed hframes hresume
      rw [hframes']
      exact List.forall_mem_cons.2 ⟨hresumed.deploys hf (hfirst.running hf), hbelow⟩

end

/-! ## Layers -/

/-- All code that is pending in a layer, and what its frame may deploy, is meant for accounts without
committed code; pending code is not too large. -/
structure Layer.Lawful (world : World) (max : Nat) (l : Layer) : Prop where
  target : l.frame.creation = true → world.hasCode l.contract = false
  codes : ∀ a code, l.contents.accounts.code[a]? = some code →
    world.hasCode a = false ∧ code.size ≤ max

namespace Layer.Lawful

variable {world world' : World} {max : Nat} {l l' : Layer} {layers : List Layer}

/-- Only the committed codes matter. -/
theorem congr (hcode : world'.code = world.code) (h : l.Lawful world max) :
    l.Lawful world' max := by
  have hsame : world'.hasCode = world.hasCode := by
    funext a
    simp only [World.hasCode, World.code?, hcode]
  exact ⟨hsame ▸ h.target, hsame ▸ h.codes⟩

/-- A layer whose frame goes on, with the same code pending. -/
theorem same (h : l.Lawful world max) (hsite : l'.frame.site = l.frame.site)
    (haccounts : l'.contents.accounts.code = l.contents.accounts.code) : l'.Lawful world max := by
  have hcreation : l'.frame.creation = l.frame.creation := congrArg Site.creation hsite
  have hcontract : l'.contract = l.contract := congrArg (CallData.contract ∘ Site.call) hsite
  refine ⟨fun hdeploys => ?_, ?_⟩
  · rw [hcontract]
    exact h.target (hcreation ▸ hdeploys)
  · rw [haccounts]
    exact h.codes

/-- Where no code is seen, none is committed: what is pending does not hide committed code. -/
theorem not_has_code (h : ∀ l ∈ layers, l.Lawful world max) {a : Address}
    (hempty : ((codeSeen world layers a).getD ByteArray.empty).size = 0) :
    world.hasCode a = false := by
  unfold codeSeen at hempty
  cases hfound : (rooms layers).findSome? (Layer.codeAt? a) with
  | some code =>
      obtain ⟨l, hl, hcode⟩ := List.exists_of_findSome?_eq_some hfound
      exact ((h l (mem_of_mem_rooms l hl)).codes a code hcode).1
  | none =>
      rw [hfound] at hempty
      unfold World.hasCode
      cases hcode : world.code? a with
      | none => rfl
      | some code => simpa [hcode] using hempty

/-- The code that is pending in a parent once its child has succeeded. -/
theorem handed {child parent : Layer} {x : Contents} (h : child.Lawful world max)
    (hparent : parent.Lawful world max) (hsuccess : child.frame.isSuccess = true)
    (hhanded : Handed child parent x) (hdeploys : child.frame.Deploys max) (a : Address)
    (code : Bytes) (hcode : x.accounts.code[a]? = some code) :
    world.hasCode a = false ∧ code.size ≤ max := by
  by_cases hkind : child.frame.call.kind = .internal
  · rw [hhanded.internal hsuccess hkind] at hcode
    exact h.codes a code hcode
  · -- What is taken over is the code of the child, what it has left pending, or what was there.
    rw [(hhanded.own hsuccess hkind).code a] at hcode
    split at hcode
    · rename_i hdeployed
      obtain ⟨hcreation, rfl⟩ := hdeployed
      cases hcode
      exact ⟨h.target hcreation, hdeploys.success hcreation hsuccess⟩
    · cases hpending : child.contents.accounts.code[a]? with
      | some found =>
          rw [hpending] at hcode
          cases hcode
          exact h.codes a code hpending
      | none =>
          rw [hpending] at hcode
          exact hparent.codes a code hcode

end Layer.Lawful

/-- Every change of the layers is lawful, if what a frame deploys is not too large. -/
theorem Change.lawful {world : World} {max : Nat} {event : Event} {l l' : Layer}
    {below below' : List Layer} {pool : Pool Workspace} {saved : List Contents}
    (h : Change world event (l :: below) (l' :: below')) (hchain : Chain pool l' below' saved)
    (hlawful : ∀ m ∈ l :: below, m.Lawful world max) (hdeploys : l.frame.Deploys max) :
    ∀ m ∈ l' :: below', m.Lawful world max := by
  obtain ⟨hl, hbelow⟩ := List.forall_mem_cons.1 hlawful
  cases h with
  | quiet hsame | load key hsame =>
      exact List.forall_mem_cons.2 ⟨hl.same hsame.site (by rw [hsame.accounts]), hbelow⟩
  | store key value hsite haccounts hslots =>
      exact List.forall_mem_cons.2 ⟨hl.same hsite (by rw [haccounts]), hbelow⟩
  | @enterInternal _ parent _ _ hcalls hkind hcontents =>
      have hparent : parent.Lawful world max := hl.same hcalls.site (by rw [hcalls.contents])
      -- Only a frame with a workspace of its own can deploy.
      have hplain : l'.frame.creation = false := by
        cases hchain with
        | internal _ _ _ _ _ hplain => exact hplain
        | own _ _ _ _ hother => exact absurd hkind hother
      have hchild : l'.Lawful world max := by
        refine ⟨fun hcreation => ?_, hcontents ▸ hparent.codes⟩
        cases hplain.symm.trans hcreation
      exact List.forall_mem_cons.2 ⟨hchild, List.forall_mem_cons.2 ⟨hparent, hbelow⟩⟩
  | @enterOwn _ parent _ _ hsame hkind hcontents hempty =>
      have hparent : parent.Lawful world max := hl.same hsame.site (by rw [hsame.accounts])
      have hrest := List.forall_mem_cons.2 ⟨hparent, hbelow⟩
      have hchild : l'.Lawful world max := by
        refine ⟨fun hcreation => Layer.Lawful.not_has_code hrest (hempty hcreation), ?_⟩
        intro a code hcode
        simp [hcontents, Contents.fresh] at hcode
      exact List.forall_mem_cons.2 ⟨hchild, hrest⟩
  | @leave _ parent _ x hsuccess hhanded =>
      obtain ⟨hparent, hbelow⟩ := List.forall_mem_cons.1 hbelow
      have hback : Layer.Lawful world max ⟨l.frame.learn parent.frame, parent.contents⟩ :=
        hparent.same (Frame.site_learn _ _) rfl
      have hcodes := hl.handed hparent hsuccess hhanded hdeploys
      exact List.forall_mem_cons.2 ⟨⟨hback.target, hcodes⟩, hbelow⟩
  | rollback hreverted =>
      obtain ⟨hparent, hbelow⟩ := List.forall_mem_cons.1 hbelow
      exact List.forall_mem_cons.2 ⟨hparent.same (Frame.site_learn _ _) rfl, hbelow⟩

/-! ## Runs -/

/-- The call stack stands in lawful layers, and no code was committed since the world was `world`. -/
structure Deploying (limits : Limits) (world : World) (s : RunState) (l : Layer)
    (below : List Layer) : Prop where
  stands : ∃ saved, Stands s.context l below saved
  code : s.context.world.code = world.code
  lawful : ∀ m ∈ l :: below, m.Lawful world limits.maxCodeSize
  deploys : ∀ f ∈ s.context.frames.toList, f.Deploys limits.maxCodeSize
  resuming : s.finished.isSome = true → s.context.isRunning = true

namespace Deploying

variable {limits : Limits} {world : World} {s t : RunState} {l : Layer} {below : List Layer}

/-- Every move is lawful. -/
theorem move (h : Deploying limits world s l below) (hmove : Move limits s t) :
    ∃ l' below', Deploying limits world t l' below' := by
  obtain ⟨saved, hstands⟩ := h.stands
  obtain ⟨l', below', saved', hstands', hchange, hconfined⟩ := hstands.move hmove
  have hfirst : l.frame.Deploys limits.maxCodeSize := h.deploys l.frame (by simp [hstands.frames])
  have hlawful : ∀ m ∈ l :: below, m.Lawful s.context.world limits.maxCodeSize := fun m hm =>
    (h.lawful m hm).congr h.code
  have hcode : t.context.world.code = world.code := hconfined.code.trans h.code
  refine ⟨l', below', ⟨saved', hstands'⟩, hcode, fun m hm => ?_, hmove.deploys h.resuming h.deploys,
    hstands.running_of_finished hmove⟩
  exact (hchange.lawful hstands'.chain hlawful hfirst m hm).congr h.code.symm

/-- So is every run. -/
theorem run (h : Deploying limits world s l below) (hreach : Reaches limits s t) :
    ∃ l' below', Deploying limits world t l' below' := by
  induction hreach with
  | refl => exact ⟨l, below, h⟩
  | tail _ hmove ih =>
      obtain ⟨l₁, below₁, h₁⟩ := ih
      exact h₁.move hmove

/-- A root frame that ends its run has halted, and nothing was committed meanwhile. -/
theorem root_end {c₀ : Context} {states : List RunState} {f : Frame} {world' : World}
    (h : Deploying limits world ⟨c₀, none⟩ l below) (hend : RootEnd limits c₀ states f world') :
    world'.code = world.code ∧ f.running = false := by
  cases hend with
  | halted _ htrail _ hhalted =>
      obtain ⟨_, _, h'⟩ := h.run htrail.reaches
      exact ⟨h'.code, hhalted⟩
  | exhausted _ htrail _ _ =>
      obtain ⟨_, _, h'⟩ := h.run htrail.reaches
      exact ⟨h'.code, Frame.running_fail _ _⟩

end Deploying

namespace Context

variable {root : Frame} {base c c' c₀ : Context} {outcome : Outcome} {frameLimits : Limits}
  {code : Bytes} {gas : Nat} {call : CallData}

/-- A transaction starts lawfully: its root frame deploys only where there is no code. -/
theorem starts_deploying (limits : Limits)
    (hroot : base.newFrame frameLimits {} code gas call = (root, c))
    (hnew : ∀ f ∈ base.frames.toList, f.home ≠ root.home) (hstarts : Starts root c c₀) :
    ∃ l, Deploying limits base.world ⟨c₀, none⟩ l [] := by
  have hlaunch := push_seeded hroot hnew hstarts.2
  have hstands := launch_stands frameLimits (base.world.storageOf call.contract) code gas call
    base.clear
  have hworld : c₀.world = base.world := by
    rw [hlaunch]
    exact (clear_eq base).2.1
  have hframes : c₀.frames.toList = [root] := (push_seeded_frames hstarts.2).1
  have hplace := hstarts.1
  rw [← hlaunch] at hstands
  cases hroot
  rw [(clear_eq _).2.1] at hplace
  refine ⟨_, ⟨_, hstands⟩, by rw [hworld], List.forall_mem_singleton.2 ⟨fun hcreation => ?_, ?_⟩, ?_,
    fun hfinished => by cases hfinished⟩
  · have hcreation : (call.kind == CallKind.create) = true := hcreation
    have hfree : base.world.hasCode call.contract = false := by
      simpa [Frame.new, hcreation] using hplace
    exact hfree
  · intro a code hcode
    simp [Contents.fresh] at hcode
  · rw [hframes]
    exact List.forall_mem_singleton.2 (.of_empty rfl)

/-- A transaction that succeeds commits its root frame, which is alone on the call stack then. -/
theorem execute_commits (hroot : base.newFrame frameLimits {} code gas call = (root, c))
    (hnew : ∀ f ∈ base.frames.toList, f.home ≠ root.home)
    (h : c.execute root = some (outcome, c')) (hsuccess : outcome.success = true) :
    ∃ c₀ c₁ root' w, Starts root c c₀ ∧ Reaches c.limits ⟨c₀, none⟩ ⟨c₁, none⟩ ∧
      c₁.frames.toList = [root'] ∧ root'.isSuccess = true ∧
      c₁.pool.get? root'.home.cell = some w ∧
      c'.world = c₁.world.commit root' w.storage.slots w.pending.accounts.storage.toList
        w.pending.accounts.code.toList := by
  obtain ⟨c₀, root', c₂, c₃, hpush, hrun, hconclude, rfl⟩ := execute_success h hsuccess
  obtain ⟨hsucceeded, _, hcommit⟩ := conclude_success hconclude hsuccess
  have hstarts : Starts root c c₀ := by
    rcases execute_ends h with ⟨_, _, e, rfl⟩ | ⟨c₀', _, _, _, _, hstarts, _⟩
    · cases hsuccess
    · cases hpush.symm.trans hstarts.2
      exact hstarts
  have hlimits : c₀.limits = c.limits := (push_seeded_frames hpush).2.2
  have hstands := launch_stands frameLimits (base.world.storageOf call.contract) code gas call
    base.clear
  rw [← push_seeded hroot hnew hpush] at hstands
  obtain ⟨c₁, hreach, hframes, _, rfl⟩ := run_root_success hstands hrun hsucceeded
  obtain ⟨l, below, saved, hstands₁⟩ := hreach.stands hstands
  have halone : l.frame = root' ∧ below = [] := by
    simpa using hstands₁.frames.symm.trans hframes
  obtain ⟨rfl, rfl⟩ := halone
  obtain ⟨w, hget, _, _⟩ := hstands₁.backed
  have hcleared : c₁.popFrame.2.clear.pool = c₁.pool ∧ c₁.popFrame.2.clear.world = c₁.world := by
    rw [clear, foldl_release]
    simp [popFrame, hframes]
  have hget' : c₁.popFrame.2.clear.pool.get? l.frame.home.cell = some w := by
    rw [hcleared.1]
    exact hget
  obtain ⟨c₄, hcommit', hworld⟩ := commit_root_ok hget'
  cases hcommit.symm.trans hcommit'
  rw [hcleared.2] at hworld
  exact ⟨c₀, c₁, l.frame, w, hstarts, hlimits ▸ hreach, hframes, hsucceeded, hget, hworld⟩

/-- A transaction that fails commits no code. -/
theorem execute_failed_code (hroot : base.newFrame frameLimits {} code gas call = (root, c))
    (hnew : ∀ f ∈ base.frames.toList, f.home ≠ root.home)
    (h : c.execute root = some (outcome, c')) (hfailed : outcome.success = false) :
    c'.world.code = base.world.code := by
  rcases execute_ends h with
    ⟨_, hsame, _⟩ | ⟨c₀, states, f, c₁, c₂, hstarts, hend, _, hconclude, rfl⟩
  · rw [hsame]
    cases hroot
    rfl
  · obtain ⟨l, hdeploying⟩ := starts_deploying c.limits hroot hnew hstarts
    obtain ⟨hcode, hhalted⟩ := hdeploying.root_end hend
    obtain ⟨⟨_, hsame⟩, _⟩ := conclude_failed hconclude hhalted hfailed
    show c₂.world.code = base.world.code
    exact hsame.trans hcode

/-- Deployed code is immutable and bounded. Whatever a transaction does, and wherever its creations
are directed, each account has the code afterwards that it had before, or it had none and has code of
a bounded size now. -/
theorem execute_deploys (base : Context)
    (hroot : base.newFrame frameLimits {} code gas call = (root, c))
    (hnew : ∀ f ∈ base.frames.toList, f.home ≠ root.home)
    (h : c.execute root = some (outcome, c')) (a : Address) :
    c'.world.code? a = base.world.code? a ∨
      base.world.hasCode a = false ∧
        ∃ deployed, c'.world.code? a = some deployed ∧ deployed.size ≤ base.limits.maxCodeSize := by
  by_cases hsuccess : outcome.success = true
  · obtain ⟨c₀, c₁, root', w, hstarts, hreach, hframes, hsucceeded, hget, hworld⟩ :=
      execute_commits hroot hnew h hsuccess
    obtain ⟨l₀, hstart⟩ := starts_deploying c.limits hroot hnew hstarts
    obtain ⟨l, below, hend⟩ := hstart.run hreach
    have hlimits : c.limits = base.limits := by
      cases hroot
      rfl
    obtain ⟨saved, hstands⟩ := hend.stands
    obtain ⟨rfl, rfl⟩ : l.frame = root' ∧ below = [] := by
      simpa using hstands.frames.symm.trans hframes
    obtain ⟨w', hget', hcontents, _⟩ := hstands.backed
    cases hget.symm.trans hget'
    have hlawful := hend.lawful l (by simp)
    have hdeploys := hend.deploys l.frame (by simp [hframes])
    rw [hlimits] at hlawful hdeploys
    rw [hworld, World.code_commit]
    -- The code of the root, code that was pending when it was committed, or the code from before.
    split
    · rename_i hdeployed
      obtain ⟨hcreation, rfl⟩ := hdeployed
      exact .inr ⟨hlawful.target hcreation, _, rfl, hdeploys.success hcreation hsucceeded⟩
    · cases hpending : w.pending.accounts.code[a]? with
      | some pending =>
          obtain ⟨hfree, hsize⟩ := hlawful.codes a pending (by rw [← hcontents]; exact hpending)
          exact .inr ⟨hfree, pending, rfl, hsize⟩
      | none =>
          left
          show c₁.world.code? a = base.world.code? a
          unfold World.code?
          rw [hend.code]
  · have hcode := execute_failed_code hroot hnew h (by simpa using hsuccess)
    left
    unfold World.code?
    rw [hcode]

/-- A world with code at address 3, which is also where every new contract is directed. -/
def collidingBase : Context :=
  { txn := ⟨1, 0⟩, world := World.setCode 3 ⟨#[0xFE]⟩ { digest := fun _ => ⟨#[3]⟩ } }

/-- A transaction that deploys a contract at address 7. It tries to create another one, which is
declined, and returns a single byte as its own code. -/
def collidingRoot : Frame × Context :=
  collidingBase.newFrame {} {} ⟨#[0x60, 0, 0x60, 0, 0x60, 0, 0xF0, 0x60, 1, 0x60, 0, 0xF3]⟩ 100000
    (.create 1 2 7 0)

/-- The code at address 3 stays, and there is new code at address 7. -/
theorem colliding_root_deploys : ∃ outcome c',
    collidingRoot.2.execute collidingRoot.1 = some (outcome, c') ∧ outcome.success = true ∧
      c'.world.code? 3 = some ⟨#[0xFE]⟩ ∧ c'.world.code? 7 = some ⟨#[0]⟩ ∧
      ∀ a, c'.world.code? a = collidingBase.world.code? a ∨
        collidingBase.world.hasCode a = false ∧ ∃ deployed, c'.world.code? a = some deployed ∧
          deployed.size ≤ collidingBase.limits.maxCodeSize := by
  have hrun : (collidingRoot.2.execute collidingRoot.1).map (fun ended =>
      (ended.1.success, ended.2.world.code? 3, ended.2.world.code? 7)) =
        some (true, some ⟨#[0xFE]⟩, some ⟨#[0]⟩) := by
    decide +kernel
  obtain ⟨⟨outcome, c'⟩, h, hend⟩ := Option.map_eq_some_iff.1 hrun
  simp only [Prod.mk.injEq] at hend
  obtain ⟨hsuccess, hkept, hdeployed⟩ := hend
  refine ⟨outcome, c', h, hsuccess, hkept, hdeployed, ?_⟩
  exact execute_deploys collidingBase (rfl : collidingBase.newFrame {} {} _ _ _ = collidingRoot)
    (by simp [collidingBase, Pile.empty]) h

end Context
end CallTree
