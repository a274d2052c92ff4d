import CallTree.Proofs.Affording
import CallTree.Proofs.Ordered

/-!
# Call stacks within their means

`Ordered` is about runs in which all limits are the same. Here the limits of a run may be any, and so
may those of the root frame and of the call stack. What remains is `Solvent`: the operands of every
layer are within the limit of its own workspace, no memory and no output is larger than what can be
paid for, and every frame that waits for a message or a creation has room for its result.

`RunState.Solvent.move` is what one move preserves and `RunState.Solvent.run` what a whole run does.
With it every run keeps its outputs small (`Reaches.output_le`).
-/

namespace CallTree

open CallTree.Action (Triple)

namespace Layer

/-- The operands of the layer are within the limit of its workspace, and its memory and its outputs
are no larger than what can be paid for. -/
structure Solvent (c : Context) (m : Layer) : Prop where
  operands : ∀ max, c.operandLimit? m.cell = some max → m.contents.operands.size ≤ max
  bytes : m.contents.bytes.size ≤ largestMemory
  output : m.frame.output.size ≤ largestMemory
  staged : m.frame.staged.data.size ≤ largestMemory

/-- Whether the frame `parent` can go on, within the limit of its workspace, once the frame `child`
above it is finished. -/
def Awaited (c : Context) (child parent : Layer) : Prop :=
  ∀ max, c.operandLimit? parent.cell = some max → Await max child parent

section

variable {c c' : Context} {l l' : Layer} {layers : List Layer}

/-- Only the limit of the workspace is read from the context. -/
theorem Solvent.congr (h : l.Solvent c) (hlimit : c'.operandLimit? l.cell = c.operandLimit? l.cell) :
    l.Solvent c' :=
  ⟨fun max hmax => h.operands max (hlimit ▸ hmax), h.bytes, h.output, h.staged⟩

/-- Payments and operands for which there is room do no harm. -/
theorem Solvent.keeps (h : l.Solvent c) (hkeeps : l.Keeps c c' l') : l'.Solvent c' := by
  obtain ⟨hlimit, hoperands, hbytes, gas, hframe⟩ := hkeeps
  have hcell : l'.cell = l.cell := by
    rw [cell, hframe]
    rfl
  refine ⟨fun max hmax => ?_, ?_, ?_, ?_⟩
  · rw [hcell, hlimit] at hmax
    exact hoperands max hmax (h.operands max hmax)
  · rw [hbytes]
    exact h.bytes
  · rw [hframe]
    exact h.output
  · rw [hframe]
    exact h.staged

theorem awaited_congr (h : List.IsChain (Awaited c) layers)
    (hlimits : ∀ m ∈ layers, c'.operandLimit? m.cell = c.operandLimit? m.cell) :
    List.IsChain (Awaited c') layers := by
  refine h.imp_of_mem_imp fun child parent _ hparent hawaited max hmax => hawaited max ?_
  rw [← hlimits parent hparent]
  exact hmax

/-- What waits below does not depend on how far the topmost layer has come. -/
theorem awaited_goes_on {below : List Layer} (h : List.IsChain (Awaited c) (l :: below))
    (hcall : l'.frame.call = l.frame.call)
    (hregion : l'.frame.returnRegion = l.frame.returnRegion) :
    List.IsChain (Awaited c) (l' :: below) :=
  h.imp_head fun hawaited max hmax => (hawaited max hmax).goes_on hcall hregion

end
end Layer

/-- The layers of a call stack are within their means. -/
structure Solvent (c : Context) (l : Layer) (below : List Layer) (saved : List Contents) :
    Prop where
  stands : Stands c l below saved
  layers : ∀ m ∈ l :: below, m.Solvent c
  awaited : List.IsChain (Layer.Awaited c) (l :: below)

namespace Solvent

variable {c c' : Context} {l l' child parent : Layer} {below : List Layer} {saved : List Contents}
  {α : Type} {v : Workspace}

/-- The topmost layer goes on. -/
theorem goes_on (h : Solvent c l below saved) (hstands : Stands c' l' below saved)
    (hconfined : Confined [l.cell] c c')
    (hlimit : c'.operandLimit? l.cell = c.operandLimit? l.cell)
    (hsite : l'.frame.site = l.frame.site)
    (hregion : l'.frame.returnRegion = l.frame.returnRegion) (hsolvent : l'.Solvent c') :
    Solvent c' l' below saved := by
  have hlimits := h.stands.limit_kept hconfined hlimit
  refine ⟨hstands, List.forall_mem_cons.2 ⟨hsolvent, fun m hm => ?_⟩, ?_⟩
  · exact (h.layers m (List.mem_cons_of_mem _ hm)).congr (hlimits m (List.mem_cons_of_mem _ hm))
  · exact Layer.awaited_goes_on (Layer.awaited_congr h.awaited hlimits)
      (congrArg Site.call hsite) hregion

/-- The topmost layer pays for something: what was known of the layers is known of them still. -/
theorem kept (h : Solvent c l below saved) (hconfined : Confined [l.cell] c c')
    (hkeeps : l.Keeps c c' l') :
    (∀ m ∈ l' :: below, m.Solvent c') ∧ List.IsChain (Layer.Awaited c') (l' :: below) := by
  have hsolvent := (h.layers l List.mem_cons_self).keeps hkeeps
  obtain ⟨hlimit, _, _, gas, hframe⟩ := hkeeps
  have hlimits := h.stands.limit_kept hconfined hlimit
  refine ⟨List.forall_mem_cons.2 ⟨hsolvent, fun m hm => ?_⟩, ?_⟩
  · exact (h.layers m (List.mem_cons_of_mem _ hm)).congr (hlimits m (List.mem_cons_of_mem _ hm))
  · exact Layer.awaited_goes_on (Layer.awaited_congr h.awaited hlimits) (by rw [hframe])
      (by rw [hframe])

/-- The topmost frame fails. -/
theorem fail (h : Solvent c l below saved) (cause : Fault) :
    Solvent (c.updateTop (Frame.fail cause)) ⟨l.frame.fail cause, l.contents⟩ below saved := by
  obtain ⟨hstands, hconfined⟩ := h.stands.update_top (Frame.site_fail cause l.frame)
  have hsolvent := h.layers l List.mem_cons_self
  have hkept : (l.frame.fail cause).returnRegion = l.frame.returnRegion ∧
      (l.frame.fail cause).output = l.frame.output ∧
      (l.frame.fail cause).staged = l.frame.staged := by
    unfold Frame.fail
    split
    · exact ⟨rfl, rfl, rfl⟩
    · exact ⟨rfl, rfl, rfl⟩
  obtain ⟨⟨frames, size, hsize⟩, pool, txn, world, own⟩ := c
  cases h.stands.frames
  refine h.goes_on hstands hconfined rfl (Frame.site_fail cause l.frame) hkept.1 ⟨?_, ?_, ?_, ?_⟩
  · have hcell : (Layer.mk (l.frame.fail cause) l.contents).cell = l.cell :=
      Frame.cell_of_site (Frame.site_fail cause l.frame)
    rw [hcell]
    exact hsolvent.operands
  · exact hsolvent.bytes
  · rw [hkept.2.1]
    exact hsolvent.output
  · rw [hkept.2.2]
    exact hsolvent.staged

/-! ## The topmost frame -/

/-- The topmost frame and its workspace are within their means. -/
theorem afforded (h : Solvent c l below saved) (hcontents : v.contents = l.contents) :
    Activation.Afforded ⟨l.frame, some v⟩ := by
  have hsolvent := h.layers l List.mem_cons_self
  refine ⟨?_, hsolvent.output, hsolvent.staged⟩
  rintro _ ⟨⟩
  have hbytes := hsolvent.bytes
  rw [← hcontents] at hbytes
  exact hbytes

theorem room (h : Solvent c l below saved) (hget : c.pool.get? l.cell = some v)
    (hcontents : v.contents = l.contents) : v.Room v.stack.limit 0 := by
  have hoperands := (h.layers l List.mem_cons_self).operands _ (Context.operand_limit_eq hget)
  rw [← hcontents] at hoperands
  exact ⟨rfl, hoperands⟩

/-- An action in the topmost frame, from what is known of the frame and its workspace before it to
what has to be known after it. -/
theorem on_top (h : Solvent c l below saved) (act : Exec α) (parts : List Part)
    (hwithin : ∀ v, Touches parts ⟨l.frame, some v⟩ (Action.after act ⟨l.frame, some v⟩)) :
    ∃ v w f, Activation.Afforded ⟨l.frame, some v⟩ ∧ v.Room v.stack.limit 0 ∧
      v.contents = l.contents ∧ c.operandLimit? l.cell = some v.stack.limit ∧
      Touches parts ⟨l.frame, some v⟩ ⟨f, some w⟩ ∧
      (c.putTop f w).operandLimit? f.home.cell = some v.stack.limit ∧
      (Activation.Afforded ⟨f, some w⟩ → Activation.Roomy v.stack.limit ⟨f, some w⟩ →
        Solvent (c.putTop f w) ⟨f, w.contents⟩ below saved) ∧
      ((∃ r, act ⟨l.frame, some v⟩ = .ok r ⟨f, some w⟩ ∧
          Context.onTop act c = .ok r (c.putTop f w)) ∨
        ∃ e, act ⟨l.frame, some v⟩ = .error e ⟨f, some w⟩ ∧
          Context.onTop act c = .error e (c.putTop f w)) := by
  obtain ⟨v, w, f, hget, hcontents, htouches, hstands, hconfined, hresult⟩ :=
    h.stands.on_top act parts hwithin
  have hcell : f.home.cell = l.cell := Frame.cell_of_site htouches.site_eq
  have hget' : (c.putTop f w).pool.get? l.cell = some w := by
    show (c.pool.set f.home.cell w).get? l.cell = some w
    rw [hcell]
    exact Pool.get_set_same hget
  have hsame : w.stack.limit = v.stack.limit := by simpa using htouches.limit_eq
  have hbefore := Context.operand_limit_eq hget
  have hlimit : (c.putTop f w).operandLimit? l.cell = some v.stack.limit := by
    rw [Context.operand_limit_eq hget', hsame]
  refine ⟨v, w, f, h.afforded hcontents, h.room hget hcontents, hcontents, hbefore, htouches,
    hcell ▸ hlimit, fun hafforded hroomy => ?_, hresult⟩
  refine h.goes_on hstands hconfined (hlimit.trans hbefore.symm) htouches.site_eq
    htouches.return_region_eq ⟨fun max hmax => ?_, ?_, hafforded.output, hafforded.staged⟩
  · obtain ⟨w', hw', hroom⟩ := hroomy
    cases hw'
    have hmax' : (c.putTop f w).operandLimit? f.home.cell = some max := hmax
    rw [hcell, hlimit] at hmax'
    cases hmax'
    exact hroom.size
  · exact hafforded.memory w rfl

/-! ## Serving -/

/-- What a request leaves, whether it is served or refused. -/
theorem serve (h : Solvent c l below saved) (hrunning : l.frame.running = true) {op : Opcode}
    {request : Request} (hasks : op.Asks request) {env : Surroundings}
    (hservable : request.Servable env ⟨l.frame, some v⟩) (hcontents : v.contents = l.contents)
    (hlimit : c.operandLimit? l.cell = some env.limits.maxStackSize) :
    (∀ c', Context.serve request c = .ok () c' →
      ∃ l' below' saved', Solvent c' l' below' saved') ∧
    ∀ e c', Context.serve request c = .error e c' → ∃ l', Solvent c' l' below saved := by
  have hserved := h.stands.serve hrunning hasks
  generalize Context.serve request c = result at hserved
  cases hserved with
  | stays hsame hstands hconfined hkeeps =>
      obtain ⟨hlayers, hawaited⟩ := h.kept hconfined hkeeps
      refine ⟨?_, by simp⟩
      rintro _ ⟨⟩
      exact ⟨_, below, saved, hstands, hlayers, hawaited⟩
  | refused hsame hstands hconfined hkeeps =>
      obtain ⟨hlayers, hawaited⟩ := h.kept hconfined hkeeps
      refine ⟨by simp, ?_⟩
      rintro _ _ ⟨⟩
      exact ⟨_, hstands, hlayers, hawaited⟩
  | @internal target gas child c' hkind hstands hconfined hkeeps hopened =>
      obtain ⟨hlayers, hawaited⟩ := h.kept hconfined hkeeps
      have hsolvent := hlayers l List.mem_cons_self
      have hcell : child.home.cell = l.cell := by
        cases hstands.chain with
        | internal _ _ hshare =>
            have hshared : child.home.cell = l.frame.home.share.cell := congrArg Handle.cell hshare
            exact hshared
      refine ⟨?_, by simp⟩
      rintro _ ⟨⟩
      refine ⟨_, _, _, hstands, List.forall_mem_cons.2 ⟨⟨fun max hmax => ?_, hsolvent.bytes, ?_, ?_⟩,
        hlayers⟩, List.isChain_cons_cons.2 ⟨fun max _ hother => absurd hkind hother, hawaited⟩⟩
      · exact hsolvent.operands max (hcell ▸ hmax)
      · rw [hopened.output]
        exact Nat.zero_le _
      · rw [hopened.staged]
        exact Nat.zero_le _
  | @own request child l₁ c' hsame hkind hempty hstands hconfined hkeeps hsameContents hopened _ hown =>
      obtain ⟨hlayers, hawaited⟩ := h.kept hconfined hkeeps
      have hcell : l₁.cell = l.cell := Frame.cell_of_site hsame.site
      have hready : l₁.Ready env.limits.maxStackSize request.region := by
        have hsame₁ : v.contents = l₁.contents := hcontents.trans hsameContents.symm
        cases request with
        | proceed | internal => cases hown
        | message call gas region =>
            obtain ⟨_, _, w, hw, hroom, hcovers⟩ := hservable
            cases hw
            exact Layer.ready_of_room hroom hcovers hsame₁
        | create value initCode gas =>
            obtain ⟨_, _, _, w, hw, hroom⟩ := hservable
            cases hw
            exact Layer.ready_of_room hroom (fun hsize => absurd rfl hsize) hsame₁
      refine ⟨?_, by simp⟩
      rintro _ ⟨⟩
      refine ⟨_, _, _, hstands, List.forall_mem_cons.2 ⟨⟨fun _ _ => Nat.zero_le _, Nat.zero_le _, ?_, ?_⟩,
        hlayers⟩, List.isChain_cons_cons.2 ⟨fun max hmax _ => ?_, hawaited⟩⟩
      · rw [hopened.output]
        exact Nat.zero_le _
      · rw [hopened.staged]
        exact Nat.zero_le _
      · rw [hcell, hkeeps.limit, hlimit] at hmax
        cases hmax
        rw [hopened.region]
        exact hready

/-! ## Moves -/

/-- An instruction; a fault halts the frame that raised it. -/
theorem instruction (h : Solvent c l below saved) {limits : Limits}
    (hrunning : l.frame.running = true) (hstep : c.stepOrFail limits = .ok () c') :
    ∃ l' below' saved', Solvent c' l' below' saved' := by
  let env := c.surroundings limits
  obtain ⟨v, w, f, hstart, hroom, hcontents, hlimit, htouches, hlimit', hsolvent, hresult⟩ :=
    h.on_top (Instruction.fetchAndDispatch env) l.frame.currentOp.touches
      fun v => fetch_within env ⟨l.frame, some v⟩
  -- Instructions do not look at the limit of stacks, so it may be taken to be that of this one.
  let room : Surroundings := ⟨{ limits with maxStackSize := v.stack.limit }, c.depth, c.txn.origin⟩
  have hsame : Instruction.fetchAndDispatch room = Instruction.fetchAndDispatch env :=
    Instruction.fetch_congr _ _ rfl rfl rfl
  have hregular := Instruction.fetch_regular room
  rw [hsame] at hregular
  have hon : Activation.On (Workspace.Room room.limits.maxStackSize 0) ⟨l.frame, some v⟩ :=
    ⟨hrunning, v, rfl, hroom⟩
  rcases hresult with ⟨request, hact, htop⟩ | ⟨e, hact, htop⟩
  · have hservable := hregular.ok hon hact
    have hafter := hsolvent ((Instruction.fetch_affords env).ok hstart hact).2 hservable.roomy
    have hserve := Context.step_ok htop
    have hasks := Instruction.fetch_request hact
    by_cases hrequest : request = .proceed
    · cases hrequest
      have hdone : c.step limits = .ok () (c.putTop f w) := hserve
      simp only [Context.stepOrFail, hdone] at hstep
      cases hstep
      exact ⟨_, _, _, hafter⟩
    have hrunning' : f.running = true :=
      (htouches.running_eq (hasks.caller hrequest).2.1).trans hrunning
    obtain ⟨hok, herror⟩ := hafter.serve hrunning' hasks hservable rfl hlimit'
    cases hserved : Context.serve request (c.putTop f w) with
    | ok r c₁ =>
        rw [hserved] at hserve
        simp only [Context.stepOrFail, hserve] at hstep
        cases hstep
        exact hok _ hserved
    | error e c₁ =>
        rw [hserved] at hserve
        obtain ⟨l', hrest⟩ := herror e c₁ hserved
        cases e with
        | overflow => simp [Context.stepOrFail, hserve] at hstep
        | fault cause =>
            simp only [Context.stepOrFail, hserve] at hstep
            cases hstep
            exact ⟨_, below, saved, hrest.fail cause⟩
  · have herror := Context.step_error htop
    cases e with
    | overflow => simp [Context.stepOrFail, herror] at hstep
    | fault cause =>
        simp only [Context.stepOrFail, herror] at hstep
        cases hstep
        have hafforded := (Instruction.fetch_affords env).error hstart hact (by simp)
        exact ⟨_, below, saved, (hsolvent hafforded (hregular.error hon hact).roomy).fail cause⟩

/-- A halted frame above another is finished, and its parent can take up the result. -/
theorem finish (h : Solvent c child (parent :: below) saved)
    (hhalted : child.frame.running = false) :
    ∃ c' x saved', c.finishChild = .ok child.frame.finished c' ∧
      Solvent c' ⟨child.frame.learn parent.frame, x⟩ below saved' ∧ Handed child parent x ∧
      ∀ max, c'.operandLimit? parent.cell = some max →
        Layer.Awaits max child.frame.finished ⟨child.frame.learn parent.frame, x⟩ := by
  obtain ⟨c', x, saved', hfinish, hstands, hconfined, hhanded, hlimit⟩ := h.stands.finish hhalted
  have hlimits := h.stands.limit_below hconfined hlimit
  obtain ⟨hawait, hawaited⟩ := List.isChain_cons_cons.1 h.awaited
  obtain ⟨hchild, hbelow⟩ := List.forall_mem_cons.1 h.layers
  obtain ⟨hparent, hbelow⟩ := List.forall_mem_cons.1 hbelow
  have hrunning := h.stands.chain.running_below parent List.mem_cons_self
  have hsite := Frame.site_learn child.frame parent.frame
  obtain ⟨gas, logs, hlearn⟩ := child.frame.learn_eq parent.frame
  have hcell : (Layer.mk (child.frame.learn parent.frame) x).cell = parent.cell :=
    Frame.cell_of_site hsite
  have hkept : ∀ max, c'.operandLimit? parent.cell = some max →
      c.operandLimit? parent.cell = some max := fun max hmax => hlimit.symm.trans hmax
  refine ⟨c', x, saved', hfinish, ⟨hstands, List.forall_mem_cons.2 ⟨⟨?_, ?_, ?_, ?_⟩, ?_⟩, ?_⟩,
    hhanded, fun max hmax => hhanded.awaits hrunning (hawait max (hkept max hmax))⟩
  · intro max hmax
    rw [hcell] at hmax
    have hbefore := hkept max hmax
    by_cases hkind : child.frame.call.kind = .internal
    · -- An internal call works on the workspace of its parent, under the same limit.
      have hshared : child.cell = parent.cell := by
        cases h.stands.chain with
        | internal _ _ hshare =>
            have hshared : child.cell = parent.frame.home.share.cell := congrArg Handle.cell hshare
            exact hshared
        | own _ _ _ _ hother => exact absurd hkind hother
      exact hhanded.operands_le (hchild.operands max (hshared ▸ hbefore))
        (hparent.operands max hbefore)
    · show x.operands.size ≤ max
      rw [(hhanded.operands_bytes_eq hkind).1]
      exact hparent.operands max hbefore
  · exact hhanded.bytes_le hchild.bytes hparent.bytes
  · rw [hlearn]
    exact hparent.output
  · rw [hlearn]
    show child.frame.result.data.size ≤ largestMemory
    rw [Frame.result]
    split
    · exact hchild.output
    · exact hchild.output
  · exact fun m hm => (hbelow m hm).congr (hlimits m (List.mem_cons_of_mem _ hm))
  · exact Layer.awaited_goes_on (Layer.awaited_congr hawaited hlimits) (congrArg Site.call hsite)
      (by rw [hlearn])

/-- A result is taken up; a fault halts the frame. -/
theorem resume (h : Solvent c l below saved) {limits : Limits} {result : FinishedCall}
    (hawaits : ∀ max, c.operandLimit? l.cell = some max → l.Awaits max result)
    (hresume : c.resumeOrFail limits result = .ok () c') :
    ∃ l', Solvent c' l' below saved := by
  obtain ⟨v, w, f, hstart, hroom, hcontents, hlimit, _, _, hsolvent, hresult⟩ :=
    h.on_top (Exec.resume limits result) Part.resumption
      fun v => Exec.Within.resume limits result ⟨l.frame, some v⟩
  have hawaits := hawaits _ hlimit
  have hready : ∀ hkind : result.kind ≠ .internal, v.Room v.stack.limit 1 ∧
      v.Covers result.returnRegion := by
    intro hkind
    have hcovered := (hawaits.ready hkind).covered
    rw [← hcontents] at hcovered
    exact ⟨(hawaits.ready hkind).room hcontents hroom, hcovered⟩
  have hpre : Activation.Awaits v.stack.limit result ⟨l.frame, some v⟩ :=
    ⟨⟨hawaits.running, v, rfl, hroom⟩, hawaits.staged, hawaits.region,
      fun hkind => ⟨hawaits.running, v, rfl, hready hkind⟩⟩
  have hexpects : Activation.Expects result ⟨l.frame, some v⟩ := by
    refine ⟨hawaits.region, ?_⟩
    rintro hkind _ ⟨⟩
    exact (hready hkind).2
  rcases hresult with ⟨r, hact, htop⟩ | ⟨e, hact, htop⟩
  · simp only [Context.resumeOrFail, htop] at hresume
    cases hresume
    have hafforded := ((Exec.resume_affords limits result).ok ⟨hexpects, hstart⟩ hact).2
    exact ⟨_, hsolvent hafforded ((Exec.resume_regular limits result).ok hpre hact)⟩
  · cases e with
    | overflow => simp [Context.resumeOrFail, htop] at hresume
    | fault cause =>
        simp only [Context.resumeOrFail, htop] at hresume
        cases hresume
        have hafforded := (Exec.resume_affords limits result).error ⟨hexpects, hstart⟩ hact (by simp)
        have hroomy := ((Exec.resume_regular limits result).error hpre hact).2.roomy
        exact ⟨_, (hsolvent hafforded hroomy).fail cause⟩

end Solvent

/-! ## Runs -/

/-- A state of a run whose call stack is within its means. A result that is still to be taken up can
be taken up. -/
inductive RunState.Solvent : RunState → Prop
  /-- No result is to be taken up. -/
  | steady {c : Context} {l : Layer} {below : List Layer} {saved : List Contents}
      (h : CallTree.Solvent c l below saved) : Solvent ⟨c, none⟩
  /-- The topmost frame is to take up a result. -/
  | awaiting {c : Context} {l : Layer} {below : List Layer} {saved : List Contents}
      {result : FinishedCall} (h : CallTree.Solvent c l below saved)
      (hawaits : ∀ max, c.operandLimit? l.cell = some max → l.Awaits max result) :
      Solvent ⟨c, some result⟩

namespace RunState.Solvent

variable {limits : Limits} {s t : RunState}

/-- Every move leaves the call stack within its means. -/
theorem move (h : s.Solvent) (hmove : Move limits s t) : t.Solvent := by
  cases hmove with
  | instruction hrunning hstep =>
      cases h with
      | steady h =>
          obtain ⟨l', below', saved', hsolvent⟩ :=
            h.instruction (h.stands.is_running.symm.trans hrunning) hstep
          exact .steady hsolvent
  | @finish c c' result hhalted hfinish =>
      cases h with
      | @steady _ l below saved h =>
          obtain ⟨parent, below, rfl⟩ := h.stands.below_of_finished hfinish
          obtain ⟨c₁, x, saved', hdone, hsolvent, _, hawaits⟩ :=
            h.finish (h.stands.is_running.symm.trans hhalted)
          cases hfinish.symm.trans hdone
          have hcell : (Layer.mk (l.frame.learn parent.frame) x).cell = parent.cell :=
            Frame.cell_of_site (Frame.site_learn l.frame parent.frame)
          exact .awaiting hsolvent (hcell ▸ hawaits)
  | resume hresume =>
      cases h with
      | awaiting h hawaits =>
          obtain ⟨l', hsolvent⟩ := h.resume hawaits hresume
          exact .steady hsolvent

/-- It stays within its means throughout a run. -/
theorem run (h : s.Solvent) (hrun : Reaches limits s t) : t.Solvent := by
  induction hrun with
  | refl => exact h
  | tail _ hmove ih => exact ih.move hmove

/-- The layers of a state between two moves. -/
theorem layers {c : Context} (h : RunState.Solvent ⟨c, none⟩) :
    ∃ l below saved, CallTree.Solvent c l below saved := by
  cases h with
  | steady h => exact ⟨_, _, _, h⟩

end RunState.Solvent

/-- A single root frame is within its means. -/
theorem Context.launch_solvent (limits : Limits) (slots : Slots) (code : Bytes) (gas : Nat)
    (call : CallData) (base : Context) :
    RunState.Solvent ⟨base.launch limits slots code gas call, none⟩ := by
  refine .steady ⟨Context.launch_stands limits slots code gas call base, ?_, .singleton _⟩
  refine List.forall_mem_singleton.2 ⟨fun _ _ => ?_, ?_, ?_, ?_⟩ <;> exact Nat.zero_le _

/-- No output in a run is larger than what can be paid for. -/
theorem Reaches.output_le {frameLimits limits : Limits} {slots : Slots} {code : Bytes} {gas : Nat}
    {call : CallData} {base c : Context}
    (h : Reaches limits ⟨base.launch frameLimits slots code gas call, none⟩ ⟨c, none⟩) :
    ∀ f ∈ c.frames.toList, f.output.size ≤ largestMemory := by
  obtain ⟨l, below, saved, hsolvent⟩ := ((Context.launch_solvent _ _ _ _ _ _).run h).layers
  rw [hsolvent.stands.frames, ← List.map_cons (f := Layer.frame)]
  exact List.forall_mem_map.2 fun m hm => (hsolvent.layers m hm).output

end CallTree
