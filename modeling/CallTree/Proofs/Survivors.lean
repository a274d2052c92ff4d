import Mathlib.Data.List.Forall2
import CallTree.Proofs.Conservation
import CallTree.Proofs.TopFrame

/-!
# Surviving frames

What a frame emits and what it earns by clearing slots reaches the outcome of a transaction only
through the frames below it, one at a time, and a single one that fails drops it. `survivors` collects
the same effects from the states of a run instead: those of all instructions completed in frames which,
with all frames below them, finish successfully later on. `Context.execute_survivors` says that the
outcome of a transaction has exactly these, in the order in which they took place.

The induction is along the states of the run. What carries it is that the effects of the frames on the
call stack which are going to survive, from the bottom up, followed by those of the surviving
instructions that are still to come, are the same before and after every move (`Move.conserves`).
-/

namespace CallTree

/-! ## Effects -/

/-- What an instruction leaves for the end of the transaction. -/
inductive Effect
  /-- It emits an entry. -/
  | emits (entry : LogEntry)
  /-- It clears a slot. -/
  | clears
deriving DecidableEq

/-- The entry that is emitted, if one is. -/
def Effect.entry? : Effect → Option LogEntry
  | .emits entry => some entry
  | .clears => none

/-- The entries that are emitted. -/
def entries (effects : List Effect) : List LogEntry :=
  effects.filterMap Effect.entry?

/-- How many slots are cleared. -/
def clearings (effects : List Effect) : Nat :=
  effects.count .clears

@[simp]
theorem entries_append (effects more : List Effect) :
    entries (effects ++ more) = entries effects ++ entries more :=
  List.filterMap_append

@[simp]
theorem clearings_append (effects more : List Effect) :
    clearings (effects ++ more) = clearings effects + clearings more :=
  List.count_append

/-- The effect that the instruction at the program counter has if it is completed: a log emits its
topics with the contents of its region, and a store may clear a slot that holds something. -/
def Activation.effect? (a : Activation) : Option Effect :=
  a.space.bind fun w =>
    match a.frame.currentOp, w.stack.items.toList with
    | .log topics, offset :: size :: words =>
      some (.emits ⟨a.frame.call.contract, words.take topics,
        w.memory.read offset.toAmount size.toAmount⟩)
    | .sstore, key :: value :: _ =>
      if w.storage.load key ≠ 0 ∧ value = 0 then some .clears else none
    | _, _ => none

/-- The effect of the next move, which is that of an instruction that is completed. -/
def RunState.effect? (limits : Limits) (s : RunState) : Option Effect :=
  if s.executes then
    match s.context.frames.toList, s.context.step limits with
    | f :: _, .ok _ _ => (s.context.activation f).effect?
    | _, _ => none
  else
    none

/-! ## Survival -/

/-- The frame at the given level of the call stack, counted from the bottom, has come to its end. -/
def RunState.endsAt (s : RunState) (level : Nat) : Bool :=
  s.finished.isNone && !s.context.isRunning && s.context.depth == level

/-- Whether the frame that is at the given level in the first of these states comes to a successful
end. -/
def succeeds (history : List RunState) (level : Nat) : Bool :=
  match history.find? (·.endsAt level) with
  | some s => s.context.frames.toList.head?.any (·.isSuccess)
  | none => false

/-- Whether the frame that is at the given level in the first of these states survives: it and all
frames below come to a successful end. -/
def survives (history : List RunState) : Nat → Bool
  | 0 => true
  | level + 1 => survives history level && succeeds history (level + 1)

/-- The effects of all instructions that are completed in surviving frames. -/
def survivors (limits : Limits) : List RunState → List Effect
  | [] => []
  | s :: rest =>
    (if survives (s :: rest) s.context.depth then (s.effect? limits).toList else []) ++
      survivors limits rest

section

variable {s : RunState} {rest : List RunState} {level : Nat}

/-- A state in which no frame ends has no say in what survives. -/
theorem survives_cons (h : ∀ k ≤ level, s.endsAt k = false) :
    survives (s :: rest) level = survives rest level := by
  induction level with
  | zero => rfl
  | succ level ih =>
      have hnot : s.endsAt (level + 1) = false := h _ (Nat.le_refl _)
      have hbelow := ih fun k hk => h k (by omega)
      simp only [survives, hbelow, succeeds, List.find?_cons, hnot]

/-- A frame that ends has survived so far if it has succeeded. -/
theorem survives_end {f : Frame} {below : List Frame}
    (hframes : s.context.frames.toList = f :: below) (hfinished : s.finished = none)
    (hhalted : f.running = false) :
    survives (s :: rest) (below.length + 1) = (survives rest below.length && f.isSuccess) := by
  have hdepth : s.context.depth = below.length + 1 := by
    rw [Context.depth_eq, hframes]
    rfl
  have hbelow : survives (s :: rest) below.length = survives rest below.length := by
    refine survives_cons fun k hk => ?_
    have hne : (s.context.depth == k) = false := by
      rw [hdepth]
      exact beq_eq_false_iff_ne.2 (by omega)
    simp [RunState.endsAt, hne]
  have hends : s.endsAt (below.length + 1) = true := by
    simp [RunState.endsAt, hfinished, hdepth, Context.isRunning, hframes, hhalted]
  simp [survives, hbelow, succeeds, hends, hframes]

/-- No frame ends where the topmost is running or a result is taken up. -/
theorem RunState.not_ends_at (h : s.context.isRunning = true ∨ s.finished.isSome = true) (k : Nat) :
    s.endsAt k = false := by
  rcases h with hrunning | hfinished
  · simp [endsAt, hrunning]
  · simp [endsAt, Option.isNone_eq_false_iff.2 hfinished]

end

/-! ## What frames carry -/

/-- A frame has emitted the entries and earned the refunds of the given effects. -/
structure Frame.Carries (f : Frame) (effects : List Effect) : Prop where
  logs : f.logs.toList = entries effects
  refunds : f.gas.refunds = min (Gas.storageClearRefund * clearings effects) maxAmount

namespace Frame.Carries

variable {f f' child parent : Frame} {effects more : List Effect}

/-- A new frame carries nothing. -/
theorem fresh (hlogs : f.logs = #[]) (hrefunds : f.gas.refunds = 0) : f.Carries [] := by
  refine ⟨?_, ?_⟩
  · rw [hlogs]
    rfl
  · rw [hrefunds]
    rfl

/-- A frame that emits and earns nothing carries the same as before. -/
theorem same (h : f.Carries effects) (hlogs : f'.logs = f.logs)
    (hrefunds : f'.gas.refunds = f.gas.refunds) : f'.Carries effects :=
  ⟨hlogs ▸ h.logs, hrefunds ▸ h.refunds⟩

/-- A parent takes over what a successful child carries. -/
theorem learn (h : parent.Carries effects) (hchild : child.isSuccess = true → child.Carries more) :
    (child.learn parent).Carries (effects ++ if child.isSuccess then more else []) := by
  by_cases hsuccess : child.isSuccess = true
  · obtain ⟨hlogs, hrefunds⟩ := hchild hsuccess
    refine ⟨?_, ?_⟩
    · rw [logs_learn, if_pos hsuccess, if_pos hsuccess, Array.toList_append, h.logs, hlogs,
        entries_append]
    · rw [refunds_learn, if_pos hsuccess, if_pos hsuccess, h.refunds, hrefunds, clearings_append,
        Nat.mul_add]
      unfold satAdd
      omega
  · rw [if_neg hsuccess, List.append_nil]
    exact h.same (by rw [logs_learn, if_neg hsuccess]) (by rw [refunds_learn, if_neg hsuccess])

end Frame.Carries

namespace Instruction

variable {env : Surroundings} {a b : Activation} {request : Request} {effects : List Effect}

/-- An instruction that asks for a frame has no effect of its own. -/
theorem effect_of_request (h : fetchAndDispatch env a = .ok request b)
    (hrequest : request ≠ .proceed) : a.effect? = none := by
  have hasks := fetch_request h
  have hcall : a.frame.currentOp.isCall = true := by
    cases request with
    | proceed => exact absurd rfl hrequest
    | internal target gas => rw [show a.frame.currentOp = .callInternal from hasks]; rfl
    | message call gas region =>
        rcases hasks.1 with hop | hop
        · rw [hop]; rfl
        · rw [hop]; rfl
    | create value initCode gas => rw [show a.frame.currentOp = .create from hasks]; rfl
  unfold Activation.effect?
  cases a.space with
  | none => rfl
  | some w =>
      cases hop : a.frame.currentOp with
      | log topics | sstore => rw [hop] at hcall; cases hcall
      | _ => rfl

/-- After a completed instruction a frame carries its effect too. -/
theorem fetch_carries (h : fetchAndDispatch env a = .ok request b)
    (hcarries : a.frame.Carries effects) : b.frame.Carries (effects ++ a.effect?.toList) := by
  have htouches : Touches a.frame.currentOp.touches a b := Action.after_ok h ▸ fetch_within env a
  cases hop : a.frame.currentOp with
  | log topics =>
      obtain ⟨w, offset, size, words, rest, hw, hitems, hlength, hlogs⟩ := fetch_log h hop
      have heffect : a.effect? = some (.emits ⟨a.frame.call.contract, words,
          w.memory.read offset.toAmount size.toAmount⟩) := by
        rw [← hlength] at hop
        simp [Activation.effect?, hw, hop, hitems]
      have hrefunds : b.frame.gas.refunds = a.frame.gas.refunds :=
        htouches.refunds_eq (by simp [hop, Opcode.touches, Part.common])
      rw [heffect]
      refine ⟨?_, ?_⟩
      · rw [hlogs, Array.toList_push, hcarries.logs, entries_append]
        rfl
      · rw [hrefunds, hcarries.refunds, clearings_append]
        rfl
  | sstore =>
      have hlogs : b.frame.logs = a.frame.logs :=
        htouches.logs_eq (by simp [hop, Opcode.touches, Part.common])
      cases hw : a.space with
      | none =>
          -- Without a workspace there are no operands.
          obtain ⟨_, pc, immediate, f, _, hbody⟩ := fetch_local h (by simp [hop]) (by rw [hop]; rfl)
          rw [hop, hw] at hbody
          obtain ⟨key, a₁, hpop, _⟩ := Action.bind_eq_ok hbody
          cases hpop
      | some w =>
          obtain ⟨key, value, rest, hitems, hrefunds, _⟩ := fetch_sstore h hop hw
          have heffect : a.effect? =
              if w.storage.load key ≠ 0 ∧ value = 0 then some .clears else none := by
            simp [Activation.effect?, hw, hop, hitems]
          rw [heffect]
          by_cases hclears : w.storage.load key ≠ 0 ∧ value = 0
          · rw [if_pos hclears] at hrefunds ⊢
            refine ⟨?_, ?_⟩
            · rw [hlogs, hcarries.logs, entries_append]
              exact (List.append_nil _).symm
            · rw [hrefunds, hcarries.refunds, clearings_append, Nat.mul_add]
              show satAdd _ _ = min (_ + Gas.storageClearRefund) maxAmount
              unfold satAdd
              omega
          · rw [if_neg hclears] at hrefunds ⊢
            simpa using hcarries.same hlogs hrefunds
  | _ =>
      have heffect : a.effect? = none := by
        unfold Activation.effect?
        cases a.space with
        | none => rfl
        | some w => simp [hop]
      have hparts : Part.logs ∉ a.frame.currentOp.touches ∧
          Part.refunds ∉ a.frame.currentOp.touches := by
        simp [hop, Opcode.touches, Part.common]
      rw [heffect, Option.toList_none, List.append_nil]
      exact hcarries.same (htouches.logs_eq hparts.1) (htouches.refunds_eq hparts.2)

end Instruction

/-! ## Moves -/

/-- What the frames of a call stack carry, the topmost first. Nothing is said about a frame that has
failed. -/
def Carried : List Frame → List (List Effect) → Prop :=
  List.Forall₂ fun f effects => f.running = true ∨ f.isSuccess = true → f.Carries effects

/-- The effects that surviving frames carry, those of the frame at the bottom first. -/
def kept (history : List RunState) : List (List Effect) → List Effect
  | [] => []
  | effects :: below =>
    kept history below ++ if survives history (below.length + 1) then effects else []

section

variable {limits : Limits} {s t : RunState} {rest : List RunState} {f : Frame}
  {effects more : List Effect} {held : List (List Effect)} {below : List Frame}

/-- A state in which none of these frames ends has no say in what is kept. -/
theorem kept_cons (h : ∀ k ≤ held.length, s.endsAt k = false) :
    kept (s :: rest) held = kept rest held := by
  induction held with
  | nil => rfl
  | cons effects held ih =>
      have hsame : survives (s :: rest) (held.length + 1) = survives rest (held.length + 1) :=
        survives_cons h
      rw [kept, kept, ih fun k hk => h k (Nat.le_succ_of_le hk), hsame]

theorem kept_append :
    kept rest ((effects ++ more) :: held) =
      kept rest (effects :: held) ++ if survives rest (held.length + 1) then more else [] := by
  by_cases h : survives rest (held.length + 1) = true
  · simp [kept, h]
  · simp [kept, h]

/-- What surviving frames carry and the surviving effects that are still to come stay the same
together. -/
def Conserves (limits : Limits) (held held' : List (List Effect)) (s t : RunState) : Prop :=
  ∀ rest, kept (s :: t :: rest) held ++ survivors limits (s :: t :: rest) =
    kept (t :: rest) held' ++ survivors limits (t :: rest)

/-- The topmost frame goes on, and carries the effect of the move too if it is going to survive. -/
theorem conserves_of_effect (hnot : s.context.isRunning = true ∨ s.finished.isSome = true)
    (hdepth : s.context.depth = held.length + 1)
    (heffect : ∀ rest, survives (t :: rest) (held.length + 1) = true →
      (s.effect? limits).toList = more) :
    Conserves limits (effects :: held) ((effects ++ more) :: held) s t := by
  intro rest
  have hends : ∀ k, s.endsAt k = false := RunState.not_ends_at hnot
  rw [kept_cons fun k _ => hends k, kept_append, survivors, survives_cons fun k _ => hends k, hdepth,
    List.append_assoc]
  by_cases hsurvives : survives (t :: rest) (held.length + 1) = true
  · rw [if_pos hsurvives, if_pos hsurvives, heffect rest hsurvives]
  · rw [if_neg hsurvives, if_neg hsurvives]

/-- A move without an effect. -/
theorem conserves_of_none (hnot : s.context.isRunning = true ∨ s.finished.isSome = true)
    (hdepth : s.context.depth = held.length + 1) (heffect : s.effect? limits = none) :
    Conserves limits (effects :: held) (effects :: held) s t := by
  have hsame : Conserves limits (effects :: held) ((effects ++ []) :: held) s t :=
    conserves_of_effect hnot hdepth fun _ _ => by rw [heffect]; rfl
  rwa [List.append_nil] at hsame

/-- A frame that fails in the move does not survive. -/
theorem conserves_of_failed (hnot : s.context.isRunning = true ∨ s.finished.isSome = true)
    (hdepth : s.context.depth = held.length + 1) (hframes : t.context.frames.toList = f :: below)
    (hlength : below.length = held.length) (hfinished : t.finished = none)
    (hhalted : f.running = false) (hfailed : f.isSuccess = false) :
    Conserves limits (effects :: held) (effects :: held) s t := by
  have hsame : Conserves limits (effects :: held) ((effects ++ []) :: held) s t := by
    refine conserves_of_effect hnot hdepth fun rest hsurvives => ?_
    rw [← hlength, survives_end hframes hfinished hhalted, hfailed, Bool.and_false] at hsurvives
    cases hsurvives
  rwa [List.append_nil] at hsame

/-- A child is finished: its parent takes over what it carries if it has succeeded. -/
theorem conserves_of_finish {child parent : Frame}
    (hframes : s.context.frames.toList = child :: parent :: below) (hfinished : s.finished = none)
    (hhalted : child.running = false) (hlength : below.length = held.length) :
    Conserves limits (more :: effects :: held)
      ((effects ++ if child.isSuccess then more else []) :: held) s t := by
  intro rest
  have hdepth : s.context.depth = held.length + 2 := by
    rw [Context.depth_eq, hframes, ← hlength]
    rfl
  have hends : ∀ k ≤ held.length + 1, s.endsAt k = false := by
    intro k hk
    have hne : (s.context.depth == k) = false := by
      rw [hdepth]
      exact beq_eq_false_iff_ne.2 (by omega)
    simp [RunState.endsAt, hne]
  have hidle : s.effect? limits = none := by
    simp [RunState.effect?, RunState.executes, Context.isRunning, hframes, hhalted]
  have hend : survives (s :: t :: rest) (held.length + 2) =
      (survives (t :: rest) (held.length + 1) && child.isSuccess) := by
    rw [← hlength]
    exact survives_end hframes hfinished hhalted
  have hbelow : kept (s :: t :: rest) (effects :: held) = kept (t :: rest) (effects :: held) :=
    kept_cons hends
  rw [kept_append, kept, hbelow, survivors, hidle, List.length_cons, hend]
  by_cases hsurvives : survives (t :: rest) (held.length + 1) = true
  · simp [hsurvives]
  · simp [hsurvives]

end

/-- A frame that fails while it is running has no success. -/
theorem Frame.fail_of_running {f : Frame} (hrunning : f.running = true) (cause : Fault) :
    (f.fail cause).running = false ∧ (f.fail cause).isSuccess = false :=
  ⟨running_fail cause f, by simp [fail, isSuccess, hrunning]⟩

section

variable {limits : Limits} {c c' : Context} {f : Frame} {below top : List Frame}
  {effects : List Effect} {held : List (List Effect)}

theorem RunState.effect_of_none {finished : Option FinishedCall}
    (hframes : c.frames.toList = f :: below) (h : (c.activation f).effect? = none) :
    RunState.effect? limits ⟨c, finished⟩ = none := by
  unfold RunState.effect?
  split
  · simp only [hframes]
    split
    · rename_i hcons _
      cases hcons
      exact h
    · rfl
  · rfl

/-- An instruction. -/
theorem Instructed.conserves (h : Instructed (c.surroundings limits) (c.activation f) top)
    (hframes : c.frames.toList = f :: below) (hframes' : c'.frames.toList = top ++ below)
    (hrunning : f.running = true) (hcarries : f.Carries effects)
    (hlength : below.length = held.length) :
    ∃ now, Carried top now ∧
      Conserves limits (effects :: held) (now ++ held) ⟨c, none⟩ ⟨c', none⟩ := by
  have hnot : c.isRunning = true ∨ Option.isSome (none : Option FinishedCall) = true :=
    .inl (by simp only [Context.isRunning, hframes, hrunning])
  have hdepth : c.depth = held.length + 1 := by
    rw [Context.depth_eq, hframes, ← hlength]
    rfl
  have hone : ∀ {g : Frame} {carried : List Effect},
      (g.running = true ∨ g.isSuccess = true → g.Carries carried) → Carried [g] [carried] :=
    fun hg => .cons hg .nil
  have hfailed : ∀ {g : Frame} {e : Fault}, g.running = true → top = [g.fail e] →
      ∃ now, Carried top now ∧
        Conserves limits (effects :: held) (now ++ held) ⟨c, none⟩ ⟨c', none⟩ := by
    -- What the frame carries does not matter any more, since it is not going to survive.
    rintro g e hg rfl
    obtain ⟨hhalted, hfails⟩ := Frame.fail_of_running hg e
    refine ⟨[effects], hone fun hends => ?_,
      conserves_of_failed hnot hdepth hframes' hlength rfl hhalted hfails⟩
    rcases hends with hruns | hsucceeds
    · cases hhalted.symm.trans hruns
    · cases hfails.symm.trans hsucceeds
  cases h with
  | refused hact => exact hfailed (Instruction.fetch_refused_running hact hrunning) rfl
  | declined hact hrequest hpays =>
      have hsame := (Frame.stays_of_request hact hrequest).trans hpays.stays
      exact hfailed (hsame.running.trans hrunning) rfl
  | proceeds hact =>
      obtain ⟨c₁, hstep, _⟩ := Context.step_of_proceed hframes hact
      have heffect : RunState.effect? limits ⟨c, none⟩ = (c.activation f).effect? := by
        simp [RunState.effect?, RunState.executes, Context.isRunning, hframes, hrunning, hstep]
      refine ⟨[effects ++ (c.activation f).effect?.toList], hone fun _ => ?_, ?_⟩
      · exact Instruction.fetch_carries hact hcarries
      · exact conserves_of_effect hnot hdepth fun _ _ => by rw [heffect]
  | stays hact hrequest hpays =>
      have hsame := (Frame.stays_of_request hact hrequest).trans hpays.stays
      have heffect := Instruction.effect_of_request hact hrequest
      refine ⟨[effects], hone fun _ => hcarries.same hsame.logs hsame.refunds, ?_⟩
      exact conserves_of_none hnot hdepth (RunState.effect_of_none hframes heffect)
  | opens hact hopens =>
      have hopened := Frame.opens_of_request hact hopens
      have heffect := Instruction.effect_of_request hact hopens.ne_proceed
      obtain ⟨forwarded, hgas, _⟩ := hopened.paid
      refine ⟨[[], effects], .cons (fun _ => ?_) (hone fun _ => ?_), fun rest => ?_⟩
      · exact .fresh hopened.logs (by rw [hgas]; rfl)
      · exact hcarries.same hopened.stays.logs hopened.stays.refunds
      · -- A new frame has nothing that could survive yet.
        have hsame : Conserves limits (effects :: held) (effects :: held) ⟨c, none⟩ ⟨c', none⟩ :=
          conserves_of_none hnot hdepth (RunState.effect_of_none hframes heffect)
        rw [hsame rest]
        simp [kept]

/-- Taking up a result. -/
theorem Resumed.conserves {result : FinishedCall} {f' : Frame}
    (h : Resumed limits result (c.activation f) f') (hframes : c.frames.toList = f :: below)
    (hframes' : c'.frames.toList = f' :: below) (hrunning : f.running = true)
    (hcarries : f.Carries effects) (hlength : below.length = held.length) :
    (f'.running = true ∨ f'.isSuccess = true → f'.Carries effects) ∧
      Conserves limits (effects :: held) (effects :: held) ⟨c, some result⟩ ⟨c', none⟩ := by
  have hnot : c.isRunning = true ∨ (some result).isSome = true := .inr rfl
  have hdepth : c.depth = held.length + 1 := by
    rw [Context.depth_eq, hframes, ← hlength]
    rfl
  refine ⟨fun hends => ?_, conserves_of_none hnot hdepth rfl⟩
  cases h with
  | refused hact =>
      have hstart : Activation.Running (c.activation f) := hrunning
      obtain ⟨hhalted, hfails⟩ :=
        Frame.fail_of_running ((Exec.resume_runs limits result).error hstart hact) _
      rcases hends with hruns | hsucceeds
      · cases hhalted.symm.trans hruns
      · cases hfails.symm.trans hsucceeds
  | proceeds hact =>
      have htouches : Touches Part.resumption (c.activation f) _ :=
        Action.after_ok hact ▸ Exec.Within.resume limits result _
      exact hcarries.same (htouches.logs_eq (by decide)) (htouches.refunds_eq (by decide))

end

/-- Every move keeps what survives, if a result is taken up by a running frame. -/
theorem Move.conserves {limits : Limits} {s t : RunState} {held : List (List Effect)}
    (h : Move limits s t) (hresuming : s.finished.isSome = true → s.context.isRunning = true)
    (hcarried : Carried s.context.frames.toList held) :
    ∃ held', Carried t.context.frames.toList held' ∧ Conserves limits held held' s t := by
  cases h with
  | @instruction c c' hrunning hstep =>
      obtain ⟨f, below, hframes, hf⟩ := Context.top_of_running hrunning
      rw [hframes] at hcarried
      cases hcarried with
      | @cons _ effects _ held hfirst hbelow =>
          obtain ⟨top, htop, hframes'⟩ := Context.step_or_fail_instructed hframes hstep
          obtain ⟨now, hnow, hsame⟩ :=
            htop.conserves hframes hframes' hf (hfirst (.inl hf)) hbelow.length_eq
          refine ⟨now ++ held, ?_, hsame⟩
          rw [hframes']
          exact List.rel_append hnow hbelow
  | @finish c c' result hhalted hfinish =>
      obtain ⟨child, parent, below, hframes, hchild, hframes', _⟩ :=
        Context.finish_child_frames hfinish
      rw [hframes] at hcarried
      cases hcarried with
      | @cons _ theirs _ _ hfirst hrest =>
          cases hrest with
          | @cons _ effects _ held hsecond hbelow =>
              refine ⟨(effects ++ if child.isSuccess then theirs else []) :: held, ?_, ?_⟩
              · rw [hframes']
                refine .cons (fun hends => ?_) hbelow
                rw [Frame.running_learn, Frame.success_learn] at hends
                exact (hsecond hends).learn fun hsuccess => hfirst (.inr hsuccess)
              · exact conserves_of_finish hframes rfl hchild hbelow.length_eq
  | @resume c c' result hresume =>
      have hrunning : c.isRunning = true := hresuming rfl
      obtain ⟨f, below, hframes, hf⟩ := Context.top_of_running hrunning
      rw [hframes] at hcarried
      cases hcarried with
      | @cons _ effects _ held hfirst hbelow =>
          obtain ⟨f', hresumed, hframes'⟩ := Context.resume_or_fail_resumed hframes hresume
          obtain ⟨hf', hsame⟩ :=
            hresumed.conserves hframes hframes' hf (hfirst (.inl hf)) hbelow.length_eq
          exact ⟨effects :: held, by rw [hframes']; exact .cons hf' hbelow, hsame⟩

/-! ## Runs -/

/-- The states of a run begin with the first. -/
theorem Trail.states_eq {limits : Limits} {s t : RunState} {states : List RunState}
    (h : Trail limits s states t) : ∃ rest, states ++ [t] = s :: rest := by
  cases h with
  | nil => exact ⟨[], rfl⟩
  | @cons _ _ _ states _ _ => exact ⟨states ++ [t], rfl⟩

/-- When a run ends with a single frame that has succeeded, this frame carries what was kept of the
frames at the start and what has survived since. -/
theorem Trail.carries {limits : Limits} {s : RunState} {c : Context} {f : Frame}
    {states : List RunState} {held : List (List Effect)} (h : Trail limits s states ⟨c, none⟩)
    (hframes : c.frames.toList = [f]) (hhalted : f.running = false) (hsuccess : f.isSuccess = true)
    (hresuming : ∀ t, Reaches limits s t → t.finished.isSome = true → t.context.isRunning = true)
    (hcarried : Carried s.context.frames.toList held) :
    f.Carries (kept (states ++ [⟨c, none⟩]) held ++ survivors limits (states ++ [⟨c, none⟩])) := by
  generalize hu : (⟨c, none⟩ : RunState) = u at h ⊢
  induction h generalizing held with
  | nil u =>
      subst hu
      rw [show (RunState.mk c none).context.frames.toList = [f] from hframes] at hcarried
      have hkept : survives [⟨c, none⟩] 1 = true := by
        simp [survives, succeeds, RunState.endsAt, Context.depth_eq, Context.isRunning, hframes,
          hhalted, hsuccess]
      have hnone : survivors limits [⟨c, none⟩] = [] := by
        simp [survivors, RunState.effect?, RunState.executes, Context.isRunning, hframes, hhalted]
      cases hcarried with
      | cons hfirst hrest =>
          cases hrest
          simpa [kept, hkept, hnone] using hfirst (.inr hsuccess)
  | @cons s t u states hmove hrest ih =>
      obtain ⟨held', hcarried', hsame⟩ := hmove.conserves (hresuming s .refl) hcarried
      obtain ⟨rest, hstates⟩ := hrest.states_eq
      have hend := ih (fun t' hreach => hresuming t' (.head hmove hreach)) hcarried' hu
      rw [hstates] at hend
      rw [List.cons_append, hstates, hsame rest]
      exact hend

namespace Context

variable {root f : Frame} {gas : Nat} {limits : Limits} {c c' c₀ : Context} {outcome : Outcome}

/-- A root frame that has succeeded at the end of a run has halted by itself. -/
theorem root_end_success {states : List RunState} {world : World}
    (h : RootEnd limits c₀ states f world) (hmax : gas ≤ maxAmount)
    (hroot : Funded gas c₀.frames.toList [gas]) (hsuccess : f.isSuccess = true) :
    ∃ c, Trail limits ⟨c₀, none⟩ states ⟨c, none⟩ ∧ c.frames.toList = [f] ∧ f.running = false := by
  have hfails := (root_end_gas h hmax hroot).2
  cases h with
  | halted _ htrail hframes hhalted => exact ⟨_, htrail, hframes, hhalted⟩
  | exhausted hstopped _ _ _ =>
      have hfailed := (hfails (.inl hstopped)).2
      rw [hsuccess] at hfailed
      cases hfailed

/-- The logs and the refund of a transaction that succeeds are exactly those of its surviving frames.
Its run ends with the root frame halted. The entries it emits are those of all logs completed in
surviving frames, in the order of execution; the refund is 4800 for each slot that a surviving frame
has cleared, up to a part of the gas that the root frame has used before the refund. -/
theorem execute_survivors (hgas : root.gas = .new gas) (hmax : gas ≤ maxAmount)
    (hlogs : root.logs = #[]) (h : c.execute root = some (outcome, c'))
    (hsuccess : outcome.success = true) :
    ∃ c₀ states c₁ f, Starts root c c₀ ∧ Trail c.limits ⟨c₀, none⟩ states ⟨c₁, none⟩ ∧
      c₁.frames.toList = [f] ∧ f.running = false ∧
      outcome.logs.toList = entries (survivors c.limits (states ++ [⟨c₁, none⟩])) ∧
      outcome.gasUsed + outcome.gasRefund = f.gas.used ∧
      outcome.gasRefund = min (4800 * clearings (survivors c.limits (states ++ [⟨c₁, none⟩])))
        (f.gas.used / max c.limits.maxRefundQuotient 1) := by
  rcases execute_ends h with
    ⟨_, _, e, rfl⟩ | ⟨c₀, states, f, c₁, c₂, hstarts, hend, hlimits, hconclude, _⟩
  · cases hsuccess
  · obtain ⟨hf, hcommit, hemitted, hused, hrefund⟩ :=
      (conclude_cases hconclude).resolve_left (by simp [hsuccess]) |>.resolve_left (by
        rintro ⟨_, e, _, rfl⟩
        cases hsuccess)
    have hframes₀ : c₀.frames.toList = [root] := (push_seeded_frames hstarts.2).1
    have hfunded : Funded gas c₀.frames.toList [gas] := by
      rw [hframes₀]
      exact .root (by rw [hgas]; rfl)
    have hbound : f.gas.used ≤ gas := (root_end_gas hend hmax hfunded).1
    obtain ⟨c₃, htrail, hframes, hhalted⟩ := root_end_success hend hmax hfunded hf
    have hresuming : ∀ t, Reaches c.limits ⟨c₀, none⟩ t → t.finished.isSome = true →
        t.context.isRunning = true := by
      intro t hreach hfinished
      obtain ⟨grants, hgranted⟩ := hreach.granted hmax hfunded
      exact hgranted.running_of_finished hmax hfunded hfinished
    have hstart : Carried c₀.frames.toList [[]] := by
      rw [hframes₀]
      exact .cons (fun _ => .fresh hlogs (by rw [hgas]; rfl)) .nil
    obtain ⟨hcarried, hearned⟩ := htrail.carries hframes hhalted hf hresuming hstart
    have hnothing : ∀ history, kept history [[]] = [] := by
      intro history
      simp [kept]
    rw [hnothing, List.nil_append] at hcarried hearned
    refine ⟨c₀, states, c₃, f, hstarts, htrail, hframes, hhalted, ?_, hused, ?_⟩
    · rw [hemitted, hcarried]
    · -- What is paid is below the largest amount, so it does not matter that refunds stop there.
      have hpart : f.gas.used / max c.limits.maxRefundQuotient 1 ≤ maxAmount :=
        Nat.le_trans (Nat.div_le_self _ _) (Nat.le_trans hbound hmax)
      rw [hrefund, (commit_root_inv hcommit).1, hlimits, Gas.refundPaid, hearned]
      show min (min (4800 * _) maxAmount) _ = _
      omega

/-- A root frame that emits an entry, calls a contract that emits another, calls one that emits a
third and then fails, and clears a slot. -/
def emittingRoot : Frame × Context :=
  newFrame {} {}
    ⟨#[0x60, 1, 0x60, 0, 0xA0,
      0x60, 0, 0x60, 0, 0x60, 0, 0x60, 0, 0x60, 3, 0x61, 0x80, 0, 0xFA,
      0x60, 0, 0x60, 0, 0x60, 0, 0x60, 0, 0x60, 0, 0x60, 3, 0x61, 0x80, 0, 0xF1,
      0x60, 0, 0x60, 0, 0x60, 0, 0x60, 0, 0x60, 0, 0x60, 4, 0x61, 0x80, 0, 0xF1,
      0x60, 0, 0x60, 1, 0x55]⟩ 100000 (.transaction 1 2 0 ByteArray.empty)
    { txn := ⟨1, 0⟩
      world := World.store 2 1 5
        (.setCode 3 ⟨#[0x60, 1, 0x60, 0, 0xA0]⟩ (.setCode 4 ⟨#[0x60, 1, 0x60, 0, 0xA0, 0xFE]⟩ {})) }

/-- The third entry is lost, and so is the one that a read-only call was not allowed to emit. -/
theorem emitting_root_survivors : ∃ outcome c',
    emittingRoot.2.execute emittingRoot.1 = some (outcome, c') ∧ outcome.success = true ∧
      outcome.logs = #[⟨2, [], ⟨#[0]⟩⟩, ⟨3, [], ⟨#[0]⟩⟩] ∧ outcome.gasRefund = 4800 ∧
      ∃ c₀ states c₁ f, Starts emittingRoot.1 emittingRoot.2 c₀ ∧
        Trail emittingRoot.2.limits ⟨c₀, none⟩ states ⟨c₁, none⟩ ∧ c₁.frames.toList = [f] ∧
        f.running = false ∧
        outcome.logs.toList =
          entries (survivors emittingRoot.2.limits (states ++ [⟨c₁, none⟩])) ∧
        outcome.gasUsed + outcome.gasRefund = f.gas.used ∧
        outcome.gasRefund =
          min (4800 * clearings (survivors emittingRoot.2.limits (states ++ [⟨c₁, none⟩])))
            (f.gas.used / max emittingRoot.2.limits.maxRefundQuotient 1) := by
  have hrun : (emittingRoot.2.execute emittingRoot.1).map (fun ended =>
      (ended.1.success, ended.1.logs, ended.1.gasRefund)) =
        some (true, #[⟨2, [], ⟨#[0]⟩⟩, ⟨3, [], ⟨#[0]⟩⟩], 4800) := by
    decide +kernel
  obtain ⟨⟨outcome, c'⟩, h, hend⟩ := Option.map_eq_some_iff.1 hrun
  simp only [Prod.mk.injEq] at hend
  obtain ⟨hsuccess, hlogs, hrefund⟩ := hend
  refine ⟨outcome, c', h, hsuccess, hlogs, hrefund, ?_⟩
  exact execute_survivors (rfl : emittingRoot.1.gas = .new 100000) (by decide) rfl h hsuccess

end Context
end CallTree
