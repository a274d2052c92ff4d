import CallTree.Proofs.Outcomes

/-!
# Contracts of actions

`Action.Triple P act Q E` says of every state with `P` that the action ends in a result and a state
with `Q` or in a refusal and a state with `E`. There is one rule for every way to put actions
together. An assertion that no touch of the given parts can break is kept by every action within
these parts (`Exec.Within.triple`), so a proof only stops where an action pays, ends the frame or
may overflow.
-/

namespace CallTree

namespace Action

variable {σ α β : Type}

/-- From every state with `P` the action ends in a result and a state with `Q`, or it is refused
and ends in a cause and a state with `E`. -/
def Triple (P : σ → Prop) (act : Action σ α) (Q : α → σ → Prop) (E : Abort → σ → Prop) : Prop :=
  ∀ s, P s →
    match act s with
    | .ok r t => Q r t
    | .error e t => E e t

namespace Triple

variable {P P' : σ → Prop} {Q Q' : α → σ → Prop} {E E' : Abort → σ → Prop} {act : Action σ α}

/-- What a completed action ends in. -/
theorem ok (h : Triple P act Q E) {s t : σ} {r : α} (hs : P s) (hact : act s = .ok r t) :
    Q r t := by
  have hend := h s hs
  rw [hact] at hend
  exact hend

/-- What a refused action ends in. -/
theorem error (h : Triple P act Q E) {s t : σ} {e : Abort} (hs : P s)
    (hact : act s = .error e t) : E e t := by
  have hend := h s hs
  rw [hact] at hend
  exact hend

/-- An action by its two ways to end. -/
theorem of_results (hok : ∀ s r t, P s → act s = .ok r t → Q r t)
    (herror : ∀ s e t, P s → act s = .error e t → E e t) : Triple P act Q E := by
  intro s hs
  cases hact : act s with
  | ok r t => exact hok s r t hs hact
  | error e t => exact herror s e t hs hact

/-- Less is known before, and less is asked for after. -/
theorem weaken (h : Triple P act Q E) (hpre : ∀ s, P' s → P s) (hpost : ∀ r t, Q r t → Q' r t)
    (herror : ∀ e t, E e t → E' e t) : Triple P' act Q' E' :=
  of_results (fun s r t hs hact => hpost r t (h.ok (hpre s hs) hact))
    fun s e t hs hact => herror e t (h.error (hpre s hs) hact)

/-- Less is asked for after a completed action. -/
theorem post (h : Triple P act Q E) (hpost : ∀ r t, Q r t → Q' r t) : Triple P act Q' E :=
  h.weaken (fun _ hs => hs) hpost fun _ _ he => he

/-- Less is asked for after a refused action. -/
theorem refused (h : Triple P act Q E) (herror : ∀ e t, E e t → E' e t) : Triple P act Q E' :=
  h.weaken (fun _ hs => hs) (fun _ _ hr => hr) herror

/-- More is known before. -/
theorem pre (h : Triple P act Q E) (hpre : ∀ s, P' s → P s) : Triple P' act Q E :=
  h.weaken hpre (fun _ _ hr => hr) fun _ _ he => he

/-- A fact that does not depend on the state. -/
theorem assume {p : Prop} (h : p → Triple P act Q E) : Triple (fun s => p ∧ P s) act Q E :=
  fun s hs => h hs.1 s hs.2

/-- Something that exists before. -/
theorem exists_pre {ι : Type} {R : ι → σ → Prop} (h : ∀ i, Triple (R i) act Q E) :
    Triple (fun s => ∃ i, R i s) act Q E := by
  rintro s ⟨i, hs⟩
  exact h i s hs

/-- One action after another. If the first is refused the second does not take place. -/
theorem bind {R : β → σ → Prop} {first : Action σ β} {next : β → Action σ α}
    (h : Triple P first R E) (hnext : ∀ r, Triple (R r) (next r) Q E) :
    Triple P (first >>= next) Q E := by
  intro s hs
  cases hfirst : first s with
  | error e t =>
      rw [bind_error hfirst]
      exact h.error hs hfirst
  | ok r t =>
      rw [bind_ok hfirst]
      exact hnext r t (h.ok hs hfirst)

theorem pure {r : α} (h : ∀ s, P s → Q r s) : Triple P (Pure.pure r : Action σ α) Q E :=
  h

/-- The state is read as it stands. -/
theorem get : Triple P (MonadState.get : Action σ σ) (fun r s => r = s ∧ P s) E :=
  fun _ hs => ⟨rfl, hs⟩

theorem refuse {cause : Fault} (h : ∀ s, P s → E (.fault cause) s) :
    Triple P (Action.refuse cause : Action σ α) Q E :=
  h

theorem of_except {result : Except Fault α} (hok : ∀ r s, P s → result = .ok r → Q r s)
    (herror : ∀ e s, P s → result = .error e → E (.fault e) s) :
    Triple P (Action.ofExcept result : Action σ α) Q E := by
  intro s hs
  cases result with
  | error e => exact herror e s hs rfl
  | ok r => exact hok r s hs rfl

theorem ite {c : Prop} [Decidable c] {other : Action σ α} (h : c → Triple P act Q E)
    (hother : ¬c → Triple P other Q E) : Triple P (if c then act else other) Q E := by
  split
  · exact h ‹_›
  · exact hother ‹_›

/-- One of two actions before the rest. -/
theorem choose {R : β → σ → Prop} {c : Prop} [Decidable c] {first other : Action σ β}
    {rest : β → Action σ α} (h : c → Triple P first R E) (hother : ¬c → Triple P other R E)
    (hrest : ∀ r, Triple (R r) (rest r) Q E) :
    Triple P (if c then first >>= rest else other >>= rest) Q E :=
  ite (fun hc => (h hc).bind hrest) fun hc => (hother hc).bind hrest

/-- An action that is taken only under a condition, before the rest. -/
theorem when {R : σ → Prop} {c : Prop} [Decidable c] {first : Action σ Unit}
    {rest : Unit → Action σ α} (h : c → Triple P first (fun _ => R) E)
    (hskip : ¬c → ∀ s, P s → R s) (hrest : ∀ r, Triple R (rest r) Q E) :
    Triple P (if c then first >>= rest else rest ()) Q E :=
  ite (fun hc => (h hc).bind hrest) fun hc => (hrest ()).pre (hskip hc)

/-- A condition that is refused before the rest. -/
theorem guard {c : Prop} [Decidable c] {cause : Fault} {rest : Unit → Action σ α}
    (h : c → ∀ s, P s → E (.fault cause) s) (hrest : ¬c → Triple P (rest ()) Q E) :
    Triple P (if c then (Action.refuse cause : Action σ Unit) >>= rest else rest ()) Q E :=
  ite (fun hc => (refuse (Q := fun _ _ => False) (h hc)).bind fun _ _ hs => hs.elim) hrest

end Triple
end Action

namespace Exec

open CallTree.Action (Triple)

variable {α : Type} {P : Activation → Prop} {E : Abort → Activation → Prop}

/-- The frame is read as it stands. -/
theorem frame_triple : Triple P Exec.frame (fun f x => P x ∧ f = x.frame) E :=
  fun _ hx => ⟨hx, rfl⟩

/-- A change to the frame. -/
theorem update_triple {Q : Unit → Activation → Prop} {g : Frame → Frame}
    (h : ∀ x, P x → Q () ⟨g x.frame, x.space⟩) : Triple P (Exec.update g) Q E :=
  h

/-- What no touch of the given parts can break is kept by every action within these parts. -/
theorem Within.triple {parts : List Part} {act : Exec α} (h : Within parts act)
    (hstable : ∀ part ∈ parts, ∀ x y, Touch part x y → P x → P y) :
    Triple P act (fun _ => P) (fun _ => P) :=
  .of_results (fun a _ b ha hact => (Action.after_ok hact ▸ h a : Touches parts a b).preserves
      hstable ha)
    fun a _ b ha hact => (Action.after_error hact ▸ h a : Touches parts a b).preserves hstable ha

/-! ## Actions that cannot overflow -/

/-- If the action is refused then for a fault. -/
def Safe (act : Exec α) : Prop :=
  ∀ a e b, act a = .error e b → e ≠ .overflow

namespace Safe

theorem consume_gas (amount : Nat) : Safe (Exec.consumeGas amount) := by
  rintro ⟨f, s⟩ e b hact rfl
  unfold Exec.consumeGas onFrame Frame.consumeGas GasMeter.consume at hact
  by_cases hrunning : f.running = true
  · by_cases hlt : f.gas.remaining < amount
    · simp [hrunning, hlt] at hact
    · simp [hrunning, hlt] at hact
  · simp [hrunning] at hact

/-- An action on the stack. -/
theorem on_stack {act : Action Stack α} (h : ∀ s e t, act s = .error e t → e ≠ .overflow) :
    Safe (Exec.onStack act) := by
  rintro ⟨f, _ | ⟨stack, memory, storage, pending⟩⟩ e b hact
  · cases hact
    simp
  · cases hstack : act stack with
    | ok r t => simp [onStack, hstack] at hact
    | error e' t =>
        simp only [onStack, hstack] at hact
        cases hact
        exact h stack e t hstack

theorem push (word : Word) : Safe (Exec.push word) := by
  refine on_stack fun s e t hact => ?_
  unfold Stack.push at hact
  split at hact
  · cases hact
    simp
  · cases hact

theorem pop : Safe Exec.pop := by
  refine on_stack fun s e t hact => ?_
  unfold Stack.pop at hact
  split at hact
  · cases hact
    simp
  · cases hact

theorem pop_amount : Safe Exec.popAmount := by
  refine on_stack fun s e t hact => ?_
  unfold Stack.popAmount Stack.pop at hact
  cases hitems : s.items.toList with
  | nil =>
      simp only [hitems] at hact
      cases hact
      simp
  | cons word rest => simp [hitems] at hact

theorem dup (n : Nat) : Safe (Exec.onStack (Stack.dup n)) := by
  refine on_stack fun s e t hact => ?_
  unfold Stack.dup Stack.push at hact
  split at hact
  · cases hact
    simp
  · split at hact
    · split at hact
      · cases hact
        simp
      · cases hact
    · cases hact
      simp

theorem swap (n : Nat) : Safe (Exec.onStack (Stack.swap n)) := by
  refine on_stack fun s e t hact => ?_
  unfold Stack.swap at hact
  split at hact
  · split at hact
    · cases hact
    · cases hact
      simp
  · cases hact
    simp

/-- Reading the slots. -/
theorem read_storage_with (g : Storage → α) : Safe (Exec.onStorage (Action.read g)) := by
  rintro ⟨f, _ | w⟩ e b hact
  · cases hact
    simp
  · cases hact

theorem store (key value : Word) :
    Safe (Exec.onStorage (Action.ofTotal (Storage.store key value))) := by
  rintro ⟨f, _ | w⟩ e b hact
  · cases hact
    simp
  · cases hact

end Safe

end Exec
end CallTree
