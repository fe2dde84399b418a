import KernelResources.Arithmetic
import KernelResources.Proofs.Settles

/-!
# Actions that may halt

`Action.Ensures action state done refused` is partial correctness: if the action returns, run from
`state`, its value and final state satisfy `done`, or its error and final state satisfy `refused`.
Nothing is said of an action that halts the kernel.

As for total correctness, there is one rule for each way of building an action.
-/

namespace KernelResources

namespace Outcome

variable {ε σ α : Type}

/-- The state that an action leaves behind, if it returns. -/
def state? : Outcome ε σ α → Option σ
  | .done _ state _ => some state
  | .refused _ state _ => some state
  | .halted _ _ => none

/-- Whether the action returned and passes a test. -/
def passes (test : α → σ → Journal → Bool) : Outcome ε σ α → Bool
  | .done value state journal => test value state journal
  | .refused _ _ _ => false
  | .halted _ _ => false

/-- Whether the action was refused and passes a test. -/
def failsWith (test : ε → σ → Journal → Bool) : Outcome ε σ α → Bool
  | .done _ _ _ => false
  | .refused error state journal => test error state journal
  | .halted _ _ => false

theorem passes_iff {test : α → σ → Journal → Bool} {outcome : Outcome ε σ α} :
    outcome.passes test = true ↔ ∃ value state journal,
      outcome = .done value state journal ∧ test value state journal = true := by
  cases outcome <;> simp [passes, and_assoc]

theorem failsWith_iff {test : ε → σ → Journal → Bool} {outcome : Outcome ε σ α} :
    outcome.failsWith test = true ↔ ∃ error state journal,
      outcome = .refused error state journal ∧ test error state journal = true := by
  cases outcome <;> simp [failsWith, and_assoc]

end Outcome

namespace Action

variable {ε ε' σ τ α β : Type}

/-- Run from `state`, the action satisfies `done` or `refused`, unless it halts. -/
def Ensures (action : Action ε σ α) (state : σ) (done : α → σ → Prop)
    (refused : ε → σ → Prop) : Prop :=
  ∀ journal, match action state journal with
    | .done value state' _ => done value state'
    | .refused error state' _ => refused error state'
    | .halted _ _ => True

variable {state : σ} {done : α → σ → Prop} {refused : ε → σ → Prop}

/-- Weaker postconditions hold as well. -/
theorem Ensures.mono {action : Action ε σ α} {done' : α → σ → Prop} {refused' : ε → σ → Prop}
    (h : action.Ensures state done refused)
    (hdone : ∀ value state', done value state' → done' value state')
    (hrefused : ∀ error state', refused error state' → refused' error state') :
    action.Ensures state done' refused' := by
  intro journal
  have hrun := h journal
  cases hout : action state journal with
  | done value state' journal' =>
    rw [hout] at hrun
    exact hdone _ _ hrun
  | refused error state' journal' =>
    rw [hout] at hrun
    exact hrefused _ _ hrun
  | halted cause journal' => trivial

theorem Ensures.mono_done {action : Action ε σ α} {done' : α → σ → Prop}
    (h : action.Ensures state done refused)
    (hdone : ∀ value state', done value state' → done' value state') :
    action.Ensures state done' refused :=
  h.mono hdone fun _ _ hrefused => hrefused

/-- An action that settles ensures what it settles with. -/
theorem Settles.ensures {action : Action ε σ α} (h : action.Settles state done refused) :
    action.Ensures state done refused := by
  intro journal
  have hrun := h journal
  cases hout : action state journal with
  | done value state' journal' =>
    rw [hout] at hrun
    exact hrun.2
  | refused error state' journal' =>
    rw [hout] at hrun
    exact hrun.2
  | halted cause journal' => trivial

/-- An action that settles does so with all that it ensures. -/
theorem Settles.and {action : Action ε σ α} {done' : α → σ → Prop} {refused' : ε → σ → Prop}
    (h : action.Settles state done refused) (h' : action.Ensures state done' refused') :
    action.Settles state (fun value state' => done value state' ∧ done' value state')
      fun error state' => refused error state' ∧ refused' error state' := by
  intro journal
  have hrun := h journal
  have hrun' := h' journal
  cases hout : action state journal with
  | done value state' journal' =>
    rw [hout] at hrun hrun'
    exact ⟨hrun.1, hrun.2, hrun'⟩
  | refused error state' journal' =>
    rw [hout] at hrun hrun'
    exact ⟨hrun.1, hrun.2, hrun'⟩
  | halted cause journal' =>
    rw [hout] at hrun
    exact hrun.elim

/-- What is ensured of being done may be added to what is known of it. -/
theorem Settles.also {action : Action ε σ α} {done' : α → σ → Prop}
    (h : action.Settles state done refused) (h' : action.Ensures state done' fun _ _ => True) :
    action.Settles state (fun value state' => done value state' ∧ done' value state') refused :=
  (h.and h').mono (fun _ _ hdone => hdone) fun _ _ hrefused => hrefused.1

/-- What is ensured of being done holds of an action that is done. -/
theorem Ensures.of_done {action : Action ε σ α} (h : action.Ensures state done refused) {value : α}
    {state' : σ} {journal journal' : Journal}
    (hout : action state journal = .done value state' journal') : done value state' := by
  have hrun := h journal
  rwa [hout] at hrun

/-- What is ensured of both ways of returning holds of the state that is left behind. -/
theorem Ensures.of_state? {action : Action ε σ α} {post : σ → Prop}
    (h : action.Ensures state (fun _ => post) fun _ => post) {state' : σ} {journal : Journal}
    (hout : (action state journal).state? = some state') : post state' := by
  have hrun := h journal
  cases hcase : action state journal with
  | done value final journal' =>
    rw [hcase] at hrun hout
    exact Option.some.inj hout ▸ hrun
  | refused error final journal' =>
    rw [hcase] at hrun hout
    exact Option.some.inj hout ▸ hrun
  | halted cause journal' =>
    rw [hcase] at hout
    cases hout

theorem ensures_pure {value : α} (h : done value state) :
    (pure value : Action ε σ α).Ensures state done refused := fun _ => h

theorem ensures_throw {error : ε} (h : refused error state) :
    (throw error : Action ε σ α).Ensures state done refused := fun _ => h

theorem ensures_halt {cause : Halt} : (halt cause : Action ε σ α).Ensures state done refused :=
  fun _ => trivial

theorem ensures_modify {change : σ → σ} {done : PUnit → σ → Prop} (h : done ⟨⟩ (change state)) :
    (modify change : Action ε σ PUnit).Ensures state done refused := fun _ => h

theorem ensures_note {notice : Notice} {done : Unit → σ → Prop} (h : done () state) :
    (note notice : Action ε σ Unit).Ensures state done refused := fun _ => h

/-- A sequence ensures what its second part does wherever the first one is done. -/
theorem ensures_bind {first : Action ε σ α} {next : α → Action ε σ β} {done : β → σ → Prop}
    (h : first.Ensures state (fun value middle => (next value).Ensures middle done refused)
      refused) : (first >>= next).Ensures state done refused := by
  intro journal
  have hfirst := h journal
  rw [apply_bind]
  cases hout : first state journal with
  | done value middle journalMiddle =>
    rw [hout] at hfirst
    exact hfirst journalMiddle
  | refused error state' journal' =>
    rw [hout] at hfirst
    exact hfirst
  | halted cause journal' => trivial

/-- The rule of sequence for a first part of which something is known. -/
theorem Ensures.bind {first : Action ε σ α} {next : α → Action ε σ β} {between : α → σ → Prop}
    {done : β → σ → Prop} (h : first.Ensures state between refused)
    (hnext : ∀ value middle, between value middle → (next value).Ensures middle done refused) :
    (first >>= next).Ensures state done refused :=
  ensures_bind (h.mono_done hnext)

/-- It makes no difference what is made of the value. -/
theorem ensures_of_return {action : Action ε σ α} (result : α → β) {post : σ → Prop}
    (h : (do return result (← action) : Action ε σ β).Ensures state (fun _ => post) refused) :
    action.Ensures state (fun _ => post) refused := by
  intro journal
  have hrun := h journal
  rw [apply_bind] at hrun
  cases hout : action state journal with
  | done value state' journal' =>
    rw [hout] at hrun
    exact hrun
  | refused error state' journal' =>
    rw [hout] at hrun
    exact hrun
  | halted cause journal' => trivial

/-- It makes no difference that the value is thrown away. -/
theorem ensures_of_discard {action : Action ε σ α} {post : σ → Prop}
    (h : (do let _ ← action : Action ε σ Unit).Ensures state (fun _ => post) refused) :
    action.Ensures state (fun _ => post) refused :=
  ensures_of_return (fun _ => ()) h

/-- Looking at the state first makes no difference. -/
theorem ensures_get {next : σ → Action ε σ α} (h : (next state).Ensures state done refused) :
    (get >>= next : Action ε σ α).Ensures state done refused := h

theorem ensures_refuseIf {condition : Prop} [Decidable condition] {error : ε}
    {done : Unit → σ → Prop} (hrefused : condition → refused error state)
    (hdone : ¬condition → done () state) :
    (refuseIf condition error : Action ε σ Unit).Ensures state done refused := by
  by_cases h : condition
  · rw [refuseIf_of_pos h]
    exact ensures_throw (hrefused h)
  · rw [refuseIf_of_neg h]
    exact ensures_pure (hdone h)

theorem ensures_ofOption {value? : Option α} {error : ε}
    (hrefused : value? = none → refused error state)
    (hdone : ∀ value, value? = some value → done value state) :
    (ofOption error value?).Ensures state done refused := by
  cases value? with
  | none => exact ensures_throw (hrefused rfl)
  | some value => exact ensures_pure (hdone value rfl)

theorem ensures_add {width a b : Nat} {done : Nat → σ → Prop}
    (h : a + b < bitRange width → done (a + b) state) :
    (add width a b : Action ε σ Nat).Ensures state done refused := by
  unfold add
  split
  · exact ensures_pure (h ‹_›)
  · exact ensures_halt

theorem ensures_subtract {a b : Nat} {done : Nat → σ → Prop} (h : done (a - b) state) :
    (subtract a b : Action ε σ Nat).Ensures state done refused := by
  unfold subtract
  split
  · exact ensures_pure h
  · exact ensures_halt

/-- An attempt is always done: it hands on what the action would have been refused with. -/
theorem ensures_attempt {action : Action ε σ α} {done : Except ε α → σ → Prop}
    {refused : ε' → σ → Prop}
    (h : action.Ensures state (fun value => done (.ok value)) fun error => done (.error error)) :
    (action.attempt : Action ε' σ (Except ε α)).Ensures state done refused := by
  intro journal
  have hrun := h journal
  rw [apply_attempt]
  cases hout : action state journal with
  | done value state' journal' =>
    rw [hout] at hrun
    exact hrun
  | refused error state' journal' =>
    rw [hout] at hrun
    exact hrun
  | halted cause journal' => trivial

/-- An action that is never refused is not refused among others either. -/
theorem ensures_unrefused {action : Total σ α}
    (h : action.Ensures state done fun _ _ => False) :
    (action.unrefused : Action ε σ α).Ensures state done refused := by
  intro journal
  have hrun := h journal
  rw [unrefused, apply_mapError]
  cases hout : action state journal with
  | done value state' journal' =>
    rw [hout] at hrun
    exact hrun
  | refused error state' journal' => exact error.elim
  | halted cause journal' => trivial

/-- The rule of loops, for an invariant of the state. -/
theorem ensures_forM {action : α → Action ε σ PUnit} {items : List α} (inv : σ → Prop)
    (hround : ∀ item ∈ items, ∀ state, inv state →
      (action item).Ensures state (fun _ => inv) refused)
    (hstart : inv state) : (items.forM action).Ensures state (fun _ => inv) refused := by
  induction items generalizing state with
  | nil => exact ensures_pure hstart
  | cons item rest ih =>
    refine (hround item List.mem_cons_self state hstart).bind fun _ _ hmiddle => ih ?_ hmiddle
    exact fun other hother => hround other (List.mem_cons_of_mem _ hother)

/-- What an action does to a part of the state, it does inside the whole. -/
theorem ensures_within {part : σ → τ} {replace : σ → τ → σ} {action : Action ε τ α}
    (h : action.Ensures (part state) (fun value inner => done value (replace state inner))
      fun error inner => refused error (replace state inner)) :
    (action.within part replace).Ensures state done refused := by
  intro journal
  have hrun := h journal
  rw [apply_within]
  cases hout : action (part state) journal with
  | done value inner journal' =>
    rw [hout] at hrun
    exact hrun
  | refused error inner journal' =>
    rw [hout] at hrun
    exact hrun
  | halted cause journal' => trivial

/-- Every action ensures what holds of all ways of returning. -/
theorem ensures_of_forall {action : Action ε σ α} (hdone : ∀ value state', done value state')
    (hrefused : ∀ error state', refused error state') : action.Ensures state done refused := by
  intro journal
  cases action state journal with
  | done value state' journal' => exact hdone _ _
  | refused error state' journal' => exact hrefused _ _
  | halted cause journal' => trivial

end Action

end KernelResources
