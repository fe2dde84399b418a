import KernelResources.Proofs.Ensures

/-!
# Actions and what they report

`Action.Yields action state journal done refused` is partial correctness for a given journal: if the
action returns, run from `state` with `journal`, then `done` or `refused` holds of the value or
error, of the final state, and of the journal that it leaves. So it can say what an action reports.

There is one rule for each way of building an action. `Action.Keeps` is the case of an invariant of
state and journal, which holds again however the action returns.
-/

namespace KernelResources

namespace Outcome

variable {ε σ α : Type}

/-- The journal that an action leaves behind. -/
def journal : Outcome ε σ α → Journal
  | .done _ _ journal => journal
  | .refused _ _ journal => journal
  | .halted _ journal => journal

/-- Whether an action was refused. -/
def isRefused : Outcome ε σ α → Bool
  | .refused .. => true
  | _ => false

end Outcome

namespace Action

variable {ε ε' σ τ α β : Type}

/-- Run from `state` with `journal`, the action satisfies `done` or `refused`, unless it halts. The
action itself is not to be run by unfolding this. -/
@[irreducible]
def Yields (action : Action ε σ α) (state : σ) (journal : Journal)
    (done : α → σ → Journal → Prop) (refused : ε → σ → Journal → Prop) : Prop :=
  match action state journal with
  | .done value state' journal' => done value state' journal'
  | .refused error state' journal' => refused error state' journal'
  | .halted _ _ => True

/-- The invariant holds again when the action returns. -/
def Keeps (action : Action ε σ α) (inv : σ → Journal → Prop) : Prop :=
  ∀ state journal, inv state journal →
    action.Yields state journal (fun _ => inv) fun _ => inv

variable {state : σ} {journal : Journal} {done : α → σ → Journal → Prop}
  {refused : ε → σ → Journal → Prop} {inv : σ → Journal → Prop}

/-- Weaker postconditions hold as well. -/
theorem Yields.mono {action : Action ε σ α} {done' : α → σ → Journal → Prop}
    {refused' : ε → σ → Journal → Prop} (h : action.Yields state journal done refused)
    (hdone : ∀ value state' journal', done value state' journal' → done' value state' journal')
    (hrefused : ∀ error state' journal', refused error state' journal' →
      refused' error state' journal') : action.Yields state journal done' refused' := by
  unfold Yields at h ⊢
  cases hout : action state journal with
  | done value state' journal' =>
    rw [hout] at h
    exact hdone _ _ _ h
  | refused error state' journal' =>
    rw [hout] at h
    exact hrefused _ _ _ h
  | halted cause journal' => trivial

theorem Yields.mono_done {action : Action ε σ α} {done' : α → σ → Journal → Prop}
    (h : action.Yields state journal done refused)
    (hdone : ∀ value state' journal', done value state' journal' → done' value state' journal') :
    action.Yields state journal done' refused :=
  h.mono hdone fun _ _ _ hrefused => hrefused

/-- What an action yields in two ways, it yields at once. -/
theorem Yields.and {action : Action ε σ α} {done' : α → σ → Journal → Prop}
    {refused' : ε → σ → Journal → Prop} (h : action.Yields state journal done refused)
    (h' : action.Yields state journal done' refused') :
    action.Yields state journal
      (fun value state' journal' => done value state' journal' ∧ done' value state' journal')
      fun error state' journal' =>
        refused error state' journal' ∧ refused' error state' journal' := by
  unfold Yields at h h' ⊢
  cases hout : action state journal with
  | done value state' journal' =>
    rw [hout] at h h'
    exact ⟨h, h'⟩
  | refused error state' journal' =>
    rw [hout] at h h'
    exact ⟨h, h'⟩
  | halted cause journal' => trivial

/-- An action that ensures something for every journal yields it for this one. -/
theorem Ensures.yields {action : Action ε σ α} {done : α → σ → Prop} {refused : ε → σ → Prop}
    (h : action.Ensures state done refused) (journal : Journal) :
    action.Yields state journal (fun value state' _ => done value state')
      fun error state' _ => refused error state' := by
  unfold Yields
  exact h journal

/-- What an action yields with every journal, it ensures. -/
theorem ensures_of_yields {action : Action ε σ α} {done : α → σ → Prop} {refused : ε → σ → Prop}
    (h : ∀ journal, action.Yields state journal (fun value state' _ => done value state')
      fun error state' _ => refused error state') : action.Ensures state done refused := by
  unfold Yields at h
  exact h

/-- What is yielded in both ways of returning holds of what is left behind. -/
theorem Yields.of_state? {action : Action ε σ α} {state' : σ}
    (h : action.Yields state journal (fun _ => inv) fun _ => inv)
    (hout : (action state journal).state? = some state') :
    inv state' (action state journal).journal := by
  unfold Yields at h
  cases hcase : action state journal with
  | done value final journal' =>
    rw [hcase] at h hout
    cases hout
    exact h
  | refused error final journal' =>
    rw [hcase] at h hout
    cases hout
    exact h
  | halted cause journal' =>
    rw [hcase] at hout
    cases hout

/-- What is yielded of a refusal holds where there was one. -/
theorem Yields.of_isRefused {action : Action ε σ α} {condition : Prop}
    (h : action.Yields state journal (fun _ _ _ => True) fun _ _ _ => condition)
    (hout : (action state journal).isRefused = true) : condition := by
  unfold Yields at h
  cases hcase : action state journal with
  | refused error final journal' =>
    rw [hcase] at h
    exact h
  | done value final journal' =>
    rw [hcase] at hout
    cases hout
  | halted cause journal' =>
    rw [hcase] at hout
    cases hout

theorem yields_pure {value : α} (h : done value state journal) :
    (pure value : Action ε σ α).Yields state journal done refused := by
  unfold Yields
  exact h

theorem yields_throw {error : ε} (h : refused error state journal) :
    (throw error : Action ε σ α).Yields state journal done refused := by
  unfold Yields
  exact h

theorem yields_halt {cause : Halt} :
    (halt cause : Action ε σ α).Yields state journal done refused := by
  unfold Yields
  trivial

theorem yields_modify {change : σ → σ} {done : PUnit → σ → Journal → Prop}
    (h : done ⟨⟩ (change state) journal) :
    (modify change : Action ε σ PUnit).Yields state journal done refused := by
  unfold Yields
  exact h

theorem yields_set {state' : σ} {done : PUnit → σ → Journal → Prop} (h : done ⟨⟩ state' journal) :
    (set state' : Action ε σ PUnit).Yields state journal done refused := by
  unfold Yields
  exact h

theorem yields_note {notice : Notice} {done : Unit → σ → Journal → Prop}
    (h : done () state (journal.push notice)) :
    (note notice : Action ε σ Unit).Yields state journal done refused := by
  unfold Yields
  exact h

/-- A sequence yields what its second part does wherever the first one is done. -/
theorem yields_bind {first : Action ε σ α} {next : α → Action ε σ β}
    {done : β → σ → Journal → Prop}
    (h : first.Yields state journal
      (fun value middle journal' => (next value).Yields middle journal' done refused) refused) :
    (first >>= next).Yields state journal done refused := by
  unfold Yields at h ⊢
  rw [apply_bind]
  cases hout : first state journal with
  | done value middle journal' =>
    rw [hout] at h
    exact h
  | refused error state' journal' =>
    rw [hout] at h
    exact h
  | halted cause journal' => trivial

/-- The rule of sequence for a first part of which something is known. -/
theorem Yields.bind {first : Action ε σ α} {next : α → Action ε σ β}
    {between : α → σ → Journal → Prop} {done : β → σ → Journal → Prop}
    (h : first.Yields state journal between refused)
    (hnext : ∀ value middle journal', between value middle journal' →
      (next value).Yields middle journal' done refused) :
    (first >>= next).Yields state journal done refused :=
  yields_bind (h.mono_done hnext)

/-- It makes no difference that the value is thrown away. -/
theorem keeps_of_discard {action : Action ε σ α}
    (h : (do let _ ← action : Action ε σ Unit).Keeps inv) : action.Keeps inv := by
  intro state journal hinv
  have hrun := h state journal hinv
  unfold Yields at hrun ⊢
  rw [apply_bind] at hrun
  cases hout : action state journal with
  | done value state' journal' =>
    rw [hout] at hrun
    exact hrun
  | refused error state' journal' =>
    rw [hout] at hrun
    exact hrun
  | halted cause journal' => trivial

/-- Looking at the state first makes no difference. -/
theorem yields_get {next : σ → Action ε σ α} (h : (next state).Yields state journal done refused) :
    (get >>= next : Action ε σ α).Yields state journal done refused := by
  unfold Yields at h ⊢
  exact h

theorem yields_refuseIf {condition : Prop} [Decidable condition] {error : ε}
    {done : Unit → σ → Journal → Prop} (hrefused : condition → refused error state journal)
    (hdone : ¬condition → done () state journal) :
    (refuseIf condition error : Action ε σ Unit).Yields state journal done refused := by
  by_cases h : condition
  · rw [refuseIf_of_pos h]
    exact yields_throw (hrefused h)
  · rw [refuseIf_of_neg h]
    exact yields_pure (hdone h)

theorem yields_ofOption {value? : Option α} {error : ε}
    (hrefused : value? = none → refused error state journal)
    (hdone : ∀ value, value? = some value → done value state journal) :
    (ofOption error value?).Yields state journal done refused := by
  cases value? with
  | none => exact yields_throw (hrefused rfl)
  | some value => exact yields_pure (hdone value rfl)

/-- An action that either returns a value or halts yields what holds of the value. -/
theorem yields_ite_halt {condition : Prop} [Decidable condition] {value : α} {cause : Halt}
    (h : condition → done value state journal) :
    (if condition then pure value else halt cause : Action ε σ α).Yields state journal
      done refused := by
  split
  · next hcondition => exact yields_pure (h hcondition)
  · exact yields_halt

/-- An attempt is always done: it hands on what the action would have been refused with. -/
theorem yields_attempt {action : Action ε σ α} {done : Except ε α → σ → Journal → Prop}
    {refused : ε' → σ → Journal → Prop}
    (h : action.Yields state journal (fun value => done (.ok value))
      fun error => done (.error error)) :
    (action.attempt : Action ε' σ (Except ε α)).Yields state journal done refused := by
  unfold Yields at h ⊢
  rw [apply_attempt]
  cases hout : action state journal with
  | done value state' journal' =>
    rw [hout] at h
    exact h
  | refused error state' journal' =>
    rw [hout] at h
    exact h
  | halted cause journal' => trivial

theorem yields_mapError {restate : ε → ε'} {action : Action ε σ α}
    {refused : ε' → σ → Journal → Prop}
    (h : action.Yields state journal done fun error => refused (restate error)) :
    (action.mapError restate).Yields state journal done refused := by
  unfold Yields at h ⊢
  rw [apply_mapError]
  cases hout : action state journal with
  | done value state' journal' =>
    rw [hout] at h
    exact h
  | refused error state' journal' =>
    rw [hout] at h
    exact h
  | halted cause journal' => trivial

/-- What an action does to a part of the state, it does inside the whole. -/
theorem yields_within {part : σ → τ} {replace : σ → τ → σ} {action : Action ε τ α}
    (h : action.Yields (part state) journal
      (fun value inner journal' => done value (replace state inner) journal')
      fun error inner journal' => refused error (replace state inner) journal') :
    (action.within part replace).Yields state journal done refused := by
  unfold Yields at h ⊢
  rw [apply_within]
  cases hout : action (part state) journal with
  | done value inner journal' =>
    rw [hout] at h
    exact h
  | refused error inner journal' =>
    rw [hout] at h
    exact h
  | halted cause journal' => trivial

/-- The rule of loops, for an invariant that may speak of the items that are still to come. -/
theorem yields_forM {action : α → Action ε σ PUnit} {items : List α}
    (inv : List α → σ → Journal → Prop)
    (hround : ∀ item rest state journal, inv (item :: rest) state journal →
      (action item).Yields state journal (fun _ => inv rest) refused)
    (hstart : inv items state journal) :
    (items.forM action).Yields state journal (fun _ => inv []) refused := by
  -- Induction on the items; what is left of them shrinks with each round.
  induction items generalizing state journal with
  | nil => exact yields_pure hstart
  | cons item rest ih =>
    exact (hround item rest state journal hstart).bind fun _ _ _ hmiddle => ih hmiddle

/-! ## Invariants -/

theorem keeps_pure (value : α) : (pure value : Action ε σ α).Keeps inv :=
  fun _ _ hinv => yields_pure hinv

theorem keeps_throw (error : ε) : (throw error : Action ε σ α).Keeps inv :=
  fun _ _ hinv => yields_throw hinv

theorem Keeps.bind {first : Action ε σ α} {next : α → Action ε σ β} (h : first.Keeps inv)
    (hnext : ∀ value, (next value).Keeps inv) : (first >>= next).Keeps inv :=
  fun state journal hinv => (h state journal hinv).bind fun value => hnext value

theorem keeps_get {next : σ → Action ε σ α} (h : ∀ state, (next state).Keeps inv) :
    (get >>= next : Action ε σ α).Keeps inv :=
  fun state journal hinv => yields_get (h state state journal hinv)

theorem keeps_modify {change : σ → σ}
    (h : ∀ state journal, inv state journal → inv (change state) journal) :
    (modify change : Action ε σ PUnit).Keeps inv :=
  fun state journal hinv => yields_modify (h state journal hinv)

theorem keeps_refuseIf (condition : Prop) [Decidable condition] (error : ε) :
    (refuseIf condition error : Action ε σ Unit).Keeps inv :=
  fun _ _ hinv => yields_refuseIf (fun _ => hinv) fun _ => hinv

theorem keeps_ofOption (error : ε) (value? : Option α) :
    (ofOption error value? : Action ε σ α).Keeps inv :=
  fun _ _ hinv => yields_ofOption (fun _ => hinv) fun _ _ => hinv

theorem keeps_ite_halt (condition : Prop) [Decidable condition] (value : α) (cause : Halt) :
    (if condition then pure value else halt cause : Action ε σ α).Keeps inv :=
  fun _ _ hinv => yields_ite_halt fun _ => hinv

theorem Keeps.attempt {action : Action ε σ α} (h : action.Keeps inv) :
    (action.attempt : Action ε' σ (Except ε α)).Keeps inv :=
  fun state journal hinv => yields_attempt (h state journal hinv)

theorem Keeps.mapError {action : Action ε σ α} (restate : ε → ε') (h : action.Keeps inv) :
    (action.mapError restate).Keeps inv :=
  fun state journal hinv => yields_mapError (h state journal hinv)

theorem Keeps.forM {action : α → Action ε σ PUnit} (h : ∀ item, (action item).Keeps inv)
    (items : List α) : (items.forM action).Keeps inv :=
  fun _ _ hinv => yields_forM (fun _ => inv) (fun item _ => h item) hinv

end Action

end KernelResources
