import KernelResources.Proofs.Ensures

/-!
# Actions that return

`Action.Returns action state post` says that the action does not halt the kernel when it is run from
`state`, and that `post` holds of the state that it leaves behind, whether it is done or refused.
What it reports makes no difference.

There is one rule for each way of building an action. `Action.Survives` is the case of an invariant
of the state, from which the action always returns, and which holds again when it does.
-/

namespace KernelResources

namespace Outcome

variable {ε σ α β : Type}

/-- An outcome with a state is one that was not halted. -/
theorem state?_eq_some_iff {outcome : Outcome ε σ α} {state : σ} :
    outcome.state? = some state ↔
      (∃ value journal, outcome = .done value state journal) ∨
        ∃ error journal, outcome = .refused error state journal := by
  cases outcome <;> simp [state?]

end Outcome

namespace Action

variable {ε ε' σ τ α β : Type}

/-- Run from `state`, the action returns, and leaves a state behind of which `post` holds. The
action itself is not to be run by unfolding this. -/
@[irreducible]
def Returns (action : Action ε σ α) (state : σ) (post : σ → Prop) : Prop :=
  ∀ journal, ∃ state', (action state journal).state? = some state' ∧ post state'

/-- Run from any state that satisfies the invariant, the action returns, and the invariant holds
again. -/
def Survives (action : Action ε σ α) (inv : σ → Prop) : Prop :=
  ∀ state, inv state → action.Returns state inv

variable {state : σ} {post inv : σ → Prop}

/-- It makes no difference to the state what is made of the value. -/
theorem state?_map (change : α → β) (action : Action ε σ α) (state : σ) (journal : Journal) :
    ((change <$> action) state journal).state? = (action state journal).state? := by
  rw [apply_map]
  cases action state journal <;> rfl

theorem Returns.exists_state? {action : Action ε σ α} (h : action.Returns state post)
    (journal : Journal) :
    ∃ state', (action state journal).state? = some state' ∧ post state' := by
  unfold Returns at h
  exact h journal

theorem returns_of_exists {action : Action ε σ α}
    (h : ∀ journal, ∃ state', (action state journal).state? = some state' ∧ post state') :
    action.Returns state post := by
  unfold Returns
  exact h

/-- Less may be said of the state. -/
theorem Returns.mono {action : Action ε σ α} {post' : σ → Prop} (h : action.Returns state post)
    (hpost : ∀ state', post state' → post' state') : action.Returns state post' :=
  returns_of_exists fun journal =>
    let ⟨state', hstate, hholds⟩ := h.exists_state? journal
    ⟨state', hstate, hpost state' hholds⟩

theorem returns_pure {value : α} (h : post state) :
    (pure value : Action ε σ α).Returns state post :=
  returns_of_exists fun _ => ⟨state, rfl, h⟩

theorem returns_throw {error : ε} (h : post state) :
    (throw error : Action ε σ α).Returns state post :=
  returns_of_exists fun _ => ⟨state, rfl, h⟩

theorem returns_modify {change : σ → σ} (h : post (change state)) :
    (modify change : Action ε σ PUnit).Returns state post :=
  returns_of_exists fun _ => ⟨change state, rfl, h⟩

theorem returns_note {notice : Notice} (h : post state) :
    (note notice : Action ε σ Unit).Returns state post :=
  returns_of_exists fun _ => ⟨state, rfl, h⟩

/-- A sequence returns if its second part does, from wherever the first one ends. If the first part
is refused, its state is the last one. -/
theorem Returns.bind {first : Action ε σ α} {next : α → Action ε σ β} {between : σ → Prop}
    (h : first.Returns state between)
    (hnext : ∀ value middle, between middle → (next value).Returns middle post)
    (hrefused : ∀ middle, between middle → post middle) :
    (first >>= next).Returns state post := by
  refine returns_of_exists fun journal => ?_
  obtain ⟨middle, hmiddle, hbetween⟩ := h.exists_state? journal
  obtain ⟨value, journal', hout⟩ | ⟨error, journal', hout⟩ :=
    Outcome.state?_eq_some_iff.mp hmiddle
  · rw [bind_of_done hout]
    exact (hnext value middle hbetween).exists_state? journal'
  · rw [bind_of_refused hout]
    exact ⟨middle, rfl, hrefused middle hbetween⟩

/-- Looking at the state first makes no difference. -/
theorem returns_get {next : σ → Action ε σ α} (h : (next state).Returns state post) :
    (get >>= next : Action ε σ α).Returns state post :=
  returns_of_exists h.exists_state?

/-- What comes after a check needs to return only where the check is passed. -/
theorem returns_refuseIf {condition : Prop} [Decidable condition] {error : ε}
    {next : Unit → Action ε σ α} (hrefused : condition → post state)
    (hnext : ¬condition → (next ()).Returns state post) :
    (refuseIf condition error >>= next).Returns state post := by
  by_cases h : condition
  · rw [refuseIf_of_pos h]
    exact returns_of_exists fun _ => ⟨state, rfl, hrefused h⟩
  · rw [refuseIf_of_neg h, pure_bind]
    exact hnext h

/-- What comes after a value that is needed has to return only where the value is present. -/
theorem returns_ofOption {value? : Option α} {error : ε} {next : α → Action ε σ β}
    (hrefused : value? = none → post state)
    (hnext : ∀ value, value? = some value → (next value).Returns state post) :
    (ofOption error value? >>= next).Returns state post := by
  cases value? with
  | none => exact returns_of_exists fun _ => ⟨state, rfl, hrefused rfl⟩
  | some value =>
    rw [ofOption_some, pure_bind]
    exact hnext value rfl

/-! ## Invariants -/

theorem survives_pure (value : α) : (pure value : Action ε σ α).Survives inv :=
  fun _ => returns_pure

theorem survives_throw (error : ε) : (throw error : Action ε σ α).Survives inv :=
  fun _ => returns_throw

theorem survives_note (notice : Notice) : (note notice : Action ε σ Unit).Survives inv :=
  fun _ => returns_note

theorem survives_modify {change : σ → σ} (h : ∀ state, inv state → inv (change state)) :
    (modify change : Action ε σ PUnit).Survives inv :=
  fun state hinv => returns_modify (h state hinv)

theorem Survives.bind {first : Action ε σ α} {next : α → Action ε σ β} (h : first.Survives inv)
    (hnext : ∀ value, (next value).Survives inv) : (first >>= next).Survives inv :=
  fun state hinv => (h state hinv).bind (fun value middle => hnext value middle) fun _ => id

/-- What the state holds may decide how to go on. -/
theorem survives_get {next : σ → Action ε σ α} (h : ∀ state, (next state).Survives inv) :
    (get >>= next : Action ε σ α).Survives inv :=
  fun state hinv => returns_get (h state state hinv)

theorem survives_refuseIf (condition : Prop) [Decidable condition] (error : ε) :
    (refuseIf condition error : Action ε σ Unit).Survives inv := by
  unfold refuseIf
  split
  · exact survives_throw error
  · exact survives_pure ()

theorem survives_ofOption (error : ε) (value? : Option α) :
    (ofOption error value? : Action ε σ α).Survives inv := by
  cases value? with
  | none => exact survives_throw error
  | some value => exact survives_pure value

theorem Survives.attempt {action : Action ε σ α} (h : action.Survives inv) :
    (action.attempt : Action ε' σ (Except ε α)).Survives inv := by
  refine fun state hinv => returns_of_exists fun journal => ?_
  obtain ⟨state', hstate, hinv'⟩ := (h state hinv).exists_state? journal
  refine ⟨state', ?_, hinv'⟩
  rw [apply_attempt, ← hstate]
  cases action state journal <;> rfl

theorem Survives.mapError {action : Action ε σ α} (restate : ε → ε') (h : action.Survives inv) :
    (action.mapError restate).Survives inv := by
  refine fun state hinv => returns_of_exists fun journal => ?_
  obtain ⟨state', hstate, hinv'⟩ := (h state hinv).exists_state? journal
  refine ⟨state', ?_, hinv'⟩
  rw [apply_mapError, ← hstate]
  cases action state journal <;> rfl

/-- An action on a part of the state returns if it does on that part alone. -/
theorem Survives.within {part : σ → τ} {replace : σ → τ → σ} {action : Action ε τ α}
    {inner : τ → Prop} (h : action.Survives inner) (hpart : ∀ state, inv state → inner (part state))
    (hreplace : ∀ state value, inv state → inner value → inv (replace state value)) :
    (action.within part replace).Survives inv := by
  refine fun state hinv => returns_of_exists fun journal => ?_
  obtain ⟨value, hvalue, hinner⟩ := (h _ (hpart state hinv)).exists_state? journal
  refine ⟨replace state value, ?_, hreplace state value hinv hinner⟩
  obtain ⟨result, journal', hout⟩ | ⟨error, journal', hout⟩ :=
    Outcome.state?_eq_some_iff.mp hvalue
  · rw [within_of_done hout]
    rfl
  · rw [within_of_refused hout]
    rfl

/-- A loop returns if every round does. -/
theorem Survives.forM {action : α → Action ε σ PUnit} {items : List α}
    (h : ∀ item ∈ items, (action item).Survives inv) : (items.forM action).Survives inv := by
  induction items with
  | nil => exact survives_pure PUnit.unit
  | cons item rest ih =>
    refine Survives.bind (h item List.mem_cons_self) fun _ => ih fun other hother => ?_
    exact h other (List.mem_cons_of_mem item hother)

end Action

end KernelResources
