import KernelResources.Journal

/-!
# Actions

An `Action ε σ α` is one kernel operation: it acts on a state `σ`, may add notices to the journal,
and ends in one of three ways. It is *done* with a value in `α`, it is *refused* with an error in
`ε`, or it *halts* the kernel. A refusal keeps what was changed before it; nothing is rolled back.

The lemmas `apply_bind`, `bind_eq_done` and their companions say how a sequence of actions runs,
so later proofs do not look inside `bind`.
-/

namespace KernelResources

/-- How an action ends. -/
inductive Outcome (ε σ α : Type) where
  /-- The action returned `value`. -/
  | done (value : α) (state : σ) (journal : Journal)
  /-- The action was refused; `state` holds what it had changed by then. -/
  | refused (error : ε) (state : σ) (journal : Journal)
  /-- The action never returned. -/
  | halted (cause : Halt) (journal : Journal)

/-- An operation on a state `σ` with results in `α` and errors in `ε`. -/
def Action (ε σ α : Type) : Type := σ → Journal → Outcome ε σ α

/-- An operation that is never refused. -/
abbrev Total (σ α : Type) : Type := Action Empty σ α

namespace Action

variable {ε ε' σ τ α β : Type}

/-- Returns a value and does nothing else. -/
@[always_inline, inline]
protected def pure (value : α) : Action ε σ α := fun state journal => .done value state journal

/-- Runs one action and, if it is done, the next. -/
@[always_inline, inline]
protected def bind (first : Action ε σ α) (next : α → Action ε σ β) : Action ε σ β :=
  fun state journal =>
    match first state journal with
    | .done value state journal => next value state journal
    | .refused error state journal => .refused error state journal
    | .halted cause journal => .halted cause journal

instance : Monad (Action ε σ) where
  pure := Action.pure
  bind := Action.bind

/-- Refuses the request. -/
@[always_inline, inline]
protected def throw (error : ε) : Action ε σ α := fun state journal => .refused error state journal

/-- Runs `handle` in place of the rest if `first` is refused. -/
@[always_inline, inline]
protected def tryCatch (first : Action ε σ α) (handle : ε → Action ε σ α) : Action ε σ α :=
  fun state journal =>
    match first state journal with
    | .refused error state journal => handle error state journal
    | .done value state journal => .done value state journal
    | .halted cause journal => .halted cause journal

instance : MonadExceptOf ε (Action ε σ) where
  throw := Action.throw
  tryCatch := Action.tryCatch

instance : MonadStateOf σ (Action ε σ) where
  get := fun state journal => .done state state journal
  set := fun state _ journal => .done () state journal
  modifyGet := fun change state journal =>
    match change state with
    | (value, state) => .done value state journal

/-- Stops the kernel. -/
@[always_inline, inline]
def halt (cause : Halt) : Action ε σ α := fun _ journal => .halted cause journal

/-- Adds a notice to the journal. -/
@[always_inline, inline]
def note (notice : Notice) : Action ε σ Unit := fun state journal =>
  .done () state (journal.push notice)

/-- Runs an action and hands a refusal to the caller as a value. -/
@[always_inline, inline]
def attempt (action : Action ε σ α) : Action ε' σ (Except ε α) := fun state journal =>
  match action state journal with
  | .done value state journal => .done (.ok value) state journal
  | .refused error state journal => .done (.error error) state journal
  | .halted cause journal => .halted cause journal

/-- Restates the refusals of an action. -/
@[always_inline, inline]
def mapError (restate : ε → ε') (action : Action ε σ α) : Action ε' σ α := fun state journal =>
  match action state journal with
  | .done value state journal => .done value state journal
  | .refused error state journal => .refused (restate error) state journal
  | .halted cause journal => .halted cause journal

/-- An action that is never refused fits among actions with any kind of error. -/
@[always_inline, inline]
def unrefused (action : Total σ α) : Action ε σ α := action.mapError Empty.elim

/-- Runs an action on a state of its own, starting from `initial`, and returns that state. -/
@[always_inline, inline]
def running (initial : τ) (action : Action ε τ α) : Action ε σ (α × τ) := fun state journal =>
  match action initial journal with
  | .done value inner journal => .done (value, inner) state journal
  | .refused error _ journal => .refused error state journal
  | .halted cause journal => .halted cause journal

/-- Runs an action on a part of the state, which is put back however the action ends. -/
@[always_inline, inline]
def within (part : σ → τ) (replace : σ → τ → σ) (action : Action ε τ α) : Action ε σ α :=
  fun state journal =>
    match action (part state) journal with
    | .done value inner journal => .done value (replace state inner) journal
    | .refused error inner journal => .refused error (replace state inner) journal
    | .halted cause journal => .halted cause journal

/-- Refuses with `error` where `condition` holds. -/
@[always_inline, inline]
def refuseIf (condition : Prop) [Decidable condition] (error : ε) : Action ε σ Unit :=
  if condition then throw error else pure ()

/-- Refuses with `error` unless a value is present. -/
@[always_inline, inline]
def ofOption (error : ε) : Option α → Action ε σ α
  | some value => pure value
  | none => throw error

section Laws

variable (state : σ) (journal : Journal)

@[simp] theorem apply_pure (value : α) :
    (pure value : Action ε σ α) state journal = .done value state journal := rfl

theorem apply_bind (first : Action ε σ α) (next : α → Action ε σ β) :
    (first >>= next) state journal =
      match first state journal with
      | .done value state journal => next value state journal
      | .refused error state journal => .refused error state journal
      | .halted cause journal => .halted cause journal := rfl

@[simp] theorem apply_throw (error : ε) :
    (throw error : Action ε σ α) state journal = .refused error state journal := rfl

@[simp] theorem apply_get :
    (get : Action ε σ σ) state journal = .done state state journal := rfl

@[simp] theorem apply_set (state' : σ) :
    (set state' : Action ε σ PUnit) state journal = .done () state' journal := rfl

@[simp] theorem apply_modify (change : σ → σ) :
    (modify change : Action ε σ PUnit) state journal = .done () (change state) journal := rfl

@[simp] theorem apply_halt (cause : Halt) :
    (halt cause : Action ε σ α) state journal = .halted cause journal := rfl

@[simp] theorem apply_note (notice : Notice) :
    (note notice : Action ε σ Unit) state journal = .done () state (journal.push notice) := rfl

theorem apply_map (change : α → β) (action : Action ε σ α) :
    (change <$> action) state journal =
      match action state journal with
      | .done value state journal => .done (change value) state journal
      | .refused error state journal => .refused error state journal
      | .halted cause journal => .halted cause journal := rfl

theorem apply_attempt (action : Action ε σ α) :
    (action.attempt : Action ε' σ (Except ε α)) state journal =
      match action state journal with
      | .done value state journal => .done (.ok value) state journal
      | .refused error state journal => .done (.error error) state journal
      | .halted cause journal => .halted cause journal := rfl

theorem apply_mapError (restate : ε → ε') (action : Action ε σ α) :
    action.mapError restate state journal =
      match action state journal with
      | .done value state journal => .done value state journal
      | .refused error state journal => .refused (restate error) state journal
      | .halted cause journal => .halted cause journal := rfl

theorem apply_within (part : σ → τ) (replace : σ → τ → σ) (action : Action ε τ α) :
    action.within part replace state journal =
      match action (part state) journal with
      | .done value inner journal => .done value (replace state inner) journal
      | .refused error inner journal => .refused error (replace state inner) journal
      | .halted cause journal => .halted cause journal := rfl

/-- A sequence that begins by looking at the state goes on with what it saw. -/
theorem get_bind (next : σ → Action ε σ α) :
    (get >>= next : Action ε σ α) state journal = next state state journal := rfl

theorem refuseIf_of_pos {condition : Prop} [Decidable condition] {error : ε} (h : condition) :
    (refuseIf condition error : Action ε σ Unit) = throw error := if_pos h

theorem refuseIf_of_neg {condition : Prop} [Decidable condition] {error : ε} (h : ¬condition) :
    (refuseIf condition error : Action ε σ Unit) = pure () := if_neg h

@[simp] theorem ofOption_some (error : ε) (value : α) :
    (ofOption error (some value) : Action ε σ α) = pure value := rfl

@[simp] theorem ofOption_none (error : ε) :
    (ofOption error none : Action ε σ α) = throw error := rfl

variable {state journal}

/-- A sequence goes on from where its first part is done. -/
theorem bind_of_done {first : Action ε σ α} {next : α → Action ε σ β} {value : α} {middle : σ}
    {journalMiddle : Journal} (h : first state journal = .done value middle journalMiddle) :
    (first >>= next) state journal = next value middle journalMiddle := by
  rw [apply_bind, h]

/-- A sequence ends where its first part is refused. -/
theorem bind_of_refused {first : Action ε σ α} {next : α → Action ε σ β} {error : ε} {state' : σ}
    {journal' : Journal} (h : first state journal = .refused error state' journal') :
    (first >>= next) state journal = .refused error state' journal' := by
  rw [apply_bind, h]

theorem attempt_of_done {action : Action ε σ α} {value : α} {state' : σ} {journal' : Journal}
    (h : action state journal = .done value state' journal') :
    (action.attempt : Action ε' σ (Except ε α)) state journal =
      .done (.ok value) state' journal' := by
  rw [apply_attempt, h]

theorem attempt_of_refused {action : Action ε σ α} {error : ε} {state' : σ} {journal' : Journal}
    (h : action state journal = .refused error state' journal') :
    (action.attempt : Action ε' σ (Except ε α)) state journal =
      .done (.error error) state' journal' := by
  rw [apply_attempt, h]

theorem unrefused_of_done {action : Total σ α} {value : α} {state' : σ} {journal' : Journal}
    (h : action state journal = .done value state' journal') :
    (action.unrefused : Action ε σ α) state journal = .done value state' journal' := by
  rw [unrefused, apply_mapError, h]

theorem running_of_done {action : Action ε τ α} {initial inner : τ} {value : α}
    {journal' : Journal} (h : action initial journal = .done value inner journal') :
    (action.running initial : Action ε σ (α × τ)) state journal =
      .done (value, inner) state journal' := by
  simp only [running, h]

theorem within_of_done {part : σ → τ} {replace : σ → τ → σ} {action : Action ε τ α} {value : α}
    {inner : τ} {journal' : Journal}
    (h : action (part state) journal = .done value inner journal') :
    action.within part replace state journal = .done value (replace state inner) journal' := by
  rw [apply_within, h]

theorem within_of_refused {part : σ → τ} {replace : σ → τ → σ} {action : Action ε τ α} {error : ε}
    {inner : τ} {journal' : Journal}
    (h : action (part state) journal = .refused error inner journal') :
    action.within part replace state journal = .refused error (replace state inner) journal' := by
  rw [apply_within, h]

/-- If every round of a loop is done, then so is the loop. What the rounds rely on, `inv`, may
speak of the items that are still to come. -/
theorem forM_eq_done (action : α → Action ε σ PUnit) (step : σ → α → σ)
    (inv : List α → σ → Prop)
    (hstep : ∀ item rest state, inv (item :: rest) state →
      (∀ journal, action item state journal = .done ⟨⟩ (step state item) journal) ∧
        inv rest (step state item)) (items : List α) (state : σ) (hinv : inv items state) :
    (∀ journal, items.forM action state journal = .done ⟨⟩ (items.foldl step state) journal) ∧
      inv [] (items.foldl step state) := by
  induction items generalizing state with
  | nil => exact ⟨fun _ => rfl, hinv⟩
  | cons item rest ih =>
    obtain ⟨hdone, hrest⟩ := hstep item rest state hinv
    obtain ⟨hloop, hend⟩ := ih _ hrest
    refine ⟨fun journal => ?_, hend⟩
    show (action item >>= fun _ => rest.forM action) state journal = _
    rw [bind_of_done (hdone journal)]
    exact hloop journal

/-- A sequence is done exactly when both of its parts are. -/
theorem bind_eq_done {first : Action ε σ α} {next : α → Action ε σ β}
    {value : β} {state' : σ} {journal' : Journal} :
    (first >>= next) state journal = .done value state' journal' ↔
      ∃ between middle journalMiddle,
        first state journal = .done between middle journalMiddle ∧
          next between middle journalMiddle = .done value state' journal' := by
  rw [apply_bind]
  constructor
  · intro h
    split at h
    · exact ⟨_, _, _, ‹_›, h⟩
    · cases h
    · cases h
  · rintro ⟨_, _, _, hfirst, hnext⟩
    rw [hfirst]
    exact hnext

/-- A sequence is refused where one of its parts is. -/
theorem bind_eq_refused {first : Action ε σ α} {next : α → Action ε σ β}
    {error : ε} {state' : σ} {journal' : Journal} :
    (first >>= next) state journal = .refused error state' journal' ↔
      first state journal = .refused error state' journal' ∨
        ∃ between middle journalMiddle,
          first state journal = .done between middle journalMiddle ∧
            next between middle journalMiddle = .refused error state' journal' := by
  rw [apply_bind]
  constructor
  · intro h
    split at h
    · exact .inr ⟨_, _, _, ‹_›, h⟩
    · cases h
      exact .inl ‹_›
    · cases h
  · rintro (hfirst | ⟨_, _, _, hfirst, hnext⟩)
    · rw [hfirst]
    · rw [hfirst]
      exact hnext

/-- A sequence halts where one of its parts does. -/
theorem bind_eq_halted {first : Action ε σ α} {next : α → Action ε σ β}
    {cause : Halt} {journal' : Journal} :
    (first >>= next) state journal = .halted cause journal' ↔
      first state journal = .halted cause journal' ∨
        ∃ between middle journalMiddle,
          first state journal = .done between middle journalMiddle ∧
            next between middle journalMiddle = .halted cause journal' := by
  rw [apply_bind]
  constructor
  · intro h
    split at h
    · exact .inr ⟨_, _, _, ‹_›, h⟩
    · cases h
    · cases h
      exact .inl ‹_›
  · rintro (hfirst | ⟨_, _, _, hfirst, hnext⟩)
    · rw [hfirst]
    · rw [hfirst]
      exact hnext

end Laws

instance : LawfulMonad (Action ε σ) := LawfulMonad.mk' _
  (by
    intro _ action
    funext state journal
    show Action.bind action (fun value => Action.pure (id value)) state journal = _
    unfold Action.bind Action.pure
    cases action state journal <;> rfl)
  (by intros; rfl)
  (by
    intro _ _ _ action first second
    funext state journal
    show Action.bind (Action.bind action first) second state journal =
      Action.bind action (fun value => Action.bind (first value) second) state journal
    unfold Action.bind
    cases action state journal <;> rfl)

end Action

end KernelResources
