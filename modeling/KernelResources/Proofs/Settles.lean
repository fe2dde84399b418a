import KernelResources.Action

/-!
# Actions that return

`Action.Settles action state done refused` is total correctness: run from `state`, the action
returns, and its value and final state satisfy `done`, or its error and final state satisfy
`refused`. It never halts, and it never reports a frame as given back although nobody had taken it.

There is one rule for each way of building an action. `settles_bind` is the rule of sequence and
`settles_forM` that of a loop, whose invariant may speak of the rounds that are behind it.
-/

namespace KernelResources

/-- Whether a notice reports a frame that was to be given back and was not taken. -/
def Notice.isStray : Notice → Bool
  | .strayFrame _ => true
  | _ => false

/-- How many frames were to be given back although they were not taken. -/
def Journal.strays (journal : Journal) : Nat := journal.countP Notice.isStray

theorem Journal.strays_push {journal : Journal} {notice : Notice} (h : notice.isStray = false) :
    Journal.strays (journal.push notice) = journal.strays := by
  simp [Journal.strays, h]

namespace Action

variable {ε ε' σ τ α β : Type}

/-- Run from `state`, the action returns, satisfies `done` or `refused`, and reports no stray
frame. -/
def Settles (action : Action ε σ α) (state : σ) (done : α → σ → Prop)
    (refused : ε → σ → Prop) : Prop :=
  ∀ journal, match action state journal with
    | .done value state' journal' => Journal.strays journal' = journal.strays ∧ done value state'
    | .refused error state' journal' =>
      Journal.strays journal' = journal.strays ∧ refused error state'
    | .halted _ _ => False

variable {state : σ} {done : α → σ → Prop} {refused : ε → σ → Prop}

theorem settles_of_done {action : Action ε σ α} {value : α} {state' : σ}
    (h : ∀ journal, action state journal = .done value state' journal)
    (hdone : done value state') : action.Settles state done refused := by
  intro journal
  rw [h]
  exact ⟨rfl, hdone⟩

theorem settles_of_refused {action : Action ε σ α} {error : ε} {state' : σ}
    (h : ∀ journal, action state journal = .refused error state' journal)
    (hrefused : refused error state') : action.Settles state done refused := by
  intro journal
  rw [h]
  exact ⟨rfl, hrefused⟩

/-- Weaker postconditions hold as well. -/
theorem Settles.mono {action : Action ε σ α} {done' : α → σ → Prop} {refused' : ε → σ → Prop}
    (h : action.Settles state done refused)
    (hdone : ∀ value state', done value state' → done' value state')
    (hrefused : ∀ error state', refused error state' → refused' error state') :
    action.Settles state done' refused' := by
  intro journal
  have hrun := h journal
  cases hout : action state journal with
  | done value state' journal' =>
    rw [hout] at hrun
    exact ⟨hrun.1, hdone _ _ hrun.2⟩
  | refused error state' journal' =>
    rw [hout] at hrun
    exact ⟨hrun.1, hrefused _ _ hrun.2⟩
  | halted cause journal' =>
    rw [hout] at hrun
    exact hrun

theorem Settles.mono_done {action : Action ε σ α} {done' : α → σ → Prop}
    (h : action.Settles state done refused)
    (hdone : ∀ value state', done value state' → done' value state') :
    action.Settles state done' refused :=
  h.mono hdone fun _ _ hrefused => hrefused

/-- An action that settles and was done satisfies what is said of it then. -/
theorem Settles.of_done {action : Action ε σ α} (h : action.Settles state done refused) {value : α}
    {state' : σ} {journal journal' : Journal}
    (hout : action state journal = .done value state' journal') : done value state' := by
  have hrun := h journal
  rw [hout] at hrun
  exact hrun.2

/-- An action that settles and cannot be refused is done. -/
theorem Settles.exists_done {action : Action ε σ α}
    (h : action.Settles state done fun _ _ => False) (journal : Journal) :
    ∃ value state' journal', action state journal = .done value state' journal' ∧
      done value state' := by
  have hrun := h journal
  cases hout : action state journal with
  | done value state' journal' => exact ⟨value, state', journal', rfl, h.of_done hout⟩
  | refused error state' journal' =>
    rw [hout] at hrun
    exact hrun.2.elim
  | halted cause journal' =>
    rw [hout] at hrun
    exact hrun.elim

theorem settles_pure {value : α} (h : done value state) :
    (pure value : Action ε σ α).Settles state done refused :=
  settles_of_done (fun _ => rfl) h

theorem settles_throw {error : ε} (h : refused error state) :
    (throw error : Action ε σ α).Settles state done refused :=
  settles_of_refused (fun _ => rfl) h

theorem settles_modify {change : σ → σ} {done : PUnit → σ → Prop} (h : done ⟨⟩ (change state)) :
    (modify change : Action ε σ PUnit).Settles state done refused :=
  settles_of_done (fun _ => rfl) h

theorem settles_note {notice : Notice} {done : Unit → σ → Prop} (hstray : notice.isStray = false)
    (h : done () state) : (note notice : Action ε σ Unit).Settles state done refused :=
  fun _ => ⟨Journal.strays_push hstray, h⟩

/-- A sequence settles if its second part does wherever the first one is done. -/
theorem settles_bind {first : Action ε σ α} {next : α → Action ε σ β} {done : β → σ → Prop}
    (h : first.Settles state (fun value middle => (next value).Settles middle done refused)
      refused) : (first >>= next).Settles state done refused := by
  intro journal
  have hfirst := h journal
  rw [apply_bind]
  cases hout : first state journal with
  | done value middle journalMiddle =>
    rw [hout] at hfirst
    -- The first part has reported no stray frame, so the count goes on from where it was.
    obtain ⟨hstrays, hnext⟩ := hfirst
    have hrest := hnext journalMiddle
    simp only [hstrays] at hrest
    exact hrest
  | refused error state' journal' =>
    rw [hout] at hfirst
    exact hfirst
  | halted cause journal' =>
    rw [hout] at hfirst
    exact hfirst

/-- The rule of sequence for a first part that is known to settle. -/
theorem Settles.bind {first : Action ε σ α} {next : α → Action ε σ β} {between : α → σ → Prop}
    {done : β → σ → Prop} (h : first.Settles state between refused)
    (hnext : ∀ value middle, between value middle → (next value).Settles middle done refused) :
    (first >>= next).Settles state done refused :=
  settles_bind (h.mono_done hnext)

/-- Looking at the state first makes no difference. -/
theorem settles_get {next : σ → Action ε σ α} (h : (next state).Settles state done refused) :
    (get >>= next : Action ε σ α).Settles state done refused := h

theorem settles_refuseIf {condition : Prop} [Decidable condition] {error : ε}
    {done : Unit → σ → Prop} (hrefused : condition → refused error state)
    (hdone : ¬condition → done () state) :
    (refuseIf condition error : Action ε σ Unit).Settles state done refused := by
  by_cases h : condition
  · rw [refuseIf_of_pos h]
    exact settles_throw (hrefused h)
  · rw [refuseIf_of_neg h]
    exact settles_pure (hdone h)

/-- An attempt is always done: it hands on what the action would have been refused with. -/
theorem settles_attempt {action : Action ε σ α} {done : Except ε α → σ → Prop}
    {refused : ε' → σ → Prop}
    (h : action.Settles state (fun value => done (.ok value)) fun error => done (.error error)) :
    (action.attempt : Action ε' σ (Except ε α)).Settles state done refused := by
  intro journal
  have hrun := h journal
  rw [apply_attempt]
  cases hout : action state journal with
  | done value state' journal' =>
    rw [hout] at hrun
    exact hrun
  | refused error state' journal' =>
    rw [hout] at hrun
    exact hrun
  | halted cause journal' =>
    rw [hout] at hrun
    exact hrun

theorem settles_ofOption {value? : Option α} {error : ε}
    (hrefused : value? = none → refused error state)
    (hdone : ∀ value, value? = some value → done value state) :
    (ofOption error value?).Settles state done refused := by
  cases value? with
  | none => exact settles_throw (hrefused rfl)
  | some value => exact settles_pure (hdone value rfl)

theorem settles_mapError {restate : ε → ε'} {action : Action ε σ α} {refused : ε' → σ → Prop}
    (h : action.Settles state done fun error => refused (restate error)) :
    (action.mapError restate).Settles state done refused := by
  intro journal
  have hrun := h journal
  rw [apply_mapError]
  cases hout : action state journal with
  | done value state' journal' =>
    rw [hout] at hrun
    exact hrun
  | refused error state' journal' =>
    rw [hout] at hrun
    exact hrun
  | halted cause journal' =>
    rw [hout] at hrun
    exact hrun

/-- What an action does to a part of the state, it does inside the whole. -/
theorem settles_within {part : σ → τ} {replace : σ → τ → σ} {action : Action ε τ α}
    (h : action.Settles (part state) (fun value inner => done value (replace state inner))
      fun error inner => refused error (replace state inner)) :
    (action.within part replace).Settles state done refused := by
  intro journal
  have hrun := h journal
  rw [apply_within]
  cases hout : action (part state) journal with
  | done value inner journal' =>
    rw [hout] at hrun
    exact hrun
  | refused error inner journal' =>
    rw [hout] at hrun
    exact hrun
  | halted cause journal' =>
    rw [hout] at hrun
    exact hrun

/-- The rule of loops. The invariant holds of the items that are behind and the state; it holds
before the first round, and every round that is done carries it over the item it treated. -/
theorem settles_forM {action : α → Action ε σ PUnit} {items : List α} (inv : List α → σ → Prop)
    (hround : ∀ behind item rest state, items = behind ++ item :: rest → inv behind state →
      (action item).Settles state (fun _ => inv (behind ++ [item])) refused)
    (hstart : inv [] state) :
    (items.forM action).Settles state (fun _ => inv items) refused := by
  -- Induction on the items to come, for any that are behind.
  suffices hrest : ∀ behind rest state, items = behind ++ rest → inv behind state →
      (rest.forM action).Settles state (fun _ => inv items) refused from
    hrest [] items state rfl hstart
  intro behind rest
  induction rest generalizing behind with
  | nil =>
    intro state hitems hinv
    rw [List.append_nil] at hitems
    exact settles_pure (hitems ▸ hinv)
  | cons item rest ih =>
    intro state hitems hinv
    refine (hround behind item rest state hitems hinv).bind ?_
    intro _ middle hmiddle
    exact ih (behind ++ [item]) middle (by rw [hitems, List.append_assoc]; rfl) hmiddle

end Action

/-- What holds at first and is kept by every step of a run holds at last. -/
theorem of_foldlM {σ α : Type} {step : σ → α → Option σ} {items : List α} {first last : σ}
    (inv : σ → Prop) (hfirst : inv first)
    (hstep : ∀ item ∈ items, ∀ state state', inv state → step state item = some state' →
      inv state')
    (h : items.foldlM step first = some last) : inv last := by
  induction items generalizing first with
  | nil => exact Option.some.inj h ▸ hfirst
  | cons item rest ih =>
    obtain ⟨middle, hmiddle, hrest⟩ := Option.bind_eq_some_iff.mp h
    have hkept : inv middle := hstep item List.mem_cons_self first middle hfirst hmiddle
    exact ih hkept (fun other hother => hstep other (List.mem_cons_of_mem _ hother)) hrest

end KernelResources
