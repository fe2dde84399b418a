import KernelResources.Action

/-!
# Actions on another view of the state

The same state can be held in two ways, and `view` leads from one to the other. An action on the one
*mirrors* an action on the other if it ends in the same way from the view of the same state: with
the same value or error, the view of the same final state, and the same journal.

There is one rule for each way of building an action. `Mirrors.bind` goes on from wherever the first
part can end, so what was known of the state at first need not be known of it later.
-/

namespace KernelResources

variable {ε ε' σ τ α β : Type}

/-- The same outcome with another view of the state. -/
def Outcome.viewed (view : σ → τ) : Outcome ε σ α → Outcome ε τ α
  | .done value state journal => .done value (view state) journal
  | .refused error state journal => .refused error (view state) journal
  | .halted cause journal => .halted cause journal

namespace Action

/-- From the view of `state`, `image` ends as `action` does from `state` itself. -/
def Mirrors (view : σ → τ) (image : Action ε τ α) (action : Action ε σ α) (state : σ) : Prop :=
  ∀ journal, image (view state) journal = (action state journal).viewed view

namespace Mirrors

variable {view : σ → τ} {image : Action ε τ α} {action : Action ε σ α} {state : σ}

theorem pure (value : α) :
    Mirrors view (Pure.pure value : Action ε τ α) (Pure.pure value) state := fun _ => rfl

theorem bind {image' : α → Action ε τ β} {action' : α → Action ε σ β}
    (h : Mirrors view image action state)
    (h' : ∀ value middle journal journal', action state journal = .done value middle journal' →
      Mirrors view (image' value) (action' value) middle) :
    Mirrors view (image >>= image') (action >>= action') state := by
  intro journal
  rw [apply_bind, apply_bind, h journal]
  cases hout : action state journal with
  | done value middle journal' => exact h' value middle journal journal' hout journal'
  | refused error middle journal' => rfl
  | halted cause journal' => rfl

theorem map (change : α → β) (h : Mirrors view image action state) :
    Mirrors view (change <$> image) (change <$> action) state := by
  intro journal
  rw [apply_map, apply_map, h journal]
  cases action state journal <;> rfl

theorem attempt (h : Mirrors view image action state) :
    Mirrors view (image.attempt : Action ε' τ (Except ε α)) action.attempt state := by
  intro journal
  rw [apply_attempt, apply_attempt, h journal]
  cases action state journal <;> rfl

theorem mapError (restate : ε → ε') (h : Mirrors view image action state) :
    Mirrors view (image.mapError restate) (action.mapError restate) state := by
  intro journal
  rw [apply_mapError, apply_mapError, h journal]
  cases action state journal <;> rfl

/-- A loop mirrors a loop if every round mirrors a round from wherever the rounds before it end. -/
theorem forM {υ : Type} {image : υ → Action ε τ PUnit} {action : υ → Action ε σ PUnit}
    (inv : σ → Prop)
    (h : ∀ item state, inv state → Mirrors view (image item) (action item) state)
    (hinv : ∀ item state journal middle journal', inv state →
      action item state journal = .done ⟨⟩ middle journal' → inv middle)
    (items : List υ) (hstate : inv state) :
    Mirrors view (items.forM image) (items.forM action) state := by
  induction items generalizing state with
  | nil => exact .pure _
  | cons item rest ih =>
    exact (h item state hstate).bind fun _ middle journal journal' hdone =>
      ih (hinv item state journal middle journal' hstate hdone)

/-- On a state of its own, an action mirrors another whatever lies around that state. -/
theorem running (υ : Type) (h : Mirrors view image action state) :
    (image.running (view state) : Action ε υ (α × τ)) =
      Prod.map id view <$> action.running state := by
  funext outer journal
  rw [apply_map, Action.running, Action.running, h journal]
  cases action state journal <;> rfl

end Mirrors

end Action

end KernelResources
