import KernelResources.Proofs.Mirrors
import KernelResources.Proofs.Process.Operations

/-!
# Recording and draining events

What it does to the queue to record an event, and what a drain amounts to: as long as nothing is
recorded in the meantime, it hands over the events that wait, one after another, and leaves nothing
behind.
-/

namespace KernelResources

namespace EventQueue

variable {queue queue' : EventQueue} {event : Event} {accepted : Bool} {journal journal' : Journal}

/-- The line has room for another event. -/
def HasRoom (queue : EventQueue) : Prop := queue.line.length < queue.capacity

instance (queue : EventQueue) : Decidable queue.HasRoom :=
  inferInstanceAs (Decidable (queue.line.length < queue.capacity))

/-- A tick is not lost: the line has room for it, or it can be counted. -/
def CanCount (queue : EventQueue) : Prop := queue.HasRoom ∨ queue.overflow + 1 < bitRange 32

instance (queue : EventQueue) : Decidable queue.CanCount :=
  inferInstanceAs (Decidable (queue.HasRoom ∨ queue.overflow + 1 < bitRange 32))

/-- The queue when nothing waits any more. -/
def emptied (queue : EventQueue) : EventQueue := { queue with line := [], overflow := 0 }

/-- Records what an interrupt handler has to say. Returns whether it is accepted. -/
def record : Event → Total EventQueue Bool
  | .tick => do
    modify addTick
    return true
  | .wake pid => addWake pid

/-- The count of timer interrupts after an event. -/
def ticksAfter (queue : EventQueue) : Event → Nat
  | .tick => (queue.ticks + 1) % bitRange 64
  | .wake _ => queue.ticks

/-- An event that finds room goes to the end of the line. -/
theorem record_of_hasRoom (hroom : queue.HasRoom) :
    record event queue journal = .done true
      { queue with line := queue.line ++ [event], ticks := queue.ticksAfter event } journal := by
  have hpush (queue : EventQueue) (hroom : queue.HasRoom) : queue.push? event =
      some { queue with line := queue.line ++ [event] } := if_pos hroom
  cases event with
  | tick =>
    have hcounted : { queue with ticks := queue.ticksAfter .tick }.HasRoom := hroom
    simp only [record, Action.bind_of_done (Action.apply_modify _ _ _), addTick, Action.apply_pure]
    rw [← ticksAfter, hpush _ hcounted]
  | wake pid =>
    simp only [record, addWake, Action.get_bind, hpush queue hroom]
    rfl

/-- A tick that finds no room is counted. -/
theorem record_tick_of_not_hasRoom (hroom : ¬queue.HasRoom) (hcount : queue.CanCount) :
    record .tick queue journal = .done true
      { queue with overflow := queue.overflow + 1, ticks := queue.ticksAfter .tick } journal := by
  have hpush : { queue with ticks := queue.ticksAfter .tick }.push? .tick = none := if_neg hroom
  simp only [record, Action.bind_of_done (Action.apply_modify _ _ _), addTick, Action.apply_pure]
  rw [← ticksAfter, hpush]
  dsimp only
  rw [Nat.mod_eq_of_lt (hcount.resolve_left hroom)]

/-- A wake-up that finds no room is lost and reported. -/
theorem record_wake_of_not_hasRoom {pid : Nat} (hroom : ¬queue.HasRoom) :
    record (.wake pid) queue journal = .done false queue (journal.push (.wakeDropped pid)) := by
  have hpush : queue.push? (.wake pid) = none := if_neg hroom
  simp only [record, addWake, Action.get_bind, hpush]
  rfl

/-- All that can become of an event that is recorded. -/
theorem record_cases (hcount : event = .tick → queue.CanCount)
    (h : record event queue journal = .done accepted queue' journal') :
    (queue.HasRoom ∧ accepted = true ∧
      queue' = { queue with line := queue.line ++ [event], ticks := queue.ticksAfter event }) ∨
    (¬queue.HasRoom ∧ event = .tick ∧ accepted = true ∧
      queue' = { queue with
        overflow := queue.overflow + 1, ticks := queue.ticksAfter event }) ∨
    (¬queue.HasRoom ∧ event ≠ .tick ∧ accepted = false ∧ queue' = queue) := by
  by_cases hroom : queue.HasRoom
  · rw [record_of_hasRoom hroom] at h
    cases h
    exact .inl ⟨hroom, rfl, rfl⟩
  · cases event with
    | tick =>
      rw [record_tick_of_not_hasRoom hroom (hcount rfl)] at h
      cases h
      exact .inr (.inl ⟨hroom, rfl, rfl, rfl⟩)
    | wake pid =>
      rw [record_wake_of_not_hasRoom hroom] at h
      cases h
      exact .inr (.inr ⟨hroom, nofun, rfl, rfl⟩)

/-- Taking the oldest event leaves the others in the line. -/
theorem eq_of_pop? (h : queue.pop? = some (event, queue')) :
    queue.line = event :: queue'.line ∧ queue' = { queue with line := queue'.line } := by
  unfold pop? at h
  split at h
  · cases h
  · next hline =>
    cases h
    exact ⟨hline, rfl⟩

theorem line_of_pop?_eq_none (h : queue.pop? = none) : queue.line = [] := by
  unfold pop? at h
  split at h
  · next hline => exact hline
  · cases h

end EventQueue

/-! ## Draining -/

namespace WithEvents

open KernelResources.Action

variable {σ : Type} (handle : Event → Total σ Unit)

theorem onState_apply {ε α : Type} (action : Action ε σ α) (whole : WithEvents σ)
    (journal : Journal) : onState action whole journal =
      (action whole.state journal).viewed fun state => { whole with state } := by
  rw [onState, apply_within]
  cases action whole.state journal <;> rfl

theorem onEvents_of_done {ε α : Type} {action : Action ε EventQueue α} {whole : WithEvents σ}
    {journal journal' : Journal} {value : α} {events : EventQueue}
    (h : action whole.events journal = .done value events journal') :
    onEvents action whole journal = .done value { whole with events } journal' :=
  within_of_done h

/-- Handing the line over is handling its events one after another. -/
theorem drainLine_apply (whole : WithEvents σ) (journal : Journal) :
    drainLine handle whole.events.line.length whole journal =
      (whole.events.line.forM handle whole.state journal).viewed
        fun state => ⟨{ whole.events with line := [] }, state⟩ := by
  obtain ⟨⟨capacity, line, overflow, ticks⟩, state⟩ := whole
  induction line generalizing state journal with
  | nil => rfl
  | cons event line ih =>
    show (onState (handle event) >>= fun _ => drainLine handle line.length)
        ⟨⟨capacity, line, overflow, ticks⟩, state⟩ journal =
      ((handle event >>= fun _ => line.forM handle) state journal).viewed _
    rw [apply_bind, apply_bind, onState_apply]
    cases handle event state journal with
    | done value state journal => exact ih journal state
    | refused error state journal => exact error.elim
    | halted cause journal => rfl

theorem replayTicks_apply (count : Nat) (whole : WithEvents σ) (journal : Journal) :
    replayTicks handle count whole journal =
      ((List.replicate count .tick).forM handle whole.state journal).viewed
        fun state => { whole with state } := by
  induction count generalizing whole journal with
  | zero => rfl
  | succ count ih =>
    show (onState (handle .tick) >>= fun _ => replayTicks handle count) whole journal =
      ((handle .tick >>= fun _ => (List.replicate count .tick).forM handle) whole.state
        journal).viewed _
    rw [apply_bind, apply_bind, onState_apply]
    cases handle .tick whole.state journal with
    | done value state journal => exact ih _ journal
    | refused error state journal => exact error.elim
    | halted cause journal => rfl

/-- A drain is handling the events that wait, one after another. -/
theorem drain_apply (whole : WithEvents σ) (journal : Journal) :
    drain handle whole journal = (whole.events.waiting.forM handle whole.state journal).viewed
      fun state => ⟨whole.events.emptied, state⟩ := by
  have hwaiting : whole.events.waiting.forM handle = whole.events.line.forM handle >>=
      fun _ => (List.replicate whole.events.overflow .tick).forM handle := List.forM_append
  -- The count of the ticks that found the line full is taken once the line is empty.
  show (drainLine handle whole.events.line.length >>= fun _ => _) whole journal = _
  rw [hwaiting, apply_bind, apply_bind, drainLine_apply]
  cases whole.events.line.forM handle whole.state journal with
  | done value state journal =>
    exact replayTicks_apply handle _ ⟨whole.events.emptied, state⟩ journal
  | refused error state journal => exact error.elim
  | halted cause journal => rfl

end WithEvents

namespace System

open KernelResources.Action

variable {paging : Paging}

/-- To act on events is to act on those that wait, one after another. -/
theorem actOnEvents_apply (paging : Paging) (whole : WithEvents System) (journal : Journal) :
    (do let _ ← actOnEvents paging : Total (WithEvents System) Unit) whole journal =
      (whole.events.waiting.forM (actOn paging) whole.state journal).viewed
        fun state => ⟨whole.events.emptied, state⟩ := by
  rw [actOnEvents, bind_assoc, apply_bind, WithEvents.drain_apply]
  cases whole.events.waiting.forM (actOn paging) whole.state journal <;> rfl

/-- Records events one after another and acts on each of them at once. -/
def actAfterEach (paging : Paging) (events : List Event) : Total (WithEvents System) Unit :=
  events.forM fun event => do
    let _ ← WithEvents.onEvents (EventQueue.record event)
    let _ ← actOnEvents paging

/-- If none waits, then acting on each event as soon as it is recorded is acting on the events one
after another. -/
theorem actAfterEach_apply (events : List Event) (queue : EventQueue) (system : System)
    (hcapacity : 0 < queue.capacity) (journal : Journal) :
    (actAfterEach paging events ⟨queue.emptied, system⟩ journal).viewed WithEvents.state =
      events.forM (actOn paging) system journal := by
  induction events generalizing queue system journal with
  | nil => rfl
  | cons event rest ih =>
    -- There is room for one event, and it is the only one that waits.
    have hroom : queue.emptied.HasRoom := hcapacity
    let recorded : EventQueue := { queue.emptied with
      line := queue.emptied.line ++ [event]
      ticks := queue.emptied.ticksAfter event }
    have hrecord : WithEvents.onEvents (EventQueue.record event) ⟨queue.emptied, system⟩ journal =
        .done true ⟨recorded, system⟩ journal :=
      WithEvents.onEvents_of_done (EventQueue.record_of_hasRoom hroom)
    have hsingle : [event].forM (actOn paging) = actOn paging event := bind_pure_unit
    have hact := actOnEvents_apply paging ⟨recorded, system⟩ journal
    rw [show EventQueue.waiting recorded = [event] from rfl, hsingle] at hact
    show (((WithEvents.onEvents (EventQueue.record event) >>= fun _ => do
      let _ ← actOnEvents paging) >>= fun _ => actAfterEach paging rest) _ journal).viewed _ =
        (actOn paging event >>= fun _ => rest.forM (actOn paging)) system journal
    rw [apply_bind, bind_of_done hrecord, hact, apply_bind]
    cases actOn paging event system journal with
    | done value system journal => exact ih recorded system hcapacity journal
    | refused error system journal => exact error.elim
    | halted cause journal => rfl

end System

end KernelResources
