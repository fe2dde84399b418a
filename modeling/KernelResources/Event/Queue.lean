import KernelResources.Action
import KernelResources.Width

/-!
# Interrupt events

Interrupt handlers never touch the process table. They leave an event in a queue and return; the
queue is drained at a safe point after the handler. The queue is a first-in first-out line of
bounded length. A tick that finds it full is counted and replayed at the end of the next drain; a
wake-up that finds it full is lost and reported.
-/

namespace KernelResources

/-- What an interrupt handler can record. -/
inductive Event where
  /-- One timer interrupt. -/
  | tick
  /-- The wait of a process is over. -/
  | wake (pid : Nat)
deriving DecidableEq, Repr, Inhabited

/-- The events recorded and not yet handed over. -/
structure EventQueue where
  /-- Largest number of events in the line. -/
  capacity : Nat
  /-- The line, oldest event first. -/
  line : List Event
  /-- Ticks that found the line full, modulo `bitRange 32`. -/
  overflow : Nat
  /-- Timer interrupts since the start, modulo `bitRange 64`. -/
  ticks : Nat
deriving DecidableEq, Repr, Inhabited

namespace EventQueue

variable {ε σ : Type}

/-- Length of the line in the kernel's own queue. -/
def standardCapacity : Nat := 256

/-- An empty queue. -/
def ofCapacity (capacity : Nat) : EventQueue := { capacity, line := [], overflow := 0, ticks := 0 }

/-- Bytes that one place in the line takes up: a stamp of 8 bytes, and an event of 8 bytes. -/
def slotBytes : Nat := 16

/-- An empty queue. The kernel halts if it is to have room for nothing, or for a line that takes
up half of all 64-bit addresses or more. -/
def create (capacity : Nat) : Action ε σ EventQueue :=
  if capacity = 0 then Action.halt .zeroCapacity
  else if bitRange 63 ≤ capacity * slotBytes then Action.halt .capacityOverflow
  else pure (ofCapacity capacity)

theorem create_eq_pure {capacity : Nat} (hpos : 0 < capacity)
    (hfits : capacity * slotBytes < bitRange 63) :
    (create capacity : Action ε σ EventQueue) = pure (ofCapacity capacity) := by
  rw [create, if_neg (Nat.ne_of_gt hpos), if_neg (Nat.not_le.mpr hfits)]

/-- Puts an event at the end of the line, if there is room. -/
def push? (queue : EventQueue) (event : Event) : Option EventQueue :=
  if queue.line.length < queue.capacity then some { queue with line := queue.line ++ [event] }
  else none

/-- Records a timer interrupt. -/
def addTick (queue : EventQueue) : EventQueue :=
  let queue := { queue with ticks := (queue.ticks + 1) % bitRange 64 }
  match queue.push? .tick with
  | some queue => queue
  | none => { queue with overflow := (queue.overflow + 1) % bitRange 32 }

/-- Records a wake-up. Returns whether it found room. -/
def addWake (pid : Nat) : Total EventQueue Bool := do
  match (← get).push? (.wake pid) with
  | some queue =>
    set queue
    return true
  | none =>
    Action.note (.wakeDropped pid)
    return false

/-- Takes the oldest event out of the line. -/
def pop? (queue : EventQueue) : Option (Event × EventQueue) :=
  match queue.line with
  | [] => none
  | event :: line => some (event, { queue with line })

/-- Takes the count of ticks that found the line full. -/
def takeOverflow (queue : EventQueue) : Nat × EventQueue :=
  (queue.overflow, { queue with overflow := 0 })

/-- Number of events not yet handed over. -/
def pending (queue : EventQueue) : Nat := queue.line.length + queue.overflow

end EventQueue

/-- A state and the events that wait to change it. -/
structure WithEvents (σ : Type) where
  /-- The events that wait. -/
  events : EventQueue
  /-- The state they will change. -/
  state : σ

namespace WithEvents

variable {ε σ α : Type}

/-- Runs an action on the state and leaves the events alone. -/
def onState (action : Action ε σ α) : Action ε (WithEvents σ) α :=
  action.within state fun whole state => { whole with state }

/-- Runs an action on the events and leaves the state alone. -/
def onEvents (action : Action ε EventQueue α) : Action ε (WithEvents σ) α :=
  action.within events fun whole events => { whole with events }

variable (handle : Event → Total σ Unit)

/-- Hands over the events of the line until it is empty, at most `rounds` of them. -/
def drainLine : (rounds : Nat) → Total (WithEvents σ) Unit
  | 0 => pure ()
  | rounds + 1 => do
    match (← get).events.pop? with
    | none => pure ()
    | some (event, events) =>
      modify fun whole => { whole with events }
      onState (handle event)
      drainLine rounds

/-- Hands over `count` ticks. -/
def replayTicks : (count : Nat) → Total (WithEvents σ) Unit
  | 0 => pure ()
  | count + 1 => do
    onState (handle .tick)
    replayTicks count

/-- Hands every waiting event over, oldest first; the ticks that found the line full come last. -/
def drain : Total (WithEvents σ) Unit := do
  drainLine handle (← get).events.line.length
  let (count, events) := (← get).events.takeOverflow
  modify fun whole => { whole with events }
  replayTicks handle count

end WithEvents

end KernelResources
