import KernelResources.Event.Queue
import KernelResources.Process.System

/-!
# Scheduling

Ready processes take turns in the order of their pids. A process loses its turn when its time slice
is used up, when it waits for something and when it ends; the idle process loses it at every tick.

A process that ends is not removed at once: the trap that ended it still runs on its kernel stack.
It goes with the pass after the one that switched away from it.
-/

namespace KernelResources

/-- Timer interrupts per second. -/
def timerFrequency : Nat := 100

/-- The least number of timer ticks that cover `ms` milliseconds. -/
def ticksOfMilliseconds (ms : Nat) : Nat := ceilDiv (ms * timerFrequency) 1000

namespace System

variable {ε : Type} (paging : Paging)

/-- Loads the address space of a process. -/
def loadSpace (space : ProcessSpace) : Action ε Machine Unit :=
  match space with
  | .kernel => paging.activateKernel
  | .user space => Paging.activate space

/-- Saves the registers of the current process, which could go on running. -/
def suspend (cpu : Registers) (process : Process) : Process :=
  { process with
    context := cpu
    state := if process.state = .running then .ready else process.state }

/-- Gives a process a new turn. -/
def resume (process : Process) : Process :=
  { process with state := .running, remaining := process.timeSlice }

/-- Switches the processor to another process. Its address space is loaded unless it is loaded
already. -/
def dispatch (next : Nat) : Action ε System Unit := do
  let outgoing := (← getTable).current
  modify fun system =>
    { system with table := system.table.update outgoing (suspend system.cpu) }
  match (← getTable).find? next with
  | none => pure ()
  | some incoming =>
    modifyProcess next resume
    modify fun system => { system with cpu := incoming.context }
    -- Processes that share a space switch without losing cached translations.
    if Frame.address (← get).machine.active ≠ incoming.context.cr3.toNat then
      onMachine (loadSpace paging incoming.space)
    Action.note (.switched outgoing next)
    modifyTable fun table =>
      { table with current := next, cursor := if next = table.idle then table.cursor else next }

/-- Removes one terminated process; a failure is only reported. -/
def removeOrReport (pid : Nat) : Action ε System Unit := do
  match ← (remove paging pid).attempt with
  | .ok () => pure ()
  | .error error => Action.note (.reapFailed pid error)

/-- Removes the terminated processes, except the current one and the one switched away from. -/
def removeEnded (outgoing : Nat) : Action ε System Unit := do
  let table ← getTable
  let ended := table.processes.filter fun process =>
    process.state = .terminated ∧ process.pid ≠ table.current ∧ process.pid ≠ outgoing
  (ended.map Process.pid).forM (removeOrReport paging)

/-- Gives the processor to the process whose turn it is, and returns its pid. -/
def schedule : Action ε System Nat := do
  let table ← getTable
  let next := table.nextTurn
  if next ≠ table.current then dispatch paging next
  else
    modifyProcess next fun process =>
      { process with
        remaining := if process.remaining = 0 then process.timeSlice else process.remaining }
  removeEnded paging table.current
  return (← getTable).current

/-- Makes the sleepers ready whose tick has come. -/
def wakeIfDue (clock : Nat) (process : Process) : Process :=
  if process.state = .blocked ∧ process.wakeAt.any (· ≤ clock) then
    { process with state := .ready, wakeAt := none }
  else process

/-- Charges one tick to the current process and returns whether its turn is over. -/
def charge : Action ε System Bool := do
  match (← getTable).currentProcess? with
  | none => return true
  | some process =>
    let ticksUsed ← Action.add 64 process.ticksUsed 1
    let remaining := process.remaining - 1
    modifyProcess process.pid ({ · with ticksUsed, remaining })
    return remaining = 0

/-- A tick of the timer: wakes sleepers, charges the current process, and ends its turn if it is
over. The idle process has no turn of its own. -/
def clockTick : Action ε System Nat := do
  let clock ← Action.add 64 (← getTable).clock 1
  modifyTable fun table => { table with clock }.updateAll (wakeIfDue clock)
  let expired ← charge
  let table ← getTable
  if expired ∨ table.current = table.idle then schedule paging
  else return table.current

/-- The current process, which must be able to wait. -/
def waitingCandidate : Action ProcessError System Process := do
  let table ← getTable
  Action.refuseIf (table.current = table.idle) .invalidOperation
  findProcess table.current

/-- The current process waits until something wakes it. -/
def block : Action ProcessError System Nat := do
  let process ← waitingCandidate
  modifyProcess process.pid ({ · with state := .blocked })
  schedule paging

/-- Wakes a process that waits. A sleep is over as well. -/
def wake (pid : Nat) : Action ProcessError System Unit := do
  let process ← findProcess pid
  Action.refuseIf (process.state ≠ .blocked) .invalidOperation
  modifyProcess pid ({ · with state := .ready, wakeAt := none })

/-- The current process waits for a number of ticks. For none, it only ends its turn. -/
def sleep (ticks : Nat) : Action ProcessError System Nat := do
  let table ← getTable
  Action.refuseIf (table.current = table.idle) .invalidOperation
  if ticks = 0 then schedule paging
  else
    let wakeAt ← Action.add 64 table.clock ticks
    let process ← findProcess table.current
    modifyProcess process.pid ({ · with wakeAt := some wakeAt })
    Action.note (.sleeping process.pid wakeAt)
    block paging

/-- Makes a waiting process ready. -/
def wakeParent (parent : Process) : Process :=
  if parent.state = .blocked then { parent with state := .ready } else parent

/-- The current process ends with an exit code, and a parent that waits is woken. -/
def exit (code : Int32) : Action ProcessError System Nat := do
  let process ← waitingCandidate
  modifyProcess process.pid ({ · with state := .terminated, exitCode := some code })
  Action.note (.exited process.pid code.toInt)
  match process.parent with
  | some parent => modifyProcess parent wakeParent
  | none => pure ()
  schedule paging

/-- The exit code of a process that is ended by another. -/
def killedCode : Int32 := -1

/-- Ends a process. One that is not current is removed at once. -/
def kill (pid : Nat) : Action ProcessError System Unit := do
  let table ← getTable
  Action.refuseIf (pid = table.idle) .invalidOperation
  if pid = table.current then
    let _ ← exit paging killedCode
  else
    let _ ← findProcess pid
    modifyProcess pid ({ · with state := .terminated, exitCode := some killedCode })
    remove paging pid

/-- Acts on an event that an interrupt handler recorded. -/
def actOn : Event → Total System Unit
  | .tick => do
    let _ ← clockTick paging
  | .wake pid => do
    match ← (wake pid).attempt with
    | .ok () => pure ()
    | .error error => Action.note (.wakeIgnored pid error)

/-- Acts on every event recorded since the last time, and returns the pid of the process that then
has the processor. -/
def actOnEvents : Total (WithEvents System) Nat := do
  WithEvents.drain (actOn paging)
  return (← get).state.table.current

end System

end KernelResources
