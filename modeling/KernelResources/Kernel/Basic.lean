import KernelResources.Event.Queue
import KernelResources.Heap.Shared
import KernelResources.Kernel.Core

/-!
# The kernel

Everything there is one of: the interrupt flag, the registers on the processor, the two memories,
the heap, the queue of interrupt events, the frame pool and the core. The heap, the pool and the
core are absent until the kernel is started. `onHeap`, `onFrames` and `onCore` run an action on a
part of the kernel; the rest stays as it is. The last two do so with interrupts kept out.
-/

namespace KernelResources

/-- A core that has been installed, with the state of the memory management unit. -/
structure RunningCore extends Core where
  /-- The frame of the loaded directory. -/
  active : Nat

/-- The state of the whole kernel. -/
structure Kernel where
  /-- Whether interrupts are delivered. -/
  enabled : Bool
  /-- The registers on the processor. -/
  cpu : Registers
  /-- The arena of the heap, once it is installed. -/
  arena : Option Arena
  /-- The memory that holds the arena. -/
  heapMemory : ByteMemory
  /-- Physical memory as page tables see it. -/
  tableMemory : WordMemory
  /-- What interrupt handlers have recorded. -/
  events : EventQueue
  /-- The frame pool, once it is installed. -/
  frames : Option FramePool
  /-- The core, once it is installed. -/
  core : Option RunningCore

namespace Kernel

instance : HasInterruptFlag Kernel where
  enabled := Kernel.enabled
  setEnabled := fun enabled kernel => { kernel with enabled }

variable {ε α : Type}

/-- The kernel before it is started. -/
def fresh : Kernel where
  enabled := true
  cpu := {}
  arena := none
  heapMemory := Store.empty
  tableMemory := Store.empty
  events := .ofCapacity EventQueue.standardCapacity
  frames := none
  core := none

/-- Runs an action on the heap. -/
def onHeap (action : Action ε SharedHeap α) : Action ε Kernel α :=
  action.within (fun kernel => ⟨kernel.enabled, kernel.arena, kernel.heapMemory⟩)
    fun kernel heap =>
      { kernel with enabled := heap.enabled, arena := heap.arena, heapMemory := heap.memory }

/-- Runs an action on the recorded events. -/
def onEvents (action : Action ε EventQueue α) : Action ε Kernel α :=
  action.within events fun kernel events => { kernel with events }

/-- Runs an action on the frame pool with interrupts kept out. There must be one. -/
def onFrames (action : Action ε FramePool α) : Action ε Kernel α :=
  Interrupts.masked do
    match (← get).frames with
    | none => Action.halt .noFrameAllocator
    | some frames =>
      action.within (fun _ => frames) fun kernel frames => { kernel with frames := some frames }

/-- Hands out the lowest free frame. -/
def allocateFrame : Action MemoryError Kernel Nat := onFrames FramePool.allocate

/-- Takes a frame back. -/
def freeFrame (frame : Nat) : Action MemoryError Kernel Unit := onFrames (FramePool.free frame)

/-- The totals of the frame pool. -/
def frameStats : Total Kernel FrameStats := onFrames FramePool.stats

/-- What actions on the core see of the kernel, with the core's fixed facts. Nothing until the
pool and the core are both installed. -/
def system? (kernel : Kernel) : Option (Paging × WithEvents System) := do
  let frames ← kernel.frames
  let core ← kernel.core
  let machine := { frames, memory := kernel.tableMemory, active := core.active, calls := #[] }
  return (core.paging, ⟨kernel.events, machine, core.table, kernel.cpu⟩)

/-- The kernel after an action on the core. -/
def withSystem (kernel : Kernel) (paging : Paging) (system : WithEvents System) : Kernel :=
  let { events, state := ⟨machine, table, cpu⟩ } := system
  { kernel with
    cpu
    tableMemory := machine.memory
    events
    frames := some machine.frames
    core := some { paging, table, active := machine.active } }

/-- Runs an action on the core with interrupts kept out. Nothing is done until there are a pool and
a core. -/
def onCore (action : Paging → Action ε (WithEvents System) α) : Action ε Kernel (Option α) :=
  Interrupts.masked do
    match (← get).system? with
    | none => return none
    | some (paging, system) =>
      let value ← (action paging).within (fun _ => system) fun kernel => kernel.withSystem paging
      return some value

end Kernel

end KernelResources
