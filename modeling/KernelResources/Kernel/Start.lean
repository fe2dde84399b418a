import KernelResources.Kernel.Basic

/-!
# Starting the kernel

The heap comes first, then the core. Interrupts are kept out from the first step on and let in once
everything is in place, so no handler ever sees half a kernel. Nothing of the core is installed
until all of it has been built, and a core that was there before stays in place until then.
-/

namespace KernelResources.Kernel

/-- Installs the heap where the layout has it. -/
def startHeap (layout : Layout) : Action MemoryError Kernel Unit := do
  onHeap (SharedHeap.install layout.heapStart layout.heapSize)
  Action.note (.heapReady layout.heapStart layout.heapSize)

/-- Runs an action on the bare machine. Besides its result there remain the machine it leaves and,
even if it is refused, what it has written to memory. -/
def onBareMachine {ε α : Type} (action : Action ε Machine α) : Action ε Kernel (α × Machine) :=
  Action.within (fun kernel => .bare kernel.tableMemory)
    (fun kernel machine => { kernel with tableMemory := machine.memory }) do
      let value ← action
      return (value, ← get)

/-- Installs the frame pool and the core. -/
def install (core : Core) (machine : Machine) : Total Kernel Unit :=
  modify fun kernel =>
    { kernel with
      frames := some machine.frames
      core := some { core with active := machine.active } }

/-- Starts the kernel. The caller goes on as the first process. The kernel's own logger gives way
to the one that is installed already. If the start is refused, interrupts stay out. -/
def start (regions : List Region) (layout : Layout) (stack : Option KernelStack) :
    Action ProcessError Kernel Unit := do
  Action.note .loggerPresent
  Action.note .booting
  -- Not a masked section: where the start is refused, there is nothing to go back to.
  Interrupts.disable
  (startHeap layout).mapError .memory
  let (core, machine) ← onBareMachine (Core.build regions layout stack)
  (install core machine).unrefused
  Action.note .booted
  Interrupts.enable

end KernelResources.Kernel
