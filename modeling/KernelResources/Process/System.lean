import KernelResources.Process.Table

/-!
# The running system

The state that operations on processes act on: the machine, the process table, and the registers on
the processor. Processes are created and removed here.
-/

namespace KernelResources

/-- The machine and the processes that run on it. -/
structure System where
  /-- Frames, physical memory and the memory management unit. -/
  machine : Machine
  /-- The processes. -/
  table : ProcessTable
  /-- The registers of whatever is on the processor. -/
  cpu : Registers

namespace System

variable {ε α : Type}

/-- Runs an action on the machine. -/
def onMachine (action : Action ε Machine α) : Action ε System α :=
  action.within machine fun system machine => { system with machine }

/-- Runs a memory operation as part of a process operation. -/
def onMemory (action : Action MemoryError Machine α) : Action ProcessError System α :=
  onMachine (action.mapError .memory)

/-- The process table. -/
def getTable : Action ε System ProcessTable := do return (← get).table

/-- Changes the process table. -/
def modifyTable (change : ProcessTable → ProcessTable) : Action ε System Unit :=
  modify fun system => { system with table := change system.table }

/-- Changes one process. -/
def modifyProcess (pid : Nat) (change : Process → Process) : Action ε System Unit :=
  modifyTable (·.update pid change)

/-- The process of a given pid, which must exist. -/
def findProcess (pid : Nat) : Action ProcessError System Process := do
  Action.ofOption .noSuchProcess ((← getTable).find? pid)

end System

namespace ProcessTable

variable {σ : Type}

/-- The pid of the first process. -/
def bootstrapPid : Nat := 1

/-- A table with the first process running. It stands for the code that boots the kernel, and it is
the idle process afterwards. Refused if there was no memory for its stack. -/
def bootstrap (paging : Paging) (stack : Option KernelStack) :
    Action ProcessError σ ProcessTable := do
  let stack ← Action.ofOption (.memory .outOfMemory) stack
  let context := Registers.forKernel paging.kernel.cr3 stack.top 0
  let first := Process.create bootstrapPid "kernel" .running context .kernel stack none
  Action.note (.bootstrapRunning bootstrapPid)
  return {
    processes := [first]
    current := bootstrapPid
    idle := bootstrapPid
    cursor := bootstrapPid
    nextPid := bootstrapPid + 1
    clock := 0 }

end ProcessTable

namespace System

variable (paging : Paging)

/-- Builds the address space of a user process: the kernel region and one stack page. If there is
no memory for the stack page, the space is taken down again. -/
def createUserSpace : Action ProcessError System AddressSpace := do
  let space ← onMemory paging.createSpace
  let stackPage ← Action.subtract paging.layout.userStackTop pageSize
  let stackFlags := Flags.writable ||| Flags.user
  match ← (onMemory (paging.mapFresh space stackPage stackFlags)).attempt with
  | .ok _ => return space
  | .error error =>
    onMemory (paging.destroySpace space)
    throw error

/-- Creates a ready process that starts at `entry` and returns its pid. Kernel processes share the
kernel space and start on their kernel stack. User processes get a space of their own and must not
start in the kernel region. Refused if there was no memory for the kernel stack. -/
def launch (name : String) (entry : Nat) (kernelMode : Bool)
    (stack : Option KernelStack) : Action ProcessError System Nat := do
  let eip := entry % bitRange 32
  Action.refuseIf (kernelMode = false ∧ eip < userSpaceStart) .invalidOperation
  let stack ← Action.ofOption (.memory .outOfMemory) stack
  let (space, context) ←
    if kernelMode then
      pure (ProcessSpace.kernel, Registers.forKernel paging.kernel.cr3 stack.top (UInt32.ofNat eip))
    else do
      let space ← createUserSpace paging
      let stackTop := UInt32.ofNat paging.layout.userStackTop
      pure (ProcessSpace.user space, Registers.forUser space.cr3 stackTop (UInt32.ofNat eip))
  let table ← getTable
  let pid := table.nextPid
  let nextPid ← Action.add 32 pid 1
  let process := Process.create pid name .ready context space stack (some table.current)
  modifyTable fun table => { table with nextPid }.add process
  modifyProcess table.current fun parent => { parent with children := parent.children ++ [pid] }
  Action.note (.processCreated pid name eip kernelMode)
  return pid

/-- Takes a process out of the family: its parent and its children forget it. -/
def unlink (process : Process) (table : ProcessTable) : ProcessTable :=
  let table :=
    match process.parent with
    | some parent => table.update parent fun parent =>
      { parent with children := parent.children.filter (· ≠ process.pid) }
    | none => table
  table.updateAll fun child =>
    if child.pid ∈ process.children then { child with parent := none } else child

/-- Removes a process with its kernel stack and, for a user process, its address space. The
current process, the idle process and a process whose space is loaded stay. -/
def remove (pid : Nat) : Action ProcessError System Unit := do
  let process ← findProcess pid
  let table ← getTable
  Action.refuseIf (pid = table.current ∨ pid = table.idle ∨ process.state = .running)
    .invalidOperation
  match process.space with
  | .kernel => pure ()
  | .user space =>
    Action.refuseIf (space.directory = (← get).machine.active) .invalidOperation
  -- From here on the process is gone, even if its space should turn out to be in the way.
  modifyTable fun table => unlink process (table.remove pid)
  Action.note (.processDestroyed pid process.name)
  match process.space with
  | .kernel => pure ()
  | .user space => onMemory (paging.destroySpace space)

end System

end KernelResources
