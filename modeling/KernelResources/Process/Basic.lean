import KernelResources.Paging.AddressSpace
import KernelResources.Process.Registers

/-!
# Processes

A process is a saved register file, the address space and the kernel stack it runs on, and what the
scheduler knows about it. Its relatives are kept as pids.
-/

namespace KernelResources

/-- What a process is doing. -/
inductive ProcessState where
  /-- It could run. -/
  | ready
  /-- It has the processor. -/
  | running
  /-- It waits for something. -/
  | blocked
  /-- It has ended and has not been removed yet. -/
  | terminated
deriving DecidableEq, Repr, Inhabited

/-- How a process state is written. -/
def ProcessState.name : ProcessState → String
  | ready => "Ready"
  | running => "Running"
  | blocked => "Blocked"
  | terminated => "Terminated"

/-- The address space a process runs in. -/
inductive ProcessSpace where
  /-- The kernel space, which kernel processes share. -/
  | kernel
  /-- A space of its own. -/
  | user (space : AddressSpace)
deriving DecidableEq, Repr, Inhabited

/-- The stack a process uses inside the kernel. It grows down. -/
structure KernelStack where
  /-- First address of the stack's memory. -/
  memory : Nat
deriving DecidableEq, Repr, Inhabited

namespace KernelStack

/-- Bytes in a kernel stack: two pages. -/
def size : Nat := 2 * pageSize

/-- What the top of a stack is a multiple of. -/
def alignment : Nat := 16

/-- The highest address that a stack can start from. -/
def topAddress (stack : KernelStack) : Nat := roundDown (stack.memory + size) alignment

/-- The top of a stack as a stack pointer. -/
def top (stack : KernelStack) : UInt32 := UInt32.ofNat stack.topAddress

/-- The written form of a kernel stack. -/
def text (stack : KernelStack) : String := s!"KernelStack(top: {Text.hex stack.topAddress})"

end KernelStack

/-- Bytes of storage for a name. One of them is never used. -/
def processNameStorage : Nat := 32

/-- The priority of a fresh process. -/
def defaultPriority : Nat := 10

/-- The time slice of a fresh process. -/
def defaultTimeSlice : Nat := 10

/-- A process. -/
structure Process where
  /-- Number that names the process. -/
  pid : Nat
  /-- Name for people. -/
  name : String
  /-- What the process is doing. -/
  state : ProcessState
  /-- Its registers; out of date while it runs. -/
  context : Registers
  /-- The address space it runs in. -/
  space : ProcessSpace
  /-- Its stack inside the kernel. -/
  stack : KernelStack
  /-- Not used by the scheduler. -/
  priority : Nat
  /-- Ticks it may run before another process gets its turn. -/
  timeSlice : Nat
  /-- Ticks left of its present turn. -/
  remaining : Nat
  /-- Ticks charged to it so far. -/
  ticksUsed : Nat
  /-- What it ended with. -/
  exitCode : Option Int32
  /-- The tick at which a sleeper becomes ready. -/
  wakeAt : Option Nat
  /-- The process that created it. -/
  parent : Option Nat
  /-- The processes it created. -/
  children : List Nat
deriving DecidableEq, Repr, Inhabited

namespace Process

/-- The longest initial part that takes up at most `room` bytes. -/
def fitting : (room : Nat) → List Char → List Char
  | _, [] => []
  | room, c :: rest =>
    if c.utf8Size ≤ room then c :: fitting (room - c.utf8Size) rest else []

/-- A name cut to its storage, between two characters. -/
def storedName (name : String) : String :=
  String.ofList (fitting (processNameStorage - 1) name.toList)

/-- A fresh process. -/
def create (pid : Nat) (name : String) (state : ProcessState) (context : Registers)
    (space : ProcessSpace) (stack : KernelStack) (parent : Option Nat) : Process where
  pid
  name := storedName name
  state
  context
  space
  stack
  priority := defaultPriority
  timeSlice := defaultTimeSlice
  remaining := defaultTimeSlice
  ticksUsed := 0
  exitCode := none
  wakeAt := none
  parent
  children := []

/-- Whether a process runs in the kernel space. -/
def isKernel (process : Process) : Bool := process.space = .kernel

end Process

end KernelResources
