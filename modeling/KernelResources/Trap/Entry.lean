import KernelResources.Syscall

/-!
# Trap entry

What the kernel does when the timer fires and when a program makes a system call, with the
registers of the interrupted program on the processor. Both end by acting on the events recorded in
the meantime, and both may resume another process than the one they interrupted.
-/

namespace KernelResources.Trap

/-- Vector of a page fault. -/
def pageFaultVector : Nat := 14

/-- Vector of the timer interrupt. -/
def timerVector : Nat := 32

/-- Vector of a system call. -/
def syscallVector : Nat := 0x80

/-- An entry of the interrupt descriptor table that leads into the kernel. -/
structure Gate where
  /-- Number of the interrupt. -/
  vector : Nat
  /-- Link name of the code that saves the registers. -/
  symbol : String
  /-- Whether programs in user mode may raise the interrupt. -/
  userCallable : Bool
deriving DecidableEq, Repr

/-- The entries the kernel needs. -/
def gates : List Gate :=
  [⟨pageFaultVector, "kyro_page_fault_entry", false⟩,
    ⟨timerVector, "kyro_timer_entry", false⟩,
    ⟨syscallVector, "kyro_syscall_entry", true⟩]

/-- Where a trap resumes: a process, and the address right behind its kernel stack. -/
structure ResumePoint where
  /-- The process to resume. -/
  pid : Nat
  /-- The address right behind its kernel stack. -/
  stackTop : UInt32
deriving DecidableEq, Repr

/-- Where to resume a process. -/
def ResumePoint.ofTable (table : ProcessTable) (pid : Nat) : ResumePoint :=
  { pid, stackTop := ((table.find? pid).map (·.stack.top)).getD 0 }

variable (paging : Paging)

/-- The timer fired. Returns the pid of the process to resume. -/
def timer : Total (WithEvents System) Nat := do
  modify fun whole => { whole with events := whole.events.addTick }
  System.actOnEvents paging

/-- A program made a system call. Returns the pid of the process to resume. -/
def systemCall : Total (WithEvents System) Nat := do
  let request := Syscall.Request.ofRegisters (← get).state.cpu
  let _ ← WithEvents.onState (Syscall.serve paging request)
  -- Wake-ups recorded since the last trap take effect here, too.
  System.actOnEvents paging

end KernelResources.Trap
