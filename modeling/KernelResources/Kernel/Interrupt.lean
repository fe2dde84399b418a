import KernelResources.Kernel.Basic
import KernelResources.Trap.Entry

/-!
# Interrupts of the running kernel

What the kernel does when the timer fires, when a program makes a system call and when a page has
no translation. The first two find nothing to do before the kernel is started.
-/

namespace KernelResources.Kernel

open Trap (ResumePoint)

/-- Runs a trap handler and says where the trap resumes. -/
def trap (handler : Paging → Total (WithEvents System) Nat) : Total Kernel (Option ResumePoint) :=
  onCore fun paging => do
    let pid ← handler paging
    return .ofTable (← get).state.table pid

/-- The timer fired. -/
def handleTimer : Total Kernel (Option ResumePoint) := trap Trap.timer

/-- A program made a system call. -/
def handleCall : Total Kernel (Option ResumePoint) := trap Trap.systemCall

/-- A page fault stops the kernel: there is no demand paging to fall back on. -/
def pageFault {α : Type} (address code : Nat) : Total Kernel α := do
  let pid := (← get).core.map fun core => core.table.current
  Action.note (.pageFault address code pid)
  Action.halt (.pageFault address)

end KernelResources.Kernel
