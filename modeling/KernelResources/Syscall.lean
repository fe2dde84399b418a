import KernelResources.Process.Schedule

/-!
# System calls

A program asks for a service by number. The answer is left in its `eax` register before any other
process is resumed, so it is there when the program goes on. A program that exits gets no answer.
-/

namespace KernelResources

namespace Syscall

/-- Number of the call that ends the program. -/
def exit : UInt32 := 1

/-- Number of the call for the program's own pid. -/
def getPid : UInt32 := 20

/-- Number of the call for the pid of the parent. -/
def getParentPid : UInt32 := 64

/-- Number of the call that ends the program's turn. -/
def yield : UInt32 := 158

/-- The answer to an unknown call and to one that is refused. -/
def failure : UInt32 := 0xFFFFFFFF

/-- A request for a service. -/
structure Request where
  /-- Which service. -/
  number : UInt32
  /-- What for. -/
  args : Vector UInt32 5
deriving DecidableEq, Repr, Inhabited

/-- The request in the registers of a program. -/
def Request.ofRegisters (registers : Registers) : Request where
  number := registers.eax
  args := #v[registers.ebx, registers.ecx, registers.edx, registers.esi, registers.edi]

variable (paging : Paging)

/-- Leaves the answer to a call in the registers on the processor. -/
def answer (result : UInt32) : Total System UInt32 := do
  modify fun system => { system with cpu := { system.cpu with eax := result } }
  return result

/-- Ends the current process. The registers on the processor are then those of another process, so
the answer goes nowhere; only a refusal is left in them. -/
def runExit (code : Int32) : Total System UInt32 := do
  match ← (System.exit paging code).attempt with
  | .ok _ => return 0
  | .error error =>
    Action.note (.exitRefused (← System.getTable).current error)
    answer failure

/-- Runs a system call for the current process and returns the answer. -/
def serve (request : Request) : Total System UInt32 := do
  if request.number = exit then runExit paging request.args[0].toInt32
  else if request.number = getPid then
    answer (UInt32.ofNat (← System.getTable).current)
  else if request.number = getParentPid then
    let parent := (← System.getTable).currentProcess?.bind Process.parent
    answer (UInt32.ofNat (parent.getD 0))
  else if request.number = yield then
    let result ← answer 0
    let _ ← System.schedule paging
    return result
  else
    Action.note (.unknownCall request.number.toNat (← System.getTable).current)
    answer failure

end Syscall

end KernelResources
