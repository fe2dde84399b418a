import KernelResources.Frame.Pool
import KernelResources.Paging.Table

/-!
# The machine below address spaces

What address spaces are made of: the frame pool, physical memory, the directory that the memory
management unit translates with, and the requests made to that unit. The unit keeps a cache of
translations, so both changing the directory and changing an entry have to be told to it.
-/

namespace KernelResources

/-- A request to the memory management unit. -/
inductive MmuCall where
  /-- Translate with the directory at a physical address from now on. Forgets every cached
  translation that is not global. -/
  | load (directory : Nat)
  /-- Forget the cached translation of one page. -/
  | invalidate (page : Nat)
deriving DecidableEq, Repr, Inhabited

/-- The part of the machine that address spaces are made of. -/
structure Machine where
  /-- The frames of physical memory. -/
  frames : FramePool
  /-- The contents of physical memory. -/
  memory : WordMemory
  /-- The frame of the loaded directory. -/
  active : Nat
  /-- The requests to the memory management unit, oldest first. -/
  calls : Array MmuCall

namespace Machine

variable {ε α : Type}

/-- Runs an action on the frame pool. -/
def onFrames (action : Action ε FramePool α) : Action ε Machine α :=
  action.within frames fun machine frames => { machine with frames }

/-- Runs an action on physical memory. -/
def onMemory (action : Action ε WordMemory α) : Action ε Machine α :=
  action.within memory fun machine memory => { machine with memory }

/-- Takes a free frame and fills it with zeros. -/
def takeZeroed : Action MemoryError Machine Nat := do
  let found ← onFrames FramePool.allocate?.unrefused
  let frame ← Action.ofOption .outOfMemory found
  modify fun machine => { machine with memory := machine.memory.zeroFrame frame }
  return frame

/-- Gives a frame back to the pool. -/
def discardFrame (frame : Nat) : Action ε Machine Unit :=
  onFrames (FramePool.discard frame).unrefused

/-- Reads an entry of the table in a frame. -/
def entry (frame slot : Nat) : Action ε Machine Entry := onMemory (Table.get frame slot)

/-- Changes an entry of the table in a frame. -/
def setEntry (frame slot : Nat) (entry : Entry) : Action ε Machine Unit :=
  onMemory (Table.set frame slot entry)

/-- Makes the directory in a frame the one to translate with. -/
def loadDirectory (directory : Nat) : Action ε Machine Unit :=
  modify fun machine =>
    { machine with
      active := directory
      calls := machine.calls.push (.load (Frame.address directory)) }

/-- Has the cached translation of the page around an address forgotten. -/
def invalidate (address : Nat) : Action ε Machine Unit :=
  modify fun machine =>
    { machine with calls := machine.calls.push (.invalidate (roundDown address pageSize)) }

end Machine

end KernelResources
