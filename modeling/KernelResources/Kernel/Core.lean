import KernelResources.Frame.MemoryMap
import KernelResources.Process.System

/-!
# The resource core

Frames, the kernel address space and the process table depend on each other in that order, so they
are built in that order: the pool from the memory map, without the range the kernel itself lies in,
then the kernel space from frames of the pool, then the table with the first process in that space.
-/

namespace KernelResources

/-- What is built on top of the frame pool. -/
structure Core where
  /-- The fixed facts about address spaces. -/
  paging : Paging
  /-- The processes. -/
  table : ProcessTable

/-- A machine with the given contents of physical memory, before there is a pool for its frames. -/
def Machine.bare (memory : WordMemory) : Machine :=
  { frames := .allTaken 0, memory, active := 0, calls := #[] }

namespace Core

/-- Gives the machine a pool for the frames of a memory map. -/
def installFrames (regions : List Region) (layout : Layout) : Total Machine Unit := do
  let reserved ← layout.reservedRange
  let frames ← MemoryMap.framePool regions reserved
  Action.note (.framesFree frames.freeCount frames.total)
  modify fun machine => { machine with frames }

/-- Builds the frame pool, the kernel space and the process table. Refused if there was no memory
for one of them or for the stack of the first process. -/
def build (regions : List Region) (layout : Layout) (stack : Option KernelStack) :
    Action ProcessError Machine Core := do
  (installFrames regions layout).unrefused
  let paging ← (Paging.create layout).mapError .memory
  let table ← ProcessTable.bootstrap paging stack
  return { paging, table }

end Core

end KernelResources
