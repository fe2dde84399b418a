import KernelResources.Frame.Pool

/-!
# Memory maps

The firmware describes physical memory as a list of regions, each of one kind. The frame pool is
built from the usable ones: whatever lies at or above 4 GiB is out of reach of 32-bit page tables
and is left out, and a reserved range, which holds the kernel itself, is taken at once.
-/

namespace KernelResources

/-- What the firmware says about a range of physical memory. -/
inductive RegionKind where
  /-- Free for any use. -/
  | usable
  /-- Not memory, or kept by the firmware. -/
  | reserved
  /-- Firmware tables that may be reclaimed once they have been read. -/
  | acpiReclaimable
  /-- Firmware state that has to survive. -/
  | acpiNvs
  /-- Damaged memory. -/
  | bad
deriving DecidableEq, Repr, Inhabited

/-- One entry of a memory map. -/
structure Region where
  /-- First physical address. -/
  base : Nat
  /-- Length in bytes. -/
  length : Nat
  /-- What the range may be used for. -/
  kind : RegionKind
deriving DecidableEq, Repr, Inhabited

/-- The end of a region; an end that 64 bits cannot hold becomes the largest number they hold. -/
def Region.last (region : Region) : Nat := addSaturating 64 region.base region.length

namespace MemoryMap

variable {ε σ : Type}

/-- The first physical address that 32-bit page tables cannot reach. -/
def physicalLimit : Nat := bitRange 32

/-- The part of `[first, last)` below the physical limit, unless it is empty. -/
def clip? (first last : Nat) : Option (Nat × Nat) :=
  let last := min last physicalLimit
  if first < last then some (first, last) else none

/-- The usable ranges of a memory map, clipped. -/
def usable (regions : List Region) : List (Nat × Nat) :=
  (regions.filter fun region => region.kind = .usable).filterMap fun region =>
    clip? region.base region.last

/-- The end of usable memory. -/
def top (ranges : List (Nat × Nat)) : Nat := ranges.foldl (fun top range => max top range.2) 0

/-- Gives back the whole frames inside `[first, last)`. -/
def releaseRange (first last : Nat) : Total FramePool Unit := do
  FramePool.release (ceilDiv first Frame.size) (min (last / Frame.size) (← get).total)

/-- Takes every frame that meets `[first, last)`. -/
def reserveRange (first last : Nat) : Total FramePool Unit := do
  FramePool.take (first / Frame.size) (min (ceilDiv last Frame.size) (← get).total)

/-- Builds the frame pool of a memory map: everything starts taken, usable ranges are released,
and then the reserved range is taken again. -/
def framePool (regions : List Region) (reserved : Nat × Nat) : Total σ FramePool := do
  let ranges := usable regions
  let top := top ranges
  let pool := FramePool.allTaken (top / Frame.size)
  Action.note (.memoryTop top pool.total pool.words)
  let (_, pool) ← Action.running pool do
    ranges.forM fun range => releaseRange range.1 range.2
    match clip? reserved.1 reserved.2 with
    | some range => reserveRange range.1 range.2
    | none => pure ()
  return pool

end MemoryMap

end KernelResources
