import KernelResources.Frame.Basic
import KernelResources.Store.Search

/-!
# The frame pool

Which physical frames are taken. The pool keeps one bit per frame and, beside it, the number of
free frames, so the totals need no counting; frames past the end of memory count as taken. The
lowest frame that fits is always the one handed out, so runs are repeatable.

The bits are packed into words of 64. Every access to them is checked against the number of words,
and the kernel halts on one that lies outside.
-/

namespace KernelResources

/-- The frames of physical memory, each of them free or taken. -/
structure FramePool where
  /-- Number of frames, free or taken. -/
  total : Nat
  /-- Number of free frames. -/
  freeCount : Nat
  /-- Whether the frame of a given index is taken. -/
  taken : Store Bool true

/-- Totals of a frame pool, in frames and in bytes. -/
structure FrameStats where
  totalFrames : Nat
  freeFrames : Nat
  usedFrames : Nat
  totalMemory : Nat
  freeMemory : Nat
  usedMemory : Nat
deriving DecidableEq, Repr

namespace FramePool

variable {ε σ : Type}

/-- Bits in one word of the pool. -/
def wordBits : Nat := 64

/-- A word whose frames are all taken. -/
def fullWord : Nat := bitRange wordBits - 1

/-- A pool of `total` free frames. -/
def allFree (total : Nat) : FramePool :=
  { total, freeCount := total, taken := Store.empty.fill 0 total false }

/-- A pool of `total` frames that are all taken. -/
def allTaken (total : Nat) : FramePool := { total, freeCount := 0, taken := Store.empty }

/-- Number of words the bits take up. -/
def words (pool : FramePool) : Nat := ceilDiv pool.total wordBits

/-- Whether a frame is taken; a frame past the end of memory is. -/
def isTaken (pool : FramePool) (frame : Nat) : Bool :=
  pool.total ≤ frame || pool.taken.read frame

/-- The lowest free frame at or above `start`. -/
def lowestFree (pool : FramePool) (start : Nat) : Option Nat :=
  pool.taken.first? (!·) start pool.total

/-- Halts if the bits of the frames below `last` are not all inside the pool's words. -/
def checkBounds (last : Nat) : Action ε FramePool Unit := do
  let words := (← get).words
  if last ≤ words * wordBits then pure ()
  else Action.halt (.indexOutOfBounds words ((last - 1) / wordBits))

/-- Takes the frames in `[first, last)`. -/
def take (first last : Nat) : Action ε FramePool Unit := do
  checkBounds last
  let pool ← get
  let freeCount ← Action.subtract pool.freeCount (pool.taken.count (!·) first last)
  set { pool with freeCount, taken := pool.taken.fill first last true }

/-- Gives back the frames in `[first, last)`. -/
def release (first last : Nat) : Action ε FramePool Unit := do
  checkBounds last
  let pool ← get
  let freeCount ← Action.add 64 pool.freeCount (pool.taken.count id first last)
  set { pool with freeCount, taken := pool.taken.fill first last false }

/-- Hands out the lowest free frame. -/
def allocate : Action MemoryError FramePool Nat := do
  let index ← Action.ofOption .outOfMemory ((← get).lowestFree 0)
  take index (index + 1)
  Frame.ofIndex index

/-- Hands out the lowest free frame, if there is one. -/
def allocate? : Total FramePool (Option Nat) := do
  match ← allocate.attempt with
  | .ok frame => return some frame
  | .error _ => return none

/-- Looks for a run of `count` free frames at or above `start`. A run that meets a taken frame
cannot begin at or below it, so the search goes on behind that frame; `rounds` bounds how often. -/
def allocateRunFrom (count : Nat) : (rounds start : Nat) → Action MemoryError FramePool Nat
  | 0, _ => throw .outOfMemory
  | rounds + 1, start => do
    let pool ← get
    let first ← Action.ofOption .outOfMemory (pool.lowestFree start)
    let last ← Action.add 64 first count
    Action.refuseIf (pool.total < last) .outOfMemory
    match pool.taken.first? id first last with
    | some obstacle => allocateRunFrom count rounds (obstacle + 1)
    | none =>
      take first last
      Frame.ofIndex first

/-- Hands out the lowest run of `count` free frames and returns the first of them. -/
def allocateRun (count : Nat) : Action MemoryError FramePool Nat := do
  Action.refuseIf (count = 0) .invalidOperation
  allocateRunFrom count ((← get).total + 1) 0

/-- Gives a frame back. A frame that is free already, or does not exist, is reported and refused. -/
def free (frame : Nat) : Action MemoryError FramePool Unit := do
  if (← get).isTaken frame ∧ frame < (← get).total then
    release frame (frame + 1)
  else
    Action.note (.strayFrame (Frame.address frame))
    throw .invalidOperation

/-- Gives a frame back; one that cannot be given back is only reported. -/
def discard (frame : Nat) : Total FramePool Unit := do
  let _ ← (free frame).attempt

/-- Takes one frame, unless it is taken already. -/
def markTaken (frame : Nat) : Total FramePool Unit := do
  if (← get).isTaken frame then pure () else take frame (frame + 1)

/-- Takes the frames below `count`. -/
def reserve (count : Nat) : Total FramePool Unit := do
  take 0 (min count (← get).total)

/-- The totals of a pool. -/
def stats : Total FramePool FrameStats := do
  let pool ← get
  let usedFrames ← Action.subtract pool.total pool.freeCount
  return {
    totalFrames := pool.total
    freeFrames := pool.freeCount
    usedFrames
    totalMemory := ← Action.multiply 64 pool.total Frame.size
    freeMemory := ← Action.multiply 64 pool.freeCount Frame.size
    usedMemory := ← Action.multiply 64 usedFrames Frame.size }

/-- The maximal runs of taken frames at or above `start`, as pairs of first frame and length, in
ascending order behind those in `found`, which holds the earlier ones in descending order. -/
private def takenRunsFrom (pool : FramePool) (found : List (Nat × Nat)) :
    (rounds start : Nat) → List (Nat × Nat)
  | 0, _ => found.reverse
  | rounds + 1, start =>
    match pool.taken.first? id start pool.total with
    | none => found.reverse
    | some first =>
      let last := (pool.lowestFree first).getD pool.total
      takenRunsFrom pool ((first, last - first) :: found) rounds last

/-- The maximal runs of taken frames, as pairs of first frame and length. -/
def takenRuns (pool : FramePool) : List (Nat × Nat) := takenRunsFrom pool [] pool.total 0

end FramePool

end KernelResources
