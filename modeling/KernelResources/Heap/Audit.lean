import KernelResources.Heap.Basic

/-!
# Looking at a whole heap

Walks along the block list: verification of every header, statistics without verification, and a
dump for the journal. A walk reads the links as they are; on a damaged list it may lead out of the
arena or in circles. Verification stops at the first header that contradicts the one before it.
-/

namespace KernelResources

/-- What a heap holds. -/
structure HeapStats where
  /-- Bytes in the arena. -/
  arenaSize : Nat
  /-- Bytes in blocks in use, headers included. -/
  usedBytes : Nat := 0
  /-- Bytes in free blocks, headers included. -/
  freeBytes : Nat := 0
  /-- Number of blocks. -/
  blocks : Nat := 0
  /-- Number of free blocks. -/
  freeBlocks : Nat := 0
  /-- Payload capacity of the largest free block. -/
  largestFree : Nat := 0
deriving DecidableEq, Repr, Inhabited

namespace Heap

variable {ε α : Type}

/-- Follows the links from `cursor` and folds `visit` over the blocks and their headers. -/
def walkFrom (visit : α → Nat → Header → Action ε Heap α) :
    (limit : Nat) → (cursor : Option Nat) → α → Action ε Heap α
  | _, none, found => return found
  | 0, some _, _ => Action.halt .endlessWalk
  | limit + 1, some block, found => do
    let current ← header block
    let found ← visit found block current
    walkFrom visit limit current.next found

/-- Folds `visit` over the blocks of the list and their headers. -/
def walk (visit : α → Nat → Header → Action ε Heap α) (found : α) : Action ε Heap α := do
  walkFrom visit walkLimit (some (← get).arena.start) found

/-- Counts one more block. -/
def countBlock (stats : HeapStats) (current : Header) : Action ε Heap HeapStats := do
  if current.free then
    let freeBytes ← Action.add 64 stats.freeBytes current.size
    let payload ← Action.subtract current.size headerSize
    return { stats with
      blocks := stats.blocks + 1
      freeBlocks := stats.freeBlocks + 1
      freeBytes
      largestFree := max stats.largestFree payload }
  else
    let usedBytes ← Action.add 64 stats.usedBytes current.size
    return { stats with blocks := stats.blocks + 1, usedBytes }

/-- Statistics of the block list as it is. -/
def stats : Total Heap HeapStats := do
  walk (fun stats _ current => countBlock stats current) { arenaSize := (← get).arena.size }

/-- What verification knows of the blocks it has passed. -/
structure Passed where
  /-- Statistics of these blocks. -/
  stats : HeapStats
  /-- Where the next block has to begin. -/
  expected : Nat
  /-- The last of these blocks. -/
  previous : Option Nat
  /-- Whether the last of these blocks is free. -/
  previousFree : Bool

/-- What is wrong with a block, given the blocks before it. -/
def faultOf (passed : Passed) (block : Nat) (current : Header) :
    Action ε Heap (Option Fault) := do
  if block ≠ passed.expected then return some .notContiguous
  else if current.guardWord ≠ guardWord then return some .badGuard
  else if current.prev ≠ passed.previous then return some .brokenBackLink
  else if current.size < headerSize ∨ current.size % granule ≠ 0 then return some .badSize
  else
    let arena := (← get).arena
    let last ← Action.add 64 block current.size
    let limit ← Action.add 64 arena.start arena.size
    if limit < last then return some .badSize
    else if current.free ∧ passed.previousFree then return some .adjacentFree
    else return none

/-- Verifies one block and passes on to the next. -/
def verifyBlock (passed : Passed) (block : Nat) (current : Header) :
    Action MemoryError Heap Passed := do
  match ← faultOf passed block current with
  | some fault =>
    Action.note (.heapFault fault block)
    throw .corruptionDetected
  | none =>
    let stats ← countBlock passed.stats current
    let expected ← Action.add 64 block current.size
    return { stats, expected, previous := some block, previousFree := current.free }

/-- Verifies the whole list and returns its statistics. -/
def verify : Action MemoryError Heap HeapStats := do
  let arena := (← get).arena
  let passed ← walk verifyBlock
    { stats := { arenaSize := arena.size }, expected := arena.start, previous := none,
      previousFree := false }
  let limit ← Action.add 64 arena.start arena.size
  if passed.expected ≠ limit then
    let covered ← Action.subtract passed.expected arena.start
    Action.note (.heapShort covered arena.size)
    throw .corruptionDetected
  else return passed.stats

/-- Reports every block of the list. -/
def dump : Total Heap Unit := do
  let arena := (← get).arena
  Action.note (.arenaDump arena.start arena.size)
  walk (fun _ block current =>
    Action.note (.blockDump block current.size current.free current.guardWord)) ()

end Heap

end KernelResources
