import KernelResources.Arithmetic
import KernelResources.Heap.Header
import KernelResources.Store.Copy

/-!
# The kernel heap

A first-fit allocator over one arena of bytes. The headers of its blocks form a doubly linked list
in address order that covers the arena exactly. A block that is given back is merged with free
neighbours at once, so two adjacent blocks are never both free.

The list lives in the arena, next to the payloads, and is read back from there on every operation.
A client that writes outside its payload therefore damages it; the guard in front of each payload
makes most such damage visible.
-/

namespace KernelResources

/-- The range of addresses that a heap manages. -/
structure Arena where
  /-- First address, which is also the first block. -/
  start : Nat
  /-- Bytes in the arena. -/
  size : Nat
deriving DecidableEq, Repr, Inhabited

/-- A heap: its arena, and the memory that holds the arena. -/
structure Heap where
  /-- The range of addresses the heap manages. -/
  arena : Arena
  /-- The memory that holds headers and payloads. -/
  memory : ByteMemory

namespace Heap

variable {ε : Type}

/-- Most blocks a walk can visit: every block has an address of its own, and addresses have 64
bits. A walk that has not ended by then is going in circles. -/
def walkLimit : Nat := bitRange 64

/-- The next multiple of a granule, unless it leaves the range of a 64-bit number. -/
def inGranules? (n : Nat) : Option Nat :=
  (checkedAdd? 64 n (granule - 1)).map fun padded => roundDown padded granule

/-- Size of the smallest block whose payload holds `size` bytes. -/
def blockSize? (size : Nat) : Option Nat :=
  (inGranules? size).bind fun payload => checkedAdd? 64 payload headerSize

/-- Lays out an arena in `[start, start + size)` with one free block that spans it. Both ends are
moved inwards to a multiple of a granule. -/
def install (start size : Nat) : Action MemoryError ByteMemory Arena := do
  let aligned ← Action.ofOption .invalidOperation (inGranules? start)
  let size := roundDown (size - (aligned - start)) granule
  Action.refuseIf (size < minBlockSize) .invalidOperation
  Action.refuseIf (aligned = 0) .invalidOperation
  let header : Header := { size, next := none, prev := none, guardWord, free := true }
  modify fun memory => header.store memory aligned
  return { start := aligned, size }

/-- The header of a block. -/
@[inline]
def header (block : Nat) : Action ε Heap Header := do
  return Header.load (← get).memory block

/-- Puts a number into a field of the header of a block. -/
def setField (block : Nat) (field : Header.Field) (number : Nat) : Action ε Heap Unit :=
  modify fun heap => { heap with memory := field.write heap.memory block number }

/-- Makes `block` the predecessor of the block that a link leads to, if it leads to one. -/
def setPredecessor (link : Option Nat) (block : Nat) : Action ε Heap Unit :=
  match link with
  | some next => setField next .prev block
  | none => pure ()

/-- Follows the links from `cursor` to the first free block of at least `needed` bytes. -/
def findFreeFrom (needed : Nat) : (limit : Nat) → (cursor : Option Nat) →
    Action ε Heap (Option Nat)
  | _, none => return none
  | 0, some _ => Action.halt .endlessWalk
  | limit + 1, some block => do
    let current ← header block
    if current.free ∧ needed ≤ current.size then return some block
    else findFreeFrom needed limit current.next

/-- The first free block of at least `needed` bytes. -/
def findFree (needed : Nat) : Action ε Heap (Option Nat) := do
  findFreeFrom needed walkLimit (some (← get).arena.start)

/-- Cuts a block down to `needed` bytes if the rest can stand alone, and returns the rest, which
becomes a free block. -/
def cut (block needed : Nat) : Action ε Heap (Option Nat) := do
  let current ← header block
  let rest ← Action.subtract current.size needed
  if rest < minBlockSize then return none
  else
    let tail := block + needed
    let fresh : Header :=
      { size := rest, next := current.next, prev := some block, guardWord, free := true }
    modify fun heap => { heap with memory := fresh.store heap.memory tail }
    setPredecessor current.next tail
    setField block .next tail
    setField block .size needed
    return some tail

/-- Merges a block with the block after it, whose guard and links are wiped. -/
def mergeNext (block : Nat) : Action ε Heap Unit := do
  let current ← header block
  match current.next with
  | none => pure ()
  | some next =>
    let absorbed ← header next
    let size ← Action.add 64 current.size absorbed.size
    setField block .size size
    setField block .next (numberOf absorbed.next)
    setPredecessor absorbed.next block
    -- The wiped guard makes later uses of a pointer to the merged block fail.
    setField next .guardWord 0
    setField next .next 0
    setField next .prev 0

/-- Whether a link leads to a free block. -/
def isFreeLink : Option Nat → Action ε Heap Bool
  | none => return false
  | some block => return (← header block).free

/-- Merges a free block with its free neighbours. -/
def mergeNeighbours (block : Nat) : Action ε Heap Unit := do
  -- The neighbour behind goes first: the links of `block` are read again afterwards.
  if ← isFreeLink (← header block).next then mergeNext block
  match (← header block).prev with
  | some prev => if (← header prev).free then mergeNext prev
  | none => pure ()

/-- Whether a pointer can be the payload of a block of the arena. -/
def canOwn (pointer : Nat) : Action ε Heap Bool := do
  let arena := (← get).arena
  let lowest ← Action.add 64 arena.start headerSize
  if pointer < lowest then return false
  else
    let limit ← Action.add 64 arena.start arena.size
    return pointer < limit ∧ (pointer - arena.start) % granule = 0

/-- The block that owns a payload, which must be in use. -/
def ownerOf (pointer : Nat) : Action MemoryError Heap Nat := do
  if ← canOwn pointer then
    let block := pointer - headerSize
    let current ← header block
    if current.guardWord ≠ guardWord then
      Action.note (.damagedGuard current.guardWord block)
      throw .corruptionDetected
    else if current.free then
      Action.note (.doubleFree pointer)
      throw .corruptionDetected
    else return block
  else
    Action.note (.outsideArena pointer)
    throw .corruptionDetected

/-- Allocates `size` bytes and returns the address of the payload. -/
def allocate (size : Nat) : Action MemoryError Heap Nat := do
  Action.refuseIf (size = 0) .invalidOperation
  let needed ← Action.ofOption .outOfMemory (blockSize? size)
  let block ← Action.ofOption .outOfMemory (← findFree needed)
  let _ ← cut block needed
  setField block .free false.toNat
  setField block .guardWord guardWord
  return block + headerSize

/-- Allocates `count * size` bytes, all zero. -/
def allocateZeroed (count size : Nat) : Action MemoryError Heap Nat := do
  let total ← Action.ofOption .outOfMemory (checkedMultiply? 64 count size)
  let pointer ← allocate total
  modify fun heap => { heap with memory := heap.memory.fill pointer (pointer + total) 0 }
  return pointer

/-- Gives a payload back. The pointer, the guard and the free flag are checked before anything
changes. -/
def free (pointer : Nat) : Action MemoryError Heap Unit := do
  let block ← ownerOf pointer
  setField block .free true.toNat
  mergeNeighbours block

/-- Whether a block of `current` bytes reaches `needed` bytes together with the block after it,
if that one is free. -/
def fitsWithNext (block current needed : Nat) : Action ε Heap Bool := do
  match (← header block).next with
  | none => return false
  | some next =>
    let successor ← header next
    if successor.free then
      return needed ≤ (← Action.add 64 current successor.size)
    else return false

/-- Resizes an allocation: in place if the block, alone or with a free successor, is large enough,
and by moving the payload otherwise. -/
def resize (pointer newSize : Nat) : Action MemoryError Heap Nat := do
  let block ← ownerOf pointer
  Action.refuseIf (newSize = 0) .invalidOperation
  let needed ← Action.ofOption .outOfMemory (blockSize? newSize)
  let current := (← header block).size
  if needed ≤ current then
    match ← cut block needed with
    | some tail => mergeNeighbours tail
    | none => pure ()
    return pointer
  else if ← fitsWithNext block current needed then
    mergeNext block
    let _ ← cut block needed
    return pointer
  else
    -- The old block is given back last: until then its payload is there to be copied.
    let fresh ← allocate newSize
    let capacity ← Action.subtract current headerSize
    modify fun heap => { heap with memory := heap.memory.copy pointer fresh capacity }
    free pointer
    return fresh

/-- Bytes that the payload of an allocation can hold. -/
def capacity (pointer : Nat) : Action MemoryError Heap Nat := do
  let block ← ownerOf pointer
  Action.subtract (← header block).size headerSize

end Heap

end KernelResources
