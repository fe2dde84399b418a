import KernelResources.Text.Hex

/-!
# Errors and halts

An operation is *refused* when it reports an error to its caller: `MemoryError` for frames,
address spaces and the kernel heap, `ProcessError` for the process table. It *halts* when it
never returns to its caller at all; `Halt` lists the causes.
-/

namespace KernelResources

/-- Why a memory operation is refused. -/
inductive MemoryError where
  /-- Nothing large enough is left to hand out. -/
  | outOfMemory
  /-- A heap block or pointer contradicts the structure of the block list. -/
  | corruptionDetected
  /-- The page has no translation. -/
  | notMapped
  /-- The page already has a translation. -/
  | alreadyMapped
  /-- The request makes no sense in the present state. -/
  | invalidOperation
deriving DecidableEq, Repr, Inhabited

/-- The wording of a refusal. -/
def MemoryError.message : MemoryError → String
  | outOfMemory => "Out of memory"
  | corruptionDetected => "Heap corruption detected"
  | notMapped => "Address not mapped"
  | alreadyMapped => "Page already mapped"
  | invalidOperation => "Invalid memory operation"

/-- Every reason for refusing a memory operation. -/
def MemoryError.all : List MemoryError :=
  [outOfMemory, corruptionDetected, notMapped, alreadyMapped, invalidOperation]

/-- Why an operation on the process table is refused. -/
inductive ProcessError where
  /-- The memory subsystem refused a part of the work. -/
  | memory (cause : MemoryError)
  /-- No process has the given pid. -/
  | noSuchProcess
  /-- The process exists, but its state does not allow the operation. -/
  | invalidOperation
deriving DecidableEq, Repr, Inhabited

/-- The wording of a refusal. -/
def ProcessError.message : ProcessError → String
  | memory cause => "Memory error: " ++ cause.message
  | noSuchProcess => "No such process"
  | invalidOperation => "Invalid process operation"

/-- Every reason for refusing a process operation. -/
def ProcessError.all : List ProcessError :=
  MemoryError.all.map memory ++ [noSuchProcess, invalidOperation]

/-- Causes for which an operation never returns. All but `endlessWalk` are panics: the kernel
stops with a message. -/
inductive Halt where
  /-- A sum left the range of its type. -/
  | addOverflow
  /-- A difference would have been negative. -/
  | subtractOverflow
  /-- A product left the range of its type. -/
  | multiplyOverflow
  /-- A table of `length` entries was indexed at `index`. -/
  | indexOutOfBounds (length index : Nat)
  /-- A physical address needs more than 52 bits. -/
  | physicalAddressRange
  /-- A virtual address does not extend the sign of its lower 48 bits. -/
  | virtualAddressRange
  /-- The sum of an address and an offset, `address`, is not a canonical virtual address. -/
  | nonCanonicalSum (address : Nat)
  /-- An event queue was requested with room for nothing. -/
  | zeroCapacity
  /-- An event queue was requested that no memory could ever hold. -/
  | capacityOverflow
  /-- The kernel-wide frame allocator was used before it was installed. -/
  | noFrameAllocator
  /-- The kernel heap refused to take back the payload at `address`. -/
  | heapFree (error : MemoryError) (address : Nat)
  /-- The kernel heap is damaged around the payload at `address`, which was to be resized. -/
  | heapResize (address : Nat)
  /-- A page fault; there is no demand paging to fall back on. -/
  | pageFault (address : Nat)
  /-- The links of a damaged block list lead in a circle, so a walk along them never ends. -/
  | endlessWalk
deriving DecidableEq, Repr, Inhabited

/-- What is printed when the kernel stops. -/
def Halt.message : Halt → String
  | addOverflow => "attempt to add with overflow"
  | subtractOverflow => "attempt to subtract with overflow"
  | multiplyOverflow => "attempt to multiply with overflow"
  | indexOutOfBounds length index =>
    s!"index out of bounds: the len is {length} but the index is {index}"
  | physicalAddressRange =>
    "physical addresses must not have any bits in the range 52 to 64 set"
  | virtualAddressRange => "virtual address must be sign extended in bits 48 to 64"
  | nonCanonicalSum address =>
    "attempt to add resulted in non-canonical virtual address: VirtAddrNotValid(" ++
      Text.hex address ++ ")"
  | zeroCapacity => "capacity must be non-zero"
  | capacityOverflow => "capacity overflow"
  | noFrameAllocator => "Frame allocator does not exist."
  | heapFree error address =>
    s!"kernel heap: {error.message} while freeing {Text.hex address}"
  | heapResize address => s!"kernel heap: corruption while resizing {Text.hex address}"
  | pageFault address => s!"page fault at {Text.hex address}"
  | endlessWalk => "the block list does not end"

end KernelResources
