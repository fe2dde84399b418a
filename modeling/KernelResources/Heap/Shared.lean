import KernelResources.Heap.Audit
import KernelResources.Interrupts

/-!
# The shared heap

The heap as the rest of the kernel sees it: absent until its arena is installed, and touched only
while interrupts are kept out. Its clients come in two kinds. Explicit requests report errors.
Requests on behalf of the language's own containers know no errors: exhaustion gives a null
pointer, and corruption halts the kernel.
-/

namespace KernelResources

/-- A heap that many clients share. -/
structure SharedHeap where
  /-- Whether interrupts are delivered. -/
  enabled : Bool
  /-- The arena, once it is installed. -/
  arena : Option Arena
  /-- The memory that holds the arena. -/
  memory : ByteMemory

namespace SharedHeap

instance : HasInterruptFlag SharedHeap where
  enabled := SharedHeap.enabled
  setEnabled := fun enabled heap => { heap with enabled }

variable {ε α : Type}

/-- Before an arena is installed. -/
def empty : SharedHeap := { enabled := true, arena := none, memory := Store.empty }

/-- Runs an action on the heap with interrupts kept out; refused until there is an arena. -/
def exclusively (action : Action MemoryError Heap α) : Action MemoryError SharedHeap α :=
  Interrupts.masked do
    match (← get).arena with
    | none => throw .invalidOperation
    | some arena =>
      action.within (fun shared => ⟨arena, shared.memory⟩) fun shared heap =>
        { shared with arena := some heap.arena, memory := heap.memory }

/-- Runs an action on the memory, which needs no arena. -/
def onMemory (action : Action ε ByteMemory α) : Action ε SharedHeap α :=
  action.within memory fun shared memory => { shared with memory }

/-- Installs a fresh arena in `[start, start + size)`. -/
def install (start size : Nat) : Action MemoryError SharedHeap Unit := do
  let arena ← onMemory (Heap.install start size)
  Interrupts.masked (modify fun state => { state with arena := some arena })

/-- The greatest alignment that payloads have. -/
def maxAlignment : Nat := Heap.granule

/-- Allocates for a container; zero stands for a null pointer. -/
def allocateFor (size alignment : Nat) : Total SharedHeap Nat := do
  if maxAlignment < alignment then return 0
  else
    match ← (exclusively (Heap.allocate size)).attempt with
    | .ok pointer => return pointer
    | .error _ => return 0

/-- Takes a payload back from a container; the kernel halts if the heap refuses it. -/
def freeFor (pointer : Nat) : Total SharedHeap Unit := do
  if pointer = 0 then pure ()
  else
    match ← (exclusively (Heap.free pointer)).attempt with
    | .ok () => pure ()
    | .error error => Action.halt (.heapFree error pointer)

/-- Resizes a payload of a container; zero stands for a null pointer. -/
def resizeFor (pointer alignment newSize : Nat) : Total SharedHeap Nat := do
  if maxAlignment < alignment then return 0
  else if pointer = 0 then allocateFor newSize alignment
  else
    match ← (exclusively (Heap.resize pointer newSize)).attempt with
    | .ok fresh => return fresh
    | .error .corruptionDetected => Action.halt (.heapResize pointer)
    | .error _ => return 0

/-- Allocates `size` bytes. -/
def allocate (size : Nat) : Action MemoryError SharedHeap Nat := exclusively (Heap.allocate size)

/-- Allocates `count * size` bytes, all zero. -/
def allocateZeroed (count size : Nat) : Action MemoryError SharedHeap Nat :=
  exclusively (Heap.allocateZeroed count size)

/-- Resizes an allocation. -/
def resize (pointer newSize : Nat) : Action MemoryError SharedHeap Nat :=
  exclusively (Heap.resize pointer newSize)

/-- Gives a payload back. If the heap refuses it, the block list is dumped and the kernel halts. -/
def free (pointer : Nat) : Total SharedHeap Unit := do
  let result ← (exclusively do
    match ← (Heap.free pointer).attempt with
    | .ok () => pure ()
    | .error error =>
      Heap.dump.unrefused
      throw error).attempt
  match result with
  | .ok () => pure ()
  | .error error => Action.halt (.heapFree error pointer)

/-- Verified statistics. -/
def stats : Action MemoryError SharedHeap HeapStats := exclusively Heap.verify

end SharedHeap

end KernelResources
