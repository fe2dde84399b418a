import KernelResources.Frame.Basic

/-!
# Memory layout

The fixed virtual layout that address spaces and processes agree on. The range from the kernel
image to the end of the heap is identity-mapped in the kernel address space. The directory slots
that cover everything below the end of the heap are shared by every address space, and only the
kernel space may change what they lead to.
-/

namespace KernelResources

variable {ε σ : Type}

/-- Bytes in a page. -/
def pageSize : Nat := 4096

/-- Entries in a page directory or a page table. -/
def entryCount : Nat := 1024

/-- Bytes covered by one entry of a page directory. -/
def regionSize : Nat := pageSize * entryCount

/-- The first address that programs in user mode may start at. -/
def userSpaceStart : Nat := 0x40000000

/-- Where the kernel, its heap and the stacks of user processes lie. All four are 32-bit numbers. -/
structure Layout where
  /-- First address of the kernel image. -/
  kernelStart : Nat
  /-- First address of the kernel heap. -/
  heapStart : Nat
  /-- Bytes in the kernel heap. -/
  heapSize : Nat
  /-- Address right behind the stack page of a user process. -/
  userStackTop : Nat
deriving DecidableEq, Repr, Inhabited

namespace Layout

/-- The layout the kernel is built for. -/
def standard : Layout where
  kernelStart := 0x00100000
  heapStart := 0x00400000
  heapSize := 0x01000000
  userStackTop := 0xC0000000

/-- The address right behind the heap, as a number. -/
def heapLimit (layout : Layout) : Nat := layout.heapStart + layout.heapSize

/-- The address right behind the heap, which has to fit into 32 bits. -/
def heapEnd (layout : Layout) : Action ε σ Nat := Action.add 32 layout.heapStart layout.heapSize

/-- Number of leading directory slots that belong to the kernel. -/
def sharedSlots (layout : Layout) : Nat := ceilDiv layout.heapLimit regionSize

/-- The physical range that must never be handed out. -/
def reservedRange (layout : Layout) : Action ε σ (Nat × Nat) := do
  let heapEnd ← layout.heapEnd
  return (layout.kernelStart, heapEnd)

theorem heapEnd_eq_pure {layout : Layout} (h : layout.heapLimit < bitRange 32) :
    (layout.heapEnd : Action ε σ Nat) = pure layout.heapLimit := Action.add_eq_pure h

end Layout

/-- Number of bits in a virtual address that name something. -/
def virtualWidth : Nat := 48

/-- Whether the bits of a 64-bit address above the named ones all repeat the highest named one. -/
def isCanonical (address : Nat) : Bool :=
  address < bitRange (virtualWidth - 1) ||
    (bitRange 64 - bitRange (virtualWidth - 1) ≤ address && address < bitRange 64)

/-- A number as a virtual address, which has to be canonical. -/
def virtualAddress (number : Nat) : Action ε σ Nat :=
  if isCanonical number then return number else Action.halt .virtualAddressRange

/-- Where a physical address appears in a window onto physical memory that begins at `offset`. -/
def windowAddress (offset physical : Nat) : Action ε σ Nat := do
  let address ← Action.add 64 offset physical
  if isCanonical address then return address else Action.halt (.nonCanonicalSum address)

end KernelResources
