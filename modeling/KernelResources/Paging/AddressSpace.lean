import KernelResources.Paging.Machine

/-!
# Address spaces

Translation has two levels: a directory of 1024 entries, each of which covers 4 MiB through a table
of 1024 entries. Tables are reached through physical memory, never through the address space they
describe.

The leading slots of every directory, up to the end of the kernel heap, belong to the kernel. Their
tables are allocated once, when the kernel space is built, and every other space copies the slots,
so kernel mappings made later are visible everywhere. Frames that a space allocates itself are
marked as owned in the entry that leads to them; unmapping the page or destroying the space gives
them back.
-/

namespace KernelResources

/-- A set of translations, named by the frame of its directory. -/
structure AddressSpace where
  /-- Frame of the page directory. -/
  directory : Nat
deriving DecidableEq, Repr, Inhabited

namespace AddressSpace

/-- What the directory register holds while the space is loaded. -/
def cr3 (space : AddressSpace) : UInt32 := UInt32.ofNat (Frame.address space.directory)

/-- The written form of an address space. -/
def text (space : AddressSpace) : String :=
  let frame := s!"PhysFrame[4KiB]({Text.hex (Frame.address space.directory)})"
  s!"AddressSpace \x7b directory: {frame} \x7d"

end AddressSpace

/-- Directory slot that covers an address. -/
def slotInDirectory (address : Nat) : Nat := address / regionSize % entryCount

/-- Slot of the page of an address in the table that covers it. -/
def slotInTable (address : Nat) : Nat := address / pageSize % entryCount

/-- The fixed facts about address spaces: where the kernel region lies, and which space is the
kernel's own. -/
structure Paging where
  /-- The memory layout. -/
  layout : Layout
  /-- The kernel address space. -/
  kernel : AddressSpace
deriving DecidableEq, Repr, Inhabited

namespace Paging

open Machine

variable {ε : Type} (paging : Paging)

/-- Whether an address lies in a slot that belongs to the kernel. -/
def inKernelRegion (address : Nat) : Bool := slotInDirectory address < paging.layout.sharedSlots

/-- Refuses a change of the kernel region through any other space. -/
def refuseShared (space : AddressSpace) (address : Nat) : Action MemoryError Machine Unit :=
  Action.refuseIf (space.directory ≠ paging.kernel.directory ∧ paging.inKernelRegion address)
    .invalidOperation

/-- The frame of the table that covers an address. A missing table is allocated if `create` is set,
and the request is refused otherwise. -/
def tableFor (space : AddressSpace) (address : Nat) (create : Bool) :
    Action MemoryError Machine Nat := do
  let slot := slotInDirectory address
  match (← entry space.directory slot).frame? with
  | some table => return table
  | none =>
    Action.refuseIf (create = false) .notMapped
    let table ← takeZeroed
    -- User mode is let through later, by the first page that asks for it.
    setEntry space.directory slot (.leadingTo (Frame.address table) Flags.table)
    return table

/-- Gives the kernel space a table for one directory slot. -/
def addSharedTable (directory slot : Nat) : Action MemoryError Machine Unit := do
  let table ← takeZeroed
  setEntry directory slot (.leadingTo (Frame.address table) Flags.table)

/-- Maps the page of an address in the kernel space to itself. -/
def mapIdentity (kernel : AddressSpace) (address : Nat) : Action MemoryError Machine Unit := do
  let table ← tableFor kernel address false
  setEntry table (slotInTable address) (.leadingTo address Flags.kernelPage)

/-- The addresses from the start of the kernel image to the end of the heap, one page apart. -/
def identityAddresses (layout : Layout) : List Nat :=
  (List.range (ceilDiv (layout.heapLimit - layout.kernelStart) pageSize)).map fun index =>
    layout.kernelStart + index * pageSize

/-- Builds the kernel space and loads it. Every table of the kernel region is allocated, and the
range from the kernel image to the end of the heap is mapped to itself. -/
def create (layout : Layout) : Action MemoryError Machine Paging := do
  let directory ← takeZeroed
  -- Whether the heap fits below 4 GiB is settled before any table is allocated.
  let _ ← layout.heapEnd
  (List.range layout.sharedSlots).forM (addSharedTable directory)
  (identityAddresses layout).forM (mapIdentity ⟨directory⟩)
  loadDirectory directory
  Action.note (.kernelSpaceReady (Frame.address directory) layout.sharedSlots)
  return { layout, kernel := ⟨directory⟩ }

/-- Copies one directory slot from one space to another. -/
def copySlot (source target slot : Nat) : Action ε Machine Unit := do
  setEntry target slot (← entry source slot)

/-- Builds a space that shares the kernel region and is empty otherwise. -/
def createSpace : Action MemoryError Machine AddressSpace := do
  let directory ← takeZeroed
  (List.range paging.layout.sharedSlots).forM (copySlot paging.kernel.directory directory)
  return ⟨directory⟩

/-- Gives back the frame of a leaf if the space owns it. -/
def discardLeaf (leaf : Entry) : Action ε Machine Unit :=
  match leaf.frame? with
  | some frame => if leaf.isOwned then discardFrame frame else pure ()
  | none => pure ()

/-- Gives back what a directory slot leads to, as far as the space owns it. -/
def discardSlot (space : AddressSpace) (slot : Nat) : Action ε Machine Unit := do
  let upper ← entry space.directory slot
  match upper.frame? with
  | none => pure ()
  | some table =>
    (Table.entries (← get).memory table).forM discardLeaf
    if upper.isOwned then discardFrame table else pure ()

/-- Gives back every frame that a space owns outside the kernel region, and its directory. The
kernel space and the loaded space stay. -/
def destroySpace (space : AddressSpace) : Action MemoryError Machine Unit := do
  Action.refuseIf
    (space.directory = paging.kernel.directory ∨ space.directory = (← get).active) .invalidOperation
  ((List.range entryCount).drop paging.layout.sharedSlots).forM (discardSlot space)
  discardFrame space.directory

/-- Lets user mode through the directory slot of an address if a leaf behind it is for user mode. -/
def openToUser (space : AddressSpace) (address : Nat) (flags : Flags) :
    Action ε Machine Unit := do
  if flags.has Flags.user then
    let slot := slotInDirectory address
    let upper ← entry space.directory slot
    if upper.flags.has Flags.user then pure ()
    else setEntry space.directory slot { upper with flags := upper.flags ||| Flags.user }
  else pure ()

/-- Enters a translation where there is none. -/
def enter (space : AddressSpace) (address physical : Nat) (flags : Flags) :
    Action MemoryError Machine Unit := do
  paging.refuseShared space address
  let table ← tableFor space address true
  let slot := slotInTable address
  Action.refuseIf (← entry table slot).isPresent .alreadyMapped
  setEntry table slot (.leadingTo physical flags)
  openToUser space address flags

/-- The flags of a page that somebody else's frame is mapped to. -/
def borrowed (flags : Flags) : Flags := flags &&& ~~~Flags.owned ||| Flags.present

/-- Maps the page of an address. A translation that is there already is never overwritten. -/
def map (space : AddressSpace) (address physical : Nat) (flags : Flags) :
    Action MemoryError Machine Unit :=
  paging.enter space address physical (borrowed flags)

/-- Has the cached translation of a page forgotten where it could still be used: in the loaded
space, in the kernel region, and anywhere if it was global. -/
def forgetCached (space : AddressSpace) (address : Nat) (flags : Flags) :
    Action ε Machine Unit := do
  if space.directory = (← get).active ∨ paging.inKernelRegion address ∨ flags.has Flags.global then
    invalidate address
  else pure ()

/-- Gives up a former translation: its frame, if it was owned, and what is cached of it. -/
def retire (space : AddressSpace) (address : Nat) (previous : Entry) : Action ε Machine Unit := do
  discardLeaf previous
  paging.forgetCached space address previous.flags

/-- Maps the page of an address in place of what was there, and returns the physical address that
the page had. -/
def remap (space : AddressSpace) (address physical : Nat) (flags : Flags) :
    Action MemoryError Machine (Option Nat) := do
  paging.refuseShared space address
  let flags := borrowed flags
  let table ← tableFor space address true
  let slot := slotInTable address
  let previous ← entry table slot
  setEntry table slot (.leadingTo physical flags)
  openToUser space address flags
  if previous.isPresent then
    paging.retire space address previous
    return some previous.address
  else return none

/-- Backs the page of an address with a zeroed frame that the space owns. -/
def mapFresh (space : AddressSpace) (address : Nat) (flags : Flags) :
    Action MemoryError Machine Nat := do
  let frame ← takeZeroed
  let flags := flags ||| Flags.present ||| Flags.owned
  match ← (paging.enter space address (Frame.address frame) flags).attempt with
  | .ok () => return frame
  | .error error =>
    discardFrame frame
    throw error

/-- Clears the translation of a page and returns the frame it led to. A page that is not mapped,
or that belongs to the kernel region of another space, is left alone. -/
def unmap (space : AddressSpace) (address : Nat) : Action ε Machine (Option Nat) := do
  match ← (paging.refuseShared space address).attempt with
  | .error _ =>
    Action.note (.sharedUnmapRefused address)
    return none
  | .ok () =>
    match ← (tableFor space address false).attempt with
    | .error _ => return none
    | .ok table =>
      let slot := slotInTable address
      let previous ← entry table slot
      match previous.frame? with
      | none => return none
      | some frame =>
        setEntry table slot .unused
        paging.retire space address previous
        return some frame

/-- The physical address and the flags that an address translates to. -/
def translate (space : AddressSpace) (address : Nat) :
    Action MemoryError Machine (Nat × Flags) := do
  let upper ← entry space.directory (slotInDirectory address)
  let table ← Action.ofOption .notMapped upper.frame?
  let leaf ← entry table (slotInTable address)
  Action.refuseIf (leaf.isPresent = false) .notMapped
  return (leaf.address + address % pageSize, leaf.flags)

/-- Loads a space. -/
def activate (space : AddressSpace) : Action ε Machine Unit := loadDirectory space.directory

/-- Loads the kernel space. -/
def activateKernel : Action ε Machine Unit := activate paging.kernel

end Paging

end KernelResources
