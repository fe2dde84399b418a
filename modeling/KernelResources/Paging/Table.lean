import KernelResources.Paging.Entry
import KernelResources.Store

/-!
# Page tables in memory

Page directories and page tables have the same shape: a frame of 1024 entries. They live in
physical memory, which is addressed by words here.
-/

namespace KernelResources

/-- Physical memory, addressed by words. -/
abbrev WordMemory : Type := Store Word 0

namespace WordMemory

/-- Bytes in a word. -/
def wordSize : Nat := 4

/-- Number of the word that holds an entry of the table in a frame. -/
def slotIndex (frame slot : Nat) : Nat := frame * entryCount + slot

/-- An entry of the table in a frame. -/
def entry (memory : WordMemory) (frame slot : Nat) : Entry :=
  Entry.ofWord (memory.read (slotIndex frame slot))

/-- Changes an entry of the table in a frame. -/
def setEntry (memory : WordMemory) (frame slot : Nat) (entry : Entry) : WordMemory :=
  memory.write (slotIndex frame slot) entry.toWord

/-- Fills a frame with zeros. -/
def zeroFrame (memory : WordMemory) (frame : Nat) : WordMemory :=
  memory.fill (slotIndex frame 0) (slotIndex (frame + 1) 0) 0

/-- The word at a physical address. -/
def wordAt (memory : WordMemory) (address : Nat) : Nat := (memory.read (address / wordSize)).toNat

/-- Changes the word at a physical address. -/
def setWordAt (memory : WordMemory) (address value : Nat) : WordMemory :=
  memory.write (address / wordSize) (BitVec.ofNat 32 value)

/-- An entry reads back as it was written, and no other entry changes with it. -/
theorem entry_setEntry (memory : WordMemory) {frame frame' slot slot' : Nat}
    (entry : Entry) (hslot : slot < entryCount) (hslot' : slot' < entryCount) :
    (memory.setEntry frame slot entry).entry frame' slot' =
      if frame' = frame ∧ slot' = slot then entry else memory.entry frame' slot' := by
  have hindex : slotIndex frame' slot' = slotIndex frame slot ↔ frame' = frame ∧ slot' = slot := by
    simp only [slotIndex, entryCount] at *
    omega
  unfold WordMemory.entry setEntry
  rw [Store.read_write]
  by_cases h : frame' = frame ∧ slot' = slot
  · rw [if_pos (hindex.mpr h), if_pos h, Entry.ofWord_toWord]
  · rw [if_neg fun h' => h (hindex.mp h'), if_neg h]

/-- A zeroed frame holds unused entries only, and no other frame changes with it. -/
theorem entry_zeroFrame (memory : WordMemory) {frame frame' slot : Nat}
    (hslot : slot < entryCount) :
    (memory.zeroFrame frame).entry frame' slot =
      if frame' = frame then Entry.unused else memory.entry frame' slot := by
  have hindex : (slotIndex frame 0 ≤ slotIndex frame' slot ∧
      slotIndex frame' slot < slotIndex (frame + 1) 0) ↔ frame' = frame := by
    simp only [slotIndex, entryCount] at *
    omega
  unfold WordMemory.entry zeroFrame
  rw [Store.read_fill]
  by_cases h : frame' = frame
  · rw [if_pos (hindex.mpr h), if_pos h]
    rfl
  · rw [if_neg fun h' => h (hindex.mp h'), if_neg h]

end WordMemory

namespace Table

variable {ε : Type}

/-- Halts if there is no such slot. -/
def checkSlot (slot : Nat) : Action ε WordMemory Unit :=
  if slot < entryCount then pure () else Action.halt (.indexOutOfBounds entryCount slot)

/-- Reads an entry of the table in a frame. -/
def get (frame slot : Nat) : Action ε WordMemory Entry := do
  checkSlot slot
  return (← MonadState.get).entry frame slot

/-- Changes an entry of the table in a frame. -/
def set (frame slot : Nat) (entry : Entry) : Action ε WordMemory Unit := do
  checkSlot slot
  modify fun memory => memory.setEntry frame slot entry

/-- All entries of the table in a frame. -/
def entries (memory : WordMemory) (frame : Nat) : List Entry :=
  (List.range entryCount).map (memory.entry frame)

end Table

end KernelResources
