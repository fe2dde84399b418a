import KernelResources.Text.FlagNames
import KernelResources.Frame.Basic
import KernelResources.Layout

/-!
# Page table entries

An entry of a page directory or of a page table is a word of 32 bits: the upper 20 name a frame,
the lower 12 are flags. `Entry.ofWord` and `Entry.toWord` are inverse to each other, so words and
entries are two readings of the same memory.
-/

namespace KernelResources

/-- The flags of an entry. -/
abbrev Flags := BitVec 12

namespace Flags

/-- The entry takes part in translation. -/
def present : Flags := 1#12 <<< 0

/-- The page may be written. -/
def writable : Flags := 1#12 <<< 1

/-- Programs in user mode may use the page. -/
def user : Flags := 1#12 <<< 2

/-- The translation survives a change of the address space. -/
def global : Flags := 1#12 <<< 8

/-- The address space allocated the frame itself and has to give it back. Free for the kernel's
own use as far as the processor is concerned. -/
def owned : Flags := 1#12 <<< 9

/-- The flags among the bits of a longer word. -/
def ofNat (bits : Nat) : Flags := BitVec.ofNat 12 bits

/-- Whether all of `part` is set. -/
def has (flags part : Flags) : Bool := flags &&& part = part

/-- The flags of a table, or of a directory slot that leads to one. -/
def table : Flags := present ||| writable ||| owned

/-- The flags of an identity-mapped kernel page. -/
def kernelPage : Flags := present ||| writable ||| global

/-- The names of the flags. -/
def names : List Text.FlagName :=
  [⟨0, "PRESENT"⟩, ⟨1, "WRITABLE"⟩, ⟨2, "USER_ACCESSIBLE"⟩, ⟨3, "WRITE_THROUGH"⟩,
    ⟨4, "NO_CACHE"⟩, ⟨5, "ACCESSED"⟩, ⟨6, "DIRTY"⟩, ⟨7, "HUGE_PAGE"⟩, ⟨8, "GLOBAL"⟩,
    ⟨9, "BIT_9"⟩, ⟨10, "BIT_10"⟩, ⟨11, "BIT_11"⟩]

/-- The written form of a set of flags. -/
def text (flags : Flags) : String := s!"PageTableFlags({Text.flagNames names flags.toNat})"

end Flags

/-- A word of physical memory. -/
abbrev Word := BitVec 32

/-- An entry of a page directory or a page table. -/
structure Entry where
  /-- Index of the frame the entry leads to. -/
  frame : BitVec 20
  /-- The flags of the entry. -/
  flags : Flags
deriving DecidableEq, Repr, Inhabited

namespace Entry

/-- The entry of an unused slot. -/
def unused : Entry := ⟨0, 0⟩

/-- The word that holds an entry. -/
def toWord (entry : Entry) : Word := entry.frame ++ entry.flags

/-- The entry held in a word. -/
def ofWord (word : Word) : Entry := ⟨word.extractLsb' 12 20, word.setWidth 12⟩

@[simp] theorem ofWord_toWord (entry : Entry) : ofWord entry.toWord = entry := by
  cases entry with
  | mk frame flags =>
    simp only [ofWord, toWord, mk.injEq]
    constructor
    · exact BitVec.extractLsb'_append_eq_left
    · exact BitVec.setWidth_append_eq_right

@[simp] theorem toWord_ofWord (word : Word) : (ofWord word).toWord = word := by
  apply BitVec.eq_of_getLsbD_eq
  intro index hindex
  simp only [toWord, ofWord, BitVec.getLsbD_append, BitVec.getLsbD_setWidth,
    BitVec.getLsbD_extractLsb']
  by_cases h : index < 12
  · simp [h]
  · have h1 : index - 12 < 20 := by omega
    have h2 : 12 + (index - 12) = index := by omega
    simp [h, h1, h2]

/-- An entry that leads to the frame of a physical address. The frame number is cut to the 20 bits
there is room for. -/
def leadingTo (address : Nat) (flags : Flags) : Entry :=
  ⟨BitVec.ofNat 20 (Frame.containing address), flags⟩

/-- Whether the slot was never used. -/
def isUnused (entry : Entry) : Bool := entry = unused

/-- Whether the entry takes part in translation. -/
def isPresent (entry : Entry) : Bool := entry.flags.has Flags.present

/-- Physical address of the frame the entry leads to. -/
def address (entry : Entry) : Nat := Frame.address entry.frame.toNat

/-- The frame the entry leads to, if it takes part in translation. -/
def frame? (entry : Entry) : Option Nat :=
  if entry.isPresent then some entry.frame.toNat else none

/-- Whether the entry leads to a frame that the address space has to give back. -/
def isOwned (entry : Entry) : Bool := entry.flags.has Flags.owned

/-- The written form of an entry. -/
def text (entry : Entry) : String :=
  s!"PageTableEntry \x7b addr: PhysAddr({Text.hex entry.address}), flags: {entry.flags.text} \x7d"

end Entry

end KernelResources
