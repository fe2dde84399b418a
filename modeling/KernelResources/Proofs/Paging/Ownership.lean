import KernelResources.Paging.AddressSpace
import Mathlib.Data.List.Nodup
import Mathlib.Data.List.Perm.Basic

/-!
# Frames that address spaces own

Which frames an address space has to give back is written down nowhere but in the words of its
tables. This file reads them off: the directory, the tables behind the space's own slots, and the
frames of the leaves that are marked as owned.

* `Paging.ownedFrames` lists the frames that a number of spaces own.
* `ownedFrames_congr` says which entries the list depends on, `ownedFrames_setLeaf` and
  `ownedFrames_setTable` what becomes of it when one of them is changed.
-/

namespace KernelResources

/-! ## Flags -/

namespace Flags

theorem has_twoPow {flags : Flags} {bit : Nat} (hbit : bit < 12) :
    flags.has (BitVec.twoPow 12 bit) = flags.getLsbD bit := by
  rw [has, BitVec.and_twoPow]
  cases h : flags.getLsbD bit with
  | true => simp
  | false =>
    have hne : (0#12 : Flags) ≠ BitVec.twoPow 12 bit := fun heq => by
      have hget := congrArg (BitVec.getLsbD · bit) heq
      simp [hbit] at hget
    simpa using hne

theorem has_present (flags : Flags) : flags.has present = flags.getLsbD 0 :=
  has_twoPow (by decide)

theorem has_owned (flags : Flags) : flags.has owned = flags.getLsbD 9 :=
  has_twoPow (by decide)

end Flags

/-! ## Entries -/

namespace Entry

/-- The frame an entry leads to, if the address space has to give it back. -/
def ownedFrame? (entry : Entry) : Option Nat := if entry.isOwned then entry.frame? else none

theorem ownedFrame?_of_frame?_eq_none {entry : Entry} (h : entry.frame? = none) :
    entry.ownedFrame? = none := by
  simp [ownedFrame?, h]

@[simp] theorem frame?_unused : unused.frame? = none := rfl

@[simp] theorem ownedFrame?_unused : unused.ownedFrame? = none := rfl

/-- The frame number of an entry is not cut where there are at most as many frames. -/
theorem frame?_leadingTo {frame : Nat} {flags : Flags} (hframe : frame < bitRange 20)
    (hpresent : flags.has Flags.present = true) :
    (leadingTo (Frame.address frame) flags).frame? = some frame := by
  have hmod : (BitVec.ofNat 20 frame).toNat = frame :=
    (BitVec.toNat_ofNat frame 20).trans (Nat.mod_eq_of_lt hframe)
  simp only [frame?, isPresent, leadingTo, hpresent, if_true, Frame.containing_address, hmod]

theorem ownedFrame?_leadingTo_of_owned {frame : Nat} {flags : Flags} (hframe : frame < bitRange 20)
    (hpresent : flags.has Flags.present = true) (howned : flags.has Flags.owned = true) :
    (leadingTo (Frame.address frame) flags).ownedFrame? = some frame := by
  rw [ownedFrame?, isOwned, show (leadingTo (Frame.address frame) flags).flags = flags from rfl,
    if_pos howned, frame?_leadingTo hframe hpresent]

theorem ownedFrame?_leadingTo_of_not_owned {address : Nat} {flags : Flags}
    (howned : flags.has Flags.owned = false) : (leadingTo address flags).ownedFrame? = none := by
  simp [ownedFrame?, isOwned, leadingTo, howned]

/-- Letting user mode through changes neither what an entry leads to nor whose it is. -/
theorem frame?_openToUser (entry : Entry) :
    { entry with flags := entry.flags ||| Flags.user }.frame? = entry.frame? := by
  have hbit : (entry.flags ||| Flags.user).has Flags.present = entry.flags.has Flags.present := by
    simp [Flags.has_present, Flags.user]
  show (if (entry.flags ||| Flags.user).has Flags.present = true then _ else _) = _
  rw [hbit]
  rfl

theorem isOwned_openToUser (entry : Entry) :
    { entry with flags := entry.flags ||| Flags.user }.isOwned = entry.isOwned := by
  simp only [isOwned, Flags.has_owned]
  simp [Flags.user]

end Entry

theorem Paging.not_owned_borrowed (flags : Flags) :
    (Paging.borrowed flags).has Flags.owned = false := by
  rw [Flags.has_owned]
  simp [Paging.borrowed, Flags.owned, Flags.present]

theorem Paging.present_fresh (flags : Flags) :
    (flags ||| Flags.present ||| Flags.owned).has Flags.present = true := by
  rw [Flags.has_present]
  simp [Flags.owned, Flags.present]

theorem Paging.owned_fresh (flags : Flags) :
    (flags ||| Flags.present ||| Flags.owned).has Flags.owned = true := by
  rw [Flags.has_owned]
  simp [Flags.owned, Flags.present]

/-! ## Lists of owners -/

section Lists

variable {α β : Type} {f g : α → List β} {items : List α} {item other : α}

/-- If one member of a list changes what it contributes, the contributions of all members change
by the same. -/
theorem flatMap_exchange [DecidableEq α] {before after : List β} (hnodup : items.Nodup)
    (hitem : item ∈ items) (hsame : ∀ other ∈ items, other ≠ item → g other = f other)
    (hchange : (before ++ g item).Perm (after ++ f item)) :
    (before ++ items.flatMap g).Perm (after ++ items.flatMap f) := by
  have hsplit := List.perm_cons_erase hitem
  have hrest : (items.erase item).flatMap g = (items.erase item).flatMap f :=
    List.flatMap_congr fun other hother =>
      hsame other (List.mem_of_mem_erase hother) fun heq =>
        hnodup.not_mem_erase (heq ▸ hother)
  calc (before ++ items.flatMap g).Perm (before ++ (g item ++ (items.erase item).flatMap g)) :=
        (hsplit.flatMap_right g).append_left before
    _ = (before ++ g item) ++ (items.erase item).flatMap f := by
        rw [hrest, List.append_assoc]
    List.Perm _ ((after ++ f item) ++ (items.erase item).flatMap f) := hchange.append_right _
    List.Perm _ (after ++ items.flatMap f) := by
        rw [List.append_assoc]
        exact (hsplit.flatMap_right f).symm.append_left after

/-- Where no contribution is made twice, different members contribute different things. -/
theorem not_mem_of_nodup_flatMap [DecidableEq α] (hnodup : (items.flatMap f).Nodup)
    (hitem : item ∈ items) (hother : other ∈ items) (hne : other ≠ item) {value : β}
    (hvalue : value ∈ f item) : value ∉ f other := by
  intro hmem
  have hparts : (f item ++ (items.erase item).flatMap f).Nodup :=
    ((List.perm_cons_erase hitem).flatMap_right f).nodup_iff.mp hnodup
  have hrest : other ∈ items.erase item := (List.mem_erase_of_ne hne).mpr hother
  exact (List.nodup_append.mp hparts).2.2 value hvalue value
    (List.mem_flatMap.mpr ⟨other, hrest, hmem⟩) rfl

end Lists

/-! ## What the tables say -/

namespace WordMemory

/-- The frames that the leaves of a table have to give back. -/
def ownedLeaves (memory : WordMemory) (table : Nat) : List Nat :=
  (Table.entries memory table).flatMap fun leaf => leaf.ownedFrame?.toList

/-- The frames behind a directory slot: the table it leads to, and what is owned through it. -/
def slotFrames (memory : WordMemory) (directory slot : Nat) : List Nat :=
  match (memory.entry directory slot).frame? with
  | none => []
  | some table => table :: memory.ownedLeaves table

variable {memory memory' : WordMemory} {directory slot table : Nat}

theorem ownedLeaves_eq (memory : WordMemory) (table : Nat) :
    memory.ownedLeaves table =
      (List.range entryCount).flatMap fun slot => (memory.entry table slot).ownedFrame?.toList :=
  List.flatMap_map _ _ _

theorem slotFrames_of_none (h : (memory.entry directory slot).frame? = none) :
    memory.slotFrames directory slot = [] := by
  rw [slotFrames, h]

theorem slotFrames_of_some (h : (memory.entry directory slot).frame? = some table) :
    memory.slotFrames directory slot = table :: memory.ownedLeaves table := by
  rw [slotFrames, h]

theorem mem_slotFrames_of_some (h : (memory.entry directory slot).frame? = some table) :
    table ∈ memory.slotFrames directory slot := by
  rw [slotFrames_of_some h]
  exact List.mem_cons_self

theorem ownedLeaves_congr
    (h : ∀ slot < entryCount, memory'.entry table slot = memory.entry table slot) :
    memory'.ownedLeaves table = memory.ownedLeaves table := by
  rw [ownedLeaves_eq, ownedLeaves_eq]
  refine List.flatMap_congr fun slot hslot => ?_
  rw [h slot (List.mem_range.mp hslot)]

theorem slotFrames_congr
    (hslot : (memory'.entry directory slot).frame? = (memory.entry directory slot).frame?)
    (htable : ∀ table, (memory.entry directory slot).frame? = some table → ∀ slot < entryCount,
      memory'.entry table slot = memory.entry table slot) :
    memory'.slotFrames directory slot = memory.slotFrames directory slot := by
  cases hframe : (memory.entry directory slot).frame? with
  | none => rw [slotFrames_of_none hframe, slotFrames_of_none (hslot.trans hframe)]
  | some table =>
    rw [slotFrames_of_some hframe, slotFrames_of_some (hslot.trans hframe),
      ownedLeaves_congr (htable table hframe)]

/-- A table without a single entry owns nothing. -/
theorem ownedLeaves_eq_nil (h : ∀ slot < entryCount, memory.entry table slot = Entry.unused) :
    memory.ownedLeaves table = [] := by
  rw [ownedLeaves_eq]
  refine List.flatMap_eq_nil_iff.mpr fun slot hslot => ?_
  rw [h slot (List.mem_range.mp hslot)]
  rfl

end WordMemory

namespace Paging

variable (paging : Paging)

/-- The directory slots whose tables a space owns: all of them in the kernel space, and those
outside the kernel region in any other space. -/
def ownSlots (space : AddressSpace) : List Nat :=
  (List.range entryCount).drop (if space = paging.kernel then 0 else paging.layout.sharedSlots)

/-- The frames that a space owns: its directory and what is behind its own slots. -/
def spaceFrames (memory : WordMemory) (space : AddressSpace) : List Nat :=
  space.directory :: (paging.ownSlots space).flatMap (memory.slotFrames space.directory)

/-- The frames that a number of spaces own. -/
def ownedFrames (memory : WordMemory) (spaces : List AddressSpace) : List Nat :=
  spaces.flatMap (paging.spaceFrames memory)

/-- A frame is a table if it is the directory of some space or a table that some space owns. -/
def IsTable (memory : WordMemory) (spaces : List AddressSpace) (frame : Nat) : Prop :=
  ∃ space ∈ spaces, frame = space.directory ∨
    ∃ slot ∈ paging.ownSlots space, (memory.entry space.directory slot).frame? = some frame

instance (memory : WordMemory) (spaces : List AddressSpace) (frame : Nat) :
    Decidable (paging.IsTable memory spaces frame) :=
  inferInstanceAs (Decidable (∃ space ∈ spaces, frame = space.directory ∨
    ∃ slot ∈ paging.ownSlots space, (memory.entry space.directory slot).frame? = some frame))

variable {paging} {memory memory' : WordMemory} {spaces : List AddressSpace} {space : AddressSpace}
  {slot table frame : Nat}

theorem mem_ownSlots :
    slot ∈ paging.ownSlots space ↔
      slot < entryCount ∧ (space = paging.kernel ∨ paging.layout.sharedSlots ≤ slot) := by
  rw [ownSlots, List.range_eq_range', List.drop_range', List.mem_range'_1]
  by_cases h : space = paging.kernel
  · simp [h]
  · simp only [h, if_false, false_or]
    omega

theorem nodup_ownSlots : (paging.ownSlots space).Nodup := List.nodup_range.drop

theorem mem_spaceFrames_directory : space.directory ∈ paging.spaceFrames memory space :=
  List.mem_cons_self

theorem mem_spaceFrames_of_slot (hslot : slot ∈ paging.ownSlots space)
    (hframe : frame ∈ memory.slotFrames space.directory slot) :
    frame ∈ paging.spaceFrames memory space :=
  List.mem_cons_of_mem _ (List.mem_flatMap.mpr ⟨slot, hslot, hframe⟩)

theorem mem_ownedFrames_of_space (hspace : space ∈ spaces)
    (hframe : frame ∈ paging.spaceFrames memory space) :
    frame ∈ paging.ownedFrames memory spaces :=
  List.mem_flatMap.mpr ⟨space, hspace, hframe⟩

theorem IsTable.mem_ownedFrames (h : paging.IsTable memory spaces frame) :
    frame ∈ paging.ownedFrames memory spaces := by
  obtain ⟨space, hspace, rfl | ⟨slot, hslot, hframe⟩⟩ := h
  · exact mem_ownedFrames_of_space hspace mem_spaceFrames_directory
  · exact mem_ownedFrames_of_space hspace
      (mem_spaceFrames_of_slot hslot (WordMemory.mem_slotFrames_of_some hframe))

theorem isTable_directory (hspace : space ∈ spaces) :
    paging.IsTable memory spaces space.directory :=
  ⟨space, hspace, .inl rfl⟩

/-- What a space owns depends on the entries of its tables. -/
theorem spaceFrames_congr
    (h : ∀ frame, paging.IsTable memory [space] frame → ∀ slot < entryCount,
      memory'.entry frame slot = memory.entry frame slot) :
    paging.spaceFrames memory' space = paging.spaceFrames memory space := by
  refine congrArg (List.cons _) (List.flatMap_congr fun slot hslot => ?_)
  refine WordMemory.slotFrames_congr ?_ fun table htable =>
    h table ⟨space, List.mem_cons_self, .inr ⟨slot, hslot, htable⟩⟩
  rw [h _ (isTable_directory List.mem_cons_self) slot (mem_ownSlots.mp hslot).1]

/-- What spaces own depends on the entries of their tables. -/
theorem ownedFrames_congr
    (h : ∀ frame, paging.IsTable memory spaces frame → ∀ slot < entryCount,
      memory'.entry frame slot = memory.entry frame slot) :
    paging.ownedFrames memory' spaces = paging.ownedFrames memory spaces := by
  refine List.flatMap_congr fun space hspace => spaceFrames_congr fun frame hframe => h frame ?_
  obtain ⟨other, hother, htable⟩ := hframe
  exact ⟨space, hspace, List.mem_singleton.mp hother ▸ htable⟩

/-- Spaces that own different frames are different. -/
theorem nodup_spaces (h : (paging.ownedFrames memory spaces).Nodup) : spaces.Nodup := by
  induction spaces with
  | nil => exact List.nodup_nil
  | cons space rest ih =>
    obtain ⟨-, hrest, hdisjoint⟩ := List.nodup_append.mp h
    refine List.nodup_cons.mpr ⟨fun hmem => ?_, ih hrest⟩
    exact hdisjoint _ mem_spaceFrames_directory _
      (mem_ownedFrames_of_space hmem mem_spaceFrames_directory) rfl

section Exchange

variable (hnodup : (paging.ownedFrames memory spaces).Nodup) (hspace : space ∈ spaces)
  (hslot : slot ∈ paging.ownSlots space)
include hnodup hspace

theorem nodup_spaceFrames : (paging.spaceFrames memory space).Nodup :=
  (List.nodup_flatMap.mp hnodup).1 space hspace

/-- A table is not the directory of the space that owns it. -/
theorem ne_directory_of_slot (hslot : slot ∈ paging.ownSlots space)
    (hframe : frame ∈ memory.slotFrames space.directory slot) : frame ≠ space.directory := by
  rintro rfl
  refine (List.nodup_cons.mp (nodup_spaceFrames hnodup hspace)).1 ?_
  exact List.mem_flatMap.mpr ⟨slot, hslot, hframe⟩

/-- A table is not the directory of any space. -/
theorem ne_directory_of_owned {other : AddressSpace} (hslot : slot ∈ paging.ownSlots space)
    (hframe : frame ∈ memory.slotFrames space.directory slot) (hother : other ∈ spaces) :
    frame ≠ other.directory := by
  by_cases heq : other = space
  · rw [heq]
    exact ne_directory_of_slot hnodup hspace hslot hframe
  · rintro rfl
    exact not_mem_of_nodup_flatMap hnodup hspace hother heq
      (mem_spaceFrames_of_slot hslot hframe) mem_spaceFrames_directory

include hslot

/-- If the entries of one frame of a space change, and behind all of its slots but one everything
stays, then all owned frames change by as much as those behind the one slot. -/
theorem ownedFrames_exchange {changed : Nat} {before after : List Nat}
    (hchanged : changed ∈ paging.spaceFrames memory space)
    (hagree : ∀ frame ≠ changed, ∀ slot < entryCount,
      memory'.entry frame slot = memory.entry frame slot)
    (hother : ∀ other ∈ paging.ownSlots space, other ≠ slot →
      memory'.slotFrames space.directory other = memory.slotFrames space.directory other)
    (hchange : (before ++ memory'.slotFrames space.directory slot).Perm
      (after ++ memory.slotFrames space.directory slot)) :
    (before ++ paging.ownedFrames memory' spaces).Perm
      (after ++ paging.ownedFrames memory spaces) := by
  refine flatMap_exchange (nodup_spaces hnodup) hspace (fun other hmem hne => ?_) ?_
  -- The changed frame belongs to one space only, so no other space notices.
  · refine spaceFrames_congr fun frame hframe => hagree frame fun heq => ?_
    subst heq
    refine not_mem_of_nodup_flatMap hnodup hspace hmem hne hchanged ?_
    simpa [ownedFrames] using hframe.mem_ownedFrames
  · have hslots := flatMap_exchange nodup_ownSlots hslot hother hchange
    refine List.perm_middle.trans ((hslots.cons space.directory).trans ?_)
    exact List.perm_middle.symm

/-- Changing a leaf changes the owned frames by what the leaf owned and what it owns then. -/
theorem ownedFrames_setLeaf {leafSlot : Nat}
    (htable : (memory.entry space.directory slot).frame? = some table)
    (hleaf : leafSlot < entryCount) (new : Entry) :
    ((memory.entry table leafSlot).ownedFrame?.toList ++
        paging.ownedFrames (memory.setEntry table leafSlot new) spaces).Perm
      (new.ownedFrame?.toList ++ paging.ownedFrames memory spaces) := by
  have hmem := WordMemory.mem_slotFrames_of_some htable
  have hne := ne_directory_of_slot hnodup hspace hslot hmem
  have hagree (frame : Nat) (hframe : frame ≠ table) (slot : Nat) (hslot : slot < entryCount) :
      (memory.setEntry table leafSlot new).entry frame slot = memory.entry frame slot := by
    rw [WordMemory.entry_setEntry _ _ hleaf hslot, if_neg fun h => hframe h.1]
  have hdirectory := hagree space.directory hne.symm
  refine ownedFrames_exchange hnodup hspace hslot (mem_spaceFrames_of_slot hslot hmem) hagree
    (fun other hother hneq => ?_) ?_
  · refine WordMemory.slotFrames_congr (by rw [hdirectory other (mem_ownSlots.mp hother).1])
      fun frame hframe => hagree frame fun heq => ?_
    -- A table that is behind two slots would be owned twice.
    subst heq
    exact not_mem_of_nodup_flatMap (List.nodup_cons.mp (nodup_spaceFrames hnodup hspace)).2
      hslot hother hneq hmem (WordMemory.mem_slotFrames_of_some hframe)
  -- Behind the slot itself, one leaf of the table is exchanged.
  · have htable' : ((memory.setEntry table leafSlot new).entry space.directory slot).frame? =
        some table := by
      rw [hdirectory slot (mem_ownSlots.mp hslot).1, htable]
    rw [WordMemory.slotFrames_of_some htable, WordMemory.slotFrames_of_some htable']
    refine List.perm_middle.trans (List.Perm.trans (List.Perm.cons table ?_) List.perm_middle.symm)
    rw [WordMemory.ownedLeaves_eq, WordMemory.ownedLeaves_eq]
    refine flatMap_exchange List.nodup_range (List.mem_range.mpr hleaf)
      (fun other hother hneq => ?_) ?_
    · rw [WordMemory.entry_setEntry _ _ hleaf (List.mem_range.mp hother), if_neg fun h => hneq h.2]
    · rw [WordMemory.entry_setEntry _ _ hleaf hleaf, if_pos ⟨rfl, rfl⟩]
      exact List.perm_append_comm

/-- Changing a directory slot changes the owned frames by what is behind the slot. -/
theorem ownedFrames_setSlot (before after : List Nat) {upper : Entry}
    (hchange : (before ++
        (memory.setEntry space.directory slot upper).slotFrames space.directory slot).Perm
      (after ++ memory.slotFrames space.directory slot)) :
    (before ++ paging.ownedFrames (memory.setEntry space.directory slot upper) spaces).Perm
      (after ++ paging.ownedFrames memory spaces) := by
  have hlt := (mem_ownSlots.mp hslot).1
  have hagree (frame : Nat) (hframe : frame ≠ space.directory) (other : Nat)
      (hother : other < entryCount) :
      (memory.setEntry space.directory slot upper).entry frame other =
        memory.entry frame other := by
    rw [WordMemory.entry_setEntry _ _ hlt hother, if_neg fun h => hframe h.1]
  refine ownedFrames_exchange hnodup hspace hslot mem_spaceFrames_directory hagree
    (fun other hother hne => ?_) hchange
  refine WordMemory.slotFrames_congr ?_ fun table htable => hagree table
    (ne_directory_of_slot hnodup hspace hother (WordMemory.mem_slotFrames_of_some htable))
  rw [WordMemory.entry_setEntry _ _ hlt (mem_ownSlots.mp hother).1, if_neg fun h => hne h.2]

end Exchange

end Paging

end KernelResources
