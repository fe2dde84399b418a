import KernelResources.Proofs.Frame.Accounting
import KernelResources.Proofs.Paging.Ownership
import KernelResources.Proofs.Settles

/-!
# Accounting of owned frames

Every operation on address spaces takes frames, gives frames back, or moves a frame from one owner
to another. This file states the invariant that ties the pool to the tables and shows that each
operation keeps it.

* `Paging.Accounted` says that the taken frames are exactly those that some space owns and those
  that belong to `others`, none of them counted twice.
* `Paging.Consistent` adds that all spaces share the tables of the kernel region.
* `Consistent.settles_map`, `settles_remap`, `settles_mapFresh`, `settles_unmap`,
  `settles_tableFor`, `settles_createSpace` and `settles_destroySpace` say what the operations do
  in a consistent state; `settles_create` builds one.
-/

namespace KernelResources

/-! ## Single steps of the machine -/

namespace Machine

variable {ε : Type} {machine : Machine} {frame slot : Nat}

/-- The machine after a frame was taken and filled with zeros. -/
def takingZeroed (machine : Machine) (frame : Nat) : Machine :=
  { machine with
    frames := machine.frames.taking frame (frame + 1)
    memory := machine.memory.zeroFrame frame }

/-- The machine after a frame was given back. -/
def releasing (machine : Machine) (frame : Nat) : Machine :=
  { machine with frames := machine.frames.releasing frame (frame + 1) }

/-- The machine after an entry was changed. -/
def entering (machine : Machine) (frame slot : Nat) (entry : Entry) : Machine :=
  { machine with memory := machine.memory.setEntry frame slot entry }

theorem settles_entry {done : Entry → Machine → Prop} {refused : ε → Machine → Prop}
    (hslot : slot < entryCount) (h : done (machine.memory.entry frame slot) machine) :
    (entry frame slot : Action ε Machine Entry).Settles machine done refused := by
  refine Action.settles_of_done (fun journal => ?_) h
  simp [entry, onMemory, Table.get, Table.checkSlot, hslot, Action.apply_within, Action.apply_map]

theorem settles_setEntry {done : Unit → Machine → Prop} {refused : ε → Machine → Prop}
    {entry : Entry} (hslot : slot < entryCount) (h : done () (machine.entering frame slot entry)) :
    (setEntry frame slot entry : Action ε Machine Unit).Settles machine done refused := by
  refine Action.settles_of_done (fun journal => ?_) h
  simp [setEntry, onMemory, Table.set, Table.checkSlot, hslot, Action.apply_within, entering]

/-- A frame is refused only if none is free. -/
theorem settles_takeZeroed_or {done : Nat → Machine → Prop}
    {refused : MemoryError → Machine → Prop} (hpool : machine.frames.Consistent)
    (hdone : ∀ frame, machine.frames.lowestFree 0 = some frame →
      done frame (machine.takingZeroed frame))
    (hrefused : machine.frames.lowestFree 0 = none → refused .outOfMemory machine) :
    takeZeroed.Settles machine done refused := by
  cases hfree : machine.frames.lowestFree 0 with
  | none =>
    refine Action.settles_of_refused (fun journal => ?_) (hrefused hfree)
    have hallocate := FramePool.allocate_of_none journal hfree
    simp [takeZeroed, onFrames, FramePool.allocate?, Action.unrefused, Action.apply_bind,
      Action.apply_within, Action.apply_mapError, Action.apply_attempt, hallocate]
  | some frame =>
    refine Action.settles_of_done (fun journal => ?_) (hdone frame hfree)
    have hallocate := FramePool.allocate_of_some hpool journal hfree
    simp [takeZeroed, onFrames, FramePool.allocate?, Action.unrefused, Action.apply_bind,
      Action.apply_map, Action.apply_within, Action.apply_mapError, Action.apply_attempt, hallocate,
      takingZeroed]

theorem settles_takeZeroed {done : Nat → Machine → Prop} {refused : MemoryError → Machine → Prop}
    (hpool : machine.frames.Consistent)
    (hdone : ∀ frame, machine.frames.lowestFree 0 = some frame →
      done frame (machine.takingZeroed frame)) (hrefused : refused .outOfMemory machine) :
    takeZeroed.Settles machine done refused :=
  settles_takeZeroed_or hpool hdone fun _ => hrefused

theorem settles_discardFrame {done : Unit → Machine → Prop} {refused : ε → Machine → Prop}
    (hpool : machine.frames.Consistent) (htaken : frame ∈ machine.frames.takenFrames)
    (h : done () (machine.releasing frame)) :
    (discardFrame frame : Action ε Machine Unit).Settles machine done refused :=
  Action.settles_of_done (fun journal => by
    rw [discardFrame, onFrames]
    exact Action.within_of_done
      (Action.unrefused_of_done (FramePool.discard_eq hpool journal htaken))) h

theorem entry_takingZeroed {frame' : Nat} (hslot : slot < entryCount) :
    (machine.takingZeroed frame).memory.entry frame' slot =
      if frame' = frame then Entry.unused else machine.memory.entry frame' slot :=
  machine.memory.entry_zeroFrame hslot

end Machine

namespace Paging

open Machine

variable {ε : Type} {paging : Paging} {machine : Machine} {spaces : List AddressSpace}
  {others : List Nat} {space : AddressSpace} {slot table frame : Nat}

/-! ## The invariant -/

/-- Every taken frame is owned by exactly one of `spaces` or is one of `others`. -/
structure Accounted (paging : Paging) (machine : Machine) (spaces : List AddressSpace)
    (others : List Nat) : Prop where
  /-- The count of free frames is right. -/
  pool : machine.frames.Consistent
  /-- Every frame number fits into an entry. -/
  total_le : machine.frames.total ≤ bitRange 20
  /-- The taken frames are the other ones and the owned ones, and none is counted twice. -/
  taken : machine.frames.takenFrames.Perm (others ++ paging.ownedFrames machine.memory spaces)
  /-- A space owns the tables behind its own slots. -/
  marked : ∀ space ∈ spaces, ∀ slot ∈ paging.ownSlots space,
    (machine.memory.entry space.directory slot).frame?.isSome →
      (machine.memory.entry space.directory slot).isOwned

/-- All spaces share the tables of the kernel region. -/
structure Shared (paging : Paging) (memory : WordMemory) (spaces : List AddressSpace) : Prop where
  /-- The kernel region fits into a directory. -/
  slots_le : paging.layout.sharedSlots ≤ entryCount
  /-- The kernel space is one of the spaces. -/
  kernel_mem : paging.kernel ∈ spaces
  /-- The tables of the kernel region are there. -/
  present : ∀ slot < paging.layout.sharedSlots,
    (memory.entry paging.kernel.directory slot).frame?.isSome
  /-- Every space leads to the same ones. -/
  same : ∀ space ∈ spaces, ∀ slot < paging.layout.sharedSlots,
    (memory.entry space.directory slot).frame? =
      (memory.entry paging.kernel.directory slot).frame?

/-- The state between two operations on address spaces. -/
structure Consistent (paging : Paging) (machine : Machine) (spaces : List AddressSpace)
    (others : List Nat) : Prop extends Accounted paging machine spaces others,
    Shared paging machine.memory spaces

namespace Accounted

variable (h : Accounted paging machine spaces others)
include h

theorem nodup_all : (others ++ paging.ownedFrames machine.memory spaces).Nodup :=
  h.taken.nodup_iff.mp (FramePool.nodup_takenFrames _)

theorem nodup : (paging.ownedFrames machine.memory spaces).Nodup :=
  (List.nodup_append.mp h.nodup_all).2.1

theorem mem_taken_of_owned (hframe : frame ∈ paging.ownedFrames machine.memory spaces) :
    frame ∈ machine.frames.takenFrames :=
  h.taken.mem_iff.mpr (List.mem_append_right _ hframe)

theorem mem_taken_of_other (hframe : frame ∈ others) : frame ∈ machine.frames.takenFrames :=
  h.taken.mem_iff.mpr (List.mem_append_left _ hframe)

theorem lt_of_taken (hframe : frame ∈ machine.frames.takenFrames) : frame < bitRange 20 :=
  Nat.lt_of_lt_of_le (FramePool.mem_takenFrames.mp hframe).1 h.total_le

/-- In what order the other frames are listed makes no difference. -/
theorem perm {others' : List Nat} (hperm : others.Perm others') :
    Accounted paging machine spaces others' :=
  { h with taken := h.taken.trans (hperm.append_right _) }

/-- The invariant speaks of the pool and of physical memory only. -/
theorem congr {machine' : Machine} (hframes : machine'.frames = machine.frames)
    (hmemory : machine'.memory = machine.memory) : Accounted paging machine' spaces others where
  pool := hframes ▸ h.pool
  total_le := hframes ▸ h.total_le
  taken := by
    rw [hframes, hmemory]
    exact h.taken
  marked := hmemory ▸ h.marked

/-! ## Frames change hands -/

/-- A frame that is taken and zeroed belongs to the others first. -/
theorem takingZeroed (hfree : machine.frames.lowestFree 0 = some frame) :
    frame ∉ machine.frames.takenFrames ∧
      Accounted paging (machine.takingZeroed frame) spaces (frame :: others) := by
  obtain ⟨-, hlt, hmark, -⟩ := FramePool.lowestFree_eq_some_iff.mp hfree
  have hnot : frame ∉ machine.frames.takenFrames := fun hmem => by
    rw [(FramePool.mem_takenFrames.mp hmem).2] at hmark
    cases hmark
  -- Zeroing the frame changes no table, because tables are taken and it is free.
  have hsame (owned : Nat) (htable : paging.IsTable machine.memory spaces owned) (slot : Nat)
      (hslot : slot < entryCount) :
      (machine.takingZeroed frame).memory.entry owned slot = machine.memory.entry owned slot := by
    refine (entry_takingZeroed hslot).trans (if_neg ?_)
    rintro rfl
    exact hnot (h.mem_taken_of_owned htable.mem_ownedFrames)
  refine ⟨hnot, ?_, h.total_le, ?_, fun space hspace slot hslot => ?_⟩
  · exact FramePool.consistent_taking h.pool hlt
  · rw [ownedFrames_congr hsame]
    have hlast : frame + 1 ≤ machine.frames.total := hlt
    refine (FramePool.takenFrames_taking hlast fun other hle hother => ?_).trans ?_
    · rw [show other = frame by omega]
      exact hmark
    · rw [Nat.add_sub_cancel_left]
      exact h.taken.cons frame
  · rw [hsame _ (isTable_directory hspace) slot (mem_ownSlots.mp hslot).1]
    exact h.marked space hspace slot hslot

omit h in
/-- A frame of the others that is given back is nobody's afterwards. -/
theorem releasing (h : Accounted paging machine spaces (frame :: others)) :
    Accounted paging (machine.releasing frame) spaces others where
  pool := FramePool.consistent_releasing h.pool
    (FramePool.mem_takenFrames.mp (h.mem_taken_of_other List.mem_cons_self)).1
  total_le := h.total_le
  taken := by
    have hgone := FramePool.takenFrames_releasing (h.mem_taken_of_other List.mem_cons_self)
    exact (List.perm_cons frame).mp (hgone.symm.trans h.taken)
  marked := h.marked

omit h in
/-- A leaf is changed: what it owned belongs to the others, and what it owns then no longer. -/
theorem settingLeaf {leafSlot : Nat} (new : Entry)
    (h : Accounted paging machine spaces (new.ownedFrame?.toList ++ others))
    (hspace : space ∈ spaces) (hslot : slot ∈ paging.ownSlots space)
    (htable : (machine.memory.entry space.directory slot).frame? = some table)
    (hleaf : leafSlot < entryCount) :
    Accounted paging (machine.entering table leafSlot new) spaces
      ((machine.memory.entry table leafSlot).ownedFrame?.toList ++ others) := by
  have hmem := WordMemory.mem_slotFrames_of_some htable
  refine ⟨h.pool, h.total_le, ?_, fun other hother slot' hslot' => ?_⟩
  · have hexchange := ownedFrames_setLeaf h.nodup hspace hslot htable hleaf new
    -- The new frame goes from the others to the space, the former one from the space to the others.
    calc machine.frames.takenFrames.Perm _ := h.taken
      _ = new.ownedFrame?.toList ++ (others ++ paging.ownedFrames machine.memory spaces) :=
          List.append_assoc _ _ _
      List.Perm _ (others ++ (new.ownedFrame?.toList ++
          paging.ownedFrames machine.memory spaces)) := List.perm_append_comm_assoc _ _ _
      List.Perm _ (others ++ ((machine.memory.entry table leafSlot).ownedFrame?.toList ++
          paging.ownedFrames (machine.entering table leafSlot new).memory spaces)) :=
        hexchange.symm.append_left others
      List.Perm _ ((machine.memory.entry table leafSlot).ownedFrame?.toList ++ (others ++
          paging.ownedFrames (machine.entering table leafSlot new).memory spaces)) :=
        List.perm_append_comm_assoc _ _ _
      _ = _ := (List.append_assoc _ _ _).symm
  · have hne : other.directory ≠ table :=
      (ne_directory_of_owned h.nodup hspace hslot hmem hother).symm
    have hsame : (machine.entering table leafSlot new).memory.entry other.directory slot' =
        machine.memory.entry other.directory slot' := by
      rw [entering, WordMemory.entry_setEntry _ _ hleaf (mem_ownSlots.mp hslot').1,
        if_neg fun heq => hne heq.1]
    rw [hsame]
    exact h.marked other hother slot' hslot'

omit h in
/-- A zeroed frame of the others becomes the table behind a slot that led nowhere. -/
theorem addingTable (h : Accounted paging machine spaces (table :: others))
    (hspace : space ∈ spaces) (hslot : slot ∈ paging.ownSlots space)
    (hempty : (machine.memory.entry space.directory slot).frame? = none)
    (hzero : ∀ slot < entryCount, machine.memory.entry table slot = Entry.unused) :
    Accounted paging (machine.entering space.directory slot
      (.leadingTo (Frame.address table) Flags.table)) spaces others := by
  have hlt := h.lt_of_taken (h.mem_taken_of_other List.mem_cons_self)
  have hframe : (Entry.leadingTo (Frame.address table) Flags.table).frame? = some table :=
    Entry.frame?_leadingTo hlt (by decide)
  have hne : table ≠ space.directory := by
    rintro rfl
    have hdisjoint := (List.nodup_append.mp h.nodup_all).2.2 _ List.mem_cons_self
    exact hdisjoint _ (mem_ownedFrames_of_space hspace mem_spaceFrames_directory) rfl
  have hupper := (mem_ownSlots.mp hslot).1
  have hentry {frame slot' : Nat} (hslot' : slot' < entryCount) :
      (machine.memory.setEntry space.directory slot
        (.leadingTo (Frame.address table) Flags.table)).entry frame slot' =
          if frame = space.directory ∧ slot' = slot then
            .leadingTo (Frame.address table) Flags.table
          else machine.memory.entry frame slot' :=
    machine.memory.entry_setEntry _ hupper hslot'
  refine ⟨h.pool, h.total_le, ?_, fun other hother slot' hslot' => ?_⟩
  -- Behind the slot there was nothing, and then there is the table alone.
  · have hnil : (machine.memory.setEntry space.directory slot
        (.leadingTo (Frame.address table) Flags.table)).ownedLeaves table = [] :=
      WordMemory.ownedLeaves_eq_nil fun slot' hslot' => by
        rw [hentry hslot', if_neg fun heq => hne heq.1, hzero slot' hslot']
    have hslots : ([] ++ (machine.memory.setEntry space.directory slot
        (.leadingTo (Frame.address table) Flags.table)).slotFrames space.directory slot).Perm
          ([table] ++ machine.memory.slotFrames space.directory slot) := by
      have hsome : ((machine.memory.setEntry space.directory slot
          (.leadingTo (Frame.address table) Flags.table)).entry space.directory slot).frame? =
            some table := by
        rw [hentry hupper, if_pos ⟨rfl, rfl⟩, hframe]
      rw [WordMemory.slotFrames_of_none hempty, WordMemory.slotFrames_of_some hsome, hnil]
      exact List.Perm.refl _
    have hexchange := ownedFrames_setSlot h.nodup hspace hslot [] [table] hslots
    exact h.taken.trans (List.perm_middle.symm.trans (hexchange.symm.append_left others))
  · rw [entering, hentry (mem_ownSlots.mp hslot').1]
    split
    · exact fun _ => (by decide : Flags.table.has Flags.owned = true)
    · exact h.marked other hother slot' hslot'

omit h in
/-- A frame of the others becomes the directory of a space without tables of its own. -/
theorem addingSpace (h : Accounted paging machine spaces (space.directory :: others))
    (hempty : ∀ slot ∈ paging.ownSlots space,
      (machine.memory.entry space.directory slot).frame? = none) :
    Accounted paging machine (space :: spaces) others where
  pool := h.pool
  total_le := h.total_le
  taken := by
    have hnil : (paging.ownSlots space).flatMap (machine.memory.slotFrames space.directory) = [] :=
      List.flatMap_eq_nil_iff.mpr fun slot hslot =>
        WordMemory.slotFrames_of_none (hempty slot hslot)
    have hframes : paging.spaceFrames machine.memory space = [space.directory] := by
      rw [spaceFrames, hnil]
    rw [ownedFrames, List.flatMap_cons, hframes]
    exact h.taken.trans List.perm_middle.symm
  marked := by
    intro other hother slot hslot hsome
    rcases List.mem_cons.mp hother with rfl | hother
    · rw [hempty slot hslot] at hsome
      cases hsome
    · exact h.marked other hother slot hslot hsome

/-- Letting user mode through a directory slot changes nobody's frames. -/
theorem openingToUser (hspace : space ∈ spaces) (hslot : slot ∈ paging.ownSlots space) :
    Accounted paging (machine.entering space.directory slot
      { machine.memory.entry space.directory slot with
        flags := (machine.memory.entry space.directory slot).flags ||| Flags.user }) spaces
      others := by
  have hupper := (mem_ownSlots.mp hslot).1
  let upper : Entry :=
    { machine.memory.entry space.directory slot with
      flags := (machine.memory.entry space.directory slot).flags ||| Flags.user }
  have hentry {frame slot' : Nat} (hslot' : slot' < entryCount) :
      (machine.memory.setEntry space.directory slot upper).entry frame slot' =
        if frame = space.directory ∧ slot' = slot then upper
        else machine.memory.entry frame slot' :=
    machine.memory.entry_setEntry _ hupper hslot'
  -- The entry still leads to the same frame, and the entries of tables are not touched.
  refine ⟨h.pool, h.total_le, ?_, fun other hother slot' hslot' => ?_⟩
  · refine h.taken.trans (List.Perm.append_left others ?_)
    refine (ownedFrames_setSlot h.nodup hspace hslot [] [] ?_).symm
    refine List.Perm.of_eq (WordMemory.slotFrames_congr ?_ fun table htable slot' hslot' => ?_)
    · rw [hentry hupper, if_pos ⟨rfl, rfl⟩, Entry.frame?_openToUser]
    · rw [hentry hslot', if_neg fun heq => ne_directory_of_slot h.nodup hspace hslot
        (WordMemory.mem_slotFrames_of_some htable) heq.1]
  · rw [entering, hentry (mem_ownSlots.mp hslot').1]
    split
    case isTrue heq =>
      obtain ⟨hdirectory, rfl⟩ := heq
      rw [Entry.frame?_openToUser, Entry.isOwned_openToUser, ← hdirectory]
      exact h.marked other hother slot' hslot'
    case isFalse => exact h.marked other hother slot' hslot'

end Accounted

/-- Which tables are shared depends on the frames that the directories lead to. -/
theorem Shared.congr {memory memory' : WordMemory} (h : Shared paging memory spaces)
    (hsame : ∀ space ∈ spaces, ∀ slot < paging.layout.sharedSlots,
      (memory'.entry space.directory slot).frame? = (memory.entry space.directory slot).frame?) :
    Shared paging memory' spaces where
  slots_le := h.slots_le
  kernel_mem := h.kernel_mem
  present slot hslot := by
    rw [hsame _ h.kernel_mem slot hslot]
    exact h.present slot hslot
  same space hspace slot hslot := by
    rw [hsame space hspace slot hslot, hsame _ h.kernel_mem slot hslot]
    exact h.same space hspace slot hslot

namespace Consistent

variable (h : Consistent paging machine spaces others)
include h

theorem perm {others' : List Nat} (hperm : others.Perm others') :
    Consistent paging machine spaces others' :=
  { h with toAccounted := h.toAccounted.perm hperm }

theorem congr {machine' : Machine} (hframes : machine'.frames = machine.frames)
    (hmemory : machine'.memory = machine.memory) : Consistent paging machine' spaces others :=
  ⟨h.toAccounted.congr hframes hmemory, hmemory ▸ h.toShared⟩

/-- A directory slot that leads nowhere is one of the space's own. -/
theorem mem_ownSlots_of_none (hspace : space ∈ spaces) (hslot : slot < entryCount)
    (hnone : (machine.memory.entry space.directory slot).frame? = none) :
    slot ∈ paging.ownSlots space := by
  refine mem_ownSlots.mpr ⟨hslot, .inr (Nat.le_of_not_lt fun hlt => ?_)⟩
  have hpresent := h.present slot hlt
  rw [← h.same space hspace slot hlt, hnone] at hpresent
  cases hpresent

theorem takingZeroed (hfree : machine.frames.lowestFree 0 = some frame) :
    Consistent paging (machine.takingZeroed frame) spaces (frame :: others) := by
  obtain ⟨hnot, haccounted⟩ := h.toAccounted.takingZeroed hfree
  refine ⟨haccounted, h.toShared.congr fun space hspace slot hslot => ?_⟩
  rw [entry_takingZeroed (Nat.lt_of_lt_of_le hslot h.slots_le), if_neg]
  rintro rfl
  exact hnot (h.mem_taken_of_owned (mem_ownedFrames_of_space hspace mem_spaceFrames_directory))

/-- What is written outside the tables concerns no space. -/
theorem enteringOutside {entry : Entry}
    (hframe : ¬paging.IsTable machine.memory spaces frame) (hslot : slot < entryCount) :
    Consistent paging (machine.entering frame slot entry) spaces others := by
  have hsame (table : Nat) (htable : paging.IsTable machine.memory spaces table) (slot' : Nat)
      (hslot' : slot' < entryCount) :
      (machine.entering frame slot entry).memory.entry table slot' =
        machine.memory.entry table slot' := by
    rw [entering, WordMemory.entry_setEntry _ _ hslot hslot', if_neg]
    rintro ⟨rfl, -⟩
    exact hframe htable
  refine ⟨⟨h.pool, h.total_le, ?_, fun space hspace slot' hslot' => ?_⟩,
    h.toShared.congr fun space hspace slot' hslot' => ?_⟩
  · rw [ownedFrames_congr hsame]
    exact h.taken
  · rw [hsame _ (isTable_directory hspace) slot' (mem_ownSlots.mp hslot').1]
    exact h.marked space hspace slot' hslot'
  · rw [hsame _ (isTable_directory hspace) slot' (Nat.lt_of_lt_of_le hslot' h.slots_le)]

/-- A frame of the others is no table. -/
theorem not_isTable_of_other (hframe : frame ∈ others) :
    ¬paging.IsTable machine.memory spaces frame := fun htable =>
  (List.nodup_append.mp h.nodup_all).2.2 _ hframe _ htable.mem_ownedFrames rfl

omit h in
theorem releasing (h : Consistent paging machine spaces (frame :: others)) :
    Consistent paging (machine.releasing frame) spaces others :=
  ⟨h.toAccounted.releasing, h.toShared⟩

omit h in
theorem settingLeaf {leafSlot : Nat} (new : Entry)
    (h : Consistent paging machine spaces (new.ownedFrame?.toList ++ others))
    (hspace : space ∈ spaces) (hslot : slot ∈ paging.ownSlots space)
    (htable : (machine.memory.entry space.directory slot).frame? = some table)
    (hleaf : leafSlot < entryCount) :
    Consistent paging (machine.entering table leafSlot new) spaces
      ((machine.memory.entry table leafSlot).ownedFrame?.toList ++ others) := by
  refine ⟨h.toAccounted.settingLeaf new hspace hslot htable hleaf,
    h.toShared.congr fun other hother slot' hslot' => ?_⟩
  have hne := ne_directory_of_owned h.nodup hspace hslot
    (WordMemory.mem_slotFrames_of_some htable) hother
  rw [entering, WordMemory.entry_setEntry _ _ hleaf (Nat.lt_of_lt_of_le hslot' h.slots_le),
    if_neg fun heq => hne heq.1.symm]

omit h in
theorem addingTable (h : Consistent paging machine spaces (table :: others))
    (hspace : space ∈ spaces) (hslot : slot < entryCount)
    (hempty : (machine.memory.entry space.directory slot).frame? = none)
    (hzero : ∀ slot < entryCount, machine.memory.entry table slot = Entry.unused) :
    Consistent paging (machine.entering space.directory slot
      (.leadingTo (Frame.address table) Flags.table)) spaces others := by
  refine ⟨h.toAccounted.addingTable hspace (h.mem_ownSlots_of_none hspace hslot hempty) hempty
    hzero, h.toShared.congr fun other hother slot' hslot' => ?_⟩
  rw [entering, WordMemory.entry_setEntry _ _ hslot (Nat.lt_of_lt_of_le hslot' h.slots_le)]
  split
  case isTrue heq =>
    -- The slot led nowhere, so it does not belong to the kernel region.
    obtain ⟨hdirectory, rfl⟩ := heq
    have hsome := h.present slot' hslot'
    rw [← h.same other hother slot' hslot', hdirectory, hempty] at hsome
    cases hsome
  case isFalse => rfl

theorem openingToUser (hspace : space ∈ spaces) (hslot : slot ∈ paging.ownSlots space) :
    Consistent paging (machine.entering space.directory slot
      { machine.memory.entry space.directory slot with
        flags := (machine.memory.entry space.directory slot).flags ||| Flags.user }) spaces
      others := by
  refine ⟨h.toAccounted.openingToUser hspace hslot,
    h.toShared.congr fun other hother slot' hslot' => ?_⟩
  rw [entering, WordMemory.entry_setEntry _ _ (mem_ownSlots.mp hslot).1
    (Nat.lt_of_lt_of_le hslot' h.slots_le)]
  split
  case isTrue heq =>
    obtain ⟨hdirectory, rfl⟩ := heq
    rw [Entry.frame?_openToUser, hdirectory]
  case isFalse => rfl

end Consistent

end Paging

end KernelResources
