import KernelResources.Proofs.Paging.Accounting

/-!
# Operations on address spaces

What each operation does to a consistent state: it returns, it gives back no frame that is not
taken, and it leaves a consistent state behind, whether it was done or refused.

* `settles_tableFor`, `settles_map`, `settles_remap`, `settles_mapFresh` and `settles_unmap` keep
  the invariant for the same spaces and the same other frames.
* `settles_createSpace` adds a space, `settles_destroySpace` removes one and returns its frames.
* `settles_create` establishes the invariant.
-/

namespace KernelResources

namespace Paging

open Machine

variable {ε : Type} {paging : Paging} {machine : Machine} {spaces : List AddressSpace}
  {others : List Nat} {space : AddressSpace} {address physical : Nat} {flags : Flags}

theorem slotInDirectory_lt (address : Nat) : slotInDirectory address < entryCount :=
  Nat.mod_lt _ (by decide)

theorem slotInTable_lt (address : Nat) : slotInTable address < entryCount :=
  Nat.mod_lt _ (by decide)

/-! ## Tables and leaves -/

/-- What is let through may be changed in this space. -/
theorem settles_refuseShared {done : Unit → Machine → Prop}
    {refused : MemoryError → Machine → Prop} (hrefused : refused .invalidOperation machine)
    (hdone : slotInDirectory address ∈ paging.ownSlots space → done () machine) :
    (paging.refuseShared space address).Settles machine done refused := by
  refine Action.settles_refuseIf (fun _ => hrefused) fun hallowed => hdone ?_
  refine mem_ownSlots.mpr ⟨slotInDirectory_lt address, ?_⟩
  by_cases heq : space = paging.kernel
  · exact .inl heq
  · have hne : space.directory ≠ paging.kernel.directory := fun hdirectory => heq (by
      cases space
      cases hkernel : paging.kernel
      rw [hkernel] at hdirectory
      exact congrArg AddressSpace.mk hdirectory)
    refine .inr (Nat.le_of_not_lt fun hlt => hallowed ⟨hne, ?_⟩)
    exact decide_eq_true hlt

/-- Asking for a table keeps the state consistent, whether or not one is allocated. -/
theorem settles_tableFor (h : Consistent paging machine spaces others) (hspace : space ∈ spaces)
    (address : Nat) (create : Bool) :
    (tableFor space address create).Settles machine
      (fun table machine' => Consistent paging machine' spaces others ∧
        (machine'.memory.entry space.directory (slotInDirectory address)).frame? = some table)
      fun _ machine' => Consistent paging machine' spaces others := by
  have hslot := slotInDirectory_lt address
  refine Action.settles_bind (settles_entry hslot ?_)
  cases hframe : (machine.memory.entry space.directory (slotInDirectory address)).frame? with
  | some table => exact Action.settles_pure ⟨h, hframe⟩
  | none =>
    refine Action.settles_bind (Action.settles_refuseIf (fun _ => h) fun _ => ?_)
    refine Action.settles_bind (settles_takeZeroed h.pool (fun table hfree => ?_) h)
    have htaking := h.takingZeroed hfree
    have hlt := htaking.lt_of_taken (htaking.mem_taken_of_other List.mem_cons_self)
    have hne : space.directory ≠ table := by
      rintro rfl
      exact (h.toAccounted.takingZeroed hfree).1
        (h.mem_taken_of_owned (mem_ownedFrames_of_space hspace mem_spaceFrames_directory))
    refine Action.settles_bind (settles_setEntry hslot (Action.settles_pure ⟨?_, ?_⟩))
    · refine htaking.addingTable hspace hslot ?_ fun slot hslot => ?_
      · rw [entry_takingZeroed hslot, if_neg hne, hframe]
      · rw [entry_takingZeroed hslot, if_pos rfl]
    · rw [entering, WordMemory.entry_setEntry _ _ hslot hslot, if_pos ⟨rfl, rfl⟩]
      exact Entry.frame?_leadingTo hlt (by decide)

theorem settles_openToUser {refused : ε → Machine → Prop}
    (h : Consistent paging machine spaces others) (hspace : space ∈ spaces)
    (hslot : slotInDirectory address ∈ paging.ownSlots space) (flags : Flags) :
    (openToUser space address flags : Action ε Machine Unit).Settles machine
      (fun _ machine' => Consistent paging machine' spaces others) refused := by
  have hlt := slotInDirectory_lt address
  unfold openToUser
  split
  · refine Action.settles_bind (settles_entry hlt ?_)
    split
    · exact Action.settles_pure h
    · exact settles_setEntry hlt (h.openingToUser hspace hslot)
  · exact Action.settles_pure h

/-- Giving up a leaf gives back the frame it owned, which must be one of the others by then. -/
theorem settles_discardLeaf {refused : ε → Machine → Prop} {leaf : Entry}
    (h : Consistent paging machine spaces (leaf.ownedFrame?.toList ++ others)) :
    (discardLeaf leaf : Action ε Machine Unit).Settles machine
      (fun _ machine' => Consistent paging machine' spaces others) refused := by
  unfold discardLeaf
  cases hframe : leaf.frame? with
  | none =>
    rw [Entry.ownedFrame?_of_frame?_eq_none hframe] at h
    exact Action.settles_pure h
  | some frame =>
    by_cases howned : leaf.isOwned = true
    · rw [Entry.ownedFrame?, if_pos howned, hframe] at h
      simp only [howned, if_true]
      exact settles_discardFrame h.pool (h.mem_taken_of_other List.mem_cons_self) h.releasing
    · rw [Entry.ownedFrame?, if_neg howned] at h
      simp only [howned]
      exact Action.settles_pure h

theorem settles_retire {refused : ε → Machine → Prop} {previous : Entry}
    (h : Consistent paging machine spaces (previous.ownedFrame?.toList ++ others)) :
    (paging.retire space address previous : Action ε Machine Unit).Settles machine
      (fun _ machine' => Consistent paging machine' spaces others) refused := by
  refine (settles_discardLeaf h).bind fun _ machine' h' => ?_
  refine Action.settles_get ?_
  split
  · exact Action.settles_modify (h'.congr rfl rfl)
  · exact Action.settles_pure h'

/-! ## Mapping and unmapping -/

/-- Entering a translation hands the frame it owns, if any, over to the space. If the request is
refused, the frame stays among the others. -/
theorem settles_enter (address physical : Nat) (flags : Flags)
    (h : Consistent paging machine spaces
      ((Entry.leadingTo physical flags).ownedFrame?.toList ++ others)) (hspace : space ∈ spaces) :
    (paging.enter space address physical flags).Settles machine
      (fun _ machine' => Consistent paging machine' spaces others)
      fun _ machine' => Consistent paging machine' spaces
        ((Entry.leadingTo physical flags).ownedFrame?.toList ++ others) := by
  have hleaf := slotInTable_lt address
  refine Action.settles_bind (settles_refuseShared h fun hslot => ?_)
  refine (settles_tableFor h hspace address true).bind ?_
  rintro table middle ⟨hmiddle, htable⟩
  refine Action.settles_bind (settles_entry hleaf ?_)
  refine Action.settles_bind (Action.settles_refuseIf (fun _ => hmiddle) fun habsent => ?_)
  -- The leaf leads nowhere, so nothing is given up for the new one.
  have hnone : (middle.memory.entry table (slotInTable address)).ownedFrame? = none := by
    refine Entry.ownedFrame?_of_frame?_eq_none ?_
    rw [Entry.frame?, if_neg habsent]
  have hset := hmiddle.settingLeaf _ hspace hslot htable hleaf
  rw [hnone] at hset
  exact Action.settles_bind (settles_setEntry hleaf (settles_openToUser hset hspace hslot flags))

theorem ownedFrame?_borrowed (physical : Nat) (flags : Flags) :
    (Entry.leadingTo physical (borrowed flags)).ownedFrame? = none :=
  Entry.ownedFrame?_leadingTo_of_not_owned (not_owned_borrowed flags)

/-- A translation that does not own its frame may be entered at any time. -/
theorem Consistent.lending (h : Consistent paging machine spaces others) (physical : Nat)
    (flags : Flags) :
    Consistent paging machine spaces
      ((Entry.leadingTo physical (borrowed flags)).ownedFrame?.toList ++ others) := by
  rw [ownedFrame?_borrowed]
  exact h

/-- Mapping a page keeps the state consistent. -/
theorem settles_map (h : Consistent paging machine spaces others) (hspace : space ∈ spaces) :
    (paging.map space address physical flags).Settles machine
      (fun _ machine' => Consistent paging machine' spaces others)
      fun _ machine' => Consistent paging machine' spaces others := by
  have henter := settles_enter address physical (borrowed flags) (h.lending physical flags) hspace
  rw [ownedFrame?_borrowed] at henter
  exact henter

/-- Mapping a page in place of another keeps the state consistent: a frame that was owned through
the page is given back. -/
theorem settles_remap (h : Consistent paging machine spaces others) (hspace : space ∈ spaces) :
    (paging.remap space address physical flags).Settles machine
      (fun _ machine' => Consistent paging machine' spaces others)
      fun _ machine' => Consistent paging machine' spaces others := by
  have hleaf := slotInTable_lt address
  refine Action.settles_bind (settles_refuseShared h fun hslot => ?_)
  refine (settles_tableFor h hspace address true).bind ?_
  rintro table middle ⟨hmiddle, htable⟩
  refine Action.settles_bind (settles_entry hleaf (Action.settles_bind (settles_setEntry hleaf ?_)))
  -- What the former leaf owned belongs to the others until it is given back.
  have hset := (hmiddle.lending physical flags).settingLeaf _ hspace hslot htable hleaf
  refine (settles_openToUser hset hspace hslot (borrowed flags)).bind fun _ opened hopened => ?_
  split
  case isTrue =>
    exact (settles_retire hopened).bind fun _ _ hretired => Action.settles_pure hretired
  case isFalse habsent =>
    rw [Entry.ownedFrame?_of_frame?_eq_none (by rw [Entry.frame?, if_neg habsent])] at hopened
    exact Action.settles_pure hopened

/-- Backing a page with a frame of its own keeps the state consistent: the frame goes to the space
or back to the pool. -/
theorem settles_mapFresh (h : Consistent paging machine spaces others) (hspace : space ∈ spaces) :
    (paging.mapFresh space address flags).Settles machine
      (fun _ machine' => Consistent paging machine' spaces others)
      fun _ machine' => Consistent paging machine' spaces others := by
  refine Action.settles_bind (settles_takeZeroed h.pool (fun frame hfree => ?_) h)
  have htaking := h.takingZeroed hfree
  have hlt := htaking.lt_of_taken (htaking.mem_taken_of_other List.mem_cons_self)
  have howned := Entry.ownedFrame?_leadingTo_of_owned hlt (present_fresh flags) (owned_fresh flags)
  have hgiven : Consistent paging (machine.takingZeroed frame) spaces
      ((Entry.leadingTo (Frame.address frame)
        (flags ||| Flags.present ||| Flags.owned)).ownedFrame?.toList ++ others) := by
    rw [howned]
    exact htaking
  have henter := settles_enter address _ _ hgiven hspace
  rw [howned] at henter
  -- If the translation is refused, the frame is still among the others and goes back.
  refine Action.settles_bind (Action.settles_attempt (henter.mono
    (fun _ _ hdone => Action.settles_pure hdone) fun error refused hrefused => ?_))
  refine Action.settles_bind (settles_discardFrame hrefused.pool
    (hrefused.mem_taken_of_other List.mem_cons_self) ?_)
  exact Action.settles_throw (Consistent.releasing hrefused)

/-- Unmapping a page keeps the state consistent: a frame that was owned through it is given
back. -/
theorem settles_unmap {refused : ε → Machine → Prop} (h : Consistent paging machine spaces others)
    (hspace : space ∈ spaces) :
    (paging.unmap space address : Action ε Machine (Option Nat)).Settles machine
      (fun _ machine' => Consistent paging machine' spaces others) refused := by
  have hleaf := slotInTable_lt address
  refine Action.settles_bind (Action.settles_attempt (settles_refuseShared ?_ fun hslot => ?_))
  · exact Action.settles_bind (Action.settles_note rfl (Action.settles_pure h))
  refine Action.settles_bind (Action.settles_attempt ((settles_tableFor h hspace address false).mono
    ?_ fun _ _ hrefused => Action.settles_pure hrefused))
  rintro table middle ⟨hmiddle, htable⟩
  refine Action.settles_bind (settles_entry hleaf ?_)
  cases hframe : (middle.memory.entry table (slotInTable address)).frame? with
  | none => exact Action.settles_pure hmiddle
  | some frame =>
    refine Action.settles_bind (settles_setEntry hleaf ?_)
    have hset := Consistent.settingLeaf .unused hmiddle hspace hslot htable hleaf
    exact (settles_retire hset).bind fun _ _ hretired => Action.settles_pure hretired

/-! ## Building a space -/

/-- The slots of the kernel region are copied to an empty directory that belongs to the others. -/
theorem settles_copySlots {refused : ε → Machine → Prop} {directory : Nat}
    (h : Consistent paging machine spaces (directory :: others))
    (hempty : ∀ slot < entryCount, machine.memory.entry directory slot = Entry.unused) :
    ((List.range paging.layout.sharedSlots).forM (copySlot paging.kernel.directory directory) :
      Action ε Machine PUnit).Settles machine
      (fun _ machine' => Consistent paging machine' spaces (directory :: others) ∧
        ∀ slot < entryCount, machine'.memory.entry directory slot =
          if slot ∈ List.range paging.layout.sharedSlots then
            machine'.memory.entry paging.kernel.directory slot
          else Entry.unused) refused := by
  refine Action.settles_forM (fun behind machine' =>
    Consistent paging machine' spaces (directory :: others) ∧
      ∀ slot < entryCount, machine'.memory.entry directory slot =
        if slot ∈ behind then machine'.memory.entry paging.kernel.directory slot
        else Entry.unused) ?_ ⟨h, fun slot hslot => (hempty slot hslot).trans (by simp)⟩
  rintro behind slot rest middle hitems ⟨hmiddle, hcopied⟩
  have hmem : slot ∈ List.range paging.layout.sharedSlots := by
    rw [hitems]
    exact List.mem_append_right _ List.mem_cons_self
  have hslot := Nat.lt_of_lt_of_le (List.mem_range.mp hmem) h.slots_le
  have hnot := hmiddle.not_isTable_of_other List.mem_cons_self
  have hne : paging.kernel.directory ≠ directory := fun heq =>
    hnot (heq ▸ isTable_directory hmiddle.kernel_mem)
  refine Action.settles_bind (settles_entry hslot (settles_setEntry hslot ⟨?_, ?_⟩))
  · exact hmiddle.enteringOutside hnot hslot
  · intro slot' hslot'
    -- The directory that is copied from is not the one that is copied to.
    have hkernel : (middle.entering directory slot
        (middle.memory.entry paging.kernel.directory slot)).memory.entry
          paging.kernel.directory slot' =
        middle.memory.entry paging.kernel.directory slot' := by
      rw [entering, WordMemory.entry_setEntry _ _ hslot hslot', if_neg fun heq => hne heq.1]
    rw [hkernel, entering, WordMemory.entry_setEntry _ _ hslot hslot']
    by_cases heq : slot' = slot
    · rw [if_pos ⟨rfl, heq⟩, if_pos (by simp [heq]), heq]
    · rw [if_neg fun hboth => heq hboth.2, hcopied slot' hslot']
      simp [heq]

/-- A new space owns its directory and nothing else. -/
theorem settles_createSpace (h : Consistent paging machine spaces others) :
    paging.createSpace.Settles machine
      (fun space machine' => Consistent paging machine' (space :: spaces) others)
      fun _ machine' => Consistent paging machine' spaces others := by
  refine Action.settles_bind (settles_takeZeroed h.pool (fun directory hfree => ?_) h)
  have hempty (slot : Nat) (hslot : slot < entryCount) :
      (machine.takingZeroed directory).memory.entry directory slot = Entry.unused := by
    rw [entry_takingZeroed hslot, if_pos rfl]
  refine (settles_copySlots (h.takingZeroed hfree) hempty).bind ?_
  rintro - middle ⟨hmiddle, hcopied⟩
  have hnot : (⟨directory⟩ : AddressSpace) ≠ paging.kernel := by
    intro heq
    refine hmiddle.not_isTable_of_other List.mem_cons_self ?_
    exact ⟨paging.kernel, hmiddle.kernel_mem, .inl (congrArg AddressSpace.directory heq)⟩
  refine Action.settles_pure ⟨hmiddle.toAccounted.addingSpace fun slot hslot => ?_,
    hmiddle.slots_le, List.mem_cons_of_mem _ hmiddle.kernel_mem, hmiddle.present,
    fun space hspace slot hslot => ?_⟩
  · -- Outside the kernel region the new directory is empty.
    obtain ⟨hlt, hkernel | hle⟩ := mem_ownSlots.mp hslot
    · exact absurd hkernel hnot
    · rw [hcopied slot hlt, if_neg fun hmem => Nat.not_lt.mpr hle (List.mem_range.mp hmem)]
      rfl
  · rcases List.mem_cons.mp hspace with rfl | hspace
    · rw [hcopied slot (Nat.lt_of_lt_of_le hslot hmiddle.slots_le),
        if_pos (List.mem_range.mpr hslot)]
    · exact hmiddle.same space hspace slot hslot

/-! ## Destroying a space -/

/-- `machine'` is `machine` after frames were given back, and `rest` are still taken. -/
structure LeftWith (machine : Machine) (rest : List Nat) (machine' : Machine) : Prop where
  /-- Nothing but the pool has changed. -/
  eq : machine' = { machine with frames := machine'.frames }
  /-- The count of free frames is right. -/
  pool : machine'.frames.Consistent
  /-- The pool is as large as before. -/
  total_eq : machine'.frames.total = machine.frames.total
  /-- The frames that are still taken. -/
  taken : machine'.frames.takenFrames.Perm rest

/-- While physical memory holds `memory`, the action gives back `frames` and does nothing else. -/
def Discards (memory : WordMemory) (action : Action ε Machine Unit) (frames : List Nat) : Prop :=
  ∀ machine rest, machine.memory = memory → machine.frames.Consistent →
    machine.frames.takenFrames.Perm (frames ++ rest) →
      action.Settles machine (fun _ machine' => LeftWith machine rest machine') fun _ _ => False

section Discards

variable {memory : WordMemory} {frames frames' : List Nat}

theorem Discards.perm {action : Action ε Machine Unit} (h : Discards memory action frames)
    (hperm : frames.Perm frames') : Discards memory action frames' :=
  fun machine rest hmemory hpool htaken =>
    h machine rest hmemory hpool (htaken.trans (hperm.symm.append_right rest))

theorem discards_pure : Discards memory (pure () : Action ε Machine Unit) [] :=
  fun _ _ _ hpool htaken => Action.settles_pure ⟨rfl, hpool, rfl, htaken⟩

theorem discards_frame (frame : Nat) :
    Discards memory (discardFrame frame : Action ε Machine Unit) [frame] := by
  intro machine rest _ hpool htaken
  have hmem : frame ∈ machine.frames.takenFrames := htaken.mem_iff.mpr List.mem_cons_self
  refine settles_discardFrame hpool hmem ⟨rfl, ?_, rfl, ?_⟩
  · exact FramePool.consistent_releasing hpool (FramePool.mem_takenFrames.mp hmem).1
  · exact (List.perm_cons frame).mp ((FramePool.takenFrames_releasing hmem).symm.trans htaken)

theorem discards_bind {first second : Action ε Machine Unit} (h : Discards memory first frames)
    (h' : Discards memory second frames') :
    Discards memory (first >>= fun _ => second) (frames ++ frames') := by
  intro machine rest hmemory hpool htaken
  rw [List.append_assoc] at htaken
  refine (h machine _ hmemory hpool htaken).bind fun _ middle hmiddle => ?_
  have hsame : middle.memory = memory := by
    rw [hmiddle.eq]
    exact hmemory
  refine (h' middle rest hsame hmiddle.pool hmiddle.taken).mono_done fun _ machine' hend => ?_
  refine ⟨?_, hend.pool, hend.total_eq.trans hmiddle.total_eq, hend.taken⟩
  rw [hend.eq, hmiddle.eq]

theorem discards_forM {α : Type} {action : α → Action ε Machine Unit} {frames : α → List Nat}
    {items : List α} (h : ∀ item ∈ items, Discards memory (action item) (frames item)) :
    Discards memory (items.forM action) (items.flatMap frames) := by
  induction items with
  | nil => exact discards_pure
  | cons item rest ih =>
    exact discards_bind (h item List.mem_cons_self)
      (ih fun other hother => h other (List.mem_cons_of_mem _ hother))

theorem discards_leaf (leaf : Entry) :
    Discards memory (discardLeaf leaf : Action ε Machine Unit) leaf.ownedFrame?.toList := by
  unfold discardLeaf Entry.ownedFrame?
  cases leaf.frame? with
  | none => simpa using discards_pure
  | some frame =>
    by_cases howned : leaf.isOwned = true
    · simpa [howned] using discards_frame frame
    · simpa [howned] using discards_pure

theorem discards_leaves (leaves : List Entry) :
    Discards memory (leaves.forM discardLeaf : Action ε Machine Unit)
      (leaves.flatMap fun leaf => leaf.ownedFrame?.toList) :=
  discards_forM fun leaf _ => discards_leaf leaf

/-- A slot that is given up gives back its table and the leaves owned through it. -/
theorem discards_slot {space : AddressSpace} {slot : Nat} (hslot : slot < entryCount)
    (hmarked : (memory.entry space.directory slot).frame?.isSome →
      (memory.entry space.directory slot).isOwned) :
    Discards memory (discardSlot space slot : Action ε Machine Unit)
      (memory.slotFrames space.directory slot) := by
  rintro machine rest rfl hpool htaken
  refine Action.settles_bind (settles_entry hslot ?_)
  cases hframe : (machine.memory.entry space.directory slot).frame? with
  | none =>
    rw [WordMemory.slotFrames_of_none hframe] at htaken
    exact discards_pure machine rest rfl hpool htaken
  | some table =>
    rw [hframe] at hmarked
    have howned := hmarked rfl
    rw [WordMemory.slotFrames_of_some hframe, WordMemory.ownedLeaves] at htaken
    simp only [howned, if_true]
    refine Action.settles_get ?_
    -- That there are 1024 leaves is better kept out of sight.
    generalize Table.entries machine.memory table = leaves at htaken ⊢
    exact (discards_bind (discards_leaves leaves) (discards_frame table)).perm
      List.perm_append_comm machine rest rfl hpool htaken

end Discards

/-- Destroying a space gives back the frames it owns and does nothing else. Only the kernel space
and the loaded space cannot be destroyed. -/
theorem leftWith_destroySpace {rest : List Nat} (h : Consistent paging machine spaces others)
    (hspace : space ∈ spaces)
    (htaken : machine.frames.takenFrames.Perm (paging.spaceFrames machine.memory space ++ rest)) :
    (paging.destroySpace space).Settles machine
      (fun _ machine' => space ≠ paging.kernel ∧ LeftWith machine rest machine')
      fun _ machine' => machine' = machine ∧
        (space.directory = paging.kernel.directory ∨ space.directory = machine.active) := by
  refine Action.settles_get (Action.settles_bind (Action.settles_refuseIf
    (fun hkept => ⟨rfl, hkept⟩) fun hfree => ?_))
  have hkernel : space ≠ paging.kernel := fun heq =>
    hfree (.inl (congrArg AddressSpace.directory heq))
  have hslots : paging.ownSlots space =
      (List.range entryCount).drop paging.layout.sharedSlots := by
    rw [ownSlots, if_neg hkernel]
  -- What the loop and the last step give back is what the space owns, in another order.
  have hdiscards : Discards machine.memory
      (((List.range entryCount).drop paging.layout.sharedSlots).forM (discardSlot space) >>=
        fun _ => (discardFrame space.directory : Action MemoryError Machine Unit))
      (paging.spaceFrames machine.memory space) := by
    rw [← hslots]
    refine (discards_bind (discards_forM fun slot hslot => ?_)
      (discards_frame space.directory)).perm List.perm_append_comm
    exact discards_slot (mem_ownSlots.mp hslot).1 (h.marked space hspace slot hslot)
  exact (hdiscards machine rest rfl h.pool htaken).mono (fun _ _ hend => ⟨hkernel, hend⟩)
    fun _ _ h => h.elim

/-- The taken frames are those of one space and those of all others. -/
theorem Consistent.taken_erase (h : Consistent paging machine spaces others)
    (hspace : space ∈ spaces) :
    machine.frames.takenFrames.Perm (paging.spaceFrames machine.memory space ++
      (others ++ paging.ownedFrames machine.memory (spaces.erase space))) := by
  have hsplit : (paging.ownedFrames machine.memory spaces).Perm
      (paging.spaceFrames machine.memory space ++
        paging.ownedFrames machine.memory (spaces.erase space)) :=
    (List.perm_cons_erase hspace).flatMap_right _
  exact h.taken.trans ((hsplit.append_left others).trans (List.perm_append_comm_assoc _ _ _))

/-- Destroying a space gives back exactly the frames it owns. Only the kernel space and the loaded
space cannot be destroyed. -/
theorem settles_destroySpace (h : Consistent paging machine spaces others)
    (hspace : space ∈ spaces) :
    (paging.destroySpace space).Settles machine
      (fun _ machine' => Consistent paging machine' (spaces.erase space) others ∧
        machine.frames.takenFrames.Perm
          (paging.spaceFrames machine.memory space ++ machine'.frames.takenFrames))
      fun _ machine' => machine' = machine ∧
        (space.directory = paging.kernel.directory ∨ space.directory = machine.active) := by
  have htaken := h.taken_erase hspace
  refine (leftWith_destroySpace h hspace htaken).mono_done ?_
  rintro - machine' ⟨hkernel, hend⟩
  have hmemory : machine'.memory = machine.memory := by rw [hend.eq]
  have hrest (other : AddressSpace) (hother : other ∈ spaces.erase space) : other ∈ spaces :=
    List.mem_of_mem_erase hother
  -- Tables are read but not written, so what the remaining spaces own stays.
  refine ⟨⟨⟨hend.pool, hend.total_eq ▸ h.total_le, ?_, ?_⟩, ?_⟩, ?_⟩
  · rw [hmemory]
    exact hend.taken
  · rw [hmemory]
    exact fun other hother => h.marked other (hrest other hother)
  · rw [hmemory]
    exact ⟨h.slots_le, (List.mem_erase_of_ne hkernel.symm).mpr h.kernel_mem, h.present,
      fun other hother => h.same other (hrest other hother)⟩
  · exact htaken.trans (hend.taken.symm.append_left _)

/-! ## Building the kernel space -/

/-- Asking for a table without having one made changes nothing. -/
theorem settles_tableFor_existing (space : AddressSpace) (address : Nat) :
    (tableFor space address false).Settles machine
      (fun table machine' => machine' = machine ∧
        (machine.memory.entry space.directory (slotInDirectory address)).frame? = some table)
      fun _ machine' => machine' = machine := by
  refine Action.settles_bind (settles_entry (slotInDirectory_lt address) ?_)
  cases hframe : (machine.memory.entry space.directory (slotInDirectory address)).frame? with
  | some table => exact Action.settles_pure ⟨rfl, rfl⟩
  | none => exact Action.settles_bind (Action.settles_refuseIf (fun _ => rfl) fun h => (h rfl).elim)

/-- The kernel space while it is built: its tables lead to nothing that it would own. -/
structure Building (paging : Paging) (machine : Machine) (others : List Nat) : Prop extends
    Accounted paging machine [paging.kernel] others where
  /-- No leaf is owned. -/
  clean : ∀ slot < entryCount, ∀ table,
    (machine.memory.entry paging.kernel.directory slot).frame? = some table →
      ∀ leafSlot < entryCount, (machine.memory.entry table leafSlot).ownedFrame? = none

theorem mem_ownSlots_kernel {slot : Nat} (hslot : slot < entryCount) :
    slot ∈ paging.ownSlots paging.kernel :=
  mem_ownSlots.mpr ⟨hslot, .inl rfl⟩

/-- A number comes only once when one counts. -/
theorem lt_and_not_mem_of_range {count slot : Nat} {behind rest : List Nat}
    (h : List.range count = behind ++ slot :: rest) : slot < count ∧ slot ∉ behind := by
  have hnodup : (behind ++ slot :: rest).Nodup := h ▸ List.nodup_range
  refine ⟨List.mem_range.mp ?_, fun hbehind => ?_⟩
  · rw [h]
    exact List.mem_append_right _ List.mem_cons_self
  · exact (List.nodup_append.mp hnodup).2.2 slot hbehind slot List.mem_cons_self rfl

section Building

variable {slot : Nat} (h : Building paging machine others)
include h

theorem Building.ne_directory {table : Nat} (hslot : slot < entryCount)
    (htable : (machine.memory.entry paging.kernel.directory slot).frame? = some table) :
    table ≠ paging.kernel.directory :=
  ne_directory_of_slot h.nodup List.mem_cons_self (mem_ownSlots_kernel hslot)
    (WordMemory.mem_slotFrames_of_some htable)

/-- A table of the kernel region is added where there was none. -/
theorem Building.settles_addSharedTable (hslot : slot < entryCount)
    (hempty : (machine.memory.entry paging.kernel.directory slot).frame? = none) :
    (addSharedTable paging.kernel.directory slot).Settles machine
      (fun _ machine' => Building paging machine' others ∧
        ∀ other < entryCount,
          (machine'.memory.entry paging.kernel.directory other).frame?.isSome =
            (decide (other = slot) ||
              (machine.memory.entry paging.kernel.directory other).frame?.isSome))
      fun _ _ => True := by
  refine Action.settles_bind (settles_takeZeroed h.pool (fun table hfree => ?_) trivial)
  obtain ⟨hnot, htaking⟩ := h.toAccounted.takingZeroed hfree
  have hlt := htaking.lt_of_taken (htaking.mem_taken_of_other List.mem_cons_self)
  have hupper : (Entry.leadingTo (Frame.address table) Flags.table).frame? = some table :=
    Entry.frame?_leadingTo hlt (by decide)
  -- Neither the directory nor a table that is there already is the new frame.
  have howned {frame : Nat} (hframe : frame ∈ paging.spaceFrames machine.memory paging.kernel) :
      frame ≠ table := by
    rintro rfl
    exact hnot (h.mem_taken_of_owned (mem_ownedFrames_of_space List.mem_cons_self hframe))
  have hdirectory := howned mem_spaceFrames_directory
  have hentry {frame other : Nat} (hother : other < entryCount) :
      ((machine.takingZeroed table).entering paging.kernel.directory slot
        (.leadingTo (Frame.address table) Flags.table)).memory.entry frame other =
          if frame = paging.kernel.directory ∧ other = slot then
            .leadingTo (Frame.address table) Flags.table
          else if frame = table then Entry.unused else machine.memory.entry frame other := by
    rw [entering, WordMemory.entry_setEntry _ _ hslot hother, entry_takingZeroed hother]
  refine settles_setEntry hslot ⟨⟨?_, fun other hother found hfound leafSlot hleaf => ?_⟩,
    fun other hother => ?_⟩
  · refine htaking.addingTable List.mem_cons_self (mem_ownSlots_kernel hslot) ?_
      fun slot hslot => ?_
    · rw [entry_takingZeroed hslot, if_neg hdirectory, hempty]
    · rw [entry_takingZeroed hslot, if_pos rfl]
  · rw [hentry hother, if_neg hdirectory] at hfound
    by_cases heq : other = slot
    · rw [if_pos ⟨rfl, heq⟩, hupper] at hfound
      cases hfound
      rw [hentry hleaf, if_neg fun hboth => hdirectory hboth.1.symm, if_pos rfl]
      rfl
    · rw [if_neg fun hboth => heq hboth.2] at hfound
      have hne := howned (mem_spaceFrames_of_slot (mem_ownSlots_kernel hother)
        (WordMemory.mem_slotFrames_of_some hfound))
      rw [hentry hleaf, if_neg fun hboth => h.ne_directory hother hfound hboth.1, if_neg hne]
      exact h.clean other hother found hfound leafSlot hleaf
  · rw [hentry hother, if_neg hdirectory]
    by_cases heq : other = slot
    · rw [if_pos ⟨rfl, heq⟩, hupper]
      simp [heq]
    · rw [if_neg fun hboth => heq hboth.2]
      simp [heq]

/-- A page of the kernel region is mapped to itself. -/
theorem Building.settles_mapIdentity (address : Nat) :
    (mapIdentity paging.kernel address).Settles machine
      (fun _ machine' => Building paging machine' others ∧
        ∀ slot < entryCount, machine'.memory.entry paging.kernel.directory slot =
          machine.memory.entry paging.kernel.directory slot)
      fun _ _ => True := by
  have hslot := slotInDirectory_lt address
  have hleaf := slotInTable_lt address
  refine Action.settles_bind ((settles_tableFor_existing paging.kernel address).mono ?_
    fun _ _ _ => trivial)
  rintro table middle ⟨rfl, htable⟩
  have hne := h.ne_directory hslot htable
  have hnew : (Entry.leadingTo address Flags.kernelPage).ownedFrame? = none :=
    Entry.ownedFrame?_leadingTo_of_not_owned (by decide)
  have hgiven : Accounted paging middle [paging.kernel]
      ((Entry.leadingTo address Flags.kernelPage).ownedFrame?.toList ++ others) := by
    rw [hnew]
    exact h.toAccounted
  -- Neither the leaf that was there nor the new one owns a frame.
  have hset := hgiven.settingLeaf _ List.mem_cons_self (mem_ownSlots_kernel hslot) htable hleaf
  rw [h.clean _ hslot table htable _ hleaf] at hset
  have hdirectory (slot : Nat) (hslot : slot < entryCount) :
      (middle.entering table (slotInTable address)
        (.leadingTo address Flags.kernelPage)).memory.entry paging.kernel.directory slot =
          middle.memory.entry paging.kernel.directory slot := by
    rw [entering, WordMemory.entry_setEntry _ _ hleaf hslot, if_neg fun heq => hne heq.1.symm]
  refine settles_setEntry hleaf ⟨⟨hset, fun slot hslot found hfound leafSlot hlt => ?_⟩, hdirectory⟩
  rw [hdirectory slot hslot] at hfound
  rw [entering, WordMemory.entry_setEntry _ _ hleaf hlt]
  split
  · exact hnew
  · exact h.clean slot hslot found hfound leafSlot hlt

/-- Tables are added for the first slots of an empty directory. -/
theorem Building.settles_addSharedTables {count : Nat} (hcount : count ≤ entryCount)
    (hempty : ∀ slot < entryCount,
      (machine.memory.entry paging.kernel.directory slot).frame? = none) :
    ((List.range count).forM (addSharedTable paging.kernel.directory)).Settles machine
      (fun _ machine' => Building paging machine' others ∧
        ∀ slot < entryCount, (machine'.memory.entry paging.kernel.directory slot).frame?.isSome =
          decide (slot ∈ List.range count))
      fun _ _ => True := by
  refine Action.settles_forM (fun behind middle => Building paging middle others ∧
    ∀ slot < entryCount, (middle.memory.entry paging.kernel.directory slot).frame?.isSome =
      decide (slot ∈ behind)) ?_ ⟨h, fun slot hslot => by simp [hempty slot hslot]⟩
  rintro behind slot rest middle hitems ⟨hmiddle, hpresent⟩
  obtain ⟨hlt, hbehind⟩ := lt_and_not_mem_of_range hitems
  have hslot := Nat.lt_of_lt_of_le hlt hcount
  -- No slot comes twice, so there is no table in this one yet.
  have hnone : (middle.memory.entry paging.kernel.directory slot).frame? = none := by
    have hsome := hpresent slot hslot
    rw [decide_eq_false hbehind] at hsome
    simpa using hsome
  refine (hmiddle.settles_addSharedTable hslot hnone).mono_done fun _ next hnext => ⟨hnext.1, ?_⟩
  intro other hother
  rw [hnext.2 other hother, hpresent other hother]
  simp [or_comm]

/-- Mapping any pages of the kernel region to themselves leaves the directory as it is. -/
theorem Building.settles_mapIdentities (addresses : List Nat) :
    (addresses.forM (mapIdentity paging.kernel)).Settles machine
      (fun _ machine' => Building paging machine' others ∧
        ∀ slot < entryCount, machine'.memory.entry paging.kernel.directory slot =
          machine.memory.entry paging.kernel.directory slot)
      fun _ _ => True := by
  refine Action.settles_forM (fun _ middle => Building paging middle others ∧
    ∀ slot < entryCount, middle.memory.entry paging.kernel.directory slot =
      machine.memory.entry paging.kernel.directory slot) ?_ ⟨h, fun _ _ => rfl⟩
  rintro behind address rest middle - ⟨hmiddle, hsame⟩
  refine (hmiddle.settles_mapIdentity address).mono_done fun _ next hnext => ⟨hnext.1, ?_⟩
  exact fun slot hslot => (hnext.2 slot hslot).trans (hsame slot hslot)

end Building

/-- A kernel space whose directory is a new frame owns nothing but that frame. -/
theorem building_takingZeroed {layout : Layout} {directory : Nat}
    (hpool : machine.frames.Consistent) (htotal : machine.frames.total ≤ bitRange 20)
    (hfree : machine.frames.lowestFree 0 = some directory) :
    Building { layout, kernel := ⟨directory⟩ } (machine.takingZeroed directory)
        machine.frames.takenFrames ∧
      ∀ slot < entryCount,
        ((machine.takingZeroed directory).memory.entry directory slot).frame? = none := by
  have hnone (slot : Nat) (hslot : slot < entryCount) :
      ((machine.takingZeroed directory).memory.entry directory slot).frame? = none := by
    rw [entry_takingZeroed hslot, if_pos rfl]
    rfl
  have hbefore : Accounted { layout, kernel := ⟨directory⟩ } machine []
      machine.frames.takenFrames :=
    ⟨hpool, htotal, by rw [ownedFrames, List.flatMap_nil, List.append_nil], by simp⟩
  refine ⟨⟨(hbefore.takingZeroed hfree).2.addingSpace fun slot hslot =>
    hnone slot (mem_ownSlots.mp hslot).1, fun slot hslot table htable => ?_⟩, hnone⟩
  rw [hnone slot hslot] at htable
  cases htable

theorem sharedSlots_le {layout : Layout} (h : layout.heapLimit < bitRange 32) :
    layout.sharedSlots ≤ entryCount := by
  simp only [Layout.sharedSlots, ceilDiv, regionSize, pageSize, entryCount, bitRange_32] at *
  omega

/-- The kernel space has a table for each slot of the kernel region once it is built, and no other.
Every frame that was taken before belongs to the others. -/
theorem settles_create_building {layout : Layout} (hpool : machine.frames.Consistent)
    (htotal : machine.frames.total ≤ bitRange 20) (hlimit : layout.heapLimit < bitRange 32) :
    (create layout).Settles machine
      (fun paging machine' => paging.layout = layout ∧
        Building paging machine' machine.frames.takenFrames ∧
        ∀ slot < entryCount,
          (machine'.memory.entry paging.kernel.directory slot).frame?.isSome =
            decide (slot < layout.sharedSlots))
      fun _ _ => True := by
  refine Action.settles_bind (settles_takeZeroed hpool (fun directory hfree => ?_) trivial)
  rw [Layout.heapEnd_eq_pure hlimit, pure_bind]
  obtain ⟨hstart, hempty⟩ : Building { layout, kernel := ⟨directory⟩ } _ _ ∧ _ :=
    building_takingZeroed hpool htotal hfree
  refine (hstart.settles_addSharedTables (sharedSlots_le hlimit) hempty).bind ?_
  rintro - tables ⟨htables, hpresent⟩
  refine (htables.settles_mapIdentities _).bind ?_
  rintro - pages ⟨hpages, hsame⟩
  refine Action.settles_bind (Action.settles_modify (Action.settles_bind
    (Action.settles_note rfl (Action.settles_pure ⟨rfl, ?_, fun slot hslot => ?_⟩))))
  -- Loading the new space concerns neither the pool nor physical memory.
  · exact ⟨hpages.toAccounted.congr rfl rfl, hpages.clean⟩
  · refine (congrArg (fun entry => entry.frame?.isSome) (hsame slot hslot)).trans ?_
    rw [hpresent slot hslot]
    exact decide_eq_decide.mpr List.mem_range

/-- The kernel space is consistent once it is built, and every frame that was taken before belongs
to the others. -/
theorem settles_create {layout : Layout} (hpool : machine.frames.Consistent)
    (htotal : machine.frames.total ≤ bitRange 20) (hlimit : layout.heapLimit < bitRange 32) :
    (create layout).Settles machine
      (fun paging machine' => paging.layout = layout ∧
        Consistent paging machine' [paging.kernel] machine.frames.takenFrames)
      fun _ _ => True := by
  refine (settles_create_building hpool htotal hlimit).mono_done ?_
  rintro paging machine' ⟨rfl, hbuilt, hpresent⟩
  have hle := sharedSlots_le hlimit
  refine ⟨rfl, hbuilt.toAccounted, hle, List.mem_cons_self, fun slot hslot => ?_,
    fun space hspace slot _ => ?_⟩
  · rw [hpresent slot (Nat.lt_of_lt_of_le hslot hle)]
    exact decide_eq_true hslot
  · rw [List.mem_singleton.mp hspace]

/-- A heap that ends beyond 4 GiB halts before a kernel space is built. -/
theorem heapLimit_lt_of_create {layout : Layout} {machine' : Machine} {journal journal' : Journal}
    (h : create layout machine journal = .done paging machine' journal') :
    layout.heapLimit < bitRange 32 := by
  by_contra hlimit
  have hheap : (layout.heapEnd : Action MemoryError Machine Nat) = Action.halt .addOverflow :=
    if_neg hlimit
  obtain ⟨directory, middle, journalMiddle, -, hrest⟩ := Action.bind_eq_done.mp h
  rw [hheap, Action.apply_bind] at hrest
  cases hrest

/-- A kernel space that was built is consistent. -/
theorem consistent_of_create {layout : Layout} {machine' : Machine} {journal journal' : Journal}
    (hpool : machine.frames.Consistent) (htotal : machine.frames.total ≤ bitRange 20)
    (h : create layout machine journal = .done paging machine' journal') :
    Consistent paging machine' [paging.kernel] machine.frames.takenFrames ∧
      Journal.strays journal' = Journal.strays journal := by
  have hsettles := settles_create hpool htotal (heapLimit_lt_of_create h) journal
  rw [h] at hsettles
  exact ⟨hsettles.2.2, hsettles.1⟩

end Paging

end KernelResources
