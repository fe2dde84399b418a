import KernelResources.Proofs.Paging.Remapping

/-!
# Two ways to take a space down

The pages of a space can be unmapped one after the other, or the space can be destroyed at once.
Both ways free the frames that the pages own, and destroying the space frees its tables and its
directory as well. They differ in what the memory management unit is told: unmapping has every
global page forgotten, and destroying has nothing forgotten.

* `Paging.mem_spaceFrames_iff`: what a space owns are its tables and the frames of its pages.
* `retires_unmap` and `forgets_remap`: what the memory management unit is told of a page that is
  unmapped or remapped.
* `Paging.unmapPages` unmaps a list of pages; `settles_unmapPages` says which frames are free then,
  and which pages were forgotten.
* `settles_destroySpace_exact`: destroying a space concerns the frame pool only.
-/

namespace KernelResources

namespace PageNumber

@[simp] theorem ofAddress_address (page : PageNumber) : ofAddress page.address = page := by
  have hlt := page.isLt
  rw [← BitVec.toNat_inj]
  simp only [ofAddress, address, BitVec.toNat_ofNat, pageSize]
  omega

@[simp] theorem roundDown_address (page : PageNumber) :
    roundDown page.address pageSize = page.address := by
  simp only [roundDown, address, pageSize]
  omega

theorem inKernelRegion_address {paging : Paging} {page : PageNumber} :
    paging.inKernelRegion page.address = true ↔ page.IsShared paging.layout := by
  rw [Paging.inKernelRegion, ← directorySlot_ofAddress, ofAddress_address, decide_eq_true_eq]
  rfl

/-- The page behind a slot of a directory and a slot of the table that this one leads to. -/
def ofSlots (slot leafSlot : Nat) : PageNumber := .ofNat 20 (slot * entryCount + leafSlot)

variable {slot leafSlot : Nat}

theorem directorySlot_ofSlots (hslot : slot < entryCount) (hleaf : leafSlot < entryCount) :
    (ofSlots slot leafSlot).directorySlot = slot := by
  simp only [ofSlots, directorySlot, BitVec.toNat_ofNat, entryCount] at *
  omega

theorem tableSlot_ofSlots (slot : Nat) (hleaf : leafSlot < entryCount) :
    (ofSlots slot leafSlot).tableSlot = leafSlot := by
  simp only [ofSlots, tableSlot, BitVec.toNat_ofNat, entryCount] at *
  omega

/-- A page outside the kernel region lies behind a slot that the space owns. -/
theorem mem_ownSlots_of_not_isShared {paging : Paging} {page : PageNumber}
    (hpage : ¬page.IsShared paging.layout) (space : AddressSpace) :
    page.directorySlot ∈ paging.ownSlots space :=
  Paging.mem_ownSlots.mpr ⟨page.directorySlot_lt, .inr (Nat.le_of_not_lt hpage)⟩

end PageNumber

namespace WordMemory

variable {memory : WordMemory} {space : AddressSpace} {page : PageNumber} {table frame : Nat}

/-- Whether a page of a space has a translation that survives a change of the address space. -/
def isGlobalAt (memory : WordMemory) (space : AddressSpace) (page : PageNumber) : Bool :=
  (memory.addressMap space page).any fun leaf => leaf.flags.has Flags.global

theorem ownedAt_of_none
    (h : (memory.entry space.directory page.directorySlot).frame? = none) :
    memory.ownedAt space page = none := by
  rw [ownedAt, addressMap, behind_of_none h]
  rfl

theorem ownedAt_of_some
    (h : (memory.entry space.directory page.directorySlot).frame? = some table) :
    memory.ownedAt space page = (memory.entry table page.tableSlot).ownedFrame? := by
  rw [ownedAt, addressMap, behind_of_some h, Entry.bind_leaf?]

theorem mem_ownedLeaves_iff :
    frame ∈ memory.ownedLeaves table ↔
      ∃ slot < entryCount, (memory.entry table slot).ownedFrame? = some frame := by
  simp only [ownedLeaves_eq, List.mem_flatMap, List.mem_range, Option.mem_toList]

end WordMemory

namespace Paging

open Machine

variable {ε : Type} {paging : Paging} {machine : Machine} {spaces : List AddressSpace}
  {others : List Nat} {space : AddressSpace} {address physical frame : Nat} {flags : Flags}
  {memory : WordMemory} {leaf : Entry} {pages : List PageNumber}

/-- What a space owns are its directory and its tables, and the frames that its pages own. -/
theorem mem_spaceFrames_iff :
    frame ∈ paging.spaceFrames memory space ↔
      paging.IsTable memory [space] frame ∨
        ∃ page : PageNumber, page.directorySlot ∈ paging.ownSlots space ∧
          memory.ownedAt space page = some frame := by
  constructor
  · intro hframe
    rcases List.mem_cons.mp hframe with hdirectory | hslots
    · exact .inl ⟨space, List.mem_cons_self, .inl hdirectory⟩
    obtain ⟨slot, hslot, hframe⟩ := List.mem_flatMap.mp hslots
    have hlt := (mem_ownSlots.mp hslot).1
    cases htable : (memory.entry space.directory slot).frame? with
    | none =>
      rw [WordMemory.slotFrames_of_none htable] at hframe
      cases hframe
    | some table =>
      rw [WordMemory.slotFrames_of_some htable] at hframe
      rcases List.mem_cons.mp hframe with rfl | hleaf
      · exact .inl ⟨space, List.mem_cons_self, .inr ⟨slot, hslot, htable⟩⟩
      · obtain ⟨leafSlot, hleafSlot, howned⟩ := WordMemory.mem_ownedLeaves_iff.mp hleaf
        have hdirectory := PageNumber.directorySlot_ofSlots hlt hleafSlot
        rw [← hdirectory] at hslot htable
        refine .inr ⟨.ofSlots slot leafSlot, hslot, ?_⟩
        rw [WordMemory.ownedAt_of_some htable, PageNumber.tableSlot_ofSlots slot hleafSlot]
        exact howned
  · rintro (htable | ⟨page, hslot, howned⟩)
    · have hmem := htable.mem_ownedFrames
      rwa [ownedFrames, List.flatMap_singleton] at hmem
    · cases htable : (memory.entry space.directory page.directorySlot).frame? with
      | none =>
        rw [WordMemory.ownedAt_of_none htable] at howned
        cases howned
      | some table =>
        rw [WordMemory.ownedAt_of_some htable] at howned
        refine mem_spaceFrames_of_slot hslot ?_
        rw [WordMemory.slotFrames_of_some htable]
        exact List.mem_cons_of_mem _
          (WordMemory.mem_ownedLeaves_iff.mpr ⟨_, page.tableSlot_lt, howned⟩)

/-! ## What is told of a page -/

/-- Giving up the translation of a page of the loaded space, of the kernel region, or of a global
page has this page forgotten. -/
theorem mem_forgetting (hglobal : leaf.flags.has Flags.global = true) :
    .invalidate (roundDown address pageSize) ∈ paging.forgetting machine space address leaf := by
  rw [forgetting, if_pos (.inr (.inr hglobal))]
  exact List.mem_singleton_self _

/-- Unmapping a page gives up the translation that it had. -/
theorem retires_unmap {refused : ε → Machine → Prop} (h : Consistent paging machine spaces others)
    (hspace : space ∈ spaces)
    (hslot : (PageNumber.ofAddress address).directorySlot ∈ paging.ownSlots space)
    (hleaf : machine.memory.addressMap space (.ofAddress address) = some leaf) :
    (paging.unmap space address : Action ε Machine (Option Nat)).Settles machine
      (fun _ machine' => Retires paging space address leaf machine machine') refused := by
  have hslot' := slotInTable_lt address
  refine Action.settles_bind (Action.settles_attempt (settles_checkOwner
    (fun hnot => absurd hslot hnot) fun _ => ?_))
  refine Action.settles_bind (Action.settles_attempt
    (((settles_tableFor_shown h (shows_viewOf machine.memory) hspace address false).and
      (settles_tableFor_existing space address).ensures).mono ?_ ?_))
  · rintro table middle ⟨⟨-, -, htable, hmap⟩, rfl, -⟩
    refine Action.settles_bind (settles_entry hslot' ?_)
    -- The entry is the leaf, since it takes part in translation.
    have hfound := hmap.symm.trans hleaf
    unfold Entry.leaf? at hfound
    split at hfound
    case isTrue hpresent =>
      obtain rfl := Option.some.inj hfound
      simp only [Entry.frame?, hpresent, if_true]
      have hset := Consistent.settingLeaf .unused h hspace
        (PageNumber.directorySlot_ofAddress address ▸ hslot) htable hslot'
      refine Action.settles_bind (settles_setEntry hslot' ?_)
      exact (retires_retire hset).bind fun _ _ hretired =>
        Action.settles_pure ⟨hretired.active, hretired.isTaken, hretired.calls⟩
    case isFalse => cases hfound
  · rintro error middle ⟨⟨-, -, hnone⟩, -⟩
    exact absurd (hnone.symm.trans hleaf) (Option.some_ne_none _).symm

/-- Remapping a page has its former translation forgotten as unmapping it does. -/
theorem forgets_remap (h : Consistent paging machine spaces others) (hspace : space ∈ spaces)
    (hleaf : machine.memory.addressMap space (.ofAddress address) = some leaf) :
    (paging.remap space address physical flags).Settles machine
      (fun _ machine' => machine'.calls.toList =
        machine.calls.toList ++ paging.forgetting machine space address leaf)
      fun _ machine' => machine' = machine := by
  have hslot' := slotInTable_lt address
  refine Action.settles_bind (settles_refuseShared rfl fun hslot => ?_)
  refine Action.settles_bind
    (((settles_tableFor_shown h (shows_viewOf machine.memory) hspace address true).and
      (settles_tableFor_exact h.pool space address true).ensures).mono ?_
        fun _ _ hrefused => hrefused.2.1)
  rintro table middle ⟨⟨hmiddle, -, htable, hmap⟩, hexact⟩
  have hsame : middle.active = machine.active ∧ middle.calls = machine.calls := by
    rcases hexact with ⟨-, rfl⟩ | ⟨-, -, rfl⟩ <;> exact ⟨rfl, rfl⟩
  refine Action.settles_bind (settles_entry hslot' (Action.settles_bind
    (settles_setEntry hslot' ?_)))
  have hset := (hmiddle.lending physical flags).settingLeaf _ hspace hslot htable hslot'
  refine ((settles_openToUser hset hspace hslot (borrowed flags)).also
    (writes_openToUser space address (borrowed flags)).ensures).bind ?_
  rintro - opened ⟨hopened, hwrites⟩
  have hactive : opened.active = machine.active :=
    (congrArg Machine.active hwrites :).trans hsame.1
  have hcalls : opened.calls = machine.calls := (congrArg Machine.calls hwrites :).trans hsame.2
  have hfound := hmap.symm.trans hleaf
  unfold Entry.leaf? at hfound
  split at hfound
  case isTrue hpresent =>
    obtain rfl := Option.some.inj hfound
    rw [if_pos hpresent]
    refine (retires_retire hopened).bind fun _ retired hretired => Action.settles_pure ?_
    rw [hretired.calls, hcalls, forgetting, forgetting, hactive]
  case isFalse => cases hfound

/-! ## Page by page -/

/-- The pages of a space that are mapped outside the kernel region, each of them once. -/
structure Lists (paging : Paging) (memory : WordMemory) (space : AddressSpace)
    (pages : List PageNumber) : Prop where
  /-- No page is listed twice. -/
  nodup : pages.Nodup
  /-- The pages that are mapped outside the kernel region. -/
  mem_iff : ∀ page, page ∈ pages ↔
    ¬page.IsShared paging.layout ∧ memory.addressMap space page ≠ none

/-- The pages of a space can always be listed. -/
theorem exists_lists (paging : Paging) (memory : WordMemory) (space : AddressSpace) :
    ∃ pages, Lists paging memory space pages :=
  ⟨((List.finRange (2 ^ 20)).map BitVec.ofFin).filter fun page =>
    ¬page.IsShared paging.layout ∧ memory.addressMap space page ≠ none, by
    refine List.Nodup.filter _ ((List.nodup_finRange _).map fun _ _ h => congrArg BitVec.toFin h),
    fun page => by
      simp only [List.mem_filter, List.mem_map, List.mem_finRange, true_and, decide_eq_true_eq]
      exact and_iff_right ⟨page.toFin, rfl⟩⟩

/-- Unmaps pages of a space one after the other. -/
def unmapPages (paging : Paging) (space : AddressSpace) (pages : List PageNumber) :
    Action ε Machine PUnit :=
  pages.forM fun page => do let _ ← paging.unmap space page.address

/-- `machine'` is `machine` after some pages of a space that is not loaded were unmapped. -/
structure Unmaps (space : AddressSpace) (pages : List PageNumber)
    (machine machine' : Machine) : Prop where
  /-- The same directory is loaded. -/
  active : machine'.active = machine.active
  /-- The pages are gone, and no other. -/
  addressMap : ∀ page, machine'.memory.addressMap space page =
    if page ∈ pages then none else machine.memory.addressMap space page
  /-- What the pages owned is free, and what was free before. -/
  isTaken : ∀ frame, machine'.frames.isTaken frame = true ↔
    machine.frames.isTaken frame = true ∧
      ∀ page ∈ pages, machine.memory.ownedAt space page ≠ some frame
  /-- The global pages have been forgotten. -/
  calls : machine'.calls.toList = machine.calls.toList ++
    (pages.filter (machine.memory.isGlobalAt space)).map fun page => .invalidate page.address

/-- One more page is unmapped. -/
theorem Unmaps.snoc {behind : List PageNumber} {page : PageNumber} {middle machine' : Machine}
    (h : Unmaps space behind machine middle) (hactive : space.directory ≠ machine.active)
    (hpage : ¬page.IsShared paging.layout)
    (hleaf : machine.memory.addressMap space page = some leaf)
    (hretires : Retires paging space page.address leaf middle machine')
    (hmap : ∀ page', machine'.memory.addressMap space page' =
      if page' = page then none else middle.memory.addressMap space page') :
    Unmaps space (behind ++ [page]) machine machine' := by
  have hglobal : machine.memory.isGlobalAt space page = leaf.flags.has Flags.global := by
    rw [WordMemory.isGlobalAt, hleaf]
    rfl
  have howned : machine.memory.ownedAt space page = leaf.ownedFrame? := by
    rw [WordMemory.ownedAt, hleaf]
    rfl
  have hforgetting : paging.forgetting middle space page.address leaf =
      if leaf.flags.has Flags.global then [.invalidate page.address] else [] := by
    simp only [forgetting, PageNumber.inKernelRegion_address, PageNumber.roundDown_address,
      h.active, hactive, hpage, false_or]
  refine ⟨hretires.active.trans h.active, fun page' => ?_, fun frame => ?_, ?_⟩
  · rw [hmap, h.addressMap]
    by_cases heq : page' = page <;> simp [heq]
  · rw [hretires.isTaken, Bool.and_eq_true, h.isTaken]
    simp only [List.mem_append, List.mem_singleton, or_imp, forall_and, forall_eq, howned,
      Bool.not_eq_true', decide_eq_false_iff_not]
    tauto
  · rw [hretires.calls, h.calls, hforgetting, List.filter_append, List.map_append,
      List.append_assoc, List.filter_singleton, hglobal]
    cases leaf.flags.has Flags.global <;> rfl

/-- Unmapping the pages of a space gives up each of them. -/
theorem settles_unmapPages {refused : ε → Machine → Prop}
    (h : Consistent paging machine spaces others) (hspace : space ∈ spaces)
    (hactive : space.directory ≠ machine.active)
    (hpages : Lists paging machine.memory space pages) :
    (paging.unmapPages space pages : Action ε Machine PUnit).Settles machine
      (fun _ machine' => Consistent paging machine' spaces others ∧
        Unmaps space pages machine machine') refused := by
  refine Action.settles_forM (fun behind machine' => Consistent paging machine' spaces others ∧
    Unmaps space behind machine machine') ?_
      ⟨h, rfl, fun _ => rfl, fun _ => by simp, (List.append_nil _).symm⟩
  rintro behind page rest middle hitems ⟨hmiddle, hunmaps⟩
  have hmem : page ∈ pages := by
    rw [hitems]
    exact List.mem_append_right _ List.mem_cons_self
  have hnew : page ∉ behind := fun hbehind => by
    have hnodup := hpages.nodup
    rw [hitems] at hnodup
    exact (List.nodup_append.mp hnodup).2.2 _ hbehind _ List.mem_cons_self rfl
  obtain ⟨hpage, hmapped⟩ := (hpages.mem_iff page).mp hmem
  obtain ⟨leaf, hleaf⟩ := Option.ne_none_iff_exists'.mp hmapped
  have hslot := PageNumber.mem_ownSlots_of_not_isShared hpage space
  have hfound : middle.memory.addressMap space page = some leaf := by
    rw [hunmaps.addressMap, if_neg hnew, hleaf]
  rw [← page.ofAddress_address] at hslot hfound
  refine (((settles_unmap hmiddle hspace).also
    (shows_unmap hmiddle (shows_viewOf _) hspace).ensures).also
      (retires_unmap hmiddle hspace hslot hfound).ensures).bind ?_
  rintro found machine' ⟨⟨hdone, hshown⟩, hretires⟩
  refine Action.settles_pure ⟨hdone, hunmaps.snoc hactive hpage hleaf hretires fun page' => ?_⟩
  rcases hshown with ⟨-, -, habsent⟩ | ⟨_, -, -, -, hshows⟩
  · exact absurd ((habsent hslot).symm.trans hfound) (Option.some_ne_none _).symm
  · rw [hshows.maps space hspace]
    simp only [View.setPage, AddressMaps.set, PageNumber.ofAddress_address]
    exact if_congr (and_iff_left (.inl rfl)) rfl rfl

/-! ## At once -/

/-- Destroying a space frees what it owns, and does nothing else. -/
theorem settles_destroySpace_exact (h : Consistent paging machine spaces others)
    (hspace : space ∈ spaces) :
    (paging.destroySpace space).Settles machine
      (fun _ machine' => machine' = { machine with frames := machine'.frames } ∧
        ∀ frame, machine'.frames.isTaken frame = true ↔
          machine.frames.isTaken frame = true ∧ frame ∉ paging.spaceFrames machine.memory space)
      fun _ machine' => machine' = machine ∧
        (space.directory = paging.kernel.directory ∨ space.directory = machine.active) := by
  have htaken := h.taken_erase hspace
  refine (leftWith_destroySpace h hspace htaken).mono_done ?_
  rintro - machine' ⟨-, hend⟩
  refine ⟨hend.eq, fun frame => ?_⟩
  have hdisjoint := List.nodup_append.mp (htaken.nodup_iff.mp (FramePool.nodup_takenFrames _))
  have hbefore : frame < machine.frames.total ∧ machine.frames.isTaken frame ↔
      frame ∈ paging.spaceFrames machine.memory space ∨ frame ∈ machine'.frames.takenFrames := by
    rw [← FramePool.mem_takenFrames, htaken.mem_iff, List.mem_append, hend.taken.mem_iff]
  have hrest : frame ∈ paging.spaceFrames machine.memory space →
      frame ∉ machine'.frames.takenFrames := fun hmem hmem' =>
    hdisjoint.2.2 frame hmem frame (hend.taken.mem_iff.mp hmem') rfl
  rw [FramePool.mem_takenFrames, hend.total_eq] at hbefore hrest
  by_cases hlt : frame < machine.frames.total
  · simp only [hlt, true_and] at hbefore hrest
    rw [hbefore]
    tauto
  · have hle := Nat.le_of_not_lt hlt
    have hnot : frame ∉ paging.spaceFrames machine.memory space := fun hmem =>
      hlt (hbefore.mpr (.inl hmem)).1
    exact iff_of_true (FramePool.isTaken_of_total_le (hend.total_eq ▸ hle))
      ⟨FramePool.isTaken_of_total_le hle, hnot⟩

end Paging

end KernelResources
