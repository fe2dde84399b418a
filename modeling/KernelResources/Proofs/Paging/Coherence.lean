import KernelResources.Proofs.Paging.Cache

/-!
# Which pages become stale

For each routine, which pages may be stale in the cache of the memory management unit when it is
over. Writing a table that nobody has yet, or an entry that leads to the same place as before, goes
unnoticed. A leaf that is changed makes its page stale if the loaded directory had a translation for
it (`outdated`), and that is exactly when the routine has it forgotten.

* `Machine.Steady` says that a machine translates as another one does.
* `Routine.secures_setLeaf` and `Routine.secures_retire`: a page becomes stale and is forgotten.
* `Routine.secures_enter`, `secures_remap`, `secures_unmap`, `secures_mapFresh`,
  `secures_createSpace` and `secures_destroySpace`: no page is stale behind a request.
* `Routine.secures_load`: what survives the load of another directory is right in every space.
-/

namespace KernelResources

/-- The machine has the same directory loaded as before, and it translates as before. -/
structure Machine.Steady (machine machine' : Machine) : Prop where
  /-- The same directory is loaded. -/
  active : machine'.active = machine.active
  /-- A walk finds the same. -/
  walks : machine'.walks = machine.walks

theorem Machine.Steady.refl (machine : Machine) : Steady machine machine := ⟨rfl, rfl⟩

theorem Machine.Steady.trans {machine machine' machine'' : Machine} (h : Steady machine machine')
    (h' : Steady machine' machine'') : Steady machine machine'' :=
  ⟨h'.active.trans h.active, h'.walks.trans h.walks⟩

namespace Paging

open Machine

variable {ε : Type} {paging : Paging} {machine machine' : Machine} {spaces : List AddressSpace}
  {others others' : List Nat} {space : AddressSpace} {address physical : Nat} {flags : Flags}
  {view : View} {journal : Journal} {stale : Set PageNumber}

/-- What is found by walking the loaded directory is the map of the loaded space. -/
theorem Shows.mem_walks_iff (hshows : Shows paging machine.memory spaces others view)
    (hactive : ⟨machine.active⟩ ∈ spaces) {pair : PageNumber × Entry} :
    pair ∈ machine.walks ↔ view.maps ⟨machine.active⟩ pair.1 = some pair.2 := by
  rw [← hshows.maps _ hactive]
  rfl

/-- Where the same maps are to be seen as before, the machine is steady. -/
theorem Shows.steady (hshows : Shows paging machine'.memory spaces others view)
    (hmaps : view.maps = machine.memory.addressMap) (hactive : ⟨machine.active⟩ ∈ spaces)
    (hsame : machine'.active = machine.active) : Steady machine machine' := by
  refine ⟨hsame, Set.ext fun pair => ?_⟩
  rw [hshows.mem_walks_iff (hsame ▸ hactive), hmaps, hsame]
  rfl

/-- Global translations are found in the kernel region only. -/
def GlobalsShared (paging : Paging) (memory : WordMemory) (spaces : List AddressSpace) : Prop :=
  ∀ space ∈ spaces, ∀ page leaf, memory.addressMap space page = some leaf →
    leaf.flags.has Flags.global → page.IsShared paging.layout

/-- The page whose translation in the loaded directory is about to change, unless there is none. -/
def outdated (paging : Paging) (machine : Machine) (space : AddressSpace) (page : PageNumber) :
    Set PageNumber :=
  {page' | page' = page ∧ paging.Reaches space page.directorySlot ⟨machine.active⟩ ∧
    machine.memory.addressMap space page ≠ none}

/-- A page that is mapped alike in the space through which it is changed and in the loaded one. -/
theorem Shared.addressMap_eq_of_reaches {memory : WordMemory} {other : AddressSpace}
    {page : PageNumber} (h : Shared paging memory spaces) (hother : other ∈ spaces)
    (hreaches : paging.Reaches space page.directorySlot other) :
    memory.addressMap other page = memory.addressMap space page := by
  rcases hreaches with rfl | ⟨rfl, hshared⟩
  · rfl
  · exact h.addressMap_eq hother hshared

/-- A page that is not mapped is not outdated by a change. -/
theorem outdated_eq_empty {table : Nat}
    (htable : (machine.memory.entry space.directory (slotInDirectory address)).frame? = some table)
    (habsent : ¬(machine.memory.entry table (slotInTable address)).isPresent = true) :
    outdated paging machine space (.ofAddress address) = ∅ := by
  refine Set.eq_empty_of_forall_notMem fun page hmem => hmem.2.2 ?_
  rw [← PageNumber.directorySlot_ofAddress] at htable
  rw [WordMemory.addressMap, WordMemory.behind_of_some htable, PageNumber.tableSlot_ofAddress,
    Entry.leaf?_of_not_present habsent]

/-- The page around an address is the page of its first address. -/
theorem ofAddress_roundDown (address : Nat) :
    PageNumber.ofAddress (roundDown address pageSize) = .ofAddress address := by
  have hpage : roundDown address pageSize / pageSize = address / pageSize := by
    simp only [roundDown, pageSize]
    omega
  rw [PageNumber.ofAddress, hpage]
  rfl

/-- A frame that is taken to back a page will be owned through it. -/
theorem Consistent.takingFresh {frame : Nat} (h : Consistent paging machine spaces others)
    (flags : Flags) (hfree : machine.frames.lowestFree 0 = some frame) :
    Consistent paging (machine.takingZeroed frame) spaces
      ((Entry.leadingTo (Frame.address frame) (fresh flags)).ownedFrame?.toList ++ others) := by
  have htaking := h.takingZeroed hfree
  have hlt := htaking.lt_of_taken (htaking.mem_taken_of_other List.mem_cons_self)
  have howned : (Entry.leadingTo (Frame.address frame) (fresh flags)).ownedFrame? = some frame :=
    Entry.ownedFrame?_leadingTo_of_owned hlt (present_fresh flags) (owned_fresh flags)
  rw [howned]
  exact htaking

end Paging

namespace Routine

open Paging Machine

variable {ε : Type} {paging : Paging} {machine machine' : Machine} {spaces : List AddressSpace}
  {others : List Nat} {space : AddressSpace} {address physical : Nat} {flags : Flags}
  {journal : Journal} {stale : Set PageNumber}

/-! ## Parts of routines -/

/-- An entry that is written unnoticed. -/
theorem secures_setEntry_of_steady {frame slot : Nat} {new : Entry}
    {done : Unit → Machine → Set PageNumber → Prop} {refused : ε → Machine → Set PageNumber → Prop}
    (hslot : slot < entryCount) (hsteady : Steady machine (machine.entering frame slot new))
    (hdone : done () (machine.entering frame slot new) stale) :
    (act (.setEntry frame slot new) : Routine ε Unit).Secures machine journal stale done refused :=
  secures_setEntry hslot (fun _ hwalk => .inr (hsteady.walks ▸ hwalk)) subset_rfl hdone

/-- A frame that is free is no table of a live space. -/
theorem secures_takeZeroed {done : Nat → Machine → Set PageNumber → Prop}
    {refused : MemoryError → Machine → Set PageNumber → Prop}
    (h : Consistent paging machine spaces others) (hactive : ⟨machine.active⟩ ∈ spaces)
    (hdone : ∀ frame, machine.frames.lowestFree 0 = some frame →
      Steady machine (machine.takingZeroed frame) → done frame (machine.takingZeroed frame) stale)
    (hrefused : refused .outOfMemory machine stale) :
    takeZeroed.Secures machine journal stale done refused := by
  cases hfree : machine.frames.lowestFree 0 with
  | none =>
    have hallocate : FramePool.allocate? machine.frames journal =
        .done none machine.frames journal :=
      Action.bind_of_done (Action.attempt_of_refused (FramePool.allocate_of_none journal hfree))
    refine secures_bind (secures_act (Instruction.run_onFrames_of_done hallocate)
      (Instruction.carries_of_walks_eq rfl rfl) fun journal => secures_bind ?_)
    exact hrefused
  | some frame =>
    have hallocate : FramePool.allocate? machine.frames journal =
        .done (some frame) (machine.frames.taking frame (frame + 1)) journal :=
      Action.bind_of_done (Action.attempt_of_done (FramePool.allocate_of_some h.pool journal hfree))
    -- The frame is no table, so it makes no difference what is in it.
    have hseen := (shows_viewOf machine.memory).takingZeroed h.toAccounted h.toShared.lends hfree
    have hsteady : Steady machine (machine.takingZeroed frame) := hseen.steady rfl hactive rfl
    refine secures_bind (secures_act (Instruction.run_onFrames_of_done hallocate)
      (Instruction.carries_of_walks_eq rfl rfl) fun journal => secures_bind fun journal => ?_)
    exact secures_bind (secures_act rfl (Instruction.carries_of_walks_eq rfl hsteady.walks)
      fun journal => hdone frame hfree hsteady)

/-- A table that has to be allocated is empty, so nobody notices. -/
theorem secures_tableFor (h : Consistent paging machine spaces others)
    (hactive : ⟨machine.active⟩ ∈ spaces) (hspace : space ∈ spaces) (address : Nat)
    (create : Bool) :
    (tableFor space address create).Secures machine journal stale
      (fun _ machine' stale' => stale' = stale ∧ Steady machine machine')
      fun _ machine' stale' => stale' = stale ∧ Steady machine machine' := by
  have hslot := slotInDirectory_lt address
  refine secures_bind (secures_entry hslot fun journal => ?_)
  cases hframe : (machine.memory.entry space.directory (slotInDirectory address)).frame? with
  | some table => exact ⟨rfl, .refl _⟩
  | none =>
    refine secures_bind (secures_refuseIf (fun _ => ⟨rfl, .refl _⟩) fun _ journal => ?_)
    refine secures_bind (secures_takeZeroed h hactive (fun table hfree htaking journal => ?_)
      ⟨rfl, .refl _⟩)
    have hseen := (shows_viewOf machine.memory).addingEmptyTable h hspace hslot hframe hfree
    have hsteady : Steady machine ((machine.takingZeroed table).entering space.directory
        (slotInDirectory address) (.leadingTo (Frame.address table) Flags.table)) :=
      hseen.steady rfl hactive rfl
    refine secures_bind (secures_setEntry_of_steady hslot ⟨rfl, ?_⟩ fun journal => ⟨rfl, hsteady⟩)
    exact hsteady.walks.trans htaking.walks.symm

theorem secures_openToUser {refused : ε → Machine → Set PageNumber → Prop}
    (h : Consistent paging machine spaces others) (hactive : ⟨machine.active⟩ ∈ spaces)
    (hspace : space ∈ spaces) (address : Nat) (flags : Flags) :
    (openToUser space address flags : Routine ε Unit).Secures machine journal stale
      (fun _ machine' stale' => stale' = stale ∧ Steady machine machine') refused := by
  have hslot := slotInDirectory_lt address
  unfold openToUser
  split
  · refine secures_bind (secures_entry hslot fun journal => ?_)
    split
    · exact ⟨rfl, .refl _⟩
    · have hview : Shows paging machine.memory spaces [] (viewOf machine.memory) := shows_viewOf _
      have hopened := hview.openingToUser h.toShared.lends h.nodup hspace hslot List.not_mem_nil
      have hsteady : Steady machine (machine.entering space.directory (slotInDirectory address)
          (machine.memory.entry space.directory (slotInDirectory address)).openedToUser) :=
        hopened.steady rfl hactive rfl
      exact secures_setEntry_of_steady hslot hsteady ⟨rfl, hsteady⟩
  · exact ⟨rfl, .refl _⟩

/-- What is let through may be changed in this space. -/
theorem secures_refuseShared {done : Unit → Machine → Set PageNumber → Prop}
    {refused : MemoryError → Machine → Set PageNumber → Prop}
    (hrefused : refused .invalidOperation machine stale)
    (hdone : (PageNumber.ofAddress address).directorySlot ∈ paging.ownSlots space →
      done () machine stale) :
    (refuseShared paging space address).Secures machine journal stale done refused := by
  have howner : (paging.refuseShared space address).Settles machine
      (fun _ _ => (PageNumber.ofAddress address).directorySlot ∈ paging.ownSlots space)
      fun _ _ => True := settles_checkOwner (fun _ => trivial) fun hslot => hslot
  refine secures_refuseIf (fun _ => hrefused) fun hallowed => hdone ?_
  unfold Paging.refuseShared at howner
  rw [Action.refuseIf_of_neg hallowed] at howner
  exact (howner #[]).2

/-- A leaf that is changed makes its page stale, if it was mapped in the loaded directory. -/
theorem secures_setLeaf {table : Nat} {new : Entry}
    {done : Unit → Machine → Set PageNumber → Prop} {refused : ε → Machine → Set PageNumber → Prop}
    (h : Consistent paging machine spaces others) (hactive : ⟨machine.active⟩ ∈ spaces)
    (hspace : space ∈ spaces)
    (hslot : (PageNumber.ofAddress address).directorySlot ∈ paging.ownSlots space)
    (htable : (machine.memory.entry space.directory (slotInDirectory address)).frame? = some table)
    (hdone : done () (machine.entering table (slotInTable address) new)
      (outdated paging machine space (.ofAddress address))) :
    (act (.setEntry table (slotInTable address) new) : Routine ε Unit).Secures machine journal ∅
      done refused := by
  refine secures_setEntry (slotInTable_lt address) (fun pair hpair => ?_) (Set.empty_subset _) hdone
  have hview : Shows paging machine.memory spaces others (viewOf machine.memory) := shows_viewOf _
  have hshown := hview.entering h hspace hslot htable new
  rw [hshown.mem_walks_iff hactive]
  simp only [View.setPage, AddressMaps.set]
  by_cases hpage : pair.1 = .ofAddress address ∧
      paging.Reaches space (PageNumber.ofAddress address).directorySlot ⟨machine.active⟩
  · -- The page is found in the loaded directory, so it was mapped in the space as well.
    refine .inl ⟨hpage.1, hpage.2, ?_⟩
    rw [← h.toShared.addressMap_eq_of_reaches hactive hpage.2, ← hpage.1]
    exact Option.ne_none_iff_exists'.mpr ⟨_, hpair⟩
  · exact .inr ((if_neg hpage).trans hpair)

theorem secures_discardLeaf {refused : ε → Machine → Set PageNumber → Prop} (leaf : Entry) :
    (discardLeaf leaf : Routine ε Unit).Secures machine journal stale
      (fun _ machine' stale' => stale' = stale ∧ machine'.active = machine.active) refused := by
  unfold discardLeaf
  split
  · split
    · exact secures_onFrames fun _ _ => ⟨rfl, rfl⟩
    · exact ⟨rfl, rfl⟩
  · exact ⟨rfl, rfl⟩

/-- If a page of the loaded directory is stale, the memory management unit is told to forget it. -/
theorem secures_retire {refused : ε → Machine → Set PageNumber → Prop} (previous : Entry)
    (hstale : ∀ page ∈ stale, page = .ofAddress address ∧
      paging.Reaches space page.directorySlot ⟨machine.active⟩) :
    (retire paging space address previous : Routine ε Unit).Secures machine journal stale
      (fun _ machine' stale' => stale' = ∅ ∧ machine'.active = machine.active) refused := by
  refine (secures_discardLeaf previous).bind ?_
  rintro - discarded _ ⟨rfl, hactive⟩ journal
  refine secures_bind (secures_look fun journal => ?_)
  split
  case isTrue =>
    refine secures_act rfl (fun cache hfresh pair hpair => ?_) ⟨rfl, hactive⟩
    obtain ⟨hcached, hother⟩ := hpair
    rw [ofAddress_roundDown] at hother
    exact .inr ((hfresh pair hcached).resolve_left fun hmem => hother (hstale _ hmem).1)
  case isFalse hkept =>
    refine ⟨Set.eq_empty_of_forall_notMem fun page hmem => hkept ?_, hactive⟩
    obtain ⟨rfl, hreaches⟩ := hstale page hmem
    rcases hreaches with heq | ⟨-, hshared⟩
    · exact .inl (by rw [hactive, ← heq])
    · refine .inr (.inl (decide_eq_true ?_))
      rwa [PageNumber.directorySlot_ofAddress] at hshared

/-! ## Requests -/

/-- The table that is returned may be written to then. -/
theorem secures_tableFor_shown (h : Consistent paging machine spaces others)
    (hactive : ⟨machine.active⟩ ∈ spaces) (hspace : space ∈ spaces) (address : Nat)
    (create : Bool) :
    (tableFor space address create).Secures machine journal ∅
      (fun table machine' stale' => stale' = ∅ ∧ Steady machine machine' ∧
        Consistent paging machine' spaces others ∧
        (machine'.memory.entry space.directory (slotInDirectory address)).frame? = some table)
      fun _ machine' stale' => stale' = ∅ ∧ machine'.active = machine.active := by
  have hrun := (settles_tableFor h hspace address create).ensures
  rw [← run_tableFor] at hrun
  exact ((secures_tableFor h hactive hspace address create).and hrun).mono
    (fun _ _ _ hdone => ⟨hdone.1.1, hdone.1.2, hdone.2⟩)
    fun _ _ _ hrefused => ⟨hrefused.1.1, hrefused.1.2.active⟩

/-- A page that is entered was not mapped, so nothing is cached of it. -/
theorem secures_enter
    (h : Consistent paging machine spaces
      ((Entry.leadingTo physical flags).ownedFrame?.toList ++ others))
    (hactive : ⟨machine.active⟩ ∈ spaces) (hspace : space ∈ spaces) (address : Nat) :
    (enter paging space address physical flags).Secures machine journal ∅
      (fun _ machine' stale' => stale' = ∅ ∧ machine'.active = machine.active)
      fun _ machine' stale' => stale' = ∅ ∧ machine'.active = machine.active := by
  have hleaf := slotInTable_lt address
  refine secures_bind (secures_refuseShared ⟨rfl, rfl⟩ fun hslot journal => ?_)
  refine (secures_tableFor_shown h hactive hspace address true).bind ?_
  rintro table middle _ ⟨rfl, hsteady, hmiddle, htable⟩ journal
  rw [← hsteady.active] at hactive
  refine secures_bind (secures_entry hleaf fun journal => ?_)
  refine secures_bind (secures_refuseIf (fun _ => ⟨rfl, hsteady.active⟩) fun habsent journal => ?_)
  refine secures_bind (secures_setLeaf hmiddle hactive hspace hslot htable fun journal => ?_)
  have hset := hmiddle.settingLeaf (.leadingTo physical flags) hspace
    (PageNumber.directorySlot_ofAddress address ▸ hslot) htable hleaf
  refine (secures_openToUser hset hactive hspace address flags).mono ?_ fun _ _ _ h => h
  rintro - opened _ ⟨rfl, hopened⟩
  exact ⟨outdated_eq_empty htable habsent, hopened.active.trans hsteady.active⟩

/-- Whether or not the page was mapped, nothing is left of its former translation. -/
theorem secures_remap (h : Consistent paging machine spaces others)
    (hactive : ⟨machine.active⟩ ∈ spaces) (hspace : space ∈ spaces) (address : Nat) :
    (remap paging space address physical flags).Secures machine journal ∅
      (fun _ machine' stale' => stale' = ∅ ∧ machine'.active = machine.active)
      fun _ machine' stale' => stale' = ∅ ∧ machine'.active = machine.active := by
  have hleaf := slotInTable_lt address
  refine secures_bind (secures_refuseShared ⟨rfl, rfl⟩ fun hslot journal => ?_)
  refine (secures_tableFor_shown h hactive hspace address true).bind ?_
  rintro table middle _ ⟨rfl, hsteady, hmiddle, htable⟩ journal
  rw [← hsteady.active] at hactive
  refine secures_bind (secures_entry hleaf fun journal => ?_)
  refine secures_bind (secures_setLeaf hmiddle hactive hspace hslot htable fun journal => ?_)
  -- From here until it is retired, the former translation may be in use by the loaded directory.
  have hset := (hmiddle.lending physical flags).settingLeaf _ hspace
    (PageNumber.directorySlot_ofAddress address ▸ hslot) htable hleaf
  refine (secures_openToUser hset hactive hspace address (borrowed flags)).bind ?_
  rintro - opened _ ⟨rfl, hopened⟩ journal
  have hsame : opened.active = machine.active := hopened.active.trans hsteady.active
  split
  case isTrue =>
    refine (secures_retire _ fun page hmem => ⟨hmem.1, ?_⟩).bind ?_
    · obtain ⟨rfl, hreaches, -⟩ := hmem
      exact hopened.active ▸ hreaches
    · rintro - retired _ ⟨rfl, hretired⟩ journal
      exact ⟨rfl, hretired.trans hsame⟩
  case isFalse habsent => exact ⟨outdated_eq_empty htable habsent, hsame⟩

theorem secures_unmap {refused : ε → Machine → Set PageNumber → Prop}
    (h : Consistent paging machine spaces others) (hactive : ⟨machine.active⟩ ∈ spaces)
    (hspace : space ∈ spaces) (address : Nat) :
    (unmap paging space address : Routine ε (Option Nat)).Secures machine journal ∅
      (fun _ machine' stale' => stale' = ∅ ∧ machine'.active = machine.active) refused := by
  have hleaf := slotInTable_lt address
  refine secures_bind (secures_attempt (secures_refuseShared (fun journal => ?_)
    fun hslot journal => ?_))
  · exact secures_bind (secures_act rfl (Instruction.carries_of_walks_eq rfl rfl)
      fun journal => ⟨rfl, rfl⟩)
  refine secures_bind (secures_attempt ((secures_tableFor_shown h hactive hspace address false).mono
    ?_ fun _ _ _ hrefused journal => hrefused))
  rintro table middle _ ⟨rfl, hsteady, hmiddle, htable⟩ journal
  rw [← hsteady.active] at hactive
  refine secures_bind (secures_entry hleaf fun journal => ?_)
  cases (middle.memory.entry table (slotInTable address)).frame? with
  | none => exact ⟨rfl, hsteady.active⟩
  | some frame =>
    refine secures_bind (secures_setLeaf hmiddle hactive hspace hslot htable fun journal => ?_)
    refine (secures_retire _ fun page hmem => ⟨hmem.1, hmem.1 ▸ hmem.2.1⟩).bind ?_
    rintro - retired _ ⟨rfl, hretired⟩ journal
    exact ⟨rfl, hretired.trans hsteady.active⟩

theorem secures_mapFresh (h : Consistent paging machine spaces others)
    (hactive : ⟨machine.active⟩ ∈ spaces) (hspace : space ∈ spaces) (address : Nat) :
    (mapFresh paging space address flags).Secures machine journal ∅
      (fun _ machine' stale' => stale' = ∅ ∧ machine'.active = machine.active)
      fun _ machine' stale' => stale' = ∅ ∧ machine'.active = machine.active := by
  refine secures_bind (secures_takeZeroed h hactive (fun frame hfree hsteady journal => ?_)
    ⟨rfl, rfl⟩)
  have hgiven := h.takingFresh flags hfree
  refine secures_bind (secures_attempt ((secures_enter hgiven hactive hspace address).mono
    (fun _ _ _ hdone journal => hdone) ?_))
  rintro error refused _ ⟨rfl, hrefused⟩ journal
  exact secures_bind (secures_onFrames fun _ _ journal => ⟨rfl, hrefused⟩)

/-- A directory that no space has yet may be written to unnoticed. -/
theorem secures_copySlots {refused : ε → Machine → Set PageNumber → Prop} {directory : Nat}
    {slots : List Nat} (h : Consistent paging machine spaces (directory :: others))
    (hactive : ⟨machine.active⟩ ∈ spaces) (hslots : ∀ slot ∈ slots, slot < entryCount) :
    (slots.forM (copySlot paging.kernel.directory directory) : Routine ε PUnit).Secures machine
      journal stale (fun _ machine' stale' => stale' = stale ∧ Steady machine machine')
      refused := by
  refine (secures_forM (fun middle stale' => (stale' = stale ∧ Steady machine middle) ∧
    Consistent paging middle spaces (directory :: others)) ?_ ⟨⟨rfl, .refl _⟩, h⟩).mono
      (fun _ _ _ hdone => hdone.1) fun _ _ _ hrefused => hrefused
  rintro slot hmem middle journal _ ⟨⟨rfl, hsteady⟩, hmiddle⟩
  have hslot := hslots slot hmem
  have hnot := hmiddle.not_isTable_of_other List.mem_cons_self
  refine secures_bind (secures_entry hslot fun journal => ?_)
  let copied := middle.entering directory slot
    (middle.memory.entry paging.kernel.directory slot)
  have hview : Shows paging middle.memory spaces [] (viewOf middle.memory) := shows_viewOf _
  have hseen : Shows paging copied.memory spaces [] (viewOf middle.memory) := by
    refine hview.congr hmiddle.toShared.lends (fun table htable slot' hslot' => ?_)
      fun _ hother => absurd hother List.not_mem_nil
    refine (WordMemory.entry_setEntry _ _ hslot hslot').trans (if_neg ?_)
    rintro ⟨rfl, -⟩
    exact hnot htable
  have hstep : Steady middle copied := hseen.steady rfl (hsteady.active ▸ hactive) rfl
  exact secures_setEntry_of_steady hslot hstep
    ⟨⟨rfl, hsteady.trans hstep⟩, hmiddle.enteringOutside hnot hslot⟩

/-- A space that is being built is not loaded. -/
theorem secures_createSpace (h : Consistent paging machine spaces others)
    (hactive : ⟨machine.active⟩ ∈ spaces) :
    (createSpace paging).Secures machine journal stale
      (fun _ machine' stale' => stale' = stale ∧ Steady machine machine')
      fun _ machine' stale' => stale' = stale ∧ Steady machine machine' := by
  refine secures_bind (secures_takeZeroed h hactive (fun directory hfree hsteady journal => ?_)
    ⟨rfl, .refl _⟩)
  refine (secures_copySlots (h.takingZeroed hfree) hactive fun slot hslot =>
    Nat.lt_of_lt_of_le (List.mem_range.mp hslot) h.slots_le).bind ?_
  rintro - copied _ ⟨rfl, hcopied⟩ journal
  exact ⟨rfl, hsteady.trans hcopied⟩

/-! ### Routines that write no memory -/

/-- A machine with the same memory and the same directory translates as before. -/
theorem steady_of_memory (hactive : machine'.active = machine.active)
    (hmemory : machine'.memory = machine.memory) : Steady machine machine' := by
  refine ⟨hactive, ?_⟩
  rw [Machine.walks, hactive, hmemory]
  rfl

/-- A routine that writes no memory and tells the memory management unit nothing leaves the
translations as they are. -/
theorem Consists.secures {α : Type} {routine : Routine ε α}
    (h : routine.Consists Instruction.Spares) :
    routine.Secures machine journal stale
      (fun _ machine' stale' => stale' = stale ∧ Steady machine machine')
      fun _ machine' stale' => stale' = stale ∧ Steady machine machine' := by
  induction routine generalizing machine journal with
  | done value => exact ⟨rfl, .refl _⟩
  | refused error => exact ⟨rfl, .refl _⟩
  | step instruction next ih =>
    intro value middle journal' hrun
    obtain ⟨hcalls, hkeeps⟩ := h.1.calls_eq_nil
    have heffect := Instruction.effect_of_run hrun
    have hsteady := steady_of_memory (heffect.active hkeeps) (heffect.memory h.1)
    refine ⟨stale, Instruction.carries_of_walks_eq hcalls hsteady.walks, ?_⟩
    exact (ih value (h.2 value)).mono
      (fun _ _ _ hdone => ⟨hdone.1, hsteady.trans hdone.2⟩)
      fun _ _ _ hrefused => ⟨hrefused.1, hsteady.trans hrefused.2⟩

theorem spares_onFrames {α : Type} (action : Action MemoryError FramePool α) :
    (onFrames action).Consists Instruction.Spares :=
  consists_bind (consists_act trivial) fun _ => consists_ofExcept

theorem spares_discardLeaf (leaf : Entry) :
    (discardLeaf leaf : Routine ε Unit).Consists Instruction.Spares := by
  unfold discardLeaf
  split
  · exact consists_ite (consists_act trivial) trivial
  · trivial

theorem spares_discardSlot (space : AddressSpace) (slot : Nat) :
    (discardSlot space slot : Routine ε Unit).Consists Instruction.Spares := by
  refine consists_bind (consists_act trivial) fun upper => ?_
  split
  · trivial
  · refine consists_bind (consists_act trivial) fun machine => ?_
    generalize Table.entries machine.memory _ = leaves
    refine consists_bind (consists_forM spares_discardLeaf) fun _ => ?_
    exact consists_ite (consists_act trivial) trivial

/-- The loaded space is not destroyed. -/
theorem secures_destroySpace (space : AddressSpace) :
    (destroySpace paging space).Secures machine journal stale
      (fun _ machine' stale' => stale' = stale ∧ Steady machine machine' ∧
        space.directory ≠ machine.active)
      fun _ machine' stale' => stale' = stale ∧ Steady machine machine' := by
  refine secures_bind (secures_look fun journal => secures_bind (secures_refuseIf
    (fun _ => ⟨rfl, .refl _⟩) fun hallowed journal => ?_))
  -- How many slots there are is better kept out of sight.
  generalize (List.range entryCount).drop paging.layout.sharedSlots = slots
  have hrest : (slots.forM (discardSlot space) >>= fun _ =>
      discardFrame space.directory : Routine MemoryError Unit).Consists Instruction.Spares :=
    consists_bind (consists_forM (spares_discardSlot space)) fun _ => consists_act trivial
  exact hrest.secures.mono (fun _ _ _ hdone => ⟨hdone.1, hdone.2, fun h => hallowed (.inr h)⟩)
    fun _ _ _ h => h

/-! ### Loading a directory -/

/-- What survives the load of another directory is global, and so the same in every space. -/
theorem secures_load (h : Shared paging machine.memory spaces)
    (hglobal : GlobalsShared paging machine.memory spaces) (hactive : ⟨machine.active⟩ ∈ spaces)
    (hspace : space ∈ spaces) {done : Unit → Machine → Set PageNumber → Prop}
    {refused : ε → Machine → Set PageNumber → Prop}
    (hdone : ∀ machine', machine'.active = space.directory → done () machine' ∅) :
    (act (.load space.directory) : Routine ε Unit).Secures machine journal ∅ done refused := by
  refine secures_act rfl (fun cache hfresh pair hpair => .inr ?_) (hdone _ rfl)
  obtain ⟨hcached, hflag⟩ := hpair
  have hwalk : machine.memory.addressMap ⟨machine.active⟩ pair.1 = some pair.2 :=
    (hfresh pair hcached).resolve_left (Set.notMem_empty _)
  have hshared := hglobal _ hactive _ _ hwalk hflag
  show machine.memory.addressMap space pair.1 = some pair.2
  rw [h.addressMap_eq hspace hshared, ← h.addressMap_eq hactive hshared, hwalk]

end Routine

end KernelResources
