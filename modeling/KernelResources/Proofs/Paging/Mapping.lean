import KernelResources.Proofs.Ensures
import KernelResources.Proofs.Paging.Ledger
import KernelResources.Proofs.Paging.Translation

/-!
# Operations on address maps

What each operation does to the address maps of the live spaces. `Shows` relates memory to a view of
it: the maps, the directory entries of the kernel region, and the contents of frames that are no
tables. For each part of an operation there is one lemma which says how the view changes.

* `shows_tableFor`: a table that has to be allocated is empty, so the maps stay.
* `shows_enter`, `shows_remap`, `shows_unmap`: an entry that is written changes one page.
* `KeepsMemory`: giving frames back changes no memory, and so no map.
* `shows_createSpace`: a new space shows the kernel region.
* `addressMap_of_create`, `map_of_create`: the kernel space maps its region to itself at first.
-/

namespace KernelResources

namespace Paging

open Machine

variable {ε : Type} {paging : Paging} {machine : Machine} {spaces : List AddressSpace}
  {others kept : List Nat} {space : AddressSpace} {address physical : Nat} {flags : Flags}
  {view : View}

/-- Why a request about a page of a space may be refused. -/
def Refusal (paging : Paging) (maps : AddressMaps) (space : AddressSpace) (page : PageNumber) :
    MemoryError → Prop
  | .invalidOperation => page.directorySlot ∉ paging.ownSlots space
  | .alreadyMapped => maps space page ≠ none
  | .notMapped => maps space page = none
  | .outOfMemory => True
  | .corruptionDetected => False

/-- Changes are refused exactly behind the slots that a space does not own. -/
theorem settles_checkOwner {done : Unit → Machine → Prop}
    {refused : MemoryError → Machine → Prop}
    (hrefused : (PageNumber.ofAddress address).directorySlot ∉ paging.ownSlots space →
      refused .invalidOperation machine)
    (hdone : (PageNumber.ofAddress address).directorySlot ∈ paging.ownSlots space →
      done () machine) :
    (paging.refuseShared space address).Settles machine done refused := by
  have hslot := slotInDirectory_lt address
  have hiff : space.directory ≠ paging.kernel.directory ∧ paging.inKernelRegion address ↔
      slotInDirectory address ∉ paging.ownSlots space := by
    simp only [mem_ownSlots, ← directory_inj, inKernelRegion, decide_eq_true_eq]
    omega
  rw [PageNumber.directorySlot_ofAddress] at hrefused hdone
  exact Action.settles_refuseIf (fun h => hrefused (hiff.mp h)) fun h =>
    hdone (not_not.mp (mt hiff.mpr h))

/-- A frame that is taken and zeroed was no table. -/
theorem Shows.takingZeroed {frame : Nat}
    (hshows : Shows paging machine.memory spaces others view)
    (h : Accounted paging machine spaces others) (hlends : Lends paging machine.memory spaces)
    (hfree : machine.frames.lowestFree 0 = some frame) :
    Shows paging (machine.takingZeroed frame).memory spaces others view := by
  have hsame {taken : Nat} (htaken : taken ∈ machine.frames.takenFrames) (slot : Nat)
      (hslot : slot < entryCount) :
      (machine.takingZeroed frame).memory.entry taken slot = machine.memory.entry taken slot := by
    rw [entry_takingZeroed hslot, if_neg]
    rintro rfl
    exact (h.takingZeroed hfree).1 htaken
  exact hshows.congr hlends
    (fun table htable => hsame (h.mem_taken_of_owned htable.mem_ownedFrames))
    fun other hother => hsame (h.mem_taken_of_other hother)

/-- An empty table that is added outside the kernel region changes no map. -/
theorem Shows.addingEmptyTable {table slot : Nat}
    (hshows : Shows paging machine.memory spaces others view)
    (h : Consistent paging machine spaces others) (hspace : space ∈ spaces)
    (hslot : slot < entryCount)
    (hnone : (machine.memory.entry space.directory slot).frame? = none)
    (hfree : machine.frames.lowestFree 0 = some table) :
    Shows paging ((machine.takingZeroed table).entering space.directory slot
      (.leadingTo (Frame.address table) Flags.table)).memory spaces others view := by
  have htaking := h.takingZeroed hfree
  have hlt := htaking.lt_of_taken (htaking.mem_taken_of_other List.mem_cons_self)
  have hne : space.directory ≠ table := by
    rintro rfl
    exact htaking.not_isTable_of_other List.mem_cons_self (isTable_directory hspace)
  have hseen := hshows.takingZeroed h.toAccounted h.toShared.lends hfree
  have hadded := hseen.addingTable htaking.toShared.lends htaking.nodup hspace hslot
    (fun hmem => h.not_isTable_of_other hmem (isTable_directory hspace))
    (by rw [entry_takingZeroed hslot, if_neg hne, hnone])
    (fun slot hslot => by rw [entry_takingZeroed hslot, if_pos rfl]) hne.symm
    (Entry.frame?_leadingTo hlt (by decide : Flags.table.has Flags.present = true))
  -- In the kernel region there are all tables already, so the new one is not in view.
  have hlate : ¬slot < paging.layout.sharedSlots := fun hlate => by
    have hsome := h.present _ hlate
    rw [← h.same space hspace _ hlate, hnone] at hsome
    cases hsome
  rw [← view.setUpper_self space slot]
  exact hadded.setUpper_congr fun hlt => absurd hlt hlate

/-- Asking for a table changes no map, whether or not one is allocated. -/
theorem shows_tableFor (h : Consistent paging machine spaces others)
    (hshows : Shows paging machine.memory spaces others view) (hspace : space ∈ spaces)
    (address : Nat) (create : Bool) :
    (tableFor space address create).Settles machine
      (fun _ machine' => Shows paging machine'.memory spaces others view)
      fun error machine' => Shows paging machine'.memory spaces others view ∧
        Refusal paging view.maps space (.ofAddress address) error ∧
        view.maps space (.ofAddress address) = none := by
  have hslot := slotInDirectory_lt address
  refine Action.settles_bind (settles_entry hslot ?_)
  cases hframe : (machine.memory.entry space.directory (slotInDirectory address)).frame? with
  | some table => exact Action.settles_pure hshows
  | none =>
    -- Without a table there is no page, so being refused one means that none is mapped.
    have hnone : view.maps space (.ofAddress address) = none := by
      rw [← hshows.maps space hspace]
      refine WordMemory.behind_of_none ?_
      rw [PageNumber.directorySlot_ofAddress, hframe]
    refine Action.settles_bind (Action.settles_refuseIf (fun _ => ⟨hshows, hnone, hnone⟩)
      fun _ => ?_)
    refine Action.settles_bind (settles_takeZeroed h.pool (fun table hfree => ?_)
      ⟨hshows, trivial, hnone⟩)
    exact Action.settles_bind (settles_setEntry hslot (Action.settles_pure
      (hshows.addingEmptyTable h hspace hslot hframe hfree)))

/-- What is behind the table that is returned is what the space shows. -/
theorem settles_tableFor_shown (h : Consistent paging machine spaces others)
    (hshows : Shows paging machine.memory spaces others view) (hspace : space ∈ spaces)
    (address : Nat) (create : Bool) :
    (tableFor space address create).Settles machine
      (fun table machine' => Consistent paging machine' spaces others ∧
        Shows paging machine'.memory spaces others view ∧
        (machine'.memory.entry space.directory (slotInDirectory address)).frame? = some table ∧
        view.maps space (.ofAddress address) =
          (machine'.memory.entry table (slotInTable address)).leaf?)
      fun error machine' => Shows paging machine'.memory spaces others view ∧
        Refusal paging view.maps space (.ofAddress address) error ∧
        view.maps space (.ofAddress address) = none := by
  refine ((settles_tableFor h hspace address create).and
    (shows_tableFor h hshows hspace address create).ensures).mono ?_ fun _ _ hrefused => hrefused.2
  rintro table machine' ⟨⟨hconsistent, htable⟩, hseen⟩
  refine ⟨hconsistent, hseen, htable, ?_⟩
  rw [← PageNumber.directorySlot_ofAddress] at htable
  rw [← hseen.maps space hspace, WordMemory.addressMap, WordMemory.behind_of_some htable,
    PageNumber.tableSlot_ofAddress]

/-- An entry that is made behind an own slot of a space shows on its page. -/
theorem Shows.entering {table : Nat} (hshows : Shows paging machine.memory spaces others view)
    (h : Consistent paging machine spaces others) (hspace : space ∈ spaces)
    (hslot : (PageNumber.ofAddress address).directorySlot ∈ paging.ownSlots space)
    (htable : (machine.memory.entry space.directory (slotInDirectory address)).frame? = some table)
    (new : Entry) :
    Shows paging (machine.entering table (slotInTable address) new).memory spaces others
      (view.setPage paging space (.ofAddress address) new.leaf?) := by
  rw [← PageNumber.directorySlot_ofAddress] at htable
  have hshown := hshows.settingLeaf h.toShared.lends h.nodup hspace hslot htable
    (fun hmem => h.not_isTable_of_other hmem
      (h.toShared.lends.isTable hspace (PageNumber.directorySlot_lt _) htable)) new
  rw [PageNumber.tableSlot_ofAddress] at hshown
  exact hshown

/-- Letting user mode through shows in the directory of the space alone. -/
theorem shows_openToUser {refused : ε → Machine → Prop}
    (h : Consistent paging machine spaces others)
    (hshows : Shows paging machine.memory spaces kept view) (hspace : space ∈ spaces)
    (hnot : space.directory ∉ kept) (address : Nat) (flags : Flags) :
    (openToUser space address flags : Action ε Machine Unit).Settles machine
      (fun _ machine' => Shows paging machine'.memory spaces kept
        (view.openSlot space (slotInDirectory address) flags)) refused := by
  have hslot := slotInDirectory_lt address
  have hupper (hlt : slotInDirectory address < paging.layout.sharedSlots) :=
    hshows.uppers space hspace (slotInDirectory address) hlt
  unfold openToUser View.openSlot
  by_cases huser : flags.has Flags.user = true
  · simp only [huser, if_true]
    refine Action.settles_bind (settles_entry hslot ?_)
    split
    case isTrue hopen =>
      -- User mode was let through before.
      have hsame := Entry.openedToUser_of_user hopen
      rw [← view.setUpper_self space (slotInDirectory address)] at hshows
      refine Action.settles_pure (hshows.setUpper_congr fun hlt => ?_)
      rw [← hupper hlt, hsame]
    case isFalse =>
      have hopened := hshows.openingToUser h.toShared.lends h.nodup hspace hslot hnot
      refine settles_setEntry hslot (hopened.setUpper_congr fun hlt => ?_)
      rw [hupper hlt]
  · simp only [huser]
    exact Action.settles_pure hshows

/-- A translation that is entered shows on its page. If it is refused, nothing shows. -/
theorem shows_enter
    (h : Consistent paging machine spaces
      ((Entry.leadingTo physical flags).ownedFrame?.toList ++ others))
    (hshows : Shows paging machine.memory spaces
      ((Entry.leadingTo physical flags).ownedFrame?.toList ++ others) view)
    (hspace : space ∈ spaces) (address : Nat) (hpresent : flags.has Flags.present = true) :
    (paging.enter space address physical flags).Settles machine
      (fun _ machine' =>
        (PageNumber.ofAddress address).directorySlot ∈ paging.ownSlots space ∧
        view.maps space (.ofAddress address) = none ∧
        Shows paging machine'.memory spaces
          ((Entry.leadingTo physical flags).ownedFrame?.toList ++ others)
          ((view.setPage paging space (.ofAddress address)
            (some (.leadingTo physical flags))).openSlot space (slotInDirectory address) flags))
      fun error machine' => Refusal paging view.maps space (.ofAddress address) error ∧
        Shows paging machine'.memory spaces
          ((Entry.leadingTo physical flags).ownedFrame?.toList ++ others) view := by
  have hleaf := slotInTable_lt address
  refine Action.settles_bind (settles_checkOwner (fun hnot => ⟨hnot, hshows⟩) fun hslot => ?_)
  refine Action.settles_bind ((settles_tableFor_shown h hshows hspace address true).mono ?_
    fun _ _ hrefused => ⟨hrefused.2.1, hrefused.1⟩)
  rintro table middle ⟨hmiddle, hseen, htable, hmap⟩
  refine Action.settles_bind (settles_entry hleaf (Action.settles_bind
    (Action.settles_refuseIf (fun hfound => ⟨?_, hseen⟩) fun habsent => ?_)))
  · show view.maps space (.ofAddress address) ≠ none
    rw [hmap, Entry.leaf?_of_present hfound]
    exact Option.some_ne_none _
  have hset := hmiddle.settingLeaf (.leadingTo physical flags) hspace
    (PageNumber.directorySlot_ofAddress address ▸ hslot) htable hleaf
  rw [Entry.ownedFrame?_of_frame?_eq_none (by rw [Entry.frame?, if_neg habsent])] at hset
  have hshown := hseen.entering hmiddle hspace hslot htable (.leadingTo physical flags)
  rw [Entry.leaf?_leadingTo hpresent] at hshown
  refine Action.settles_bind (settles_setEntry hleaf ?_)
  refine (shows_openToUser hset hshown hspace ?_ address flags).mono_done fun _ _ hopened =>
    ⟨hslot, hmap.trans (Entry.leaf?_of_not_present habsent), hopened⟩
  exact fun hmem => hmiddle.not_isTable_of_other hmem (isTable_directory hspace)

/-! ## Steps that leave memory alone -/

/-- Whatever the action does to the pool, memory stays as it is. -/
def KeepsMemory {α : Type} (memory : WordMemory) (action : Action ε Machine α) : Prop :=
  ∀ machine, machine.memory = memory →
    action.Ensures machine (fun _ machine' => machine'.memory = memory)
      fun _ machine' => machine'.memory = memory

section KeepsMemory

variable {α β : Type} {memory : WordMemory}

theorem keepsMemory_pure (value : α) : KeepsMemory memory (pure value : Action ε Machine α) :=
  fun _ h => Action.ensures_pure h

theorem keepsMemory_bind {first : Action ε Machine α} {next : α → Action ε Machine β}
    (h : KeepsMemory memory first) (hnext : ∀ value, KeepsMemory memory (next value)) :
    KeepsMemory memory (first >>= next) := fun machine hmachine =>
  (h machine hmachine).bind fun value middle hmiddle => hnext value middle hmiddle

theorem keepsMemory_onFrames (action : Action ε FramePool α) :
    KeepsMemory memory (onFrames action) := fun _ h =>
  Action.ensures_within (Action.ensures_of_forall (fun _ _ => h) fun _ _ => h)

theorem keepsMemory_forM {action : α → Action ε Machine PUnit} {items : List α}
    (h : ∀ item, KeepsMemory memory (action item)) : KeepsMemory memory (items.forM action) :=
  fun _ hmachine => Action.ensures_forM (fun machine : Machine => machine.memory = memory)
    (fun item _ machine hmachine => h item machine hmachine) hmachine

theorem keepsMemory_discardLeaf (leaf : Entry) :
    KeepsMemory memory (discardLeaf leaf : Action ε Machine Unit) := by
  unfold discardLeaf
  split
  · split
    · exact keepsMemory_onFrames _
    · exact keepsMemory_pure ()
  · exact keepsMemory_pure ()

theorem keepsMemory_retire (space : AddressSpace) (address : Nat) (previous : Entry) :
    KeepsMemory memory (paging.retire space address previous : Action ε Machine Unit) := by
  refine keepsMemory_bind (keepsMemory_discardLeaf previous) fun _ machine hmachine => ?_
  refine Action.ensures_get ?_
  split
  · exact Action.ensures_modify hmachine
  · exact Action.ensures_pure hmachine

theorem keepsMemory_entry (frame slot : Nat) :
    KeepsMemory memory (entry frame slot : Action ε Machine Entry) := by
  intro machine hmachine
  by_cases hslot : slot < entryCount
  · exact (settles_entry hslot hmachine).ensures
  · refine Action.ensures_within (Action.ensures_bind ?_)
    rw [Table.checkSlot, if_neg hslot]
    exact Action.ensures_halt

theorem keepsMemory_discardSlot (space : AddressSpace) (slot : Nat) :
    KeepsMemory memory (discardSlot space slot : Action ε Machine Unit) := by
  refine keepsMemory_bind (keepsMemory_entry _ _) fun upper => ?_
  split
  · exact keepsMemory_pure ()
  · intro machine hmachine
    refine Action.ensures_get ?_
    -- That there are 1024 leaves is better kept out of sight.
    generalize Table.entries machine.memory _ = leaves
    refine keepsMemory_bind (keepsMemory_forM keepsMemory_discardLeaf) (fun _ => ?_) machine
      hmachine
    split
    · exact keepsMemory_onFrames _
    · exact keepsMemory_pure ()

theorem keepsMemory_destroySpace (space : AddressSpace) :
    KeepsMemory memory (paging.destroySpace space) := by
  intro machine hmachine
  refine Action.ensures_get (Action.ensures_bind (Action.ensures_refuseIf (fun _ => hmachine)
    fun _ => ?_))
  exact keepsMemory_bind (keepsMemory_forM (keepsMemory_discardSlot space))
    (fun _ => keepsMemory_onFrames _) machine hmachine

end KeepsMemory

/-- Giving up a former translation leaves memory as it is. -/
theorem memory_retire {refused : ε → Machine → Prop} {previous : Entry}
    (h : Consistent paging machine spaces (previous.ownedFrame?.toList ++ others)) :
    (paging.retire space address previous : Action ε Machine Unit).Settles machine
      (fun _ machine' => machine'.memory = machine.memory) refused :=
  ((settles_retire h).also ((keepsMemory_retire space address previous machine rfl).mono
    (fun _ _ hmemory => hmemory) fun _ _ _ => trivial)).mono_done fun _ _ hdone => hdone.2

/-! ## Mapping and unmapping -/

theorem present_borrowed (flags : Flags) : (borrowed flags).has Flags.present = true := by
  rw [Flags.has_present]
  simp [borrowed, Flags.owned, Flags.present]

/-- A page that is mapped had no translation before. -/
theorem shows_map (h : Consistent paging machine spaces others)
    (hshows : Shows paging machine.memory spaces others view) (hspace : space ∈ spaces) :
    (paging.map space address physical flags).Settles machine
      (fun _ machine' =>
        (PageNumber.ofAddress address).directorySlot ∈ paging.ownSlots space ∧
        view.maps space (.ofAddress address) = none ∧
        Shows paging machine'.memory spaces others
          ((view.setPage paging space (.ofAddress address)
            (some (.leadingTo physical (borrowed flags)))).openSlot space
              (slotInDirectory address) (borrowed flags)))
      fun error machine' => Refusal paging view.maps space (.ofAddress address) error ∧
        Shows paging machine'.memory spaces others view := by
  have henter := shows_enter (h.lending physical flags)
    (by rw [ownedFrame?_borrowed]; exact hshows) hspace address (present_borrowed flags)
  rw [ownedFrame?_borrowed] at henter
  exact henter

/-- Remapping a page returns where it led before. -/
theorem shows_remap (h : Consistent paging machine spaces others)
    (hshows : Shows paging machine.memory spaces others view) (hspace : space ∈ spaces) :
    (paging.remap space address physical flags).Settles machine
      (fun previous machine' =>
        (PageNumber.ofAddress address).directorySlot ∈ paging.ownSlots space ∧
        previous = (view.maps space (.ofAddress address)).map Entry.address ∧
        Shows paging machine'.memory spaces others
          ((view.setPage paging space (.ofAddress address)
            (some (.leadingTo physical (borrowed flags)))).openSlot space
              (slotInDirectory address) (borrowed flags)))
      fun error machine' => Refusal paging view.maps space (.ofAddress address) error ∧
        Shows paging machine'.memory spaces others view := by
  have hleaf := slotInTable_lt address
  refine Action.settles_bind (settles_checkOwner (fun hnot => ⟨hnot, hshows⟩) fun hslot => ?_)
  have hown := PageNumber.directorySlot_ofAddress address ▸ hslot
  refine Action.settles_bind ((settles_tableFor_shown h hshows hspace address true).mono ?_
    fun _ _ hrefused => ⟨hrefused.2.1, hrefused.1⟩)
  rintro table middle ⟨hmiddle, hseen, htable, hmap⟩
  refine Action.settles_bind (settles_entry hleaf (Action.settles_bind (settles_setEntry hleaf ?_)))
  -- The frame behind the former entry belongs to no table until it is retired, at the end.
  have hset := (hmiddle.lending physical flags).settingLeaf _ hspace hown htable hleaf
  have hshown := hseen.entering hmiddle hspace hslot htable
    (.leadingTo physical (borrowed flags))
  rw [Entry.leaf?_leadingTo (present_borrowed flags)] at hshown
  have hnot : space.directory ∉ others := fun hmem =>
    hmiddle.not_isTable_of_other hmem (isTable_directory hspace)
  refine ((settles_openToUser hset hspace hown (borrowed flags)).also
    (shows_openToUser hset hshown hspace hnot address (borrowed flags)).ensures).bind ?_
  rintro - opened ⟨hopened, hview⟩
  split
  case isTrue hfound =>
    refine (memory_retire hopened).bind fun _ retired hmemory => ?_
    refine Action.settles_pure ⟨hslot, ?_, hmemory ▸ hview⟩
    rw [hmap, Entry.leaf?_of_present hfound]
    rfl
  case isFalse habsent =>
    refine Action.settles_pure ⟨hslot, ?_, hview⟩
    rw [hmap, Entry.leaf?_of_not_present habsent]
    rfl

/-- A page that is unmapped has no translation any more. -/
theorem shows_unmap {refused : ε → Machine → Prop} (h : Consistent paging machine spaces others)
    (hshows : Shows paging machine.memory spaces others view) (hspace : space ∈ spaces) :
    (paging.unmap space address : Action ε Machine (Option Nat)).Settles machine
      (fun found machine' =>
        (found = none ∧ Shows paging machine'.memory spaces others view ∧
          ((PageNumber.ofAddress address).directorySlot ∈ paging.ownSlots space →
            view.maps space (.ofAddress address) = none)) ∨
        ∃ leaf, (PageNumber.ofAddress address).directorySlot ∈ paging.ownSlots space ∧
          view.maps space (.ofAddress address) = some leaf ∧ found = some leaf.frame.toNat ∧
          Shows paging machine'.memory spaces others
            (view.setPage paging space (.ofAddress address) none)) refused := by
  have hleaf := slotInTable_lt address
  refine Action.settles_bind (Action.settles_attempt (settles_checkOwner (fun hnot => ?_)
    fun hslot => ?_))
  -- A page that may not be unmapped is reported, and counts as one that was not mapped.
  · exact Action.settles_bind (Action.settles_note rfl (Action.settles_pure
      (.inl ⟨rfl, hshows, fun hslot => absurd hslot hnot⟩)))
  refine Action.settles_bind (Action.settles_attempt
    ((settles_tableFor_shown h hshows hspace address false).mono ?_ ?_))
  · rintro table middle ⟨hmiddle, hseen, htable, hmap⟩
    refine Action.settles_bind (settles_entry hleaf ?_)
    by_cases hfound : (middle.memory.entry table (slotInTable address)).isPresent = true
    · simp only [Entry.frame?, hfound, if_true]
      have hset := Consistent.settingLeaf .unused hmiddle hspace
        (PageNumber.directorySlot_ofAddress address ▸ hslot) htable hleaf
      have hshown := hseen.entering hmiddle hspace hslot htable .unused
      refine Action.settles_bind (settles_setEntry hleaf ?_)
      refine (memory_retire hset).bind fun _ retired hmemory => Action.settles_pure (.inr ?_)
      exact ⟨_, hslot, hmap.trans (Entry.leaf?_of_present hfound), rfl, hmemory ▸ hshown⟩
    · simp only [Entry.frame?, hfound]
      exact Action.settles_pure
        (.inl ⟨rfl, hseen, fun _ => hmap.trans (Entry.leaf?_of_not_present hfound)⟩)
  · rintro error middle ⟨hseen, -, hnone⟩
    exact Action.settles_pure (.inl ⟨rfl, hseen, fun _ => hnone⟩)

/-- The flags of a page that is backed with a frame of its own. -/
def fresh (flags : Flags) : Flags := flags ||| Flags.present ||| Flags.owned

/-- A page that is backed with a frame of its own reads as zeros at first. -/
theorem shows_mapFresh (h : Consistent paging machine spaces others)
    (hshows : Shows paging machine.memory spaces others view) (hspace : space ∈ spaces) :
    (paging.mapFresh space address flags).Settles machine
      (fun frame machine' =>
        (PageNumber.ofAddress address).directorySlot ∈ paging.ownSlots space ∧
        view.maps space (.ofAddress address) = none ∧ frame < bitRange 20 ∧
        (∀ slot < entryCount, machine'.memory.entry frame slot = Entry.unused) ∧
        Shows paging machine'.memory spaces others
          ((view.setPage paging space (.ofAddress address)
            (some (.leadingTo (Frame.address frame) (fresh flags)))).openSlot space
              (slotInDirectory address) (fresh flags)))
      fun error machine' => Refusal paging view.maps space (.ofAddress address) error ∧
        Shows paging machine'.memory spaces others view := by
  refine Action.settles_bind (settles_takeZeroed h.pool (fun frame hfree => ?_) ⟨trivial, hshows⟩)
  have htaking := h.takingZeroed hfree
  have hlt := htaking.lt_of_taken (htaking.mem_taken_of_other List.mem_cons_self)
  have howned : (Entry.leadingTo (Frame.address frame) (fresh flags)).ownedFrame? = some frame :=
    Entry.ownedFrame?_leadingTo_of_owned hlt (present_fresh flags) (owned_fresh flags)
  have hlist : (Entry.leadingTo (Frame.address frame) (fresh flags)).ownedFrame?.toList ++ others =
      frame :: others := by
    rw [howned]
    rfl
  have hgiven := htaking
  rw [← hlist] at hgiven
  -- The frame is in view from now on, with nothing but zeros in it.
  have hzero (slot : Nat) (hslot : slot < entryCount) :
      (machine.takingZeroed frame).memory.entry frame slot = Entry.unused :=
    (entry_takingZeroed hslot).trans (if_pos rfl)
  have htaken := hshows.takingZeroed h.toAccounted h.toShared.lends hfree
  have hkept {memory : WordMemory} {view' : View}
      (hseen : Shows paging memory spaces (frame :: others)
        (view'.withContents (machine.takingZeroed frame).memory.entry)) :
      ∀ other ∈ others, ∀ slot < entryCount, memory.entry other slot = view.contents other slot :=
    fun other hother slot hslot =>
      (hseen.contents other (List.mem_cons_of_mem _ hother) slot hslot).trans
        (htaken.contents other hother slot hslot)
  have henter := (settles_enter address _ _ hgiven hspace).and
    (shows_enter hgiven (htaken.withContents fun _ _ _ _ => rfl) hspace address
      (present_fresh flags)).ensures
  simp only [View.setPage_withContents, View.openSlot_withContents, hlist] at henter
  refine Action.settles_bind (Action.settles_attempt (henter.mono ?_ ?_))
  · rintro - entered ⟨-, hslot, hnone, hseen⟩
    refine Action.settles_pure ⟨hslot, hnone, hlt, fun slot hslot => ?_, hseen.maps,
      hseen.uppers, ?_⟩
    · exact (hseen.contents frame List.mem_cons_self slot hslot).trans (hzero slot hslot)
    · rw [View.contents_openSlot]
      exact hkept hseen
  -- The frame goes back to the pool, and with it goes what was in view of it.
  · rintro error refused ⟨hrefused, hrefusal, hseen⟩
    exact Action.settles_bind (settles_discardFrame hrefused.pool
      (hrefused.mem_taken_of_other List.mem_cons_self) (Action.settles_throw
        ⟨hrefusal, hseen.withContents (hkept hseen)⟩))

/-! ## Building a space -/

/-- Copying directory slots changes no other frame. -/
theorem memory_copySlots {refused : ε → Machine → Prop} {source target : Nat} {slots : List Nat}
    (hslots : ∀ slot ∈ slots, slot < entryCount) :
    (slots.forM (copySlot source target) : Action ε Machine PUnit).Settles machine
      (fun _ machine' => ∀ frame ≠ target, ∀ slot < entryCount,
        machine'.memory.entry frame slot = machine.memory.entry frame slot) refused := by
  refine Action.settles_forM (fun _ (middle : Machine) => ∀ frame ≠ target, ∀ slot < entryCount,
    middle.memory.entry frame slot = machine.memory.entry frame slot) ?_ fun _ _ _ _ => rfl
  rintro behind slot rest middle hitems hmiddle
  have hslot := hslots slot (hitems ▸ List.mem_append_right _ List.mem_cons_self)
  refine Action.settles_bind (settles_entry hslot (settles_setEntry hslot ?_))
  intro frame hframe slot' hslot'
  rw [Machine.entering, WordMemory.entry_setEntry _ _ hslot hslot', if_neg fun h => hframe h.1]
  exact hmiddle frame hframe slot' hslot'

/-- A directory with copies of the kernel's entries shows what the kernel space shows in the kernel
region. -/
theorem Shows.addingSpace {memory : WordMemory} {new : AddressSpace}
    (hshows : Shows paging memory spaces others view) (hnew : new ∉ spaces)
    (hkernel : paging.kernel ∈ spaces) (hle : paging.layout.sharedSlots ≤ entryCount)
    (hcopied : ∀ slot < entryCount, memory.entry new.directory slot =
      if slot ∈ List.range paging.layout.sharedSlots then
        memory.entry paging.kernel.directory slot else Entry.unused) :
    Shows paging memory (new :: spaces) others (view.addSpace paging new) := by
  have hold {space : AddressSpace} (hspace : space ∈ spaces) : space ≠ new := by
    rintro rfl
    exact hnew hspace
  refine ⟨?_, ?_, hshows.contents⟩
  · intro space hspace
    rcases List.mem_cons.mp hspace with rfl | hspace
    · funext page
      simp only [View.addSpace, AddressMaps.addSpace, AddressMap.sharedPart, if_true]
      rw [WordMemory.addressMap, hcopied _ page.directorySlot_lt,
        ← hshows.maps paging.kernel hkernel]
      -- Equal entries lead to the same leaves, and unused ones to none.
      by_cases hshared : page.IsShared paging.layout
      · rw [if_pos (List.mem_range.mpr hshared), if_pos hshared]
        rfl
      · rw [if_neg fun hmem => hshared (List.mem_range.mp hmem), if_neg hshared]
        rfl
    · exact (hshows.maps space hspace).trans (if_neg (hold hspace)).symm
  · intro space hspace slot hslot
    rcases List.mem_cons.mp hspace with rfl | hspace
    · rw [hcopied slot (Nat.lt_of_lt_of_le hslot hle), if_pos (List.mem_range.mpr hslot),
        hshows.uppers paging.kernel hkernel slot hslot]
      simp [View.addSpace]
    · rw [hshows.uppers space hspace slot hslot]
      simp [View.addSpace, hold hspace]

/-- A new space shows what the kernel space shows in the kernel region. -/
theorem shows_createSpace (h : Consistent paging machine spaces others)
    (hshows : Shows paging machine.memory spaces others view) :
    paging.createSpace.Settles machine
      (fun new machine' => new ∉ spaces ∧
        Shows paging machine'.memory (new :: spaces) others (view.addSpace paging new))
      fun error machine' => error = .outOfMemory ∧
        Shows paging machine'.memory spaces others view := by
  refine Action.settles_bind (settles_takeZeroed h.pool (fun directory hfree => ?_) ⟨rfl, hshows⟩)
  have htaking := h.takingZeroed hfree
  have hempty (slot : Nat) (hslot : slot < entryCount) :
      (machine.takingZeroed directory).memory.entry directory slot = Entry.unused := by
    rw [entry_takingZeroed hslot, if_pos rfl]
  refine ((settles_copySlots htaking hempty).also (memory_copySlots fun slot hslot =>
    Nat.lt_of_lt_of_le (List.mem_range.mp hslot) h.slots_le).ensures).bind ?_
  rintro - middle ⟨⟨hmiddle, hcopied⟩, helsewhere⟩
  -- The new directory is no table and none of the other frames, so nobody has noticed so far.
  have hnew : (⟨directory⟩ : AddressSpace) ∉ spaces := fun hmem =>
    hmiddle.not_isTable_of_other List.mem_cons_self (isTable_directory hmem)
  have hseen : Shows paging middle.memory spaces others view := by
    refine (hshows.takingZeroed h.toAccounted h.toShared.lends hfree).congr htaking.toShared.lends
      (fun table htable => helsewhere table ?_) fun other hother => helsewhere other ?_
    · rintro rfl
      exact htaking.not_isTable_of_other List.mem_cons_self htable
    · rintro rfl
      exact (List.nodup_cons.mp htaking.nodup_all).1 (List.mem_append_left _ hother)
  exact Action.settles_pure ⟨hnew, hseen.addingSpace hnew h.kernel_mem h.slots_le hcopied⟩

/-! ## Building the kernel space -/

section Building

variable (h : Building paging machine others) (hle : paging.layout.sharedSlots ≤ entryCount)
include h hle

/-- An empty table that is added to the kernel space changes nothing of its map. -/
theorem Building.map_addSharedTable {slot : Nat} (hslot : slot < entryCount)
    (hempty : (machine.memory.entry paging.kernel.directory slot).frame? = none) :
    (addSharedTable paging.kernel.directory slot).Settles machine
      (fun _ machine' => machine'.memory.addressMap paging.kernel =
        machine.memory.addressMap paging.kernel)
      fun _ _ => True := by
  refine Action.settles_bind (settles_takeZeroed h.pool (fun table hfree => ?_) trivial)
  obtain ⟨hnot, htaking⟩ := h.toAccounted.takingZeroed hfree
  have hlt := htaking.lt_of_taken (htaking.mem_taken_of_other List.mem_cons_self)
  have hdirectory : paging.kernel.directory ∈ paging.ownedFrames machine.memory [paging.kernel] :=
    mem_ownedFrames_of_space List.mem_cons_self mem_spaceFrames_directory
  have hne : paging.kernel.directory ≠ table := by
    rintro rfl
    exact hnot (h.mem_taken_of_owned hdirectory)
  have hseen := (shows_viewOf machine.memory).takingZeroed h.toAccounted (lends_kernel hle) hfree
  have hadded := hseen.addingTable (lends_kernel hle) htaking.nodup List.mem_cons_self hslot
    (fun hmem => (List.nodup_append.mp h.nodup_all).2.2 _ hmem _ hdirectory rfl)
    (by rw [entry_takingZeroed hslot, if_neg hne, hempty])
    (fun slot hslot => by rw [entry_takingZeroed hslot, if_pos rfl]) hne.symm
    (Entry.frame?_leadingTo hlt (by decide : Flags.table.has Flags.present = true))
  exact settles_setEntry hslot (hadded.maps paging.kernel List.mem_cons_self)

/-- After the tables of the kernel region were added, the kernel space maps nothing. -/
theorem Building.map_addSharedTables {count : Nat} (hcount : count ≤ entryCount)
    (hempty : ∀ slot < entryCount,
      (machine.memory.entry paging.kernel.directory slot).frame? = none) :
    ((List.range count).forM (addSharedTable paging.kernel.directory)).Settles machine
      (fun _ machine' => Building paging machine' others ∧
        machine'.memory.addressMap paging.kernel = fun _ => none)
      fun _ _ => True := by
  -- That the map is still empty needs to know which slots have been filled: only in a free one
  -- does a table go unnoticed.
  refine ((Action.settles_forM (fun behind middle => (Building paging middle others ∧
    ∀ slot < entryCount, (middle.memory.entry paging.kernel.directory slot).frame?.isSome =
      decide (slot ∈ behind)) ∧ middle.memory.addressMap paging.kernel = fun _ => none) ?_ ?_)).mono
    (fun _ _ hdone => ⟨hdone.1.1, hdone.2⟩) fun _ _ hrefused => hrefused
  · rintro behind slot rest middle hitems ⟨⟨hmiddle, hpresent⟩, hmap⟩
    obtain ⟨hlt, hbehind⟩ := lt_and_not_mem_of_range hitems
    have hslot := Nat.lt_of_lt_of_le hlt hcount
    have hnone : (middle.memory.entry paging.kernel.directory slot).frame? = none := by
      have hsome := hpresent slot hslot
      rw [decide_eq_false hbehind] at hsome
      simpa using hsome
    refine ((hmiddle.settles_addSharedTable hslot hnone).and
      (hmiddle.map_addSharedTable hle hslot hnone).ensures).mono ?_ fun _ _ _ => trivial
    rintro - next ⟨⟨hnext, hadded⟩, hsame⟩
    refine ⟨⟨hnext, fun other hother => ?_⟩, hsame.trans hmap⟩
    rw [hadded other hother, hpresent other hother]
    simp [or_comm]
  · refine ⟨⟨h, fun slot hslot => by simp [hempty slot hslot]⟩, ?_⟩
    funext page
    exact WordMemory.behind_of_none (hempty _ page.directorySlot_lt)

/-- A page that is mapped to itself shows on the map of the kernel space. -/
theorem Building.map_mapIdentity (address : Nat) :
    (mapIdentity paging.kernel address).Settles machine
      (fun _ machine' => machine'.memory.addressMap paging.kernel = fun page =>
        if page = .ofAddress address then some ⟨page, Flags.kernelPage⟩
        else machine.memory.addressMap paging.kernel page)
      fun _ _ => True := by
  have hleaf := slotInTable_lt address
  refine Action.settles_bind ((settles_tableFor_existing paging.kernel address).mono ?_
    fun _ _ _ => trivial)
  rintro table middle ⟨rfl, htable⟩
  rw [← PageNumber.directorySlot_ofAddress] at htable
  have hslot := PageNumber.directorySlot_lt (.ofAddress address)
  have hstart : Shows paging middle.memory [paging.kernel] [] (viewOf middle.memory) :=
    shows_viewOf _
  have hseen := (hstart.settingLeaf (lends_kernel hle) h.nodup List.mem_cons_self
    (mem_ownSlots_kernel hslot) htable List.not_mem_nil
    (.leadingTo address Flags.kernelPage)).maps paging.kernel List.mem_cons_self
  rw [PageNumber.tableSlot_ofAddress, Entry.leaf?_leadingTo (by decide)] at hseen
  refine settles_setEntry hleaf (hseen.trans ?_)
  funext page
  simp only [View.setPage, AddressMaps.set, Reaches, true_or, and_true]
  refine ite_congr rfl (fun heq => ?_) fun _ => rfl
  rw [heq]
  rfl

/-- Pages that are mapped to themselves show on the map of the kernel space. -/
theorem Building.map_mapIdentities (addresses : List Nat)
    (hempty : machine.memory.addressMap paging.kernel = fun _ => none) :
    (addresses.forM (mapIdentity paging.kernel)).Settles machine
      (fun _ machine' => machine'.memory.addressMap paging.kernel = fun page =>
        if page ∈ addresses.map PageNumber.ofAddress then some ⟨page, Flags.kernelPage⟩ else none)
      fun _ _ => True := by
  refine (Action.settles_forM (fun behind middle => Building paging middle others ∧
    middle.memory.addressMap paging.kernel = fun page =>
      if page ∈ behind.map PageNumber.ofAddress then some ⟨page, Flags.kernelPage⟩ else none)
    ?_ ⟨h, by simpa using hempty⟩).mono (fun _ _ hdone => hdone.2) fun _ _ hrefused => hrefused
  rintro behind address rest middle - ⟨hmiddle, hmap⟩
  refine ((hmiddle.settles_mapIdentity address).and
    (hmiddle.map_mapIdentity hle address).ensures).mono ?_ fun _ _ _ => trivial
  rintro - next ⟨⟨hnext, -⟩, hseen⟩
  refine ⟨hnext, hseen.trans ?_⟩
  funext page
  rw [hmap]
  by_cases hpage : page = .ofAddress address <;> simp [hpage]

end Building

/-- The steps go through the addresses of the range that lie as far into their page as its start. -/
theorem mem_identityAddresses {layout : Layout} :
    address ∈ identityAddresses layout ↔ layout.kernelStart ≤ address ∧
      address < layout.heapLimit ∧ address % pageSize = layout.kernelStart % pageSize := by
  simp only [identityAddresses, List.mem_map, List.mem_range, ceilDiv, pageSize]
  constructor
  · rintro ⟨index, hindex, rfl⟩
    omega
  · rintro ⟨hstart, hlimit, hmod⟩
    exact ⟨(address - layout.kernelStart) / 4096, by omega, by omega⟩

/-- The pages from the kernel image to the end of the heap are those that are mapped to
themselves, if the kernel image begins with a page. -/
theorem mem_identityPages {layout : Layout} (halign : layout.kernelStart % pageSize = 0)
    (hlimit : layout.heapLimit < bitRange 32) (page : PageNumber) :
    page ∈ (identityAddresses layout).map PageNumber.ofAddress ↔
      layout.kernelStart ≤ page.address ∧ page.address < layout.heapLimit := by
  simp only [List.mem_map, mem_identityAddresses, halign]
  constructor
  · rintro ⟨address, ⟨hstart, hend, hmod⟩, rfl⟩
    have hsame : (PageNumber.ofAddress address).address = address := by
      simp only [PageNumber.ofAddress, PageNumber.address, BitVec.toNat_ofNat, pageSize,
        bitRange_32] at *
      omega
    rw [hsame]
    exact ⟨hstart, hend⟩
  · rintro ⟨hstart, hend⟩
    refine ⟨page.address, ⟨hstart, hend, Nat.mul_mod_left _ _⟩, ?_⟩
    rw [PageNumber.ofAddress, PageNumber.address, Nat.mul_div_cancel _ (by decide),
      BitVec.ofNat_toNat, BitVec.setWidth_eq]

/-- At first the kernel space maps the pages that were stepped on to themselves, and nothing
else. -/
theorem addressMap_of_create {layout : Layout} {machine' : Machine} {journal journal' : Journal}
    (hpool : machine.frames.Consistent) (htotal : machine.frames.total ≤ bitRange 20)
    (h : create layout machine journal = .done paging machine' journal') :
    machine'.memory.addressMap paging.kernel = fun page =>
      if page ∈ (identityAddresses layout).map PageNumber.ofAddress then
        some ⟨page, Flags.kernelPage⟩
      else none := by
  have hlimit := heapLimit_lt_of_create h
  have hle := sharedSlots_le hlimit
  have hcreate : (create layout).Settles machine (fun paging machine' =>
      machine'.memory.addressMap paging.kernel = fun page =>
        if page ∈ (identityAddresses layout).map PageNumber.ofAddress then
          some ⟨page, Flags.kernelPage⟩
        else none) fun _ _ => True := by
    refine Action.settles_bind (settles_takeZeroed hpool (fun directory hfree => ?_) trivial)
    rw [Layout.heapEnd_eq_pure hlimit, pure_bind]
    obtain ⟨hstart, hempty⟩ : Building { layout, kernel := ⟨directory⟩ } _ _ ∧ _ :=
      building_takingZeroed hpool htotal hfree
    refine (hstart.map_addSharedTables hle hle hempty).bind ?_
    rintro - tables ⟨htables, hnone⟩
    exact (htables.map_mapIdentities hle _ hnone).bind fun _ pages hpages =>
      Action.settles_bind (Action.settles_modify (Action.settles_bind
        (Action.settles_note rfl (Action.settles_pure hpages))))
  exact hcreate.of_done h

/-- At first the kernel space maps the range from the kernel image to the end of the heap to
itself, and nothing else, if the range begins with a whole page. -/
theorem map_of_create {layout : Layout} {machine' : Machine} {journal journal' : Journal}
    (hpool : machine.frames.Consistent) (htotal : machine.frames.total ≤ bitRange 20)
    (halign : layout.kernelStart % pageSize = 0)
    (h : create layout machine journal = .done paging machine' journal') :
    machine'.memory.addressMap paging.kernel = AddressMap.identity layout := by
  rw [addressMap_of_create hpool htotal h]
  funext page
  simp only [mem_identityPages halign (heapLimit_lt_of_create h)]
  rfl

end Paging

end KernelResources
