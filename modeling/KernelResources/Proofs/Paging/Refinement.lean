import KernelResources.Proofs.Paging.Mapping

/-!
# Address spaces as address maps

The tables of all live spaces together implement one abstract state, a partial map from pages to
frames and flags for each space. Every operation acts on the maps as its name says: it changes one
page of one space, or one page of all spaces where the kernel region is concerned, and otherwise
nothing.

* `Paging.Refines` lists what each operation does to the maps.
* `ensures_shown`: whatever is requested, the live spaces look as before, except for the page that
  the request is about.
* `refines_of_reachable`: the operations act on the maps in this way after any run.
-/

namespace KernelResources

theorem Flags.has_user (flags : Flags) : flags.has user = flags.getLsbD 2 :=
  has_twoPow (by decide)

namespace WordMemory

/-- A frame that holds nothing but unused entries reads as zeros. -/
theorem wordAt_eq_zero {memory : WordMemory} {frame address : Nat}
    (hzero : ∀ slot < entryCount, memory.entry frame slot = Entry.unused)
    (haddress : Frame.containing address = frame) : memory.wordAt address = 0 := by
  have hslot : address / wordSize % entryCount < entryCount := Nat.mod_lt _ (by decide)
  have hindex : slotIndex frame (address / wordSize % entryCount) = address / wordSize := by
    simp only [← haddress, slotIndex, Frame.containing, Frame.size, wordSize, entryCount]
    omega
  have hword := congrArg Entry.toWord (hzero _ hslot)
  rw [entry, Entry.toWord_ofWord, hindex] at hword
  rw [wordAt, hword]
  rfl

end WordMemory

namespace Paging

open Machine

/-- The operations act on the maps of the live spaces. -/
structure Refines (paging : Paging) (machine : Machine) (spaces : List AddressSpace)
    (maps : AddressMaps) : Prop where
  /-- An address is translated by looking its page up. -/
  translate : ∀ space ∈ spaces, ∀ address journal,
    Paging.translate space address machine journal =
      match (maps space).translate? address with
      | some found => .done found machine journal
      | none => .refused .notMapped machine journal
  /-- All spaces have the kernel region in common. -/
  shared : ∀ space ∈ spaces, ∀ page : PageNumber, page.IsShared paging.layout →
    maps space page = maps paging.kernel page
  /-- A new space has the kernel region and nothing else. -/
  createSpace : paging.createSpace.Settles machine
    (fun new machine' => new ∉ spaces ∧
      Realizes machine'.memory (new :: spaces) (maps.addSpace paging new))
    fun error machine' => error = .outOfMemory ∧ Realizes machine'.memory spaces maps
  /-- What the others translate to survives a space. -/
  destroySpace : ∀ space ∈ spaces, (paging.destroySpace space).Settles machine
    (fun _ machine' => Realizes machine'.memory spaces maps)
    fun _ machine' => Realizes machine'.memory spaces maps
  /-- Mapping adds one page that was not there. -/
  map : ∀ space ∈ spaces, ∀ address physical flags,
    (paging.map space address physical flags).Settles machine
      (fun _ machine' =>
        (PageNumber.ofAddress address).directorySlot ∈ paging.ownSlots space ∧
        maps space (.ofAddress address) = none ∧
        Realizes machine'.memory spaces (maps.set paging space (.ofAddress address)
          (some (.leadingTo physical (borrowed flags)))))
      fun error machine' => Refusal paging maps space (.ofAddress address) error ∧
        Realizes machine'.memory spaces maps
  /-- Remapping replaces one page, or adds it, and returns where it led before. -/
  remap : ∀ space ∈ spaces, ∀ address physical flags,
    (paging.remap space address physical flags).Settles machine
      (fun previous machine' =>
        (PageNumber.ofAddress address).directorySlot ∈ paging.ownSlots space ∧
        previous = (maps space (.ofAddress address)).map Entry.address ∧
        Realizes machine'.memory spaces (maps.set paging space (.ofAddress address)
          (some (.leadingTo physical (borrowed flags)))))
      fun error machine' => Refusal paging maps space (.ofAddress address) error ∧
        Realizes machine'.memory spaces maps
  /-- Backing a page adds one page that was not there and that reads as zeros. -/
  mapFresh : ∀ space ∈ spaces, ∀ address flags,
    (paging.mapFresh space address flags).Settles machine
      (fun frame machine' =>
        (PageNumber.ofAddress address).directorySlot ∈ paging.ownSlots space ∧
        maps space (.ofAddress address) = none ∧ frame < bitRange 20 ∧
        (∀ physical, Frame.containing physical = frame → machine'.memory.wordAt physical = 0) ∧
        Realizes machine'.memory spaces (maps.set paging space (.ofAddress address)
          (some (.leadingTo (Frame.address frame) (fresh flags)))))
      fun error machine' => Refusal paging maps space (.ofAddress address) error ∧
        Realizes machine'.memory spaces maps
  /-- Unmapping removes one page and returns the frame it led to. -/
  unmap : ∀ (ε : Type), ∀ space ∈ spaces, ∀ address,
    (paging.unmap space address : Action ε Machine (Option Nat)).Settles machine
      (fun found machine' =>
        (found = none ∧ Realizes machine'.memory spaces maps ∧
          ((PageNumber.ofAddress address).directorySlot ∈ paging.ownSlots space →
            maps space (.ofAddress address) = none)) ∨
        ∃ leaf, (PageNumber.ofAddress address).directorySlot ∈ paging.ownSlots space ∧
          maps space (.ofAddress address) = some leaf ∧ found = some leaf.frame.toNat ∧
          Realizes machine'.memory spaces (maps.set paging space (.ofAddress address) none))
      fun _ _ => False
  /-- Asking for a table changes nothing. -/
  tableFor : ∀ space ∈ spaces, ∀ address create,
    (Paging.tableFor space address create).Settles machine
      (fun _ machine' => Realizes machine'.memory spaces maps)
      fun error machine' => Refusal paging maps space (.ofAddress address) error ∧
        Realizes machine'.memory spaces maps

variable {paging : Paging} {machine : Machine} {spaces : List AddressSpace} {others : List Nat}
  {space other : AddressSpace} {page : PageNumber} {ledger ledger' : Ledger} {request : Request}

/-- All spaces have the kernel region in common. -/
theorem Shared.addressMap_eq {memory : WordMemory} (h : Shared paging memory spaces)
    (hspace : space ∈ spaces) (hpage : page.IsShared paging.layout) :
    memory.addressMap space page = memory.addressMap paging.kernel page := by
  have hsame := h.same space hspace page.directorySlot hpage
  rw [WordMemory.addressMap, WordMemory.addressMap, WordMemory.behind, WordMemory.behind, hsame]

theorem has_user_borrowed (flags : Flags) :
    (borrowed flags).has Flags.user = flags.has Flags.user := by
  rw [Flags.has_user, Flags.has_user]
  simp [borrowed, Flags.owned, Flags.present]

theorem has_user_fresh (flags : Flags) : (fresh flags).has Flags.user = flags.has Flags.user := by
  rw [Flags.has_user, Flags.has_user]
  simp [fresh, Flags.owned, Flags.present]

/-- In a consistent state the operations act on the maps. -/
theorem Consistent.refines (h : Consistent paging machine spaces others) :
    Refines paging machine spaces machine.memory.addressMap where
  translate space _ address journal := translate_eq space address machine journal
  shared _ hspace _ hpage := h.toShared.addressMap_eq hspace hpage
  createSpace := (shows_createSpace h (shows_viewOf machine.memory)).mono
    (fun _ _ hdone => ⟨hdone.1, hdone.2.maps⟩) fun _ _ hrefused => ⟨hrefused.1, hrefused.2.maps⟩
  destroySpace space hspace :=
    ((settles_destroySpace h hspace).and (keepsMemory_destroySpace space machine rfl)).mono
      (fun _ _ hdone space _ => by rw [hdone.2]) fun _ _ hrefused space _ => by rw [hrefused.2]
  map space hspace address physical flags :=
    (shows_map h (shows_viewOf machine.memory) hspace).mono
      (fun _ _ hdone => ⟨hdone.1, hdone.2.1, hdone.2.2.realizes_of_openSlot⟩)
      fun _ _ hrefused => ⟨hrefused.1, hrefused.2.maps⟩
  remap space hspace address physical flags :=
    (shows_remap h (shows_viewOf machine.memory) hspace).mono
      (fun _ _ hdone => ⟨hdone.1, hdone.2.1, hdone.2.2.realizes_of_openSlot⟩)
      fun _ _ hrefused => ⟨hrefused.1, hrefused.2.maps⟩
  mapFresh space hspace address flags :=
    (shows_mapFresh h (shows_viewOf machine.memory) hspace).mono
      (fun _ _ hdone => ⟨hdone.1, hdone.2.1, hdone.2.2.1, fun _ hframe =>
        WordMemory.wordAt_eq_zero hdone.2.2.2.1 hframe, hdone.2.2.2.2.realizes_of_openSlot⟩)
      fun _ _ hrefused => ⟨hrefused.1, hrefused.2.maps⟩
  unmap _ space hspace address := by
    refine (shows_unmap h (shows_viewOf machine.memory) hspace).mono_done fun _ _ hdone => ?_
    rcases hdone with ⟨hnone, hseen, habsent⟩ | ⟨leaf, hslot, hsome, hfound, hseen⟩
    · exact .inl ⟨hnone, hseen.maps, habsent⟩
    · exact .inr ⟨leaf, hslot, hsome, hfound, hseen.maps⟩
  tableFor space hspace address create :=
    (shows_tableFor h (shows_viewOf machine.memory) hspace address create).mono
      (fun _ _ hdone => hdone.maps) fun _ _ hrefused => ⟨hrefused.2.1, hrefused.1.maps⟩

/-! ## What a request leaves alone -/

/-- The page that a request is about, and the space through which it is made. -/
def Request.page? : Request → Option (AddressSpace × PageNumber)
  | .map space address _ _ | .remap space address _ _ | .mapFresh space address _
  | .unmap space address => some (space, .ofAddress address)
  | _ => none

/-- The directory slot that a request lets user mode through, and the space it does so in. -/
def Request.opened? : Request → Option (AddressSpace × Nat)
  | .map space address _ flags | .remap space address _ flags | .mapFresh space address flags =>
    if flags.has Flags.user then some (space, slotInDirectory address) else none
  | _ => none

/-- The live spaces look as before, or else only one page has changed. It is the page that the
request is about, it lies behind an own slot of the space through which the request is made, and
this slot may let user mode through then. -/
def Shown (paging : Paging) (ledger : Ledger) (request : Request) (machine : Machine) : Prop :=
  Shows paging machine.memory ledger.spaces [] (viewOf ledger.machine.memory) ∨
  ∃ space address leaf? flags, request.page? = some (space, .ofAddress address) ∧
    (PageNumber.ofAddress address).directorySlot ∈ paging.ownSlots space ∧
    (flags.has Flags.user → request.opened? = some (space, slotInDirectory address)) ∧
    Shows paging machine.memory ledger.spaces []
      (((viewOf ledger.machine.memory).setPage paging space (.ofAddress address) leaf?).openSlot
        space (slotInDirectory address) flags)

theorem shown_of_shows
    (h : Shows paging machine.memory ledger.spaces others (viewOf ledger.machine.memory)) :
    Shown paging ledger request machine :=
  .inl ⟨h.maps, h.uppers, fun _ hmem => absurd hmem List.not_mem_nil⟩

theorem shown_of_memory (h : machine.memory = ledger.machine.memory) :
    Shown paging ledger request machine :=
  .inl (h ▸ shows_viewOf _)

theorem shown_of_page {address : Nat} {leaf? : Option Entry} {flags : Flags}
    (hpage : request.page? = some (space, .ofAddress address))
    (hopened : flags.has Flags.user → request.opened? = some (space, slotInDirectory address))
    (hslot : (PageNumber.ofAddress address).directorySlot ∈ paging.ownSlots space)
    (h : Shows paging machine.memory ledger.spaces others
      (((viewOf ledger.machine.memory).setPage paging space (.ofAddress address) leaf?).openSlot
        space (slotInDirectory address) flags)) :
    Shown paging ledger request machine :=
  .inr ⟨space, address, leaf?, flags, hpage, hslot, hopened, h.maps, h.uppers,
    fun _ hmem => absurd hmem List.not_mem_nil⟩

/-- Whatever is requested, only the page that the request is about is changed. -/
theorem ensures_shown (h : Consistent paging ledger.machine ledger.spaces others)
    (hpermits : ledger.Permits paging request) :
    (request.run paging).Ensures ledger.machine
      (fun _ machine' => Shown paging ledger request machine')
      fun _ machine' => Shown paging ledger request machine' := by
  have hview {kept : List Nat} : Shows paging ledger.machine.memory ledger.spaces kept
      (viewOf ledger.machine.memory) := shows_viewOf _
  cases request with
  | createSpace =>
    -- Only spaces that were alive before are looked at, and those do not notice the new one.
    exact ((shows_createSpace h hview).ensures.mono
      (fun _ _ hdone => shown_of_shows (hdone.2.of_addSpace hdone.1))
      fun _ _ hrefused => shown_of_shows hrefused.2).bind fun _ _ hdone => Action.ensures_pure hdone
  | destroySpace space =>
    exact ((keepsMemory_destroySpace space ledger.machine rfl).mono
      (fun _ _ hmemory => shown_of_memory hmemory) fun _ _ hmemory => shown_of_memory hmemory).bind
        fun _ _ hdone => Action.ensures_pure hdone
  | map space address physical flags =>
    refine ((shows_map h hview hpermits).ensures.mono (fun _ _ hdone => ?_)
      fun _ _ hrefused => shown_of_shows hrefused.2).bind fun _ _ hdone => Action.ensures_pure hdone
    refine shown_of_page rfl (fun huser => ?_) hdone.1 hdone.2.2
    exact if_pos (has_user_borrowed flags ▸ huser)
  | remap space address physical flags =>
    refine ((shows_remap h hview hpermits).ensures.mono (fun _ _ hdone => ?_)
      fun _ _ hrefused => shown_of_shows hrefused.2).bind fun _ _ hdone => Action.ensures_pure hdone
    refine shown_of_page rfl (fun huser => ?_) hdone.1 hdone.2.2
    exact if_pos (has_user_borrowed flags ▸ huser)
  | mapFresh space address flags =>
    refine ((shows_mapFresh h hview hpermits).ensures.mono (fun _ _ hdone => ?_)
      fun _ _ hrefused => shown_of_shows hrefused.2).bind fun _ _ hdone => Action.ensures_pure hdone
    refine shown_of_page rfl (fun huser => ?_) hdone.1 hdone.2.2.2.2
    exact if_pos (has_user_fresh flags ▸ huser)
  | unmap space address =>
    refine ((shows_unmap h hview hpermits).ensures.mono ?_ fun _ _ hrefused => hrefused).bind
      fun _ _ hdone => Action.ensures_pure hdone
    rintro found machine' (⟨-, hseen, -⟩ | ⟨leaf, hslot, -, -, hseen⟩)
    · exact shown_of_shows hseen
    -- Nothing is opened, which is the same as opening for no flag at all.
    · have hopened : ¬(0 : Flags).has Flags.user := by decide
      exact shown_of_page rfl (fun huser => absurd huser hopened) hslot hseen
  | tableFor space address create =>
    exact ((shows_tableFor h hview hpermits address create).ensures.mono
      (fun _ _ hdone => shown_of_shows hdone) fun _ _ hrefused => shown_of_shows hrefused.1).bind
        fun _ _ hdone => Action.ensures_pure hdone
  | activate space =>
    exact Action.ensures_bind (Action.ensures_modify (Action.ensures_pure (shown_of_memory rfl)))
  | activateKernel =>
    exact Action.ensures_bind (Action.ensures_modify (Action.ensures_pure (shown_of_memory rfl)))
  | allocate | allocateRun _ | free _ =>
    exact ((keepsMemory_onFrames _ ledger.machine rfl).mono
      (fun _ _ hmemory => shown_of_memory hmemory) fun _ _ hmemory => shown_of_memory hmemory).bind
        fun _ _ hdone => Action.ensures_pure hdone
  | write address value =>
    refine Action.ensures_bind (Action.ensures_modify (Action.ensures_pure (.inl ?_)))
    have hslot : address / WordMemory.wordSize % entryCount < entryCount := Nat.mod_lt _ (by decide)
    -- The word lies in no table.
    refine hview.congr h.toShared.lends (fun table htable slot' hslot' => ?_)
      fun _ hmem => absurd hmem List.not_mem_nil
    rw [setWordAt_eq, WordMemory.entry_setEntry _ _ hslot hslot', if_neg]
    rintro ⟨rfl, -⟩
    exact hpermits htable

/-- No page of a live space translates otherwise than before, except the one that the request is
about. -/
theorem Shown.reaches (h : Shown paging ledger request machine) (hother : other ∈ ledger.spaces)
    (hne : machine.memory.addressMap other page ≠ ledger.machine.memory.addressMap other page) :
    ∃ space, request.page? = some (space, page) ∧
      page.directorySlot ∈ paging.ownSlots space ∧
        paging.Reaches space page.directorySlot other := by
  rcases h with hsame | ⟨space, address, leaf?, flags, hpage, hslot, -, hseen⟩
  · exact absurd (congrFun (hsame.maps other hother) page) hne
  · have hmap := congrFun (hseen.realizes_of_openSlot other hother) page
    rw [hmap] at hne
    obtain ⟨rfl, hreaches⟩ : page = .ofAddress address ∧
        paging.Reaches space (PageNumber.ofAddress address).directorySlot other := by
      by_contra hnot
      exact hne (if_neg hnot)
    exact ⟨space, hpage, hslot, hreaches⟩

/-- The machine of the next ledger is the one the request left behind. -/
theorem Ledger.state?_of_step (h : ledger.step paging request = some ledger') :
    (request.run paging ledger.machine ledger.journal).state? = some ledger'.machine := by
  unfold Ledger.step at h
  cases hout : request.run paging ledger.machine ledger.journal with
  | done grant machine journal =>
    rw [hout] at h
    cases h
    rfl
  | refused error machine journal =>
    rw [hout] at h
    cases h
    rfl
  | halted cause journal =>
    rw [hout] at h
    cases h

/-! ## Runs -/

section Runs

variable {layout : Layout} {start : Machine} {journal : Journal}

/-- A run begins with building the kernel space. -/
theorem Ledger.Reachable.exists_create (h : Ledger.Reachable layout start journal paging ledger) :
    ∃ machine journal', Paging.create layout start journal = .done paging machine journal' := by
  induction h with
  | create hcreate => exact ⟨_, _, hcreate⟩
  | step _ _ _ ih => exact ih

/-- A run begins with a kernel space that maps the range from the kernel image to the end of the
heap to itself. After any run, all operations act on the maps of the live spaces as their names
say. Whatever is requested then, no page translates otherwise than before but for the one that the
request is about: through the kernel space, that is a page of the kernel space or of the kernel
region, through any other space a page of this space outside the kernel region. -/
theorem refines_of_reachable (hpool : start.frames.Reachable)
    (htotal : start.frames.total ≤ bitRange 20) (halign : layout.kernelStart % pageSize = 0)
    (h : Ledger.Reachable layout start journal paging ledger) :
    (∃ machine journal', create layout start journal = .done paging machine journal' ∧
      paging.layout = layout ∧
      machine.memory.addressMap paging.kernel = AddressMap.identity layout) ∧
    Refines paging ledger.machine ledger.spaces ledger.machine.memory.addressMap ∧
    ∀ request ledger', ledger.Permits paging request → ledger.step paging request = some ledger' →
      ∀ other ∈ ledger.spaces, ∀ page,
        ledger'.machine.memory.addressMap other page ≠ ledger.machine.memory.addressMap other page →
          ∃ space, request.page? = some (space, page) ∧
            if space = paging.kernel then other = space ∨ page.IsShared paging.layout
            else other = space ∧ ¬page.IsShared paging.layout := by
  have hframes := FramePool.consistent_of_reachable hpool
  obtain ⟨hconsistent, -⟩ := consistent_of_reachable hpool htotal h
  obtain ⟨machine, journal', hcreate⟩ := h.exists_create
  refine ⟨⟨machine, journal', hcreate, ?_, ?_⟩, hconsistent.refines, ?_⟩
  · exact ((settles_create hframes htotal (heapLimit_lt_of_create hcreate)).of_done hcreate).1
  · exact map_of_create hframes htotal halign hcreate
  · intro request ledger' hpermits hstep other hother page hne
    obtain ⟨space, hpage, hslot, hreaches⟩ := ((ensures_shown hconsistent hpermits).of_state?
      (Ledger.state?_of_step hstep)).reaches hother hne
    refine ⟨space, hpage, ?_⟩
    split
    case isTrue => exact hreaches.imp_right And.right
    case isFalse hkernel =>
      refine ⟨hreaches.resolve_right fun hshares => hkernel hshares.1, Nat.not_lt.mpr ?_⟩
      exact (mem_ownSlots.mp hslot).2.resolve_left hkernel

end Runs

/-- In eight frames there is room for a kernel space and for another one with a page of its own. The
page is seen in the one space only, and the page of the kernel region in both. -/
theorem refines_of_smallMachine :
    ∃ paging ledger, Ledger.Reachable smallLayout smallMachine #[] paging ledger ∧
      ledger.spaces = [⟨2⟩, paging.kernel] ∧
      Refines paging ledger.machine ledger.spaces ledger.machine.memory.addressMap ∧
      ledger.machine.memory.addressMap ⟨2⟩ (.ofAddress userSpaceStart) =
        some ⟨3, fresh Flags.user⟩ ∧
      ledger.machine.memory.addressMap paging.kernel (.ofAddress userSpaceStart) = none ∧
      ∀ space ∈ ledger.spaces,
        ledger.machine.memory.addressMap space (.ofAddress 0x1000) =
          some ⟨1, Flags.kernelPage⟩ := by
  have hpool : smallMachine.frames.Reachable := .allFree (by decide)
  have hrun : (match create smallLayout smallMachine #[] with
      | .done paging machine journal =>
        match Ledger.step paging .createSpace ⟨machine, journal, [paging.kernel], []⟩ with
        | some built =>
          match built.step paging (.mapFresh ⟨2⟩ userSpaceStart Flags.user) with
          | some mapped => decide (built.spaces = [⟨2⟩, paging.kernel] ∧
              mapped.spaces = [⟨2⟩, paging.kernel] ∧
              mapped.machine.memory.addressMap ⟨2⟩ (.ofAddress userSpaceStart) =
                some ⟨3, fresh Flags.user⟩ ∧
              mapped.machine.memory.addressMap paging.kernel (.ofAddress userSpaceStart) = none ∧
              ∀ space ∈ mapped.spaces, mapped.machine.memory.addressMap space
                (.ofAddress 0x1000) = some ⟨1, Flags.kernelPage⟩)
          | none => false
        | none => false
      | _ => false) = true := by decide +kernel
  split at hrun
  case h_1 paging machine journal hcreate =>
    split at hrun
    case h_1 built hbuilt =>
      split at hrun
      case h_1 mapped hmapped =>
        obtain ⟨hspaces, hspaces', hmaps⟩ := of_decide_eq_true hrun
        have hreachable := Ledger.Reachable.step (.step (.create hcreate) (by trivial) hbuilt)
          (by rw [Ledger.Permits, hspaces]; exact List.mem_cons_self) hmapped
        have hrefines := refines_of_reachable hpool (by decide) (by decide) hreachable
        exact ⟨paging, mapped, hreachable, hspaces', hrefines.2.1, hmaps⟩
      case h_2 => cases hrun
    case h_2 => cases hrun
  case h_2 => cases hrun

end Paging

end KernelResources
