import KernelResources.Proofs.Paging.Operations

/-!
# Address maps

Seen from outside, an address space is a partial map from pages to frames and flags. This file
reads the maps off the tables and says what the single steps of the machine do to them.

* `WordMemory.addressMap` is the map of a space; `translate_eq` says that translating an address
  is looking its page up there.
* `Paging.View` is what all live spaces look like. `View.setPage` changes one page, in the kernel
  region of the kernel space for every space at once.
* `Shows.takingZeroed`, `Shows.addingTable`, `Shows.settingLeaf` and `Shows.openingToUser` say what
  becomes of the view by each step: no space notices a step that is taken for another one.
-/

namespace KernelResources

/-- The number of a page among those of a 32-bit address range. -/
abbrev PageNumber := BitVec 20

namespace PageNumber

/-- The page of an address. -/
def ofAddress (address : Nat) : PageNumber := BitVec.ofNat 20 (address / pageSize)

/-- The first address of a page. -/
def address (page : PageNumber) : Nat := page.toNat * pageSize

/-- The directory slot that covers a page. -/
def directorySlot (page : PageNumber) : Nat := page.toNat / entryCount

/-- The slot of a page in the table that covers it. -/
def tableSlot (page : PageNumber) : Nat := page.toNat % entryCount

/-- Whether a page lies in a slot that belongs to the kernel. -/
def IsShared (layout : Layout) (page : PageNumber) : Prop := page.directorySlot < layout.sharedSlots

instance (layout : Layout) (page : PageNumber) : Decidable (page.IsShared layout) :=
  inferInstanceAs (Decidable (_ < _))

variable {page page' : PageNumber}

theorem directorySlot_lt (page : PageNumber) : page.directorySlot < entryCount :=
  Nat.div_lt_of_lt_mul page.isLt

theorem tableSlot_lt (page : PageNumber) : page.tableSlot < entryCount := Nat.mod_lt _ (by decide)

theorem directorySlot_ofAddress (address : Nat) :
    (ofAddress address).directorySlot = slotInDirectory address := by
  simp only [directorySlot, ofAddress, slotInDirectory, regionSize, pageSize, entryCount,
    BitVec.toNat_ofNat]
  omega

theorem tableSlot_ofAddress (address : Nat) :
    (ofAddress address).tableSlot = slotInTable address := by
  simp only [tableSlot, ofAddress, slotInTable, pageSize, entryCount, BitVec.toNat_ofNat]
  omega

/-- The two slots tell pages apart. -/
theorem eq_iff :
    page = page' ↔ page.directorySlot = page'.directorySlot ∧ page.tableSlot = page'.tableSlot := by
  rw [← BitVec.toNat_inj]
  simp only [directorySlot, tableSlot, entryCount]
  omega

end PageNumber

/-- A partial map from pages to what they translate to: a frame and the flags of the page. -/
abbrev AddressMap := PageNumber → Option Entry

namespace AddressMap

/-- What an address translates to. -/
def translate? (map : AddressMap) (address : Nat) : Option (Nat × Flags) :=
  (map (.ofAddress address)).map fun leaf => (leaf.address + address % pageSize, leaf.flags)

/-- The part of a map that lies in the kernel region. -/
def sharedPart (layout : Layout) (map : AddressMap) : AddressMap := fun page =>
  if page.IsShared layout then map page else none

/-- The map of the kernel space when it was built: the range from the kernel image to the end of
the heap is mapped to itself. -/
def identity (layout : Layout) : AddressMap := fun page =>
  if layout.kernelStart ≤ page.address ∧ page.address < layout.heapLimit then
    some ⟨page, Flags.kernelPage⟩
  else none

end AddressMap

/-- What a page translates to by an entry of a table. -/
def Entry.leaf? (entry : Entry) : Option Entry := if entry.isPresent then some entry else none

/-- An entry with user mode let through. -/
def Entry.openedToUser (entry : Entry) : Entry := { entry with flags := entry.flags ||| Flags.user }

namespace WordMemory

/-- What is behind a directory entry in a slot of the table it leads to. -/
def behind (memory : WordMemory) (upper : Entry) (slot : Nat) : Option Entry :=
  match upper.frame? with
  | some table => (memory.entry table slot).leaf?
  | none => none

/-- The map of an address space. -/
def addressMap (memory : WordMemory) (space : AddressSpace) : AddressMap := fun page =>
  memory.behind (memory.entry space.directory page.directorySlot) page.tableSlot

variable {memory : WordMemory} {upper : Entry} {slot table : Nat}

theorem behind_of_none (h : upper.frame? = none) : memory.behind upper slot = none := by
  rw [behind, h]

theorem behind_of_some (h : upper.frame? = some table) :
    memory.behind upper slot = (memory.entry table slot).leaf? := by
  rw [behind, h]

/-- The map of a space depends on the entries of its directory and of the tables behind it. -/
theorem addressMap_congr {memory' : WordMemory} {space : AddressSpace}
    (hdirectory : ∀ slot < entryCount,
      memory'.entry space.directory slot = memory.entry space.directory slot)
    (htables : ∀ slot < entryCount, ∀ table,
      (memory.entry space.directory slot).frame? = some table → ∀ slot < entryCount,
        memory'.entry table slot = memory.entry table slot) :
    memory'.addressMap space = memory.addressMap space := by
  funext page
  have hslot := page.directorySlot_lt
  rw [addressMap, addressMap, hdirectory _ hslot]
  cases htable : (memory.entry space.directory page.directorySlot).frame? with
  | none => rw [behind_of_none htable, behind_of_none htable]
  | some table =>
    rw [behind_of_some htable, behind_of_some htable,
      htables _ hslot table htable _ page.tableSlot_lt]

end WordMemory

namespace Entry

variable {entry : Entry}

theorem leaf?_of_not_present (h : ¬entry.isPresent = true) : entry.leaf? = none := if_neg h

theorem leaf?_of_present (h : entry.isPresent = true) : entry.leaf? = some entry := if_pos h

theorem openedToUser_of_user (h : entry.flags.has Flags.user = true) :
    entry.openedToUser = entry := by
  have hand : entry.flags &&& Flags.user = Flags.user := of_decide_eq_true h
  have hor : entry.flags ||| Flags.user = entry.flags := by
    rw [← hand]
    ext index hindex
    simpa using fun hset _ => hset
  rw [openedToUser, hor]

theorem leaf?_leadingTo {physical : Nat} {flags : Flags}
    (h : flags.has Flags.present = true) :
    (leadingTo physical flags).leaf? = some (leadingTo physical flags) := if_pos h

end Entry

namespace Paging

open Machine

variable {ε : Type} {paging : Paging} {machine : Machine} {memory memory' : WordMemory}
  {spaces : List AddressSpace} {others : List Nat} {space other : AddressSpace}
  {slot table frame : Nat} {page : PageNumber}

/-- Translating an address is looking its page up in the map of the space. -/
theorem translate_eq (space : AddressSpace) (address : Nat) (machine : Machine)
    (journal : Journal) :
    translate space address machine journal =
      match (machine.memory.addressMap space).translate? address with
      | some found => .done found machine journal
      | none => .refused .notMapped machine journal := by
  have hentry (frame : Nat) {slot : Nat} (hslot : slot < entryCount) (journal : Journal) :
      (entry frame slot : Action MemoryError Machine Entry) machine journal =
        .done (machine.memory.entry frame slot) machine journal := by
    simp [entry, onMemory, Table.get, Table.checkSlot, hslot, Action.apply_within,
      Action.apply_map]
  rw [translate, Action.bind_of_done (hentry _ (slotInDirectory_lt address) journal),
    AddressMap.translate?, WordMemory.addressMap, PageNumber.directorySlot_ofAddress,
    PageNumber.tableSlot_ofAddress]
  cases hupper : (machine.memory.entry space.directory (slotInDirectory address)).frame? with
  | none =>
    rw [WordMemory.behind_of_none hupper]
    rfl
  | some table =>
    rw [WordMemory.behind_of_some hupper, Action.ofOption_some, pure_bind,
      Action.bind_of_done (hentry _ (slotInTable_lt address) journal)]
    cases hpresent : (machine.memory.entry table (slotInTable address)).isPresent with
    | true =>
      rw [Entry.leaf?_of_present hpresent]
      rfl
    | false =>
      rw [Entry.leaf?_of_not_present (by simp [hpresent])]
      rfl

/-! ## What leads to a table -/

/-- In the slots of the kernel region every space leads where the kernel space does. -/
structure Lends (paging : Paging) (memory : WordMemory) (spaces : List AddressSpace) : Prop where
  /-- The kernel region fits into a directory. -/
  slots_le : paging.layout.sharedSlots ≤ entryCount
  /-- The kernel space is one of the spaces. -/
  kernel_mem : paging.kernel ∈ spaces
  /-- Every space leads to the same tables. -/
  same : ∀ space ∈ spaces, ∀ slot < paging.layout.sharedSlots,
    (memory.entry space.directory slot).frame? =
      (memory.entry paging.kernel.directory slot).frame?

theorem Shared.lends (h : Shared paging memory spaces) : Lends paging memory spaces :=
  ⟨h.slots_le, h.kernel_mem, h.same⟩

/-- The kernel space alone lends to nobody. -/
theorem lends_kernel (h : paging.layout.sharedSlots ≤ entryCount) :
    Lends paging memory [paging.kernel] where
  slots_le := h
  kernel_mem := List.mem_cons_self
  same space hspace _ _ := by rw [List.mem_singleton.mp hspace]

/-- Whether a change that is made in `space` behind a directory slot shows in `other` as well. -/
def Reaches (paging : Paging) (space : AddressSpace) (slot : Nat) (other : AddressSpace) : Prop :=
  other = space ∨ space = paging.kernel ∧ slot < paging.layout.sharedSlots

instance (space : AddressSpace) (slot : Nat) (other : AddressSpace) :
    Decidable (paging.Reaches space slot other) := inferInstanceAs (Decidable (_ ∨ _))

/-- Behind every slot of a space is a table that some space owns behind the same slot. -/
theorem Lends.exists_owner (h : Lends paging memory spaces) (hother : other ∈ spaces)
    (hslot : slot < entryCount) :
    ∃ owner ∈ spaces, slot ∈ paging.ownSlots owner ∧ paging.Reaches owner slot other ∧
      (memory.entry owner.directory slot).frame? = (memory.entry other.directory slot).frame? := by
  by_cases hshared : slot < paging.layout.sharedSlots
  · exact ⟨paging.kernel, h.kernel_mem, mem_ownSlots_kernel hslot, .inr ⟨rfl, hshared⟩,
      (h.same other hother slot hshared).symm⟩
  · exact ⟨other, hother, mem_ownSlots.mpr ⟨hslot, .inr (Nat.le_of_not_lt hshared)⟩, .inl rfl, rfl⟩

/-- What a space leads to is a table. -/
theorem Lends.isTable (h : Lends paging memory spaces) (hother : other ∈ spaces)
    (hslot : slot < entryCount)
    (htable : (memory.entry other.directory slot).frame? = some table) :
    paging.IsTable memory spaces table := by
  obtain ⟨owner, howner, hown, -, hsame⟩ := h.exists_owner hother hslot
  exact ⟨owner, howner, .inr ⟨slot, hown, hsame.trans htable⟩⟩

/-- A table is reached through one slot only, and only from spaces that share it with its owner. -/
theorem Lends.leads_iff (h : Lends paging memory spaces)
    (hnodup : (paging.ownedFrames memory spaces).Nodup) (hspace : space ∈ spaces)
    (hslot : slot ∈ paging.ownSlots space)
    (htable : (memory.entry space.directory slot).frame? = some table) (hother : other ∈ spaces)
    {slot' : Nat} (hslot' : slot' < entryCount) :
    (memory.entry other.directory slot').frame? = some table ↔
      slot' = slot ∧ paging.Reaches space slot other := by
  have hmem := WordMemory.mem_slotFrames_of_some htable
  constructor
  · intro hleads
    obtain ⟨owner, howner, hown, hreaches, hsame⟩ := h.exists_owner hother hslot'
    have hmem' := WordMemory.mem_slotFrames_of_some (hsame.trans hleads)
    -- Different owners own different tables, and so do different slots of one owner.
    have heq : owner = space := by
      by_contra hne
      exact not_mem_of_nodup_flatMap hnodup hspace howner hne (mem_spaceFrames_of_slot hslot hmem)
        (mem_spaceFrames_of_slot hown hmem')
    subst heq
    have hslots : slot' = slot := by
      by_contra hne
      exact not_mem_of_nodup_flatMap (List.nodup_cons.mp (nodup_spaceFrames hnodup hspace)).2 hslot
        hown hne hmem hmem'
    subst hslots
    exact ⟨rfl, hreaches⟩
  · rintro ⟨rfl, rfl | ⟨rfl, hshared⟩⟩
    · exact htable
    · rw [h.same other hother slot' hshared, htable]

/-! ## Views -/

/-- The maps of all address spaces. -/
abbrev AddressMaps := AddressSpace → AddressMap

/-- Has a page translate to something else. In the kernel region of the kernel space that shows in
every space. -/
def AddressMaps.set (maps : AddressMaps) (paging : Paging) (space : AddressSpace)
    (page : PageNumber) (leaf? : Option Entry) : AddressMaps := fun other page' =>
  if page' = page ∧ paging.Reaches space page.directorySlot other then leaf? else maps other page'

/-- Adds a space with the kernel region of the kernel space and nothing else. -/
def AddressMaps.addSpace (maps : AddressMaps) (paging : Paging) (new : AddressSpace) :
    AddressMaps := fun other =>
  if other = new then (maps paging.kernel).sharedPart paging.layout else maps other

/-- What the live spaces look like from outside. -/
structure View where
  /-- The map of each space. -/
  maps : AddressMaps
  /-- The directory entry of each space in each slot of the kernel region. -/
  uppers : AddressSpace → Nat → Entry
  /-- The contents of frames that belong to nobody's tables. -/
  contents : Nat → Nat → Entry

namespace View

/-- Has a page translate to something else. -/
def setPage (view : View) (paging : Paging) (space : AddressSpace) (page : PageNumber)
    (leaf? : Option Entry) : View :=
  { view with maps := view.maps.set paging space page leaf? }

/-- Adds a space with the kernel region of the kernel space. -/
def addSpace (view : View) (paging : Paging) (new : AddressSpace) : View :=
  { view with
    maps := view.maps.addSpace paging new
    uppers := fun other => if other = new then view.uppers paging.kernel else view.uppers other }

/-- Changes a directory entry. -/
def setUpper (view : View) (space : AddressSpace) (slot : Nat) (upper : Entry) : View :=
  { view with
    uppers := fun other slot' =>
      if other = space ∧ slot' = slot then upper else view.uppers other slot' }

/-- Lets user mode through the directory slot of a page that is for user mode. -/
def openSlot (view : View) (space : AddressSpace) (slot : Nat) (flags : Flags) : View :=
  if flags.has Flags.user then view.setUpper space slot (view.uppers space slot).openedToUser
  else view

@[simp] theorem setUpper_self (view : View) (space : AddressSpace) (slot : Nat) :
    view.setUpper space slot (view.uppers space slot) = view := by
  cases view
  simp only [setUpper, mk.injEq, true_and, and_true]
  funext other slot'
  exact ite_eq_right_iff.mpr fun heq => heq.1 ▸ heq.2 ▸ rfl

@[simp] theorem maps_openSlot (view : View) (space : AddressSpace) (slot : Nat) (flags : Flags) :
    (view.openSlot space slot flags).maps = view.maps := by
  unfold openSlot
  split <;> rfl

@[simp] theorem contents_openSlot (view : View) (space : AddressSpace) (slot : Nat)
    (flags : Flags) : (view.openSlot space slot flags).contents = view.contents := by
  unfold openSlot
  split <;> rfl

/-- The view with other contents of frames. -/
def withContents (view : View) (contents : Nat → Nat → Entry) : View := { view with contents }

theorem setPage_withContents (view : View) (paging : Paging) (space : AddressSpace)
    (page : PageNumber) (leaf? : Option Entry) (contents : Nat → Nat → Entry) :
    (view.withContents contents).setPage paging space page leaf? =
      (view.setPage paging space page leaf?).withContents contents := rfl

theorem openSlot_withContents (view : View) (space : AddressSpace) (slot : Nat) (flags : Flags)
    (contents : Nat → Nat → Entry) :
    (view.withContents contents).openSlot space slot flags =
      (view.openSlot space slot flags).withContents contents := by
  unfold openSlot
  split <;> rfl

end View

/-- The live spaces translate as the maps say. -/
def Realizes (memory : WordMemory) (spaces : List AddressSpace) (maps : AddressMaps) : Prop :=
  ∀ space ∈ spaces, memory.addressMap space = maps space

/-- The view is that of the live spaces, and of the frames of `others`. -/
structure Shows (paging : Paging) (memory : WordMemory) (spaces : List AddressSpace)
    (others : List Nat) (view : View) : Prop where
  maps : Realizes memory spaces view.maps
  uppers : ∀ space ∈ spaces, ∀ slot < paging.layout.sharedSlots,
    memory.entry space.directory slot = view.uppers space slot
  contents : ∀ frame ∈ others, ∀ slot < entryCount,
    memory.entry frame slot = view.contents frame slot

/-- What there is to be seen in memory. -/
def viewOf (memory : WordMemory) : View where
  maps := memory.addressMap
  uppers space slot := memory.entry space.directory slot
  contents := memory.entry

theorem shows_viewOf (memory : WordMemory) : Shows paging memory spaces others (viewOf memory) :=
  ⟨fun _ _ => rfl, fun _ _ _ _ => rfl, fun _ _ _ _ => rfl⟩

theorem Shows.realizes_of_openSlot {view : View} {flags : Flags}
    (h : Shows paging memory spaces others (view.openSlot space slot flags)) :
    Realizes memory spaces view.maps := by
  rw [← view.maps_openSlot space slot flags]
  exact h.maps

theorem Shows.withContents {view : View} {kept : List Nat} {contents : Nat → Nat → Entry}
    (h : Shows paging memory spaces kept view)
    (hcontents : ∀ frame ∈ others, ∀ slot < entryCount,
      memory.entry frame slot = contents frame slot) :
    Shows paging memory spaces others (view.withContents contents) :=
  ⟨h.maps, h.uppers, hcontents⟩

/-- The other spaces do not notice a new one. -/
theorem Shows.of_addSpace {view : View} {new : AddressSpace} (hnew : new ∉ spaces)
    (h : Shows paging memory (new :: spaces) others (view.addSpace paging new)) :
    Shows paging memory spaces others view := by
  have hne {space : AddressSpace} (hspace : space ∈ spaces) : space ≠ new := by
    rintro rfl
    exact hnew hspace
  refine ⟨fun space hspace => ?_, fun space hspace slot hslot => ?_, h.contents⟩
  · exact (h.maps space (List.mem_cons_of_mem _ hspace)).trans (if_neg (hne hspace))
  · rw [h.uppers space (List.mem_cons_of_mem _ hspace) slot hslot]
    simp [View.addSpace, hne hspace]

/-- Directory entries matter in the kernel region only. -/
theorem Shows.setUpper_congr {view : View} {upper upper' : Entry}
    (h : Shows paging memory spaces others (view.setUpper space slot upper))
    (hupper : slot < paging.layout.sharedSlots → upper = upper') :
    Shows paging memory spaces others (view.setUpper space slot upper') :=
  { h with
    uppers := fun other hother slot' hslot' => by
      rw [h.uppers other hother slot' hslot', View.setUpper, View.setUpper]
      refine if_ctx_congr Iff.rfl (fun heq => ?_) fun _ => rfl
      exact hupper (heq.2 ▸ hslot') }

/-! ## Steps -/

theorem directory_inj : space.directory = other.directory ↔ space = other := by
  cases space
  cases other
  simp

/-- No space leads to a directory. -/
theorem Lends.ne_directory (h : Lends paging memory spaces)
    (hnodup : (paging.ownedFrames memory spaces).Nodup) (hspace : space ∈ spaces)
    (hother : other ∈ spaces) (hslot : slot < entryCount)
    (htable : (memory.entry other.directory slot).frame? = some table) :
    table ≠ space.directory := by
  obtain ⟨owner, howner, hown, -, hsame⟩ := h.exists_owner hother hslot
  exact ne_directory_of_owned hnodup howner hown
    (WordMemory.mem_slotFrames_of_some (hsame.trans htable)) hspace

section Steps

variable {view : View} (hshows : Shows paging memory spaces others view)
  (hlends : Lends paging memory spaces)
include hshows hlends

/-- The view depends on the entries of tables and on the frames of the others. -/
theorem Shows.congr
    (htables : ∀ frame, paging.IsTable memory spaces frame → ∀ slot < entryCount,
      memory'.entry frame slot = memory.entry frame slot)
    (hothers : ∀ frame ∈ others, ∀ slot < entryCount,
      memory'.entry frame slot = memory.entry frame slot) :
    Shows paging memory' spaces others view where
  maps space hspace := by
    rw [← hshows.maps space hspace]
    exact WordMemory.addressMap_congr (htables _ (isTable_directory hspace))
      fun slot hslot table htable => htables table (hlends.isTable hspace hslot htable)
  uppers space hspace slot hslot := by
    rw [htables _ (isTable_directory hspace) slot (Nat.lt_of_lt_of_le hslot hlends.slots_le)]
    exact hshows.uppers space hspace slot hslot
  contents frame hframe slot hslot := by
    rw [hothers frame hframe slot hslot]
    exact hshows.contents frame hframe slot hslot

variable (hnodup : (paging.ownedFrames memory spaces).Nodup) (hspace : space ∈ spaces)
include hnodup hspace

/-- A leaf that is changed shows on its page, in every space that shares the table, and nowhere
else. -/
theorem Shows.settingLeaf (hslot : page.directorySlot ∈ paging.ownSlots space)
    (htable : (memory.entry space.directory page.directorySlot).frame? = some table)
    (hnot : table ∉ others) (new : Entry) :
    Shows paging (memory.setEntry table page.tableSlot new) spaces others
      (view.setPage paging space page new.leaf?) := by
  have hentry {frame slot : Nat} (hslot : slot < entryCount) :
      (memory.setEntry table page.tableSlot new).entry frame slot =
        if frame = table ∧ slot = page.tableSlot then new else memory.entry frame slot :=
    memory.entry_setEntry _ page.tableSlot_lt hslot
  have hdirectory {other : AddressSpace} (hother : other ∈ spaces) {slot : Nat}
      (hlt : slot < entryCount) :
      (memory.setEntry table page.tableSlot new).entry other.directory slot =
        memory.entry other.directory slot := by
    rw [hentry hlt, if_neg]
    exact fun h => hlends.ne_directory hnodup hother hspace page.directorySlot_lt htable h.1.symm
  refine ⟨fun other hother => ?_, fun other hother slot hlt => ?_, fun frame hframe slot hlt => ?_⟩
  · funext page'
    have hleads := hlends.leads_iff hnodup hspace hslot htable hother page'.directorySlot_lt
    simp only [View.setPage, AddressMaps.set]
    -- The directories are as before, so all depends on the table that the space leads to.
    rw [← hshows.maps other hother, WordMemory.addressMap, WordMemory.addressMap,
      hdirectory hother page'.directorySlot_lt]
    cases htable' : (memory.entry other.directory page'.directorySlot).frame? with
    | none =>
      -- The page has no table in this space, so it is not the changed one.
      rw [WordMemory.behind_of_none htable', WordMemory.behind_of_none htable', if_neg]
      rintro ⟨rfl, hreaches⟩
      rw [hleads.mpr ⟨rfl, hreaches⟩] at htable'
      cases htable'
    | some table' =>
      -- That is the changed table just if the space shares it, and then only one slot differs.
      have hiff : table' = table ∧ page'.tableSlot = page.tableSlot ↔
          page' = page ∧ paging.Reaches space page.directorySlot other := by
        rw [htable', Option.some.injEq] at hleads
        rw [hleads, PageNumber.eq_iff, and_right_comm]
      rw [WordMemory.behind_of_some htable', WordMemory.behind_of_some htable',
        hentry page'.tableSlot_lt, if_congr hiff rfl rfl]
      split <;> rfl
  · rw [hdirectory hother (Nat.lt_of_lt_of_le hlt hlends.slots_le)]
    exact hshows.uppers other hother slot hlt
  · rw [hentry hlt, if_neg]
    · exact hshows.contents frame hframe slot hlt
    · rintro ⟨rfl, -⟩
      exact hnot hframe

/-- A directory entry with the same behind it as before changes no map. -/
theorem Shows.settingUpper (hslot : slot < entryCount) (hnot : space.directory ∉ others)
    {upper : Entry} (hne : upper.frame? ≠ some space.directory)
    (hbehind : ∀ leafSlot < entryCount,
      memory.behind upper leafSlot = memory.behind (memory.entry space.directory slot) leafSlot) :
    Shows paging (memory.setEntry space.directory slot upper) spaces others
      (view.setUpper space slot upper) := by
  have hentry {frame slot' : Nat} (hslot' : slot' < entryCount) :
      (memory.setEntry space.directory slot upper).entry frame slot' =
        if frame = space.directory ∧ slot' = slot then upper else memory.entry frame slot' :=
    memory.entry_setEntry _ hslot hslot'
  -- What lies behind an entry that does not lead to the directory is not touched.
  have hkeep {found : Entry} (hfound : found.frame? ≠ some space.directory) {leafSlot : Nat}
      (hleaf : leafSlot < entryCount) :
      (memory.setEntry space.directory slot upper).behind found leafSlot =
        memory.behind found leafSlot := by
    cases htable : found.frame? with
    | none => rw [WordMemory.behind_of_none htable, WordMemory.behind_of_none htable]
    | some table =>
      have hother : table ≠ space.directory := by
        rintro rfl
        exact hfound htable
      rw [WordMemory.behind_of_some htable, WordMemory.behind_of_some htable, hentry hleaf,
        if_neg fun h => hother h.1]
  refine ⟨fun other hother => ?_, fun other hother slot' hlt => ?_,
    fun frame hframe slot' hlt => ?_⟩
  · rw [View.setUpper, ← hshows.maps other hother]
    funext page
    rw [WordMemory.addressMap, WordMemory.addressMap, hentry page.directorySlot_lt]
    split
    case isTrue heq =>
      obtain ⟨hdirectory, rfl⟩ := heq
      rw [hkeep hne page.tableSlot_lt, hbehind _ page.tableSlot_lt, hdirectory]
    case isFalse =>
      -- Another entry leads to a table, and no directory is one.
      refine hkeep (fun htable => ?_) page.tableSlot_lt
      exact hlends.ne_directory hnodup hspace hother page.directorySlot_lt htable rfl
  · rw [hentry (Nat.lt_of_lt_of_le hlt hlends.slots_le), if_congr (and_congr_left' directory_inj)
      rfl rfl, hshows.uppers other hother slot' hlt]
    rfl
  · rw [hentry hlt, if_neg]
    · exact hshows.contents frame hframe slot' hlt
    · rintro ⟨rfl, -⟩
      exact hnot hframe

/-- A table without an entry, added where there was none, changes no map. -/
theorem Shows.addingTable (hslot : slot < entryCount) (hnot : space.directory ∉ others)
    (hempty : (memory.entry space.directory slot).frame? = none)
    (hzero : ∀ slot < entryCount, memory.entry table slot = Entry.unused)
    (hne : table ≠ space.directory) {upper : Entry} (hupper : upper.frame? = some table) :
    Shows paging (memory.setEntry space.directory slot upper) spaces others
      (view.setUpper space slot upper) := by
  refine hshows.settingUpper hlends hnodup hspace hslot hnot ?_ fun leafSlot hleaf => ?_
  · rw [hupper]
    exact fun h => hne (Option.some.inj h)
  · rw [WordMemory.behind_of_some hupper, WordMemory.behind_of_none hempty, hzero _ hleaf]
    rfl

/-- Letting user mode through a directory slot changes no map. -/
theorem Shows.openingToUser (hslot : slot < entryCount) (hnot : space.directory ∉ others) :
    Shows paging (memory.setEntry space.directory slot
        (memory.entry space.directory slot).openedToUser) spaces others
      (view.setUpper space slot (memory.entry space.directory slot).openedToUser) := by
  have hframe : (memory.entry space.directory slot).openedToUser.frame? =
      (memory.entry space.directory slot).frame? := Entry.frame?_openToUser _
  refine hshows.settingUpper hlends hnodup hspace hslot hnot ?_ fun leafSlot hleaf => ?_
  · rw [hframe]
    exact fun htable => hlends.ne_directory hnodup hspace hspace hslot htable rfl
  · rw [WordMemory.behind, WordMemory.behind, hframe]

end Steps

end Paging

end KernelResources
