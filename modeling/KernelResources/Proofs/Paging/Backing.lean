import KernelResources.Proofs.Paging.Refinement
import KernelResources.Proofs.Paging.Takings

/-!
# Spaces with one page

A space is built for a single page of its own: first the space, then a frame for the page, with the
table that leads to it. Each of the three frames may be missing, and the page may lie where the
space must not change anything; then the space is taken down again.

* `Machine.Spends`: what can be told of a machine from outside after some free frames were taken.
* `Paging.Blank`: a space that was built just now, with nothing but its directory.
* `Paging.Backs`: a space with one page: its three frames, and what it translates.
* `Blank.settles_mapFresh` and `Blank.takes_destroySpace`: a blank space gets its page, or it is
  taken down and its directory is free again.
-/

namespace KernelResources

open Machine

/-- From outside, `machine'` is `machine` with some free frames taken: no other frame is free or
taken now that was not before, nothing was written to a frame that was taken, the spaces translate
as before, and the memory management unit has been told nothing. -/
structure Machine.Spends (spaces : List AddressSpace) (machine : Machine) (frames : List Nat)
    (machine' : Machine) : Prop where
  /-- No frame is taken twice. -/
  nodup : frames.Nodup
  /-- The frames were free. -/
  subset : ∀ frame ∈ frames, frame ∈ machine.frames.freeFrames
  /-- All other frames that were free still are. -/
  freeFrames_eq : machine'.frames.freeFrames = machine.frames.freeFrames \ frames.toFinset
  /-- Nothing was written to a frame that was taken. -/
  entry_eq : ∀ frame ∈ machine.frames.takenFrames, ∀ slot < entryCount,
    machine'.memory.entry frame slot = machine.memory.entry frame slot
  /-- The spaces translate as before. -/
  addressMap_eq : ∀ space ∈ spaces,
    machine'.memory.addressMap space = machine.memory.addressMap space
  /-- The same directory is loaded. -/
  active_eq : machine'.active = machine.active
  /-- The memory management unit was left alone. -/
  calls_eq : machine'.calls = machine.calls

namespace Paging

variable {paging : Paging} {machine machine' : Machine} {spaces : List AddressSpace}
  {others frames : List Nat} {space : AddressSpace} {address : Nat} {flags : Flags}

theorem Consistent.spends_of_takes (h : Consistent paging machine spaces others)
    (htakes : Takes machine frames machine') : Spends spaces machine frames machine' where
  nodup := (List.nodup_append.mp htakes.nodup).1
  subset _ hframe := htakes.subset_freeFrames (List.mem_toFinset.mpr hframe)
  freeFrames_eq := htakes.freeFrames_eq
  entry_eq := htakes.entry_eq
  addressMap_eq _ hspace := htakes.addressMap_eq (h.stands hspace)
  active_eq := htakes.active_eq
  calls_eq := htakes.calls_eq

/-- A space was built whose only page of its own is that of an address. -/
structure Backs (paging : Paging) (address : Nat) (flags : Flags) (machine : Machine)
    (space : AddressSpace) (table page : Nat) (machine' : Machine) : Prop where
  /-- It is made of a directory, a table and the frame of the page, all of which were free. -/
  takes : Takes machine [table, page, space.directory] machine'
  /-- The directory leads to the table, and lets user mode through if the page is for user mode. -/
  entry_eq : machine'.memory.entry space.directory (slotInDirectory address) =
    if (fresh flags).has Flags.user then
      (Entry.leadingTo (Frame.address table) Flags.table).openedToUser
    else .leadingTo (Frame.address table) Flags.table
  /-- The page reads as zeros. -/
  zeroed : ∀ physical, Frame.containing physical = page → machine'.memory.wordAt physical = 0
  /-- Nothing is mapped but the page, and in the kernel region what the kernel space maps there. -/
  addressMap_eq : machine'.memory.addressMap space = fun other =>
    if other = .ofAddress address then some (.leadingTo (Frame.address page) (fresh flags))
    else (machine.memory.addressMap paging.kernel).sharedPart paging.layout other

/-- A space that was built just now: it has a directory, which is empty outside the kernel region,
and nothing else. -/
structure Blank (paging : Paging) (spaces : List AddressSpace) (others : List Nat)
    (machine : Machine) (space : AddressSpace) (machine' : Machine) : Prop where
  takes : Takes machine [space.directory] machine'
  empty : ∀ slot < entryCount, paging.layout.sharedSlots ≤ slot →
    machine'.memory.entry space.directory slot = Entry.unused
  consistent : Consistent paging machine' (space :: spaces) others
  not_mem : space ∉ spaces
  shown : Shows paging machine'.memory (space :: spaces) others
    ((viewOf machine.memory).addSpace paging space)

theorem blank_createSpace (h : Consistent paging machine spaces others) :
    paging.createSpace.Settles machine
      (fun space machine' => Blank paging spaces others machine space machine')
      fun error machine' => machine' = machine ∧ error = .outOfMemory ∧
        machine.frames.freeFrames = ∅ := by
  have htakes := takes_createSpace h.pool h.slots_le
  have hshows := shows_createSpace h (shows_viewOf machine.memory)
  refine ((htakes.and (settles_createSpace h).ensures).and hshows.ensures).mono ?_ ?_
  · rintro space machine' ⟨⟨⟨htakes, hempty⟩, hconsistent⟩, hnew, hshows⟩
    exact ⟨htakes, hempty, hconsistent, hnew, hshows⟩
  · exact fun _ _ hrefused => hrefused.1.1

namespace Blank

variable {middle : Machine} (h : Blank paging spaces others machine space middle)
include h

/-- A page outside the kernel region lies behind a slot that is empty. -/
theorem frame?_eq_none (hregion : paging.inKernelRegion address = false) :
    (middle.memory.entry space.directory (slotInDirectory address)).frame? = none := by
  have hle : paging.layout.sharedSlots ≤ slotInDirectory address :=
    Nat.le_of_not_lt (of_decide_eq_false hregion)
  rw [h.empty _ (slotInDirectory_lt address) hle]
  rfl

theorem ne_kernel (hkernel : paging.kernel ∈ spaces) : space ≠ paging.kernel := by
  rintro rfl
  exact h.not_mem hkernel

/-- The first page is backed with two more frames. -/
theorem settles_mapFresh (hkernel : paging.kernel ∈ spaces) :
    (paging.mapFresh space address flags).Settles middle
      (fun page machine' => ∃ table, Backs paging address flags machine space table page machine')
      fun error machine' => Takes middle [] machine' ∧
        Consistent paging machine' (space :: spaces) others ∧
        (error = .invalidOperation ∧ paging.inKernelRegion address = true ∨
          error = .outOfMemory ∧ middle.frames.freeFrames.card < 2) := by
  have hmem : space ∈ space :: spaces := List.mem_cons_self
  have htakes : (paging.mapFresh space address flags).Settles middle _ _ :=
    takes_mapFresh h.takes List.mem_cons_self (h.ne_kernel hkernel) h.frame?_eq_none flags
  have hconsistent : (paging.mapFresh space address flags).Settles middle _ _ :=
    Paging.settles_mapFresh h.consistent hmem
  have hshows : (paging.mapFresh space address flags).Settles middle _ _ :=
    shows_mapFresh h.consistent h.shown hmem
  refine ((htakes.and hconsistent.ensures).and hshows.ensures).mono ?_ ?_
  · rintro page machine' ⟨⟨⟨table, htakes, hentry⟩, -⟩, -, -, -, hzero, hshown⟩
    refine ⟨table, htakes, hentry, fun physical => WordMemory.wordAt_eq_zero hzero, ?_⟩
    rw [hshown.realizes_of_openSlot space hmem]
    funext other
    simp [View.setPage, View.addSpace, AddressMaps.set, AddressMaps.addSpace, Reaches, viewOf]
  · rintro error machine' ⟨⟨⟨htakes, hreason⟩, hconsistent⟩, -⟩
    exact ⟨htakes, hconsistent, hreason⟩

/-- As long as it has nothing but its directory, the space can be taken down again. -/
theorem takes_destroySpace (hkernel : paging.kernel ∈ spaces) (hactive : ⟨machine.active⟩ ∈ spaces)
    (hconsistent : Consistent paging machine' (space :: spaces) others)
    (htakes : Takes middle [] machine') :
    (paging.destroySpace space).Settles machine' (fun _ machine'' => Takes machine [] machine'')
      fun _ _ => False := by
  have hmine := h.takes.trans htakes
  refine (Paging.takes_destroySpace hconsistent List.mem_cons_self hmine fun slot hslot => ?_).mono
    (fun _ _ hdone => hdone) ?_
  -- Nothing was written to the directory since it was taken, so no slot leads to a table.
  · have hne := h.ne_kernel hkernel
    obtain ⟨hlt, hout⟩ := mem_ownSlots.mp hslot
    rw [htakes.entry_eq _ (h.takes.mem_taken List.mem_cons_self) slot hlt,
      h.empty slot hlt (hout.resolve_left hne)]
    rfl
  -- It is new, so it is neither the kernel space nor the one that is loaded.
  · rintro error machine'' ⟨-, hdirectory | hdirectory⟩
    · exact h.ne_kernel hkernel (directory_inj.mp hdirectory)
    · rw [hmine.active_eq] at hdirectory
      rw [← hdirectory] at hactive
      exact h.not_mem hactive

end Blank

end Paging

end KernelResources
