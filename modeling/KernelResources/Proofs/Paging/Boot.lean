import KernelResources.Proofs.Paging.Remapping
import KernelResources.Proofs.Paging.Takings

/-!
# The kernel space at first

The kernel space is built with a table for every slot up to the end of the heap, and with the range
from the kernel image to the end of the heap mapped to itself. The tables are counted from the end
of the range, rounded up; the pages are found in steps of one page from its start, which is not
rounded down. If the start lies further into its page than the end does into its own, the steps end
before they get to the last page.

* `Layout.Meets`, `Layout.Oversteps`: the pages of the range, and the one that is stepped over.
* `mem_identityPages_iff`: the pages that the steps get to are the others.
* `takes_addSharedTables`, `takes_create`: a frame for the directory and one for each table.
* `settles_map_kernel`: where there is a table, mapping a page takes no frame.
* `kernelSpace_of_create` puts this together, and `notMapped_of_unalignedStart` shows a layout
  whose range loses its end.
-/

namespace KernelResources

/-! ## Pages of the range -/

namespace Layout

variable {layout : Layout} {page : PageNumber} {address : Nat}

/-- Whether a page holds any part of the range from the kernel image to the end of the heap. -/
def Meets (layout : Layout) (page : PageNumber) : Prop :=
  ∃ address, layout.kernelStart ≤ address ∧ address < layout.heapLimit ∧
    PageNumber.ofAddress address = page

/-- Whether steps of one page through the range end short of a page: it is the page where the range
ends, and the range ends no further into it than it begins into its first one. -/
def Oversteps (layout : Layout) (page : PageNumber) : Prop :=
  0 < layout.heapLimit % pageSize ∧
    layout.heapLimit % pageSize ≤ layout.kernelStart % pageSize ∧
    page = PageNumber.ofAddress layout.heapLimit

instance (layout : Layout) (page : PageNumber) : Decidable (layout.Oversteps page) :=
  inferInstanceAs (Decidable (_ ∧ _ ∧ _))

/-- A range that begins or ends with a page is not stepped out of early. -/
theorem not_oversteps_of_aligned
    (h : layout.kernelStart % pageSize = 0 ∨ layout.heapLimit % pageSize = 0) :
    ¬layout.Oversteps page := by
  rintro ⟨hpos, hle, -⟩
  omega

end Layout

namespace Paging

open Machine

variable {layout : Layout} {page : PageNumber} {address : Nat}

theorem ofAddress_eq_iff {address other : Nat} (h : address < bitRange 32)
    (hother : other < bitRange 32) :
    PageNumber.ofAddress address = .ofAddress other ↔ address / pageSize = other / pageSize := by
  simp only [PageNumber.ofAddress, ← BitVec.toNat_inj, BitVec.toNat_ofNat, pageSize,
    bitRange_32] at *
  omega

/-- The steps get to all pages of the range but the one that they end short of. -/
theorem mem_identityPages_iff (hlimit : layout.heapLimit < bitRange 32) (page : PageNumber) :
    page ∈ (identityAddresses layout).map PageNumber.ofAddress ↔
      layout.Meets page ∧ ¬layout.Oversteps page := by
  simp only [List.mem_map, mem_identityAddresses, Layout.Meets, Layout.Oversteps]
  constructor
  · rintro ⟨address, ⟨hstart, hend, hmod⟩, rfl⟩
    refine ⟨⟨address, hstart, hend, rfl⟩, ?_⟩
    rintro ⟨hpos, hle, hpage⟩
    -- A step into the page where the range ends lies as far into it as the start into its own.
    have hnumber := (ofAddress_eq_iff (hend.trans hlimit) hlimit).mp hpage
    simp only [pageSize] at *
    omega
  · rintro ⟨⟨other, hstart, hend, rfl⟩, hreached⟩
    have hother := hend.trans hlimit
    -- The step into the page of an address gets beyond the end only in the one page.
    have hin : layout.kernelStart % pageSize + pageSize * (other / pageSize) <
        layout.heapLimit := by
      by_contra hbeyond
      refine hreached ⟨?_, ?_, (ofAddress_eq_iff hother hlimit).mpr ?_⟩
      all_goals
        simp only [pageSize] at *
        omega
    refine ⟨layout.kernelStart % pageSize + pageSize * (other / pageSize), ⟨?_, hin, ?_⟩,
      (ofAddress_eq_iff (hin.trans hlimit) hother).mpr ?_⟩
    all_goals
      simp only [pageSize] at *
      omega

/-! ## Frames -/

variable {origin machine : Machine} {frames : List Nat} {paging : Paging}
  {spaces : List AddressSpace} {others : List Nat}

/-- A table for one slot takes one frame. -/
theorem takes_addSharedTable {directory slot : Nat} (h : Takes origin frames machine)
    (hdirectory : directory ∈ frames) (hslot : slot < entryCount) :
    (addSharedTable directory slot).Settles machine
      (fun _ machine' => ∃ table, Takes origin (table :: frames) machine') fun _ _ => True := by
  refine Action.settles_bind (settles_takeZeroed h.pool (fun table hfree => ?_) trivial)
  exact settles_setEntry hslot ⟨table, (h.takingZeroed hfree).entering
    (List.mem_cons_of_mem _ hdirectory) hslot _⟩

/-- Tables for the first slots take as many frames. -/
theorem takes_addSharedTables {directory count : Nat} (h : Takes origin frames machine)
    (hdirectory : directory ∈ frames) (hcount : count ≤ entryCount) :
    ((List.range count).forM (addSharedTable directory)).Settles machine
      (fun _ machine' => ∃ tables : List Nat, tables.length = count ∧
        Takes origin (tables ++ frames) machine') fun _ _ => True := by
  refine (Action.settles_forM (fun behind middle => ∃ tables : List Nat,
    tables.length = behind.length ∧ Takes origin (tables ++ frames) middle) ?_
      ⟨[], rfl, h⟩).mono_done fun _ _ ⟨tables, hlength, htakes⟩ =>
        ⟨tables, hlength.trans List.length_range, htakes⟩
  rintro behind slot rest middle hitems ⟨tables, hlength, htakes⟩
  have hslot := Nat.lt_of_lt_of_le (lt_and_not_mem_of_range hitems).1 hcount
  refine (takes_addSharedTable htakes (List.mem_append_right _ hdirectory) hslot).mono_done ?_
  rintro - next ⟨table, htaking⟩
  exact ⟨table :: tables, by simp [hlength], htaking⟩

/-- Mapping pages to themselves takes no frame: their tables are there already. -/
theorem frames_mapIdentities (kernel : AddressSpace) (addresses : List Nat) :
    (addresses.forM (mapIdentity kernel)).Settles machine
      (fun _ machine' => machine'.frames = machine.frames) fun _ _ => True := by
  refine Action.settles_forM (fun _ (middle : Machine) => middle.frames = machine.frames) ?_
    rfl
  intro _ address _ middle _ hsame
  refine Action.settles_bind ((settles_tableFor_existing kernel address).mono ?_
    fun _ _ _ => trivial)
  rintro table _ ⟨rfl, -⟩
  exact settles_setEntry (slotInTable_lt address) hsame

/-- Building the kernel space takes a frame for the directory and one for each table. -/
theorem takes_create (hpool : machine.frames.Consistent) (hlimit : layout.heapLimit < bitRange 32) :
    (create layout).Settles machine
      (fun _ machine' => machine'.frames.freeFrames ⊆ machine.frames.freeFrames ∧
        machine.frames.freeCount = machine'.frames.freeCount + (1 + layout.sharedSlots))
      fun _ _ => True := by
  refine Action.settles_bind (settles_takeZeroed hpool (fun directory hfree => ?_) trivial)
  rw [Layout.heapEnd_eq_pure hlimit, pure_bind]
  refine (takes_addSharedTables ((Takes.refl hpool).takingZeroed hfree) List.mem_cons_self
    (sharedSlots_le hlimit)).bind ?_
  rintro - tables ⟨taken, hlength, htakes⟩
  refine (frames_mapIdentities _ _).bind fun _ pages hsame => ?_
  refine Action.settles_bind (Action.settles_modify (Action.settles_bind
    (Action.settles_note rfl (Action.settles_pure ?_))))
  have hcard := htakes.card_freeFrames
  rw [← hpool.freeCount_eq_card, ← htakes.pool.freeCount_eq_card, ← hsame, List.length_append,
    hlength, List.length_singleton] at hcard
  refine ⟨?_, hcard.trans (by rw [Nat.add_comm layout.sharedSlots])⟩
  show pages.frames.freeFrames ⊆ _
  rw [hsame, htakes.freeFrames_eq]
  exact Finset.sdiff_subset

/-! ## Pages that are mapped later -/

theorem slotInDirectory_lt_sharedSlots (h : address < layout.heapLimit) :
    slotInDirectory address < layout.sharedSlots := by
  simp only [slotInDirectory, Layout.sharedSlots, ceilDiv, regionSize, pageSize, entryCount]
  omega

/-- The kernel space has its table for every slot of the kernel region, so asking for it changes
nothing. -/
theorem settles_tableFor_kernel (h : Consistent paging machine spaces others)
    (hslot : slotInDirectory address < paging.layout.sharedSlots) (create : Bool) :
    (tableFor paging.kernel address create).Settles machine
      (fun table machine' => machine' = machine ∧
        (machine.memory.entry paging.kernel.directory (slotInDirectory address)).frame? =
          some table)
      fun _ _ => False := by
  have hsome := h.present _ hslot
  refine (settles_tableFor_exact h.pool paging.kernel address create).mono ?_ ?_
  · rintro table machine' (⟨htable, rfl⟩ | ⟨hnone, -⟩)
    · exact ⟨rfl, htable⟩
    · rw [hnone] at hsome
      cases hsome
  · rintro error machine' ⟨-, hnone, -⟩
    rw [hnone] at hsome
    cases hsome

/-- Mapping a page of the kernel region through the kernel space writes to memory and does nothing
else. Only a page that is mapped already is refused. -/
theorem settles_map_kernel (h : Consistent paging machine spaces others)
    (hslot : slotInDirectory address < paging.layout.sharedSlots) (physical : Nat) (flags : Flags) :
    (paging.map paging.kernel address physical flags).Settles machine
      (fun _ machine' => machine' = { machine with memory := machine'.memory })
      fun error machine' => error = .alreadyMapped ∧ machine' = machine := by
  have hleaf := slotInTable_lt address
  refine Action.settles_bind (Action.settles_refuseIf (fun hshared => (hshared.1 rfl).elim)
    fun _ => ?_)
  refine Action.settles_bind ((settles_tableFor_kernel h hslot true).mono ?_ fun _ _ => False.elim)
  rintro table machine' ⟨rfl, -⟩
  refine Action.settles_bind (settles_entry hleaf (Action.settles_bind
    (Action.settles_refuseIf (fun _ => ⟨rfl, rfl⟩) fun _ => Action.settles_bind
      (settles_setEntry hleaf ?_))))
  exact (writes_openToUser paging.kernel address (borrowed flags)).mono_done
    fun _ _ hwrites => hwrites

/-! ## The kernel space at first -/

/-- The kernel space that was built maps the pages of the range that the steps get to, each address
of them to itself, and nothing else. Addresses count modulo 4 GiB. -/
theorem translate_of_create {machine' : Machine} {before after : Journal}
    (hpool : machine.frames.Consistent) (htotal : machine.frames.total ≤ bitRange 20)
    (h : create layout machine before = .done paging machine' after) (address : Nat)
    (journal : Journal) :
    (layout.Meets (.ofAddress address) → ¬layout.Oversteps (.ofAddress address) →
        translate paging.kernel address machine' journal =
          .done (address % bitRange 32, Flags.kernelPage) machine' journal) ∧
      (¬layout.Meets (.ofAddress address) ∨ layout.Oversteps (.ofAddress address) →
        translate paging.kernel address machine' journal =
          .refused .notMapped machine' journal) := by
  have hpage := mem_identityPages_iff (heapLimit_lt_of_create h) (.ofAddress address)
  have hmap := congrFun (addressMap_of_create hpool htotal h) (.ofAddress address)
  rw [translate_eq, AddressMap.translate?]
  constructor
  · intro hmeets hreached
    rw [hmap.trans (if_pos (hpage.mpr ⟨hmeets, hreached⟩))]
    have haddress : (PageNumber.ofAddress address).toNat * pageSize + address % pageSize =
        address % bitRange 32 := by
      simp only [PageNumber.ofAddress, BitVec.toNat_ofNat, pageSize, bitRange_32]
      omega
    rw [← haddress]
    rfl
  · intro hmissed
    rw [hmap.trans (if_neg fun hmem =>
      hmissed.elim (fun hnot => hnot (hpage.mp hmem).1) (hpage.mp hmem).2)]
    rfl

/-- Building the kernel space takes one frame for its directory and one for each slot of the kernel
region. The space then maps every address in a page of the range from the kernel image to the end
of the heap to itself, with the flags of kernel pages, and nothing else. One page may be left out:
if the start of the range lies further into its page than the end does into its own, or as far, and
the end is not the end of a page, the page where the range ends is not mapped. Every slot up to the
end of the heap has a table, and after any run asking for it changes nothing and mapping a page
there takes no frame. -/
theorem kernelSpace_of_create {start machine : Machine} {journal journal' : Journal}
    (hpool : start.frames.Reachable) (htotal : start.frames.total ≤ bitRange 20)
    (h : create layout start journal = .done paging machine journal') :
    (machine.frames.freeFrames ⊆ start.frames.freeFrames ∧
      start.frames.freeCount = machine.frames.freeCount + (1 + layout.sharedSlots)) ∧
    (∀ address journal,
      (layout.Meets (.ofAddress address) → ¬layout.Oversteps (.ofAddress address) →
        translate paging.kernel address machine journal =
          .done (address % bitRange 32, Flags.kernelPage) machine journal) ∧
      (¬layout.Meets (.ofAddress address) ∨ layout.Oversteps (.ofAddress address) →
        translate paging.kernel address machine journal = .refused .notMapped machine journal)) ∧
    ∀ address < layout.heapLimit,
      (machine.memory.entry paging.kernel.directory (slotInDirectory address)).isPresent ∧
      ∀ ledger, Ledger.Reachable layout start journal paging ledger →
        (∀ create, (tableFor paging.kernel address create).Settles ledger.machine
          (fun _ machine' => machine' = ledger.machine) fun _ _ => False) ∧
        ∀ physical flags, (paging.map paging.kernel address physical flags).Settles ledger.machine
          (fun _ machine' => machine' = { ledger.machine with memory := machine'.memory })
          fun error machine' => error = .alreadyMapped ∧ machine' = ledger.machine := by
  have hframes := FramePool.consistent_of_reachable hpool
  have hlimit := heapLimit_lt_of_create h
  obtain ⟨rfl, hbuilt⟩ := (settles_create hframes htotal hlimit).of_done h
  refine ⟨(takes_create hframes hlimit).of_done h, translate_of_create hframes htotal h,
    fun address haddress => ⟨?_, fun ledger hreachable => ?_⟩⟩
  · have hsome := hbuilt.present _ (slotInDirectory_lt_sharedSlots haddress)
    simpa [Entry.frame?] using hsome
  · obtain ⟨hconsistent, -⟩ := consistent_of_reachable hpool htotal hreachable
    have hslot := slotInDirectory_lt_sharedSlots haddress
    exact ⟨fun create => (settles_tableFor_kernel hconsistent hslot create).mono_done
      fun _ _ hdone => hdone.1, settles_map_kernel hconsistent hslot⟩

/-- In eight frames there is room for a kernel space with one table. It maps the one page of its
layout and not the next, and that page needs no frame to be mapped again later. -/
theorem kernelSpace_of_smallMachine :
    ∃ paging machine journal, create smallLayout smallMachine #[] = .done paging machine journal ∧
      machine.frames.freeCount = 6 ∧
      translate paging.kernel 0x1234 machine #[] = .done (0x1234, Flags.kernelPage) machine #[] ∧
      translate paging.kernel 0x2000 machine #[] = .refused .notMapped machine #[] ∧
      ∀ physical flags, (paging.map paging.kernel 0x400 physical flags).Settles machine
        (fun _ machine' => machine' = { machine with memory := machine'.memory })
        fun error machine' => error = .alreadyMapped ∧ machine' = machine := by
  have hbuilds : ((create smallLayout smallMachine #[]).passes fun _ _ _ => true) = true := by
    decide +kernel
  obtain ⟨paging, machine, journal, hcreate, -⟩ := Outcome.passes_iff.mp hbuilds
  obtain ⟨⟨-, hfrees⟩, htranslates, htables⟩ :=
    kernelSpace_of_create (.allFree (by decide)) (by decide) hcreate
  have hnext : ¬smallLayout.Meets (.ofAddress 0x2000) := by
    rintro ⟨address, hstart, hend, hpage⟩
    have hnumber := congrArg BitVec.toNat hpage
    simp only [smallLayout, Layout.heapLimit, PageNumber.ofAddress, BitVec.toNat_ofNat,
      pageSize] at *
    omega
  have hcount : 8 = machine.frames.freeCount + 2 := hfrees
  refine ⟨paging, machine, journal, hcreate, by omega, ?_, ?_, ?_⟩
  · exact (htranslates 0x1234 #[]).1 ⟨0x1234, by decide, by decide, rfl⟩
      (Layout.not_oversteps_of_aligned (.inl rfl))
  · exact (htranslates 0x2000 #[]).2 (.inl hnext)
  · exact ((htables 0x400 (by decide)).2 _ (.create hcreate)).2

/-- A layout whose range begins in the middle of a page and ends in the middle of another. -/
def unalignedLayout : Layout where
  kernelStart := 0x1800
  heapStart := 0x2000
  heapSize := 0x800
  userStackTop := 0x80000000

/-- The second page of the range is stepped over: the heap begins with an address that the kernel
space does not map. -/
theorem notMapped_of_unalignedStart :
    ∃ paging machine journal,
      create unalignedLayout smallMachine #[] = .done paging machine journal ∧
      unalignedLayout.kernelStart ≤ unalignedLayout.heapStart ∧
      unalignedLayout.heapStart < unalignedLayout.heapLimit ∧
      translate paging.kernel unalignedLayout.heapStart machine journal =
        .refused .notMapped machine journal := by
  have hmissed : ((create unalignedLayout smallMachine #[]).passes fun paging machine journal =>
      (translate paging.kernel unalignedLayout.heapStart machine journal).failsWith
        fun error _ _ => decide (error = .notMapped)) = true := by decide +kernel
  obtain ⟨paging, machine, journal, hcreate, hfails⟩ := Outcome.passes_iff.mp hmissed
  refine ⟨paging, machine, journal, hcreate, by decide, by decide, ?_⟩
  -- A translation that is refused changes nothing.
  obtain ⟨error, machine', journal', hout, herror⟩ := Outcome.failsWith_iff.mp hfails
  obtain rfl := of_decide_eq_true herror
  have htranslate := translate_eq paging.kernel unalignedLayout.heapStart machine journal
  rw [hout] at htranslate ⊢
  split at htranslate
  · cases htranslate
  · exact htranslate

end Paging

end KernelResources
