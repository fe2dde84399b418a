import Mathlib.Data.List.MinMax
import Mathlib.Order.Lattice.Nat
import KernelResources.Proofs.Heap.Resizing

/-!
# What a heap can supply

The statistics of a heap name the largest free payload. They are computed by a walk of their own,
which knows nothing of the search for a block, of rounding or of headers. Still a request is granted
just if it is not larger than that number, because every block is made of granules.

* `RoomAt` says that the list has a free block with room at an address, and `le_largestFree_iff`
  that the statistics tell whether there is one.
* `Takes` says what taking a block does to the statistics; `takes_of_cut` draws it from how the
  block is cut.
* `supply_of_attained`: after any run, a request is granted exactly if the statistics promise it, at
  the lowest address that has room, and with less than one smallest block to spare.
-/

namespace KernelResources.Heap

variable {heap heap' : Heap} {blocks before after : List Block} {block : Block} {session : Session}
  {size needed arenaSize address : Nat}

/-! ## Room -/

/-- The links lead to a free block at `address` whose payload holds `size` bytes. -/
structure RoomAt (heap : Heap) (size address : Nat) : Prop where
  /-- The block is in the list. -/
  linked : Linked heap address
  /-- It is free. -/
  free : (Header.load heap.memory address).free = true
  /-- It has room for the payload and a header. -/
  size_le : size + headerSize ≤ (Header.load heap.memory address).size

theorem Holds.roomAt_iff (h : Holds heap blocks) :
    RoomAt heap size address ↔ ∃ hole ∈ blocks, hole.HasRoom size ∧ hole.address = address := by
  constructor
  · rintro ⟨hlinked, hfree, hsize⟩
    obtain ⟨hole, hhole, rfl⟩ := h.exists_of_linked hlinked
    obtain ⟨-, hloadSize, hloadFree⟩ := h.load_eq hhole
    exact ⟨hole, hhole, ⟨hloadFree ▸ hfree, hloadSize ▸ hsize⟩, rfl⟩
  · rintro ⟨hole, hhole, ⟨hfree, hsize⟩, rfl⟩
    obtain ⟨-, hloadSize, hloadFree⟩ := h.load_eq hhole
    exact ⟨h.linked hhole, hloadFree ▸ hfree, hloadSize ▸ hsize⟩

/-- The first block that fits is the lowest one with room. -/
theorem Holds.isLeast_roomAt (h : Holds heap (before ++ block :: after))
    (hneeded : blockSize? size = some needed) (hfits : block.fits needed = true)
    (hbefore : ∀ other ∈ before, other.fits needed = false) :
    IsLeast {address | RoomAt heap size address} block.address := by
  have hblock : block ∈ before ++ block :: after := List.mem_append_right _ List.mem_cons_self
  refine ⟨h.roomAt_iff.mpr ⟨block, hblock, (h.fits_iff hblock hneeded).mp hfits, rfl⟩, ?_⟩
  intro address hroomAt
  obtain ⟨hole, hhole, hroom, rfl⟩ := h.roomAt_iff.mp hroomAt
  rcases List.mem_append.mp hhole with hmem | hmem
  · -- No block in front fits.
    have hshort := hbefore hole hmem
    rw [(h.fits_iff hhole hneeded).mpr hroom] at hshort
    cases hshort
  · rcases List.mem_cons.mp hmem with rfl | hmem
    · exact Nat.le_refl _
    · exact Nat.le_trans (Nat.le_add_right _ _) (h.block_le hmem)

/-- The statistics tell whether a block has room. -/
theorem le_largestFree_iff (hsize : size ≠ 0) :
    size ≤ (statsOf arenaSize blocks).largestFree ↔ ∃ hole ∈ blocks, hole.HasRoom size := by
  constructor
  · intro hle
    refine Classical.byContradiction fun hnone => ?_
    have hbelow : (statsOf arenaSize blocks).largestFree ≤ size - 1 := by
      refine List.max_le_of_forall_le _ _ fun payload hmem => ?_
      obtain ⟨hole, hhole, rfl⟩ := List.mem_map.mp hmem
      obtain ⟨hhole, hfree⟩ := List.mem_filter.mp hhole
      have hshort : ¬size + headerSize ≤ hole.size := fun hroom =>
        hnone ⟨hole, hhole, hfree, hroom⟩
      omega
    omega
  · rintro ⟨hole, hhole, hfree, hroom⟩
    have hle : size ≤ hole.size - headerSize := by omega
    exact List.le_max_of_le (List.mem_map_of_mem (f := fun hole : Block => hole.size - headerSize)
      (List.mem_filter.mpr ⟨hhole, hfree⟩)) hle

/-- The size of the block that a request needs is what it asks for in granules, and a header. -/
theorem eq_of_blockSize? (h : blockSize? size = some needed) :
    needed = roundUp size granule + headerSize := by
  obtain ⟨padded, hpadded, hsum⟩ := Option.bind_eq_some_iff.mp h
  obtain ⟨sum, hsum', rfl⟩ := Option.map_eq_some_iff.mp hpadded
  unfold checkedAdd? at hsum hsum'
  split at hsum'
  case isFalse => cases hsum'
  cases hsum'
  split at hsum
  case isFalse => cases hsum
  cases hsum
  rfl

/-! ## Statistics -/

/-- Statistics change as they do when `bytes` free bytes are taken into use. -/
structure Takes (found found' : HeapStats) (bytes : Nat) : Prop where
  /-- The bytes are in use now. -/
  usedBytes_eq : found'.usedBytes = found.usedBytes + bytes
  /-- They were free before. -/
  freeBytes_eq : found'.freeBytes + bytes = found.freeBytes

theorem usedBytes_cons : (statsOf arenaSize (block :: after)).usedBytes =
    (if block.free then 0 else block.size) + (statsOf arenaSize after).usedBytes := by
  cases hfree : block.free <;> simp [statsOf, hfree]

theorem freeBytes_cons : (statsOf arenaSize (block :: after)).freeBytes =
    (if block.free then block.size else 0) + (statsOf arenaSize after).freeBytes := by
  cases hfree : block.free <;> simp [statsOf, hfree]

theorem usedBytes_append : (statsOf arenaSize (before ++ after)).usedBytes =
    (statsOf arenaSize before).usedBytes + (statsOf arenaSize after).usedBytes := by
  show List.sum _ = List.sum _ + List.sum _
  rw [List.filter_append, List.map_append, List.sum_append]

theorem freeBytes_append : (statsOf arenaSize (before ++ after)).freeBytes =
    (statsOf arenaSize before).freeBytes + (statsOf arenaSize after).freeBytes := by
  show List.sum _ = List.sum _ + List.sum _
  rw [List.filter_append, List.map_append, List.sum_append]

/-- Where a free block is replaced by others that are as large together, the statistics count as
taken what is in use of them. -/
theorem takes_of_replaced (hfree : block.free = true) {parts : List Block} {bytes : Nat}
    (hused : (statsOf arenaSize parts).usedBytes = bytes)
    (hsum : (statsOf arenaSize parts).freeBytes + bytes = block.size) (before after : List Block) :
    Takes (statsOf arenaSize (before ++ block :: after))
      (statsOf arenaSize (before ++ (parts ++ after))) bytes where
  usedBytes_eq := by
    rw [usedBytes_append, usedBytes_append, usedBytes_append, usedBytes_cons, hused, if_pos hfree]
    omega
  freeBytes_eq := by
    rw [freeBytes_append, freeBytes_append, freeBytes_append, freeBytes_cons, if_pos hfree]
    omega

/-- A free block that is taken into use is cut so that less than one smallest block is left over
in it. The statistics count the bytes of the first part as taken. -/
theorem takes_of_cut (hfits : block.fits needed = true) (before after : List Block)
    (arenaSize : Nat) :
    ∃ new rest, cutBlocks { block with free := false } needed = new :: rest ∧
      new.address = block.address ∧ new.free = false ∧ needed ≤ new.size ∧
      new.size < needed + minBlockSize ∧
      Takes (statsOf arenaSize (before ++ block :: after))
        (statsOf arenaSize (before ++ (cutBlocks { block with free := false } needed ++ after)))
        new.size := by
  obtain ⟨hfree, hsize⟩ : block.free = true ∧ needed ≤ block.size := by
    simpa [Block.fits] using hfits
  by_cases hshort : block.size - needed < minBlockSize
  · refine ⟨{ block with free := false }, [], if_pos hshort, rfl, rfl, hsize, ?_, ?_⟩
    · show block.size < needed + minBlockSize
      omega
    · rw [cutBlocks, if_pos hshort]
      exact takes_of_replaced hfree rfl (Nat.zero_add _) before after
  · -- The rest stays free.
    refine ⟨{ block with size := needed, free := false }, [restOf block needed], if_neg hshort, rfl,
      rfl, Nat.le_refl _, Nat.lt_add_of_pos_right (by decide), ?_⟩
    rw [cutBlocks, if_neg hshort]
    refine takes_of_replaced hfree rfl ?_ before after
    exact Nat.sub_add_cancel hsize

/-! ## Runs -/

/-- What a granted request for `size` bytes leads to, if the statistics were `found` before: the
lowest block with room was taken, and `capacity` is what its payload holds. -/
structure Grants (heap : Heap) (found : HeapStats) (size pointer capacity : Nat) (heap' : Heap) :
    Prop where
  /-- The block is the lowest free one with room. -/
  least : ∃ address, pointer = address + headerSize ∧
    IsLeast {address | RoomAt heap size address} address
  /-- The heap names the capacity. -/
  capacity_eq : ∀ journal, ∃ journal',
    Heap.capacity pointer heap' journal = .done capacity heap' journal'
  /-- The payload has the room that was asked for. -/
  size_le : size ≤ capacity
  /-- In granules, it has less than one smallest block to spare. -/
  capacity_lt : capacity < roundUp size granule + minBlockSize
  /-- The statistics count its bytes, with the header, as taken. -/
  takes : ∃ found', (∀ journal, stats heap' journal = .done found' heap' journal) ∧
    Takes found found' (capacity + headerSize)

theorem Holds.stats_eq (h : Holds heap blocks) (hcoalesced : Coalesced blocks)
    (journal : Journal) :
    stats heap journal = .done (statsOf heap.arena.size blocks) heap journal :=
  (h.wellFormed hcoalesced).stats_eq h.limit_lt

/-- Allocating from a coalesced list is granted if a block has room, and refused otherwise. -/
theorem settles_allocate_grants (h : Holds heap blocks) (hcoalesced : Coalesced blocks)
    (size : Nat) :
    (allocate size).Settles heap
      (fun pointer heap' => size ≠ 0 ∧ (∃ hole ∈ blocks, hole.HasRoom size) ∧
        ∃ capacity, Grants heap (statsOf heap.arena.size blocks) size pointer capacity heap')
      fun error heap' => heap' = heap ∧ (error = .invalidOperation ∧ size = 0 ∨
        error = .outOfMemory ∧ size ≠ 0 ∧ ∀ hole ∈ blocks, ¬hole.HasRoom size) := by
  by_cases hzero : size = 0
  · exact Action.settles_bind (Action.settles_refuseIf (fun _ => ⟨rfl, .inl ⟨rfl, hzero⟩⟩)
      (absurd hzero))
  refine ((settles_allocate h size).also (ensures_tidy_allocate h hcoalesced size)).mono ?_ ?_
  · rintro _ heap' ⟨⟨before, block, after, needed, rfl, -, hneeded, hfits, hbefore, rfl, hchanges⟩,
      htidy⟩
    have hblock : block ∈ before ++ block :: after := List.mem_append_right _ List.mem_cons_self
    obtain ⟨new, rest, hcut, haddress, hused, hle, hlt, htakes⟩ :=
      takes_of_cut hfits before after heap.arena.size
    have hholds := hchanges.holds
    have hstats := hholds.stats_eq (htidy.coalesced hholds)
    rw [hchanges.arena_eq] at hstats
    have hnew : new ∈ before ++ (cutBlocks { block with free := false } needed ++ after) := by
      rw [hcut]
      exact List.mem_append_right _ List.mem_cons_self
    -- The capacity is what the block has behind its header.
    have hheader : new.size - headerSize + headerSize = new.size := by
      have hroom := (blockSize?_bounds hneeded).1
      omega
    have hrounded := eq_of_blockSize? hneeded
    refine ⟨hzero, ⟨block, hblock, (h.fits_iff hblock hneeded).mp hfits⟩, new.size - headerSize,
      ⟨block.address, rfl, h.isLeast_roomAt hneeded hfits hbefore⟩, fun journal => ?_, ?_, ?_, _,
      hstats, ?_⟩
    · obtain ⟨found, _, journal', hout, rfl, rfl⟩ :=
        (settles_capacity hholds hnew hused).exists_done journal
      rw [Block.payload, haddress] at hout
      exact ⟨journal', hout⟩
    · have hroom := (blockSize?_bounds hneeded).1
      omega
    · omega
    · rw [hheader]
      exact htakes
  · rintro error _ ⟨rfl, ⟨-, hsize⟩ | ⟨rfl, hnone⟩⟩
    · exact absurd hsize hzero
    · refine ⟨rfl, .inr ⟨rfl, hzero, fun hole hhole hroom => ?_⟩⟩
      cases hneeded : blockSize? size with
      | none =>
        -- Rounding leaves the range of numbers, and so does every size with that much room.
        have hlimit := (h.address_bounds hhole).2.2.2
        have hlt : hole.size < bitRange 64 := by
          rw [Block.limit] at hlimit
          omega
        exact Nat.not_lt.mpr hroom.2
          (lt_of_blockSize?_eq_none hneeded (h.tiles.bounds hhole).2.2.2 hlt)
      | some needed =>
        have hshort := hnone needed hneeded hole hhole
        rw [(h.fits_iff hhole hneeded).mpr hroom] at hshort
        cases hshort

/-- What a heap supplies. After any run on an arena whose end has 64 bits, the statistics can be
had, and a request is granted exactly if it is for at least one byte and for no more than the
largest free payload. It is granted at the lowest address with room, with at most as much to spare
as cannot stand alone, and the statistics change by the bytes of that block. Otherwise it is
refused, for asking for nothing or for want of memory, and nothing changes. -/
theorem supply_of_attained {start bytes : Nat} {memory : ByteMemory} {journal : Journal}
    (hlimit : start + bytes < bitRange 64)
    (h : Session.Attained start bytes memory journal session) (size : Nat) :
    ∃ found, stats session.heap session.journal = .done found session.heap session.journal ∧
      match allocate size session.heap session.journal with
      | .done pointer heap' _ => 1 ≤ size ∧ size ≤ found.largestFree ∧
        ∃ capacity, Grants session.heap found size pointer capacity heap'
      | .refused error heap' _ => ¬(1 ≤ size ∧ size ≤ found.largestFree) ∧
        heap' = session.heap ∧
          (error = .invalidOperation ∧ size = 0 ∨ error = .outOfMemory ∧ size ≠ 0)
      | .halted _ _ => False := by
  obtain ⟨blocks, haccounted, hcoalesced⟩ := coalesced_of_attained hlimit h
  have hholds := haccounted.holds
  refine ⟨_, hholds.stats_eq hcoalesced _, ?_⟩
  have hrun := settles_allocate_grants hholds hcoalesced size session.journal
  cases hout : allocate size session.heap session.journal with
  | done pointer heap' journal' =>
    rw [hout] at hrun
    obtain ⟨-, hzero, hroom, hgrants⟩ := hrun
    exact ⟨Nat.pos_of_ne_zero hzero, (le_largestFree_iff hzero).mpr hroom, hgrants⟩
  | refused error heap' journal' =>
    rw [hout] at hrun
    obtain ⟨-, rfl, ⟨rfl, hzero⟩ | ⟨rfl, hzero, hnone⟩⟩ := hrun
    · exact ⟨fun hsize => absurd hsize.1 (by omega), rfl, .inl ⟨rfl, hzero⟩⟩
    · refine ⟨fun hsize => ?_, rfl, .inr ⟨rfl, hzero⟩⟩
      obtain ⟨hole, hhole, hroom⟩ := (le_largestFree_iff hzero).mp hsize.2
      exact hnone hole hhole hroom
  | halted cause journal' =>
    rw [hout] at hrun
    exact hrun.elim

/-- In an arena of 256 bytes the first of two payloads is given back. Eight bytes are granted
where it was: what is left over behind them cannot stand alone. -/
theorem supply_of_smallArena :
    ∃ session, Session.Attained 16 256 .empty #[] session ∧ session.live 48 = none ∧
      (session.live 112).isSome ∧ ∃ found pointer heap' journal' capacity,
        allocate 8 session.heap session.journal = .done pointer heap' journal' ∧ pointer = 48 ∧
          Grants session.heap found 8 pointer capacity heap' := by
  have hrun : (Session.ofRun? (fun session request => session.Permits request) 16 256
      [.allocate 20, .allocate 8, .free 48]).any (fun session =>
        session.live 48 = none ∧ (session.live 112).isSome ∧
          (allocate 8 session.heap session.journal).passes fun pointer _ _ => pointer = 48) =
      true := by decide +kernel
  obtain ⟨session, hsession, hfacts⟩ := (Option.any_eq_true _ _).mp hrun
  obtain ⟨hgone, hkept, hpasses⟩ := of_decide_eq_true hfacts
  obtain ⟨pointer, heap', journal', hout, hpointer⟩ := Outcome.passes_iff.mp hpasses
  have hattained : Session.Attained 16 256 .empty #[] session :=
    .inl (Session.reachable_of_ofRun? hsession)
  obtain ⟨found, -, hgranted⟩ := supply_of_attained (by decide) hattained 8
  rw [hout] at hgranted
  obtain ⟨-, -, capacity, hgrants⟩ := hgranted
  exact ⟨session, hattained, hgone, hkept, found, pointer, heap', journal', capacity, hout,
    of_decide_eq_true hpointer, hgrants⟩

end KernelResources.Heap
