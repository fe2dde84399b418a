import KernelResources.Proofs.Heap.Guards
import KernelResources.Proofs.Settles

/-!
# Changes to the block list

Each step of the allocator turns one list of blocks into another. This file says into which:
`cutBlocks` for cutting a block in two, `mergeBlocks` for merging a block with its neighbours. Bytes
outside the headers stay in all of them.

* `settles_cut` and `settles_mergeNext` are about single steps, `settles_mergeNeighbours` is about
  both merges that follow a block that was given back.
* `settles_findFree` says that the search finds the first block that fits, and `settles_ownerOf`
  that a payload in use leads to its block.
-/

namespace KernelResources.Heap

variable {ε : Type} {heap heap' : Heap} {blocks blocks' before after : List Block}
  {block next : Block} {needed : Nat}

/-! ## Single steps -/

section Steps

variable {done : Unit → Heap → Prop} {refused : ε → Heap → Prop}

theorem settles_header {done : Header → Heap → Prop} {address : Nat}
    (h : done (Header.load heap.memory address) heap) :
    (header address : Action ε Heap Header).Settles heap done refused :=
  Action.settles_of_done (fun _ => rfl) h

theorem settles_storeHeader {address : Nat} {header : Header}
    (h : ∀ heap', heap'.arena = heap.arena →
      heap'.memory = header.store heap.memory address → done () heap') :
    (modify fun heap => { heap with memory := header.store heap.memory address } :
      Action ε Heap Unit).Settles heap done refused :=
  Action.settles_modify (h _ rfl rfl)

theorem settles_setField {address number : Nat} {field : Header.Field}
    (h : ∀ heap', heap'.arena = heap.arena →
      heap'.memory = field.write heap.memory address number → done () heap') :
    (setField address field number : Action ε Heap Unit).Settles heap done refused :=
  Action.settles_modify (h _ rfl rfl)

theorem settles_setPredecessor {link : Option Nat} {address : Nat}
    (h : ∀ heap', heap'.arena = heap.arena →
      heap'.memory = relink heap.memory link address → done () heap') :
    (setPredecessor link address : Action ε Heap Unit).Settles heap done refused := by
  cases link with
  | none => exact Action.settles_pure (h _ rfl rfl)
  | some next => exact settles_setField h

end Steps

/-- From one heap to another, the blocks are rewritten, and bytes outside the headers stay. -/
structure Changes (heap : Heap) (blocks : List Block) (heap' : Heap) (blocks' : List Block) :
    Prop where
  /-- The arena stays. -/
  arena_eq : heap'.arena = heap.arena
  /-- The headers describe the new blocks. -/
  holds : Holds heap' blocks'
  /-- Bytes outside the headers stay. -/
  headers : OnlyHeaders heap.memory blocks heap'.memory blocks'
  /-- No guard word is left without a block. -/
  orphans : ∀ address, Orphan heap'.memory blocks' address → Orphan heap.memory blocks address

theorem Changes.refl (h : Holds heap blocks) : Changes heap blocks heap blocks :=
  ⟨rfl, h, fun _ _ _ => rfl, fun _ horphan => horphan⟩

theorem Changes.guarded (h : Changes heap blocks heap' blocks') (hguarded : Guarded heap blocks) :
    Guarded heap' blocks' := by
  intro address hstart hlimit horphan
  rw [h.arena_eq] at hstart hlimit
  exact hguarded address hstart hlimit (h.orphans address horphan)

/-- Two changes in a row are one, if no header exists only in between. -/
theorem Changes.trans {middle : Heap} {between : List Block}
    (h : Changes heap blocks middle between) (h' : Changes middle between heap' blocks')
    (hbetween : ∀ query, InHeader between query → InHeader blocks query ∨ InHeader blocks' query) :
    Changes heap blocks heap' blocks' where
  arena_eq := h'.arena_eq.trans h.arena_eq
  holds := h'.holds
  headers query hblocks hblocks' := by
    have hnot : ¬InHeader between query := fun hin =>
      (hbetween query hin).elim hblocks hblocks'
    exact (h'.headers query hnot hblocks').trans (h.headers query hblocks hnot)
  orphans address horphan := h.orphans address (h'.orphans address horphan)

/-- A heap in the same arena holds what its headers describe. -/
theorem Holds.of_arena_eq (h : Holds heap blocks) (harena : heap'.arena = heap.arena)
    (htiles : Tiles heap.arena.start blocks' (heap.arena.start + heap.arena.size))
    (hchain : Chain heap'.memory none blocks' none) : Holds heap' blocks' :=
  ⟨harena ▸ htiles, hchain, harena ▸ h.size_pos, harena ▸ h.start_pos, harena ▸ h.start_aligned,
    harena ▸ h.limit_lt⟩

/-! ## Around a block -/

section Around

variable (h : Holds heap (before ++ block :: after))
include h

theorem Holds.tiles_around :
    Tiles heap.arena.start before block.address ∧ minBlockSize ≤ block.size ∧
      block.size % granule = 0 ∧
      Tiles block.limit after (heap.arena.start + heap.arena.size) :=
  Heap.tiles_around.mp h.tiles

theorem Holds.chain_around :
    Chain heap.memory none before (some block.address) ∧
      Header.load heap.memory block.address =
        block.header (lastLink none before) (firstLink after none) ∧
      Chain heap.memory (some block.address) after none :=
  Heap.chain_around.mp h.chain

/-- The block is where a link can lead. -/
theorem Holds.bounds_block :
    block.address ≠ 0 ∧ block.limit < bitRange 64 ∧ minBlockSize ≤ block.size :=
  have hbounds := h.address_bounds (List.mem_append_right _ List.mem_cons_self)
  ⟨hbounds.2.2.1, hbounds.2.2.2, h.tiles_around.2.1⟩

/-- The block begins at a multiple of a granule. -/
theorem Holds.aligned_block : block.address % granule = 0 :=
  h.tiles.aligned h.start_aligned (List.mem_append_right _ List.mem_cons_self)

/-- The blocks in front of a block end before its header. -/
theorem Holds.le_block {other : Block} (hother : other ∈ before) :
    other.address + minBlockSize ≤ block.address := by
  have hbounds := h.tiles_around.1.bounds hother
  simp only [Block.limit] at hbounds
  omega

/-- The blocks behind a block begin after its end. -/
theorem Holds.block_le {other : Block} (hother : other ∈ after) :
    block.limit ≤ other.address :=
  (h.tiles_around.2.2.2.bounds hother).1

/-- The link to the block behind leads behind the end of the block, and it can be kept. -/
theorem Holds.link_bounds {link : Nat} (hlink : firstLink after none = some link) :
    block.limit ≤ link ∧ link < bitRange 64 ∧ link ≠ 0 := by
  obtain ⟨other, hother, rfl⟩ := exists_of_firstLink hlink
  have hbounds := h.address_bounds (List.mem_append_right _ (List.mem_cons_of_mem block hother))
  refine ⟨h.block_le hother, ?_, hbounds.2.2.1⟩
  simp only [Block.limit] at hbounds
  omega

/-- The link to the block behind leads to a multiple of a granule. -/
theorem Holds.aligned_link {link : Nat} (hlink : firstLink after none = some link) :
    link % granule = 0 := by
  obtain ⟨other, hother, rfl⟩ := exists_of_firstLink hlink
  exact h.tiles.aligned h.start_aligned
    (List.mem_append_right _ (List.mem_cons_of_mem block hother))

end Around

/-- Some blocks in a row are replaced by others that cover the same range. The headers of all of
them may change, and that of the block behind them. The headers of blocks that are no more lose
their guard words. -/
theorem changes_splice (middle middle' : List Block) {addresses : List Nat}
    (h : Holds heap (before ++ (middle ++ after))) (harena : heap'.arena = heap.arena)
    (hagree : AgreeOutside addresses heap.memory heap'.memory)
    (haddresses : ∀ address ∈ addresses, (∃ block ∈ middle ++ middle', block.address = address) ∨
      firstLink after none = some address)
    (hguards : GuardsWithin addresses heap.memory heap'.memory)
    (hwiped : ∀ block ∈ middle, (∃ block' ∈ middle', block'.address = block.address) ∨
      ¬HasGuard heap'.memory block.address)
    (hfirst : ∀ next, firstLink middle' next = firstLink middle next)
    (htiles : ∀ first limit, Tiles first middle limit → Tiles first middle' limit)
    (hchain : Chain heap'.memory (lastLink none before) middle' (firstLink after none))
    (hafter : Chain heap'.memory (lastLink (lastLink none before) middle') after none) :
    Changes heap (before ++ (middle ++ after)) heap' (before ++ (middle' ++ after)) := by
  obtain ⟨first, hbefore, hrest⟩ := tiles_append.mp h.tiles
  obtain ⟨limit, hmiddle, hbehind⟩ := tiles_append.mp hrest
  have hmiddle' := htiles first limit hmiddle
  -- No header in front of the replaced blocks is touched.
  have hge (address : Nat) (hmem : address ∈ addresses) : first ≤ address := by
    rcases haddresses address hmem with ⟨block, hblock, rfl⟩ | hlink
    · rcases List.mem_append.mp hblock with hblock | hblock
      · exact (hmiddle.bounds hblock).1
      · exact (hmiddle'.bounds hblock).1
    · obtain ⟨block, hblock, rfl⟩ := exists_of_firstLink hlink
      exact Nat.le_trans hmiddle.le (hbehind.bounds hblock).1
  refine ⟨harena, h.of_arena_eq harena ?_ ?_, fun query hold hnew => hagree query ?_,
    fun address horphan => ?_⟩
  · exact tiles_append.mpr ⟨first, hbefore, tiles_append.mpr ⟨limit, hmiddle', hbehind⟩⟩
  · refine chain_append.mpr ⟨?_, chain_append.mpr ⟨hchain, hafter⟩⟩
    rw [firstLink_append, hfirst, ← firstLink_append]
    refine (chain_append.mp h.chain).1.congr fun other hother => hagree.load fun address hmem => ?_
    have hother := hbefore.bounds hother
    have hmem := hge address hmem
    simp only [Block.limit, minBlockSize, headerSize, granule] at *
    omega
  · intro address hmem
    rcases haddresses address hmem with ⟨block, hblock, rfl⟩ | hlink
    · rcases List.mem_append.mp hblock with hblock | hblock
      · exact outside_of_not_inHeader hold
          (List.mem_append_right _ (List.mem_append_left _ hblock))
      · exact outside_of_not_inHeader hnew
          (List.mem_append_right _ (List.mem_append_left _ hblock))
    · obtain ⟨block, hblock, rfl⟩ := exists_of_firstLink hlink
      exact outside_of_not_inHeader hold
        (List.mem_append_right _ (List.mem_append_right _ hblock))
  · have hnone (block : Block) (hblock : block ∈ middle) : block.address ≠ address := by
      rintro rfl
      rcases hwiped block hblock with ⟨block', hblock', heq⟩ | hwiped
      · exact horphan.no_block block'
          (List.mem_append_right _ (List.mem_append_left _ hblock')) heq
      · exact hwiped horphan.guard
    have hafter (block : Block) (hblock : block ∈ after) : block.address ≠ address :=
      horphan.no_block block (List.mem_append_right _ (List.mem_append_right _ hblock))
    refine ⟨horphan.aligned, ?_, fun block hblock => ?_⟩
    · refine (hguards address horphan.aligned horphan.guard).resolve_left fun hmem => ?_
      rcases haddresses address hmem with ⟨block, hblock, heq⟩ | hlink
      · rcases List.mem_append.mp hblock with hblock | hblock
        · exact hnone block hblock heq
        · exact horphan.no_block block
            (List.mem_append_right _ (List.mem_append_left _ hblock)) heq
      · obtain ⟨block, hblock, heq⟩ := exists_of_firstLink hlink
        exact hafter block hblock heq
    · rcases List.mem_append.mp hblock with hblock | hblock
      · exact horphan.no_block block (List.mem_append_left _ hblock)
      · exact (List.mem_append.mp hblock).elim (hnone block) (hafter block)

section Headers

variable (h : Holds heap (before ++ block :: after))
include h

/-- The header of one block is rewritten: its links and its size stay. -/
theorem changes_header {block' : Block} (harena : heap'.arena = heap.arena)
    (haddress : block'.address = block.address) (hsize : block'.size = block.size)
    (hload : Header.load heap'.memory block.address =
      block'.header (lastLink none before) (firstLink after none))
    (hagree : AgreeOutside [block.address] heap.memory heap'.memory)
    (hguards : GuardsWithin [block.address] heap.memory heap'.memory) :
    Changes heap (before ++ block :: after) heap' (before ++ block' :: after) := by
  refine changes_splice [block] [block'] h harena hagree (fun address hmem => ?_) hguards
    (fun other hother => .inl ⟨block', List.mem_cons_self, ?_⟩)
    (fun _ => congrArg some haddress) ?_ ⟨haddress ▸ hload, trivial⟩ ?_
  · exact .inl ⟨block, List.mem_cons_self, (List.mem_singleton.mp hmem).symm⟩
  · rw [haddress, List.mem_singleton.mp hother]
  · rintro first limit ⟨rfl, hmin, haligned, rfl⟩
    exact ⟨haddress, hsize ▸ hmin, hsize ▸ haligned, by rw [Block.limit, haddress, hsize]; rfl⟩
  · show Chain heap'.memory (some block'.address) after none
    rw [haddress]
    refine h.chain_around.2.2.congr fun other hother => hagree.load fun address hmem => ?_
    have hbehind := h.block_le hother
    have hmin := h.bounds_block.2.2
    rw [List.mem_singleton.mp hmem]
    simp only [Block.limit, minBlockSize, headerSize, granule] at *
    omega

/-- A block becomes free, or is taken into use. -/
theorem changes_setFree {free : Bool} (harena : heap'.arena = heap.arena)
    (hmemory : heap'.memory =
      Header.Field.free.write heap.memory block.address free.toNat) :
    Changes heap (before ++ block :: after) heap' (before ++ { block with free } :: after) := by
  refine changes_header h harena rfl rfl ?_ (hmemory ▸ agreeOutside_write .free _ _ _)
    (hmemory ▸ guardsWithin_write .free _ h.aligned_block (by simp))
  have hfits : free.toNat < bitRange Header.Field.free.width :=
    Nat.lt_of_le_of_lt (Bool.toNat_le _) (by decide)
  rw [hmemory, Header.load_write .free _ _ hfits, h.chain_around.2.1, Header.update, flagOf_toNat]
  rfl

/-- The guard is written where it is already. -/
theorem changes_setGuard (harena : heap'.arena = heap.arena)
    (hmemory : heap'.memory =
      Header.Field.guardWord.write heap.memory block.address guardWord) :
    Changes heap (before ++ block :: after) heap' (before ++ block :: after) := by
  refine changes_header h harena rfl rfl ?_ (hmemory ▸ agreeOutside_write .guardWord _ _ _)
    (hmemory ▸ guardsWithin_write .guardWord _ h.aligned_block (by simp))
  rw [hmemory, Header.load_write .guardWord _ _ (by decide), h.chain_around.2.1]
  rfl

end Headers

/-! ## Cutting a block in two -/

/-- What is left of a block behind its first `needed` bytes, as a free block. -/
def restOf (block : Block) (needed : Nat) : Block where
  address := block.address + needed
  size := block.size - needed
  free := true

/-- The blocks that a block is cut into: `needed` bytes and the rest, if that can stand alone. -/
def cutBlocks (block : Block) (needed : Nat) : List Block :=
  if block.size - needed < minBlockSize then [block]
  else [{ block with size := needed }, restOf block needed]

/-- The rest that is cut off a block. -/
def cutTail (block : Block) (needed : Nat) : Option Nat :=
  if block.size - needed < minBlockSize then none else some (restOf block needed).address

/-- A block is cut in two: the header of the rest is stored, the block behind is linked back to the
rest, and the block is linked to the rest and cut short. -/
theorem changes_cut {rest : Block} {stored linked ahead : ByteMemory}
    (h : Holds heap (before ++ block :: after)) (hmin : minBlockSize ≤ needed)
    (haligned : needed % granule = 0) (hrest : rest.address = block.address + needed)
    (hlimit : rest.limit = block.limit) (hrestMin : minBlockSize ≤ rest.size)
    (hrestAligned : rest.size % granule = 0)
    (harena : heap'.arena = heap.arena)
    (hstored : stored = (rest.header (some block.address) (firstLink after none)).store heap.memory
      rest.address)
    (hlinked : linked = relink stored (firstLink after none) rest.address)
    (hahead : ahead = Header.Field.next.write linked block.address rest.address)
    (hshort : heap'.memory = Header.Field.size.write ahead block.address needed) :
    Changes heap (before ++ block :: after) heap'
      (before ++ { block with size := needed } :: rest :: after) := by
  obtain ⟨-, -, -, htiles⟩ := h.tiles_around
  obtain ⟨-, hload, hchain⟩ := h.chain_around
  obtain ⟨hnonzero, hlt, -⟩ := h.bounds_block
  have hlink {link : Nat} (hlink : link ∈ (firstLink after none).toList) :
      rest.limit ≤ link ∧ link < bitRange 64 ∧ link ≠ 0 :=
    hlimit ▸ h.link_bounds (Option.mem_toList.mp hlink)
  rw [← hlimit] at hlt htiles
  simp only [Block.limit, minBlockSize, headerSize, granule] at hmin hrestMin hlt hlink
  -- The header of the rest, that of the block behind and that of the block itself are written.
  have hstore : AgreeOutside [rest.address] heap.memory stored :=
    hstored ▸ agreeOutside_store _ _ _
  have hrelink : AgreeOutside (firstLink after none).toList stored linked :=
    hlinked ▸ agreeOutside_relink _ _ _
  have hwrite : AgreeOutside ([block.address] ++ [block.address]) linked heap'.memory :=
    AgreeOutside.trans (hahead ▸ agreeOutside_write .next linked _ _)
      (hshort ▸ agreeOutside_write .size ahead _ _)
  -- The block itself: two fields of its header are written, and nothing else comes near.
  have hloadBlock : Header.load heap'.memory block.address =
      { block with size := needed : Block }.header (lastLink none before) (some rest.address) := by
    have hsame : Header.load linked block.address = Header.load heap.memory block.address := by
      refine (hstore.trans hrelink).load fun other hother => .inl ?_
      rcases List.mem_append.mp hother with hother | hother
      · rw [List.mem_singleton.mp hother]
        simp only [headerSize]
        omega
      · have hother := hlink hother
        simp only [headerSize]
        omega
    have hsize : needed < bitRange Header.Field.size.width := by
      show needed < bitRange 64
      omega
    have hnext : rest.address < bitRange Header.Field.next.width := by
      show rest.address < bitRange 64
      omega
    rw [hshort, Header.load_write .size _ _ hsize, hahead, Header.load_write .next _ _ hnext, hsame,
      hload, Header.update, Header.update, linkOf, if_neg (by omega)]
    rfl
  -- The rest: its header is stored as a whole, and later writes do not touch it.
  have hloadRest : Header.load heap'.memory rest.address =
      rest.header (some block.address) (firstLink after none) := by
    have hsame : Header.load heap'.memory rest.address = Header.load stored rest.address := by
      refine (hrelink.trans hwrite).load fun other hother => ?_
      simp only [headerSize]
      rcases List.mem_append.mp hother with hother | hother
      · have hother := hlink hother
        omega
      · have hother : other = block.address := by simpa using hother
        omega
    rw [hsame, hstored, Header.load_store]
    refine ⟨?_, fun link hmem => (hlink (Option.mem_toList.mpr hmem)).2, fun link hmem => ?_,
      (by decide : guardWord < bitRange 32)⟩
    · show rest.size < bitRange 64
      omega
    · cases hmem
      exact ⟨by omega, hnonzero⟩
  have hchainAfter : Chain heap'.memory (some rest.address) after none := by
    refine hchain.relinked htiles hstore hlinked hwrite (fun address hmem => ?_)
      (by omega) (by omega)
    have hmem : address = rest.address ∨ address = block.address := by simpa using hmem
    simp only [Block.limit, headerSize]
    omega
  have hblockAligned := h.aligned_block
  have hrestAddress : rest.address % granule = 0 := by
    simp only [granule] at *
    omega
  have hstoreGuards : GuardsWithin [rest.address] heap.memory stored :=
    hstored ▸ guardsWithin_store _ _ hrestAddress fun _ hmem => h.aligned_link hmem
  have hrelinkGuards : GuardsWithin (firstLink after none).toList stored linked :=
    hlinked ▸ guardsWithin_relink _ fun _ hmem => h.aligned_link hmem
  have hwriteGuards : GuardsWithin ([block.address] ++ [block.address]) linked heap'.memory :=
    GuardsWithin.trans
      (hahead ▸ guardsWithin_write .next linked hblockAligned fun _ => hrestAddress)
      (hshort ▸ guardsWithin_write .size ahead hblockAligned (by simp))
  refine changes_splice [block] [{ block with size := needed }, rest] h harena
    ((hstore.trans hrelink).trans hwrite) (fun address hmem => ?_)
    ((hstoreGuards.trans hrelinkGuards).trans hwriteGuards)
    (fun other hother => .inl ⟨_, List.mem_cons_self, ?_⟩) (fun _ => rfl) ?_
    ⟨hloadBlock, hloadRest, trivial⟩ hchainAfter
  · rcases List.mem_append.mp hmem with hmem | hmem
    · rcases List.mem_append.mp hmem with hmem | hmem
      · exact .inl ⟨rest, by simp, (List.mem_singleton.mp hmem).symm⟩
      · exact .inr (Option.mem_toList.mp hmem)
    · exact .inl ⟨block, by simp, by simpa [eq_comm] using hmem⟩
  · rw [List.mem_singleton.mp hother]
  · rintro first limit ⟨rfl, -, -, rfl⟩
    exact ⟨rfl, hmin, haligned, hrest, hrestMin, hrestAligned, hlimit⟩

/-- A block of sufficient size is cut in two if the rest can stand alone, and stays otherwise. -/
theorem settles_cut {refused : ε → Heap → Prop} (h : Holds heap (before ++ block :: after))
    (hle : needed ≤ block.size) (hmin : minBlockSize ≤ needed) (haligned : needed % granule = 0) :
    (cut block.address needed : Action ε Heap (Option Nat)).Settles heap
      (fun tail heap' => tail = cutTail block needed ∧
        Changes heap (before ++ block :: after) heap' (before ++ (cutBlocks block needed ++ after)))
      refused := by
  have hsize := h.tiles_around.2.2.1
  refine Action.settles_bind (settles_header ?_)
  rw [h.chain_around.2.1, Block.header, Action.subtract_eq_pure hle, pure_bind]
  by_cases hshort : block.size - needed < minBlockSize
  · simp only [hshort, if_true, cutTail, cutBlocks]
    exact Action.settles_pure ⟨rfl, .refl h⟩
  simp only [hshort, if_false, cutTail, cutBlocks]
  refine Action.settles_bind (settles_storeHeader fun stored harena₀ hstored => ?_)
  refine Action.settles_bind (settles_setPredecessor fun linked harena₁ hlinked => ?_)
  refine Action.settles_bind (settles_setField fun ahead harena₂ hahead => ?_)
  refine Action.settles_bind (settles_setField fun short harena₃ hshortened => ?_)
  refine Action.settles_pure ⟨rfl, changes_cut h hmin haligned rfl ?_ (Nat.le_of_not_lt hshort)
    ?_ ?_ hstored hlinked hahead hshortened⟩
  · rw [Block.limit, Block.limit, restOf, Nat.add_assoc, Nat.add_sub_cancel' hle]
  · simp only [restOf, granule] at *
    omega
  · rw [harena₃, harena₂, harena₁, harena₀]

/-! ## Merging blocks -/

/-- A block that takes in the block behind it. -/
def absorb (block next : Block) : Block := { block with size := block.size + next.size }

/-- A block takes in the block behind it: it gets that block's bytes and its link, the block behind
both is linked back to it, and the header in between is wiped. -/
theorem changes_absorb {sized ahead linked unguarded unlinked : ByteMemory}
    (h : Holds heap (before ++ block :: next :: after)) (harena : heap'.arena = heap.arena)
    (hsized : sized = Header.Field.size.write heap.memory block.address (block.size + next.size))
    (hahead : ahead =
      Header.Field.next.write sized block.address (numberOf (firstLink after none)))
    (hlinked : linked = relink ahead (firstLink after none) block.address)
    (hunguarded : unguarded = Header.Field.guardWord.write linked next.address 0)
    (hunlinked : unlinked = Header.Field.next.write unguarded next.address 0)
    (hwiped : heap'.memory = Header.Field.prev.write unlinked next.address 0) :
    Changes heap (before ++ block :: next :: after) heap'
      (before ++ absorb block next :: after) := by
  obtain ⟨-, hmin, -, haddress, hmin', -, htiles⟩ := h.tiles_around
  obtain ⟨-, hload, -, hchain⟩ := h.chain_around
  obtain ⟨hnonzero, -, -⟩ := h.bounds_block
  have hsplit : before ++ block :: next :: after = (before ++ [block]) ++ next :: after := by simp
  have hlt : next.limit < bitRange 64 := (hsplit ▸ h : Holds heap _).bounds_block.2.1
  have hlink {link : Nat} (hlink : link ∈ (firstLink after none).toList) :
      next.limit ≤ link ∧ link < bitRange 64 ∧ link ≠ 0 :=
    (hsplit ▸ h : Holds heap _).link_bounds (Option.mem_toList.mp hlink)
  simp only [Block.limit, minBlockSize, headerSize, granule] at hmin hmin' hlt hlink haddress
  -- The header of the block, that of the block behind both and the one in between are written.
  have hgrow : AgreeOutside ([block.address] ++ [block.address]) heap.memory ahead :=
    AgreeOutside.trans (hsized ▸ agreeOutside_write .size heap.memory _ _)
      (hahead ▸ agreeOutside_write .next sized _ _)
  have hrelink : AgreeOutside (firstLink after none).toList ahead linked :=
    hlinked ▸ agreeOutside_relink _ _ _
  have hwipe : AgreeOutside ([next.address] ++ [next.address] ++ [next.address]) linked
      heap'.memory :=
    AgreeOutside.trans (AgreeOutside.trans
      (hunguarded ▸ agreeOutside_write .guardWord linked _ _)
      (hunlinked ▸ agreeOutside_write .next unguarded _ _))
      (hwiped ▸ agreeOutside_write .prev unlinked _ _)
  -- The block: two fields of its header are written before anything else is.
  have hloadBlock : Header.load heap'.memory block.address =
      (absorb block next).header (lastLink none before) (firstLink after none) := by
    have hsame : Header.load heap'.memory block.address = Header.load ahead block.address := by
      refine (hrelink.trans hwipe).load fun other hother => .inl ?_
      simp only [headerSize]
      rcases List.mem_append.mp hother with hother | hother
      · have hother := hlink hother
        omega
      · have hother : other = next.address := by simpa using hother
        omega
    have hbounds (link : Nat) (hmem : firstLink after none = some link) :
        link < bitRange 64 ∧ link ≠ 0 := (hlink (Option.mem_toList.mpr hmem)).2
    have hnumber : numberOf (firstLink after none) < bitRange Header.Field.next.width :=
      numberOf_lt (bitRange_pos _) fun link hmem => (hbounds link hmem).1
    have hsize : block.size + next.size < bitRange Header.Field.size.width := by
      show block.size + next.size < bitRange 64
      omega
    rw [hsame, hahead, Header.load_write .next _ _ hnumber, hsized,
      Header.load_write .size _ _ hsize, hload, Header.update, Header.update,
      linkOf_numberOf fun link hmem => (hbounds link hmem).2]
    rfl
  have hchainAfter : Chain heap'.memory (some block.address) after none := by
    refine hchain.relinked htiles hgrow hlinked hwipe (fun address hmem => ?_) hnonzero (by omega)
    have hmem : address = block.address ∨ address = next.address := by simpa using hmem
    simp only [Block.limit, headerSize]
    omega
  have hblockAligned := h.aligned_block
  have hnextAligned := (hsplit ▸ h : Holds heap _).aligned_block
  have hlinkAligned {link : Nat} (hmem : firstLink after none = some link) : link % granule = 0 :=
    (hsplit ▸ h : Holds heap _).aligned_link hmem
  have hnumberAligned : numberOf (firstLink after none) % granule = 0 := by
    cases hmem : firstLink after none with
    | none => rfl
    | some link => exact hlinkAligned hmem
  have hgrowGuards : GuardsWithin ([block.address] ++ [block.address]) heap.memory ahead :=
    GuardsWithin.trans (hsized ▸ guardsWithin_write .size heap.memory hblockAligned (by simp))
      (hahead ▸ guardsWithin_write .next sized hblockAligned fun _ => hnumberAligned)
  have hrelinkGuards : GuardsWithin (firstLink after none).toList ahead linked :=
    hlinked ▸ guardsWithin_relink _ fun _ hmem => hlinkAligned hmem
  have hwipeGuards : GuardsWithin ([next.address] ++ [next.address] ++ [next.address]) linked
      heap'.memory :=
    GuardsWithin.trans (GuardsWithin.trans
      (hunguarded ▸ guardsWithin_write .guardWord linked hnextAligned (by simp))
      (hunlinked ▸ guardsWithin_write .next unguarded hnextAligned fun _ => rfl))
      (hwiped ▸ guardsWithin_write .prev unlinked hnextAligned (by simp))
  have hunmarked : ¬HasGuard heap'.memory next.address := by
    rw [HasGuard, hwiped, Header.Field.read_write, if_neg (by decide), hunlinked,
      Header.Field.read_write, if_neg (by decide), hunguarded, Header.Field.read_write, if_pos rfl]
    decide
  refine changes_splice [block, next] [absorb block next] h harena
    ((hgrow.trans hrelink).trans hwipe) (fun address hmem => ?_)
    ((hgrowGuards.trans hrelinkGuards).trans hwipeGuards) (fun other hother => ?_) (fun _ => rfl) ?_
    ⟨hloadBlock, trivial⟩ hchainAfter
  · rcases List.mem_append.mp hmem with hmem | hmem
    · rcases List.mem_append.mp hmem with hmem | hmem
      · exact .inl ⟨block, by simp, by simpa [eq_comm] using hmem⟩
      · exact .inr (Option.mem_toList.mp hmem)
    · exact .inl ⟨next, by simp, by simpa [eq_comm] using hmem⟩
  · rcases List.mem_cons.mp hother with rfl | hother
    · exact .inl ⟨_, List.mem_cons_self, rfl⟩
    · exact .inr (List.mem_singleton.mp hother ▸ hunmarked)
  · rintro first limit ⟨rfl, hmin, haligned, haddress, -, haligned', rfl⟩
    refine ⟨rfl, ?_, ?_, ?_⟩
    · simp only [absorb]
      omega
    · simp only [absorb, granule] at *
      omega
    · show (absorb block next).limit = next.limit
      rw [Block.limit, Block.limit, haddress, Block.limit, absorb, Nat.add_assoc]

/-- A block is merged with the block behind it. -/
theorem settles_mergeNext {refused : ε → Heap → Prop}
    (h : Holds heap (before ++ block :: next :: after)) :
    (mergeNext block.address : Action ε Heap Unit).Settles heap
      (fun _ heap' => Changes heap (before ++ block :: next :: after) heap'
        (before ++ absorb block next :: after)) refused := by
  obtain ⟨-, hload, hload', -⟩ := h.chain_around
  have hlt := (h.address_bounds
    (List.mem_append_right _ (List.mem_cons_of_mem _ List.mem_cons_self) :
      next ∈ before ++ block :: next :: after)).2.2.2
  have haddress := h.tiles_around.2.2.2.1
  have hsum : block.size + next.size < bitRange 64 := by
    simp only [Block.limit] at *
    omega
  refine Action.settles_bind (settles_header ?_)
  rw [hload]
  show (header next.address >>= _ : Action ε Heap Unit).Settles heap _ _
  refine Action.settles_bind (settles_header ?_)
  rw [hload']
  simp only [Block.header, Action.add_eq_pure hsum, pure_bind]
  refine Action.settles_bind (settles_setField fun sized harena₁ hsized => ?_)
  refine Action.settles_bind (settles_setField fun ahead harena₂ hahead => ?_)
  refine Action.settles_bind (settles_setPredecessor fun linked harena₃ hlinked => ?_)
  refine Action.settles_bind (settles_setField fun unguarded harena₄ hunguarded => ?_)
  refine Action.settles_bind (settles_setField fun unlinked harena₅ hunlinked => ?_)
  refine settles_setField fun wiped harena₆ hwiped => ?_
  refine changes_absorb h ?_ hsized hahead hlinked hunguarded hunlinked hwiped
  rw [harena₆, harena₅, harena₄, harena₃, harena₂, harena₁]

/-- A block and the blocks behind it, after it was merged with the first of them if that is
free. -/
def joinNext (block : Block) : List Block → List Block
  | [] => [block]
  | next :: rest => if next.free then absorb block next :: rest else block :: next :: rest

/-- Some blocks and the blocks in front of them, after the first was merged into the last of those
if that is free. -/
def joinPrev : List Block → List Block → List Block
  | [prev], block :: after =>
    if prev.free then absorb prev block :: after else prev :: block :: after
  | first :: second :: rest, blocks => first :: joinPrev (second :: rest) blocks
  | before, blocks => before ++ blocks

/-- What merging a block with its free neighbours leads to. -/
def mergeBlocks (before : List Block) (block : Block) (after : List Block) : List Block :=
  joinPrev before (joinNext block after)

theorem joinPrev_concat (before : List Block) (prev block : Block) (after : List Block) :
    joinPrev (before ++ [prev]) (block :: after) =
      before ++ if prev.free then absorb prev block :: after else prev :: block :: after := by
  induction before with
  | nil => rfl
  | cons first rest ih =>
    cases rest with
    | nil => rfl
    | cons second rest => exact congrArg (List.cons first) ih

/-- Merging begins with the block itself or with the block it was merged into. -/
theorem joinNext_eq_cons (block : Block) (after : List Block) :
    ∃ joined rest, joinNext block after = joined :: rest ∧ joined.address = block.address ∧
      joined.free = block.free := by
  cases after with
  | nil => exact ⟨block, [], rfl, rfl, rfl⟩
  | cons next rest =>
    by_cases hfree : next.free = true
    · exact ⟨absorb block next, rest, if_pos hfree, rfl, rfl⟩
    · exact ⟨block, next :: rest, if_neg hfree, rfl, rfl⟩

/-- The first half of merging: with the block behind. -/
def mergeBehind (block : Nat) : Action ε Heap Unit := do
  if ← isFreeLink (← header block).next then mergeNext block else pure ()

/-- The second half of merging: with the block in front. -/
def mergeAhead (block : Nat) : Action ε Heap Unit := do
  match (← header block).prev with
  | some prev => if (← header prev).free then mergeNext prev else pure ()
  | none => pure ()

theorem mergeNeighbours_eq (block : Nat) :
    (mergeNeighbours block : Action ε Heap Unit) =
      (mergeBehind block >>= fun _ => mergeAhead block) := by
  simp only [mergeNeighbours, mergeBehind, bind_assoc]
  refine congrArg _ (funext fun current => congrArg _ (funext fun behind => ?_))
  cases behind with
  | true => rfl
  | false => rfl

theorem settles_mergeBehind {refused : ε → Heap → Prop}
    (h : Holds heap (before ++ block :: after)) :
    (mergeBehind block.address : Action ε Heap Unit).Settles heap
      (fun _ heap' => Changes heap (before ++ block :: after) heap'
        (before ++ joinNext block after)) refused := by
  refine Action.settles_bind (settles_header ?_)
  rw [h.chain_around.2.1]
  cases after with
  | nil => exact Action.settles_pure (.refl h)
  | cons next rest =>
    refine Action.settles_bind (Action.settles_bind (settles_header (Action.settles_pure ?_)))
    rw [h.chain_around.2.2.1]
    by_cases hfree : next.free = true
    · simp only [Block.header, hfree, if_true, joinNext]
      exact settles_mergeNext h
    · simp only [Block.header, hfree, joinNext]
      exact Action.settles_pure (.refl h)

theorem settles_mergeAhead {refused : ε → Heap → Prop}
    (h : Holds heap (before ++ block :: after)) :
    (mergeAhead block.address : Action ε Heap Unit).Settles heap
      (fun _ heap' => Changes heap (before ++ block :: after) heap'
        (joinPrev before (block :: after))) refused := by
  refine Action.settles_bind (settles_header ?_)
  rw [h.chain_around.2.1]
  rcases List.eq_nil_or_concat before with rfl | ⟨front, prev, rfl⟩
  · exact Action.settles_pure (.refl h)
  · rw [List.concat_eq_append] at h ⊢
    rw [List.append_assoc] at h ⊢
    rw [joinPrev_concat, lastLink_append]
    refine Action.settles_bind (settles_header ?_)
    rw [h.chain_around.2.1]
    by_cases hfree : prev.free = true
    · simp only [Block.header, hfree, if_true]
      exact settles_mergeNext h
    · simp only [Block.header, hfree]
      exact Action.settles_pure (.refl h)

/-- A merge with the block behind leaves no header that was not there. -/
theorem inHeader_joinNext {query : Nat} (h : InHeader (before ++ joinNext block after) query) :
    InHeader (before ++ block :: after) query := by
  obtain ⟨other, hother, hin⟩ := h
  rcases List.mem_append.mp hother with hother | hother
  · exact ⟨other, List.mem_append_left _ hother, hin⟩
  · have hkept (kept : Block) (hkept : kept ∈ block :: after)
        (haddress : other.address = kept.address) : InHeader (before ++ block :: after) query := by
      refine ⟨kept, List.mem_append_right _ hkept, ?_⟩
      rw [← haddress, Block.payload, ← haddress]
      exact hin
    cases after with
    | nil => exact hkept other hother rfl
    | cons next rest =>
      by_cases hfree : next.free = true
      · rw [joinNext, if_pos hfree] at hother
        rcases List.mem_cons.mp hother with rfl | hother
        · exact hkept block List.mem_cons_self rfl
        · exact hkept other (List.mem_cons_of_mem _ (List.mem_cons_of_mem _ hother)) rfl
      · rw [joinNext, if_neg hfree] at hother
        exact hkept other hother rfl

/-- A block that was given back is merged with its free neighbours. -/
theorem settles_mergeNeighbours {refused : ε → Heap → Prop}
    (h : Holds heap (before ++ block :: after)) :
    (mergeNeighbours block.address : Action ε Heap Unit).Settles heap
      (fun _ heap' => Changes heap (before ++ block :: after) heap'
        (mergeBlocks before block after)) refused := by
  rw [mergeNeighbours_eq]
  refine (settles_mergeBehind h).bind fun _ middle hmiddle => ?_
  obtain ⟨joined, rest, hjoined, haddress, -⟩ := joinNext_eq_cons block after
  have hholds := hmiddle.holds
  rw [hjoined] at hholds
  rw [← haddress]
  -- The block in front is asked after the merge with the block behind.
  refine (settles_mergeAhead hholds).mono_done fun _ heap' hchanged => ?_
  rw [mergeBlocks, hjoined]
  exact hmiddle.trans (hjoined ▸ hchanged) fun query hin => .inl (inHeader_joinNext hin)

/-! ## Finding blocks -/

/-- Whether a block can be handed out for a request. -/
def Block.fits (needed : Nat) (block : Block) : Bool := block.free && decide (needed ≤ block.size)

/-- Following the links from one block of the list on finds the first block that fits. -/
theorem settles_findFreeFrom {refused : ε → Heap → Prop} {prev : Option Nat}
    (h : Chain heap.memory prev blocks none) {limit : Nat} (hlimit : blocks.length ≤ limit) :
    (findFreeFrom needed limit (firstLink blocks none) : Action ε Heap (Option Nat)).Settles heap
      (fun found heap' => heap' = heap ∧
        found = (blocks.find? (Block.fits needed)).map Block.address) refused := by
  -- Induction on the blocks that are left; there are at most as many as steps.
  induction blocks generalizing prev limit with
  | nil => cases limit <;> exact Action.settles_pure ⟨rfl, rfl⟩
  | cons block rest ih =>
    obtain ⟨limit, rfl⟩ := Nat.exists_eq_add_of_le hlimit
    rw [List.length_cons, Nat.add_right_comm]
    refine Action.settles_bind (settles_header ?_)
    rw [h.1]
    by_cases hfits : block.free = true ∧ needed ≤ block.size
    · rw [List.find?_cons_of_pos (by simpa [Block.fits] using hfits)]
      simp only [Block.header, hfits, and_self, if_true]
      exact Action.settles_pure ⟨rfl, rfl⟩
    · rw [List.find?_cons_of_neg (by simpa [Block.fits] using hfits)]
      simp only [Block.header, hfits, if_false]
      exact ih h.2 (Nat.le_add_right _ _)

theorem Holds.firstLink_eq (h : Holds heap blocks) :
    firstLink blocks none = some heap.arena.start := by
  have htiles := h.tiles
  cases blocks with
  | nil =>
    have hpos := h.size_pos
    have heq : heap.arena.start = heap.arena.start + heap.arena.size := htiles
    omega
  | cons block rest => exact congrArg some htiles.1

/-- The search finds the lowest block that fits. -/
theorem settles_findFree {refused : ε → Heap → Prop} (h : Holds heap blocks) :
    (findFree needed : Action ε Heap (Option Nat)).Settles heap
      (fun found heap' => heap' = heap ∧
        found = (blocks.find? (Block.fits needed)).map Block.address) refused := by
  have hlength := h.tiles.length_le
  have hlimit := h.limit_lt
  refine Action.settles_get ?_
  rw [← h.firstLink_eq]
  exact settles_findFreeFrom h.chain (by rw [walkLimit]; omega)

/-- The payload of a block in use leads to the block. -/
theorem settles_ownerOf {refused : MemoryError → Heap → Prop} (h : Holds heap blocks)
    (hblock : block ∈ blocks) (hused : block.free = false) :
    (ownerOf block.payload).Settles heap
      (fun found heap' => heap' = heap ∧ found = block.address) refused := by
  obtain ⟨before, after, rfl⟩ := List.append_of_mem hblock
  obtain ⟨hstart, hlimit, -, hlt⟩ := h.address_bounds hblock
  have hmin := h.tiles_around.2.1
  have haligned := h.tiles.aligned h.start_aligned hblock
  have hstartAligned := h.start_aligned
  have hbound := h.limit_lt
  simp only [Block.limit, minBlockSize, headerSize, granule] at *
  have hlowest : heap.arena.start + headerSize < bitRange 64 := by
    simp only [headerSize]
    omega
  -- A payload lies behind the first header, ends inside the arena and is aligned.
  have howns : (canOwn block.payload : Action MemoryError Heap Bool).Settles heap
      (fun owns heap' => heap' = heap ∧ owns = true) refused := by
    refine Action.settles_get ?_
    simp only [Action.add_eq_pure hlowest, Action.add_eq_pure hbound, pure_bind]
    rw [if_neg (by simp only [Block.payload, headerSize]; omega)]
    refine Action.settles_pure ⟨rfl, decide_eq_true ?_⟩
    simp only [Block.payload, headerSize, granule]
    omega
  refine howns.bind ?_
  rintro owns _ ⟨rfl, rfl⟩
  -- The address is accepted, so the header in front of it is read.
  have haddress : block.payload - headerSize = block.address := Nat.add_sub_cancel _ _
  simp only [if_true, haddress]
  refine Action.settles_bind (settles_header ?_)
  rw [h.chain_around.2.1]
  simp only [Block.header, ne_eq, not_true_eq_false, if_false, hused]
  exact Action.settles_pure ⟨rfl, rfl⟩

end KernelResources.Heap
