import KernelResources.Proofs.Heap.Primitives

/-!
# Operations of a heap

What allocating, freeing and resizing do to a heap whose headers are intact, as long as clients
pass payloads that are in use: the operations return, and they leave a heap whose headers are
intact.

* `settles_allocate`, `settles_free`, `settles_shrink` and `settles_grow` name the blocks that
  result.
* `Transfers` sums up what matters to clients: which blocks are in use before and afterwards, and
  that the payloads of all others stay. `settles_resize` puts the ways of resizing together in
  these terms.
* `holds_install` says that a new heap is one free block.
-/

namespace KernelResources.Heap

variable {heap heap' : Heap} {blocks blocks' before after : List Block} {block next : Block}
  {size needed : Nat}

/-! ## Sizes -/

/-- A block that is large enough for a request has room for a header and is made of granules. -/
theorem blockSize?_bounds (h : blockSize? size = some needed) :
    size + headerSize ≤ needed ∧ needed % granule = 0 ∧ (size ≠ 0 → minBlockSize ≤ needed) := by
  obtain ⟨padded, hpadded, hsum⟩ := Option.bind_eq_some_iff.mp h
  obtain ⟨sum, hsum', rfl⟩ := Option.map_eq_some_iff.mp hpadded
  unfold checkedAdd? at hsum hsum'
  split at hsum'
  case isFalse => cases hsum'
  cases hsum'
  split at hsum
  case isFalse => cases hsum
  cases hsum
  simp only [roundDown, minBlockSize, headerSize, granule] at *
  omega

/-- A number of granules reaches the size that is needed if and only if it has room for the request
and a header. -/
theorem blockSize?_le_iff (h : blockSize? size = some needed) {bytes : Nat}
    (haligned : bytes % granule = 0) : needed ≤ bytes ↔ size + headerSize ≤ bytes := by
  obtain ⟨padded, hpadded, hsum⟩ := Option.bind_eq_some_iff.mp h
  obtain ⟨sum, hsum', rfl⟩ := Option.map_eq_some_iff.mp hpadded
  unfold checkedAdd? at hsum hsum'
  split at hsum'
  case isFalse => cases hsum'
  cases hsum'
  split at hsum
  case isFalse => cases hsum
  cases hsum
  simp only [roundDown, headerSize, granule] at *
  omega

/-- A request that no block size is large enough for has no room in any block. -/
theorem lt_of_blockSize?_eq_none (h : blockSize? size = none) {bytes : Nat}
    (haligned : bytes % granule = 0) (hlt : bytes < bitRange 64) : bytes < size + headerSize := by
  unfold blockSize? inGranules? checkedAdd? at h
  split at h
  case isFalse =>
    simp only [headerSize, granule] at *
    omega
  rw [Option.map_some, Option.bind_some] at h
  split at h
  case isTrue => cases h
  -- The size with a header is a number of granules that has more than 64 bits.
  have hrange : bitRange 64 % 16 = 0 := by decide
  simp only [roundDown, headerSize, granule] at *
  omega

/-! ## What is in use -/

/-- A change of a heap as its clients see it: the blocks in `released` are given up, those in
`obtained` are new, and the payloads of all other blocks in use stay. -/
structure Transfers (heap : Heap) (blocks released obtained : List Block) (heap' : Heap)
    (blocks' : List Block) : Prop where
  /-- The arena stays. -/
  arena_eq : heap'.arena = heap.arena
  /-- The headers describe the new blocks. -/
  holds : Holds heap' blocks'
  /-- The blocks in use are the obtained ones and the former ones that are not released. -/
  inUse : ∀ other, (other ∈ blocks' ∧ other.free = false) ↔
    other ∈ obtained ∨ (other ∈ blocks ∧ other.free = false) ∧ other ∉ released
  /-- No block is obtained where another one stays in use. -/
  apart : ∀ new ∈ obtained, ∀ other ∈ blocks, other.free = false → other ∉ released →
    other.address ≠ new.address
  /-- What the former ones hold stays. -/
  payload : ∀ other ∈ blocks, other.free = false → other ∉ released →
    ∀ query, other.Contains query → heap'.memory.read query = heap.memory.read query

/-- If only headers change, so do no payloads of blocks that are in use before and afterwards. -/
theorem Changes.transfers {released obtained : List Block} (h : Changes heap blocks heap' blocks')
    (hblocks : Holds heap blocks)
    (hinUse : ∀ other, (other ∈ blocks' ∧ other.free = false) ↔
      other ∈ obtained ∨ (other ∈ blocks ∧ other.free = false) ∧ other ∉ released)
    (hapart : ∀ new ∈ obtained, ∀ other ∈ blocks, other.free = false → other ∉ released →
      other.address ≠ new.address) :
    Transfers heap blocks released obtained heap' blocks' where
  arena_eq := h.arena_eq
  holds := h.holds
  inUse := hinUse
  apart := hapart
  payload other hother hused hkept _ hquery :=
    h.headers.read_payload hblocks.tiles h.holds.tiles hother
      ((hinUse other).mpr (.inr ⟨⟨hother, hused⟩, hkept⟩)).1 hquery

theorem Holds.ne_of_mem_before (h : Holds heap (before ++ block :: after)) {other : Block}
    (hother : other ∈ before) : other ≠ block := by
  rintro rfl
  have hle := h.le_block hother
  simp only [minBlockSize, headerSize, granule] at hle
  omega

theorem Holds.ne_of_mem_after (h : Holds heap (before ++ block :: after)) {other : Block}
    (hother : other ∈ after) : other ≠ block := by
  rintro rfl
  have hle := h.block_le hother
  have hmin := h.bounds_block.2.2
  simp only [Block.limit, minBlockSize, headerSize, granule] at hle hmin
  omega

/-- Headers at the same addresses take up the same bytes. -/
theorem InHeader.mono {query : Nat} (h : InHeader blocks query)
    (hsame : ∀ block ∈ blocks, ∃ block' ∈ blocks', block'.address = block.address) :
    InHeader blocks' query := by
  obtain ⟨block, hblock, hle, hlt⟩ := h
  obtain ⟨block', hblock', haddress⟩ := hsame block hblock
  exact ⟨block', hblock', haddress ▸ hle, by rw [Block.payload, haddress]; exact hlt⟩

/-! ## Allocating -/

/-- Cutting begins with the block itself, whatever its free flag. -/
theorem cutBlocks_eq_cons (block : Block) (needed : Nat) :
    ∃ first rest, cutBlocks block needed = first :: rest ∧ first.address = block.address ∧
      first.free = block.free ∧ (needed ≤ block.size → needed ≤ first.size) ∧
      (∀ other ∈ rest, other.free = true) ∧
      ∀ free, cutBlocks { block with free } needed = { first with free } :: rest := by
  by_cases hshort : block.size - needed < minBlockSize
  · refine ⟨block, [], if_pos hshort, rfl, rfl, fun h => h, by simp, fun free => if_pos hshort⟩
  · refine ⟨{ block with size := needed }, [restOf block needed], if_neg hshort, rfl, rfl,
      fun _ => Nat.le_refl _, ?_, fun free => if_neg hshort⟩
    intro other hother
    rw [List.mem_singleton.mp hother]
    rfl

/-- Allocating takes the lowest block that fits into use, cut to size. -/
theorem settles_allocate (h : Holds heap blocks) (size : Nat) :
    (allocate size).Settles heap
      (fun pointer heap' => ∃ before block after needed, blocks = before ++ block :: after ∧
        size ≠ 0 ∧ blockSize? size = some needed ∧ block.fits needed = true ∧
        (∀ other ∈ before, other.fits needed = false) ∧ pointer = block.payload ∧
        Changes heap blocks heap'
          (before ++ (cutBlocks { block with free := false } needed ++ after)))
      fun error heap' => heap' = heap ∧ (error = .invalidOperation ∧ size = 0 ∨
        error = .outOfMemory ∧ ∀ needed, blockSize? size = some needed →
          ∀ block ∈ blocks, block.fits needed = false) := by
  refine Action.settles_bind (Action.settles_refuseIf (fun hzero => ⟨rfl, .inl ⟨rfl, hzero⟩⟩)
    fun hzero => ?_)
  cases hneeded : blockSize? size with
  | none => exact Action.settles_bind (Action.settles_throw ⟨rfl, .inr ⟨rfl, by simp⟩⟩)
  | some needed =>
    obtain ⟨-, haligned, hmin⟩ := blockSize?_bounds hneeded
    rw [Action.ofOption_some, pure_bind]
    refine (settles_findFree h).bind ?_
    rintro found _ ⟨rfl, rfl⟩
    cases hfound : blocks.find? (Block.fits needed) with
    | none =>
      refine Action.settles_bind (Action.settles_throw ⟨rfl, .inr ⟨rfl, ?_⟩⟩)
      rintro _ ⟨⟩ block hblock
      simpa using List.find?_eq_none.mp hfound block hblock
    | some block =>
      -- The search found the first block that fits; it is cut, and its first part is taken.
      obtain ⟨hfits, before, after, rfl, hbefore⟩ := List.find?_eq_some_iff_append.mp hfound
      have hsize : needed ≤ block.size := by
        simp only [Block.fits, Bool.and_eq_true, decide_eq_true_eq] at hfits
        exact hfits.2
      rw [Option.map_some, Action.ofOption_some, pure_bind]
      refine (settles_cut h hsize (hmin hzero) haligned).bind ?_
      rintro _ middle ⟨-, hcut⟩
      obtain ⟨first, rest, hblocks, haddress, -, -, -, hused⟩ := cutBlocks_eq_cons block needed
      rw [hblocks, List.cons_append] at hcut
      rw [← haddress]
      refine Action.settles_bind (settles_setField fun used harena hmemory => ?_)
      have hsetFree := changes_setFree hcut.holds harena hmemory
      refine Action.settles_bind (settles_setField fun guarded harena hmemory => ?_)
      have hsetGuard := changes_setGuard hsetFree.holds harena hmemory
      refine Action.settles_pure ⟨before, block, after, needed, rfl, hzero, rfl, hfits, ?_, ?_, ?_⟩
      · simpa using hbefore
      · rw [Block.payload, haddress]
      · rw [hused false]
        -- Three changes in a row, with headers at the same addresses after the first.
        refine (hcut.trans (hsetFree.trans hsetGuard fun query hin => .inr hin)
          fun query hin => .inr (hin.mono ?_))
        intro other hother
        rcases List.mem_append.mp hother with hother | hother
        · exact ⟨other, List.mem_append_left _ hother, rfl⟩
        · rcases List.mem_cons.mp hother with rfl | hother
          · exact ⟨_, List.mem_append_right _ List.mem_cons_self, rfl⟩
          · exact ⟨other, List.mem_append_right _ (List.mem_cons_of_mem _ hother), rfl⟩

/-- A block that keeps its address keeps what its payload holds, as far as both payloads reach. -/
theorem Changes.read_payload (h : Changes heap blocks heap' blocks') (hblocks : Holds heap blocks)
    {new : Block} (hblock : block ∈ blocks) (hnew : new ∈ blocks') {query : Nat}
    (hquery : block.Contains query) (hquery' : new.Contains query) :
    heap'.memory.read query = heap.memory.read query :=
  h.headers query (hblocks.tiles.not_inHeader hblock hquery)
    (h.holds.tiles.not_inHeader hnew hquery')

/-- The blocks at one address of an intact heap are one block. -/
theorem Holds.ne_address (h : Holds heap (before ++ block :: after)) {other : Block}
    (hother : other ∈ before ++ block :: after) (hne : other ≠ block) :
    other.address ≠ block.address := fun heq =>
  hne (h.tiles.eq_of_address (List.mem_append_right _ List.mem_cons_self) hother heq)

/-- A free block that was cut and taken into use is the only new one in use. -/
theorem transfers_cut_free (h : Holds heap (before ++ block :: after))
    (hfits : block.fits needed = true)
    (hchanges : Changes heap (before ++ block :: after) heap'
      (before ++ (cutBlocks { block with free := false } needed ++ after))) :
    ∃ new, new.address = block.address ∧ new.free = false ∧ needed ≤ new.size ∧
      Transfers heap (before ++ block :: after) [] [new] heap'
        (before ++ (cutBlocks { block with free := false } needed ++ after)) := by
  obtain ⟨hfree, hsize⟩ : block.free = true ∧ needed ≤ block.size := by
    simpa [Block.fits] using hfits
  obtain ⟨new, rest, hcut, haddress, hused, hneeded, hrest, -⟩ :=
    cutBlocks_eq_cons { block with free := false } needed
  -- What is cut off is free, and so was the whole block.
  refine ⟨new, haddress, hused, hneeded hsize, hchanges.transfers h (fun other => ?_) ?_⟩
  · rw [hcut]
    simp only [List.mem_append, List.mem_cons, List.not_mem_nil, or_false, not_false_eq_true,
      and_true]
    constructor
    · rintro ⟨hbefore | (hnew | hmem) | hafter, hother⟩
      · exact .inr ⟨.inl hbefore, hother⟩
      · exact .inl hnew
      · exact absurd (hrest other hmem) (by simp [hother])
      · exact .inr ⟨.inr (.inr hafter), hother⟩
    · rintro (rfl | ⟨hbefore | rfl | hafter, hother⟩)
      · exact ⟨.inr (.inl (.inl rfl)), hused⟩
      · exact ⟨.inl hbefore, hother⟩
      · exact absurd hfree (by simp [hother])
      · exact ⟨.inr (.inr hafter), hother⟩
  · intro _ hnew other hother hused' _
    rw [List.mem_singleton.mp hnew, haddress]
    refine h.ne_address hother ?_
    rintro rfl
    exact absurd hfree (by simp [hused'])

/-! ## Giving back -/

theorem mem_joinNext {other : Block} (hfree : block.free = true) (hother : other.free = false) :
    other ∈ joinNext block after ↔ other ∈ after := by
  have hne : other ≠ block := by
    rintro rfl
    exact absurd hfree (by simp [hother])
  cases after with
  | nil => simp [joinNext, hne]
  | cons next rest =>
    by_cases hnext : next.free = true
    · have hne' : other ≠ next := by
        rintro rfl
        exact absurd hnext (by simp [hother])
      have hne'' : other ≠ absorb block next := by
        rintro rfl
        exact absurd hother (by simp [absorb, hfree])
      simp [joinNext, hnext, hne', hne'']
    · simp [joinNext, hnext, hne]

theorem mem_joinPrev {other : Block} (hfree : block.free = true) (hother : other.free = false) :
    other ∈ joinPrev before (block :: after) ↔ other ∈ before ∨ other ∈ after := by
  have hne : other ≠ block := by
    rintro rfl
    exact absurd hfree (by simp [hother])
  rcases List.eq_nil_or_concat before with rfl | ⟨front, prev, rfl⟩
  · simp [joinPrev, hne]
  · rw [List.concat_eq_append, joinPrev_concat]
    by_cases hprev : prev.free = true
    · have hne' : other ≠ prev := by
        rintro rfl
        exact absurd hprev (by simp [hother])
      have hne'' : other ≠ absorb prev block := by
        rintro rfl
        exact absurd hother (by simp [absorb, hprev])
      simp [hprev, hne', hne'']
    · simp [hprev, hne, or_assoc]

/-- Merging free blocks concerns no block in use. -/
theorem mem_mergeBlocks {other : Block} (hfree : block.free = true) (hother : other.free = false) :
    other ∈ mergeBlocks before block after ↔ other ∈ before ∨ other ∈ after := by
  obtain ⟨joined, rest, hjoined, -, hfree'⟩ := joinNext_eq_cons block after
  have hnext : other ∈ joinNext block after ↔ other ∈ after := mem_joinNext hfree hother
  have hne : other ≠ joined := by
    rintro rfl
    exact absurd hfree (by simp [← hfree', hother])
  rw [hjoined] at hnext
  rw [mergeBlocks, hjoined, mem_joinPrev (hfree'.trans hfree) hother, ← hnext]
  simp [hne]

/-- Giving a block back makes it free and merges it with its free neighbours. -/
theorem settles_free {refused : MemoryError → Heap → Prop}
    (h : Holds heap (before ++ block :: after)) (hused : block.free = false) :
    (free block.payload).Settles heap
      (fun _ heap' => Changes heap (before ++ block :: after) heap'
        (mergeBlocks before { block with free := true } after)) refused := by
  refine (settles_ownerOf h (List.mem_append_right _ List.mem_cons_self)
    hused).bind ?_
  rintro found _ ⟨rfl, rfl⟩
  refine Action.settles_bind (settles_setField fun freed harena hmemory => ?_)
  have hfreed := changes_setFree h harena hmemory
  refine (settles_mergeNeighbours hfreed.holds).mono_done fun _ heap' hmerged => ?_
  refine hfreed.trans hmerged fun query hin => .inl (hin.mono fun other hother => ?_)
  rcases List.mem_append.mp hother with hother | hother
  · exact ⟨other, List.mem_append_left _ hother, rfl⟩
  · rcases List.mem_cons.mp hother with rfl | hother
    · exact ⟨block, List.mem_append_right _ List.mem_cons_self, rfl⟩
    · exact ⟨other, List.mem_append_right _ (List.mem_cons_of_mem _ hother), rfl⟩

/-- A block that was given back is the only one that is not in use any more. -/
theorem transfers_free (h : Holds heap (before ++ block :: after))
    (hchanges : Changes heap (before ++ block :: after) heap'
      (mergeBlocks before { block with free := true } after)) :
    Transfers heap (before ++ block :: after) [block] [] heap'
      (mergeBlocks before { block with free := true } after) := by
  refine hchanges.transfers h (fun other => ?_) (by simp)
  simp only [List.mem_append, List.mem_cons, List.not_mem_nil, or_false, false_or]
  constructor
  · rintro ⟨hmem, hother⟩
    rcases (mem_mergeBlocks rfl hother).mp hmem with hbefore | hafter
    · exact ⟨⟨.inl hbefore, hother⟩, h.ne_of_mem_before hbefore⟩
    · exact ⟨⟨.inr (.inr hafter), hother⟩, h.ne_of_mem_after hafter⟩
  · rintro ⟨⟨hbefore | rfl | hafter, hother⟩, hne⟩
    · exact ⟨(mem_mergeBlocks rfl hother).mpr (.inl hbefore), hother⟩
    · exact absurd rfl hne
    · exact ⟨(mem_mergeBlocks rfl hother).mpr (.inr hafter), hother⟩

/-! ## Writing into a payload -/

/-- Bytes of payloads are changed, and nothing else. -/
theorem Holds.of_payloads (h : Holds heap blocks) (harena : heap'.arena = heap.arena)
    (hread : ∀ query, (∀ block ∈ blocks, ¬block.Contains query) →
      heap'.memory.read query = heap.memory.read query) :
    Holds heap' blocks := by
  refine h.of_arena_eq harena h.tiles (h.chain.congr fun other hother => ?_)
  refine Header.load_congr fun query hle hlt => hread query fun block hblock hin => ?_
  refine h.tiles.not_inHeader hblock hin ⟨other, hother, hle, ?_⟩
  simp only [Block.payload, headerSize, Header.usedBytes] at *
  omega

/-- Bytes of one payload are changed, and nothing else. -/
theorem Holds.writing (h : Holds heap blocks) (hblock : block ∈ blocks)
    (harena : heap'.arena = heap.arena)
    (hread : ∀ query, ¬block.Contains query →
      heap'.memory.read query = heap.memory.read query) :
    Holds heap' blocks :=
  h.of_payloads harena fun query hnone => hread query (hnone block hblock)

/-- Payloads begin at multiples of a granule. -/
theorem Holds.aligned_payload (h : Holds heap blocks) (hblock : block ∈ blocks) :
    block.payload % granule = 0 := by
  have haligned := h.tiles.aligned h.start_aligned hblock
  simp only [Block.payload, headerSize, granule] at *
  omega

/-- Different payloads have no byte in common. -/
theorem Holds.not_contains (h : Holds heap blocks) {other : Block} (hblock : block ∈ blocks)
    (hother : other ∈ blocks) (hne : other ≠ block) {query : Nat} (hquery : other.Contains query) :
    ¬block.Contains query := by
  intro hin
  have hapart := h.tiles.apart hblock hother hne
  simp only [Block.Contains, Block.payload, headerSize] at *
  omega

/-- Bytes written into a new payload concern no other one. -/
theorem Transfers.writing {released obtained : List Block} {new : Block} {heap'' : Heap}
    (h : Transfers heap blocks released obtained heap' blocks') (hnew : new ∈ obtained)
    (harena : heap''.arena = heap'.arena)
    (hread : ∀ query, ¬new.Contains query →
      heap''.memory.read query = heap'.memory.read query) :
    Transfers heap blocks released obtained heap'' blocks' where
  arena_eq := harena.trans h.arena_eq
  holds := h.holds.writing ((h.inUse new).mpr (.inl hnew)).1 harena hread
  inUse := h.inUse
  apart := h.apart
  payload other hother hused hkept query hquery := by
    have hmem := ((h.inUse other).mpr (.inr ⟨⟨hother, hused⟩, hkept⟩)).1
    have hne : other ≠ new := by
      rintro rfl
      exact h.apart other hnew other hother hused hkept rfl
    rw [hread query (h.holds.not_contains ((h.inUse new).mpr (.inl hnew)).1 hmem hne hquery)]
    exact h.payload other hother hused hkept query hquery

/-- Where a block is obtained first and another one is given up then, the payload has moved. -/
theorem Transfers.exchange {new : Block}
    (h : Transfers heap blocks [] [new] heap' blocks') (hblock : block ∈ blocks)
    (hused : block.free = false) {final : Heap} {blocks'' : List Block}
    (h' : Transfers heap' blocks' [block] [] final blocks'') :
    Transfers heap blocks [block] [new] final blocks'' where
  arena_eq := h'.arena_eq.trans h.arena_eq
  holds := h'.holds
  inUse other := by
    have hne : new ≠ block := by
      rintro rfl
      exact h.apart new List.mem_cons_self new hblock hused List.not_mem_nil rfl
    rw [h'.inUse, h.inUse]
    simp only [List.mem_cons, List.not_mem_nil, or_false, false_or, not_false_eq_true, and_true]
    constructor
    · rintro ⟨rfl | hother, hneq⟩
      · exact .inl rfl
      · exact .inr ⟨hother, hneq⟩
    · rintro (rfl | ⟨hother, hneq⟩)
      · exact ⟨.inl rfl, hne⟩
      · exact ⟨.inr hother, hneq⟩
  apart new hnew other hother hother' _ :=
    h.apart new hnew other hother hother' List.not_mem_nil
  payload other hother hother' hkept query hquery := by
    -- What stays throughout is there in between.
    have hmem := ((h.inUse other).mpr (.inr ⟨⟨hother, hother'⟩, List.not_mem_nil⟩)).1
    rw [h'.payload other hmem hother' hkept query hquery]
    exact h.payload other hother hother' List.not_mem_nil query hquery

/-! ## Resizing -/

/-- Cuts a block in use down and gives the rest back. -/
def shrink (block needed : Nat) : Action MemoryError Heap Unit := do
  match ← cut block needed with
  | some tail => mergeNeighbours tail
  | none => pure ()

/-- Merges a block in use with the free block behind it and cuts off what is not needed. -/
def grow (block needed : Nat) : Action MemoryError Heap Unit := do
  mergeNext block
  let _ ← cut block needed

/-- Moves a payload to a new block. -/
def move (pointer current newSize : Nat) : Action MemoryError Heap Nat := do
  let fresh ← allocate newSize
  let capacity ← Action.subtract current headerSize
  modify fun heap => { heap with memory := heap.memory.copy pointer fresh capacity }
  free pointer
  return fresh

/-- Resizing shrinks, grows or moves. -/
theorem resize_eq (pointer newSize : Nat) :
    resize pointer newSize = (do
      let block ← ownerOf pointer
      Action.refuseIf (newSize = 0) .invalidOperation
      let needed ← Action.ofOption .outOfMemory (blockSize? newSize)
      let current ← header block
      if needed ≤ current.size then
        shrink block needed
        return pointer
      else if ← fitsWithNext block current.size needed then
        grow block needed
        return pointer
      else move pointer current.size newSize) := by
  simp only [resize, shrink, grow, move, bind_assoc]
  refine congrArg _ (funext fun block => congrArg _ (funext fun _ => ?_))
  refine congrArg _ (funext fun needed => congrArg _ (funext fun current => ?_))
  split
  · refine congrArg _ (funext fun tail => ?_)
    cases tail <;> simp
  · refine congrArg _ (funext fun fits => ?_)
    cases fits <;> simp

/-- What cutting a block in use down leads to: the rest is merged with the block behind. -/
def shrinkBlocks (block : Block) (needed : Nat) (after : List Block) : List Block :=
  if block.size - needed < minBlockSize then block :: after
  else { block with size := needed } :: joinNext (restOf block needed) after

/-- A block in use is cut down, and the rest is given back. -/
theorem settles_shrink {refused : MemoryError → Heap → Prop}
    (h : Holds heap (before ++ block :: after)) (hused : block.free = false)
    (hle : needed ≤ block.size) (hmin : minBlockSize ≤ needed) (haligned : needed % granule = 0) :
    (shrink block.address needed).Settles heap
      (fun _ heap' => Changes heap (before ++ block :: after) heap'
        (before ++ shrinkBlocks block needed after)) refused := by
  refine (settles_cut h hle hmin haligned).bind ?_
  rintro _ middle ⟨rfl, hcut⟩
  by_cases hshort : block.size - needed < minBlockSize
  · simp only [cutTail, cutBlocks, shrinkBlocks, hshort, if_true] at *
    exact Action.settles_pure hcut
  · simp only [cutTail, cutBlocks, shrinkBlocks, hshort, if_false] at *
    have hsplit : before ++ ([{ block with size := needed }, restOf block needed] ++ after) =
        (before ++ [{ block with size := needed }]) ++ restOf block needed :: after := by
      rw [List.append_assoc]
      rfl
    rw [hsplit] at hcut
    refine (settles_mergeNeighbours hcut.holds).mono_done fun _ heap' hmerged => ?_
    obtain ⟨joined, rest, hjoined, haddress, -⟩ := joinNext_eq_cons (restOf block needed) after
    have hblocks :
        mergeBlocks (before ++ [{ block with size := needed }]) (restOf block needed) after =
          before ++ { block with size := needed } :: joinNext (restOf block needed) after := by
      rw [mergeBlocks, hjoined, joinPrev_concat, if_neg (by simp [hused])]
    rw [hblocks] at hmerged
    -- Headers that exist only in between are inside the merged block, whose header comes first.
    refine hcut.trans hmerged fun query hin => ?_
    obtain ⟨other, hother, hin⟩ := hin
    rcases List.mem_append.mp hother with hother | hother
    · refine .inr ⟨other, ?_, hin⟩
      rcases List.mem_append.mp hother with hother | hother
      · exact List.mem_append_left _ hother
      · rw [List.mem_singleton.mp hother]
        exact List.mem_append_right _ List.mem_cons_self
    · rcases List.mem_cons.mp hother with rfl | hother
      · -- The header of the rest begins the merged block.
        refine .inr ⟨joined, ?_, by rw [Block.payload, haddress]; exact hin⟩
        rw [hjoined]
        exact List.mem_append_right _ (List.mem_cons_of_mem _ List.mem_cons_self)
      · exact .inl ⟨other, List.mem_append_right _ (List.mem_cons_of_mem _ hother), hin⟩

/-- What growing a block in use into the free block behind it leads to. -/
def growBlocks (block next : Block) (needed : Nat) (after : List Block) : List Block :=
  cutBlocks (absorb block next) needed ++ after

/-- A block in use takes in the block behind it, and what is not needed is cut off. -/
theorem settles_grow {refused : MemoryError → Heap → Prop}
    (h : Holds heap (before ++ block :: next :: after)) (hle : needed ≤ block.size + next.size)
    (hmin : minBlockSize ≤ needed) (haligned : needed % granule = 0) :
    (grow block.address needed).Settles heap
      (fun _ heap' => Changes heap (before ++ block :: next :: after) heap'
        (before ++ growBlocks block next needed after)) refused := by
  refine (settles_mergeNext h).bind fun _ middle hmerged => ?_
  refine (settles_cut hmerged.holds hle hmin haligned).bind ?_
  rintro _ heap' ⟨-, hcut⟩
  refine Action.settles_pure (hmerged.trans hcut fun query hin => .inl (hin.mono ?_))
  intro other hother
  rcases List.mem_append.mp hother with hother | hother
  · exact ⟨other, List.mem_append_left _ hother, rfl⟩
  · rcases List.mem_cons.mp hother with rfl | hother
    · exact ⟨block, List.mem_append_right _ List.mem_cons_self, rfl⟩
    · refine ⟨other, List.mem_append_right _ ?_, rfl⟩
      exact List.mem_cons_of_mem _ (List.mem_cons_of_mem _ hother)

/-- A block in use that was resized in place is the only one that is not as it was. -/
theorem transfers_resized {new : Block} {rest : List Block}
    (h : Holds heap (before ++ block :: after)) (haddress : new.address = block.address)
    (hused : new.free = false)
    (hrest : ∀ other, other.free = false → (other ∈ rest ↔ other ∈ after))
    (hchanges : Changes heap (before ++ block :: after) heap' (before ++ new :: rest)) :
    Transfers heap (before ++ block :: after) [block] [new] heap' (before ++ new :: rest) := by
  refine hchanges.transfers h (fun other => ?_) ?_
  · simp only [List.mem_append, List.mem_cons, List.not_mem_nil, or_false]
    constructor
    · rintro ⟨hbefore | rfl | hmem, hother⟩
      · exact .inr ⟨⟨.inl hbefore, hother⟩, h.ne_of_mem_before hbefore⟩
      · exact .inl rfl
      · have hafter := (hrest other hother).mp hmem
        exact .inr ⟨⟨.inr (.inr hafter), hother⟩, h.ne_of_mem_after hafter⟩
    · rintro (rfl | ⟨⟨hbefore | rfl | hafter, hother⟩, hne⟩)
      · exact ⟨.inr (.inl rfl), hused⟩
      · exact ⟨.inl hbefore, hother⟩
      · exact absurd rfl hne
      · exact ⟨.inr (.inr ((hrest other hother).mpr hafter)), hother⟩
  · intro _ hnew other hother _ hne
    rw [List.mem_singleton.mp hnew, haddress]
    exact h.ne_address hother fun heq => hne (List.mem_singleton.mpr heq)

/-- What a client sees of resizing `block` to `size` bytes: a block in use of sufficient size takes
its place and holds what the old one held, as far as both payloads reach. A guarded heap stays
guarded. -/
def Resized (heap : Heap) (blocks : List Block) (block : Block) (size pointer : Nat)
    (heap' : Heap) : Prop :=
  ∃ new blocks', pointer = new.payload ∧ new.free = false ∧ size + headerSize ≤ new.size ∧
    Transfers heap blocks [block] [new] heap' blocks' ∧
      (∀ offset < size, offset + headerSize < block.size →
        heap'.memory.read (pointer + offset) = heap.memory.read (block.payload + offset)) ∧
      (Guarded heap blocks → Guarded heap' blocks')

/-- Resizing in place is resizing. -/
theorem resized_of_changes (new : Block) {rest : List Block}
    (h : Holds heap (before ++ block :: after)) (haddress : new.address = block.address)
    (hused : new.free = false) (hsize : size + headerSize ≤ new.size)
    (hrest : ∀ other, other.free = false → (other ∈ rest ↔ other ∈ after))
    (hchanges : Changes heap (before ++ block :: after) heap' (before ++ new :: rest)) :
    Resized heap (before ++ block :: after) block size block.payload heap' := by
  have hpayload : block.payload = new.payload := by rw [Block.payload, Block.payload, haddress]
  refine ⟨new, _, hpayload, hused, hsize, transfers_resized h haddress hused hrest hchanges,
    fun offset hoffset hblock => ?_, hchanges.guarded⟩
  refine hchanges.read_payload h (List.mem_append_right _ List.mem_cons_self)
    (List.mem_append_right _ List.mem_cons_self) ?_ ?_
  · simp only [Block.Contains, Block.payload, Block.limit, headerSize] at *
    omega
  · simp only [Block.Contains, Block.payload, Block.limit, headerSize] at *
    omega

/-- Whether the block is free and has room for `size` bytes. -/
def Block.HasRoom (block : Block) (size : Nat) : Prop :=
  block.free = true ∧ size + headerSize ≤ block.size

/-- Room for a request is what the search for a block looks for. -/
theorem Holds.fits_iff (h : Holds heap blocks) (hblock : block ∈ blocks)
    (hneeded : blockSize? size = some needed) : block.fits needed = true ↔ block.HasRoom size := by
  rw [Block.fits, Bool.and_eq_true, decide_eq_true_eq,
    blockSize?_le_iff hneeded (h.tiles.bounds hblock).2.2.2, Block.HasRoom]

/-- Moving a payload is resizing: the new block is obtained before the old one is given back, so it
is another one. -/
theorem settles_move (h : Holds heap blocks) (hblock : block ∈ blocks) (hused : block.free = false)
    (hzero : size ≠ 0) (hneeded : blockSize? size = some needed) (hgrows : block.size < needed) :
    (move block.payload block.size size).Settles heap
      (fun pointer heap' => Resized heap blocks block size pointer heap' ∧
        pointer ≠ block.payload ∧ ∃ hole ∈ blocks, hole.HasRoom size)
      fun error heap' => heap' = heap ∧ error = .outOfMemory ∧
        ∀ hole ∈ blocks, ¬hole.HasRoom size := by
  have hmin := (h.tiles.bounds hblock).2.2.1
  have hheader : headerSize ≤ block.size := by
    simp only [minBlockSize, headerSize, granule] at *
    omega
  refine Action.settles_bind ((settles_allocate h size).mono ?_ ?_)
  case refine_2 =>
    rintro error _ ⟨rfl, ⟨-, hsize⟩ | ⟨rfl, hnone⟩⟩
    · exact absurd hsize hzero
    · refine ⟨rfl, rfl, fun hole hmem hroom => ?_⟩
      rw [← h.fits_iff hmem hneeded, hnone needed hneeded hole hmem] at hroom
      cases hroom
  rintro _ obtained ⟨before, chosen, after, needed', rfl, -, hneeded', hfits, -, rfl, hchanges⟩
  obtain rfl : needed = needed' := Option.some.inj (hneeded.symm.trans hneeded')
  have hchosen : chosen ∈ before ++ chosen :: after :=
    List.mem_append_right _ List.mem_cons_self
  have hhole : ∃ hole ∈ before ++ chosen :: after, hole.HasRoom size :=
    ⟨chosen, hchosen, (h.fits_iff hchosen hneeded).mp hfits⟩
  obtain ⟨new, haddress, hnewUsed, hnewSize, htransfers⟩ := transfers_cut_free h hfits hchanges
  -- From here on it does not matter how the new block came about.
  have hpayload : chosen.payload = new.payload := by rw [Block.payload, Block.payload, haddress]
  rw [hpayload]
  have hobtained := hchanges.guarded
  clear hchanges hpayload haddress hfits hchosen
  generalize before ++ (cutBlocks { chosen with free := false } needed ++ after) = between
    at htransfers hobtained
  generalize before ++ chosen :: after = blocks at *
  rw [Action.subtract_eq_pure hheader, pure_bind]
  refine Action.settles_bind (Action.settles_modify ?_)
  generalize hcopied : ({ obtained with memory := _ } : Heap) = copied
  have hwritten : Transfers heap blocks [] [new] copied between := by
    refine htransfers.writing List.mem_cons_self (by rw [← hcopied]) fun query hquery => ?_
    rw [← hcopied, Store.read_copy, if_neg]
    simp only [Block.Contains, Block.payload, Block.limit, headerSize] at *
    omega
  have hnew := (hwritten.inUse new).mpr (.inl List.mem_cons_self)
  have hkept := (hwritten.inUse block).mpr (.inr ⟨⟨hblock, hused⟩, List.not_mem_nil⟩)
  have hguarded (hguarded : Guarded heap blocks) : Guarded copied between := by
    refine (hobtained hguarded).of_guardsWithin (by rw [← hcopied]) ?_
    rw [← hcopied]
    exact (hobtained hguarded).guardsWithin_copy htransfers.holds hkept.1
      (htransfers.holds.aligned_payload hnew.1)
  have hne : new ∉ [block] := by
    rw [List.mem_singleton]
    rintro rfl
    exact hwritten.apart new List.mem_cons_self new hblock hused List.not_mem_nil rfl
  -- The payload was copied, and the old block is given back.
  have hholds := hwritten.holds
  obtain ⟨front, back, rfl⟩ := List.append_of_mem hkept.1
  refine (settles_free hholds hused).bind fun _ heap' hfreed => ?_
  have hfinal := transfers_free hholds hfreed
  have hmoved : new.payload ≠ block.payload := fun heq =>
    hwritten.apart new List.mem_cons_self block hblock hused List.not_mem_nil
      (Nat.add_right_cancel heq.symm)
  refine Action.settles_pure ⟨⟨new, _, rfl, hnewUsed,
    Nat.le_trans (blockSize?_bounds hneeded).1 hnewSize, hwritten.exchange hblock hused hfinal,
    fun offset hoffset hlt => ?_, fun hold => hfreed.guarded (hguarded hold)⟩, hmoved, hhole⟩
  have hin : new.Contains (new.payload + offset) := by
    simp only [Block.Contains, Block.payload, Block.limit, headerSize] at *
    omega
  have hin' : block.Contains (block.payload + offset) := by
    simp only [Block.Contains, Block.payload, Block.limit, headerSize] at *
    omega
  calc heap'.memory.read (new.payload + offset)
      = copied.memory.read (new.payload + offset) :=
        hfinal.payload new hnew.1 hnewUsed hne _ hin
    _ = obtained.memory.read (block.payload + offset) := by
        rw [← hcopied, Store.read_copy, if_pos (by omega), Nat.add_sub_cancel_left]
    _ = heap.memory.read (block.payload + offset) :=
        htransfers.payload block hblock hused List.not_mem_nil _ hin'

/-- Whether a block reaches the size that is needed together with the one behind it. -/
theorem settles_fitsWithNext {refused : MemoryError → Heap → Prop}
    (h : Holds heap (before ++ block :: after)) :
    (fitsWithNext block.address block.size needed : Action MemoryError Heap Bool).Settles heap
      (fun fits heap' => heap' = heap ∧ (fits = true ↔ ∃ next rest, after = next :: rest ∧
        next.free = true ∧ needed ≤ block.size + next.size)) refused := by
  refine Action.settles_bind (settles_header ?_)
  rw [h.chain_around.2.1]
  cases after with
  | nil => exact Action.settles_pure ⟨rfl, by simp⟩
  | cons next rest =>
    have hmem : next ∈ before ++ block :: next :: rest :=
      List.mem_append_right _ (List.mem_cons_of_mem block List.mem_cons_self)
    have hlimit := (h.address_bounds hmem).2.2.2
    have hsum : block.size + next.size < bitRange 64 := by
      have haddress := h.tiles_around.2.2.2.1
      simp only [Block.limit] at *
      omega
    refine Action.settles_bind (settles_header ?_)
    rw [h.chain_around.2.2.1]
    -- The sum of both sizes is only formed if the block behind is free.
    by_cases hfree : next.free = true
    · simp only [Block.header, hfree, if_true, Action.add_eq_pure hsum, pure_bind]
      exact Action.settles_pure ⟨rfl, by simp [hfree]⟩
    · simp only [Block.header, hfree]
      exact Action.settles_pure ⟨rfl, by simp [hfree]⟩

/-- Whether a block can have `size` bytes where it is: by itself, or together with a free block
behind it. -/
def Block.Reaches (block : Block) (after : List Block) (size : Nat) : Prop :=
  size + headerSize ≤ block.size ∨ ∃ next rest, after = next :: rest ∧ next.free = true ∧
    size + headerSize ≤ block.size + next.size

/-- Resizing a payload in use is done as `Resized` says, or changes nothing. It is done in place if
the block reaches the size, and by moving to a free block with room otherwise. -/
theorem settles_resize (h : Holds heap (before ++ block :: after)) (hused : block.free = false)
    (size : Nat) :
    (resize block.payload size).Settles heap
      (fun pointer heap' => Resized heap (before ++ block :: after) block size pointer heap' ∧
        size ≠ 0 ∧ (block.Reaches after size ∧ pointer = block.payload ∨
          ¬block.Reaches after size ∧ pointer ≠ block.payload ∧
            ∃ hole ∈ before ++ block :: after, hole.HasRoom size))
      fun error heap' => heap' = heap ∧ (error = .invalidOperation ∧ size = 0 ∨
        error = .outOfMemory ∧ size ≠ 0 ∧ ¬block.Reaches after size ∧
          ∀ hole ∈ before ++ block :: after, ¬hole.HasRoom size) := by
  have hblock : block ∈ before ++ block :: after := List.mem_append_right _ List.mem_cons_self
  have hsizeAligned := h.tiles_around.2.2.1
  rw [resize_eq]
  refine (settles_ownerOf h hblock hused).bind ?_
  rintro found _ ⟨rfl, rfl⟩
  refine Action.settles_bind (Action.settles_refuseIf (fun hzero => ⟨rfl, .inl ⟨rfl, hzero⟩⟩)
    fun hzero => ?_)
  cases hneeded : blockSize? size with
  | none =>
    -- No block is as large as that, not even two of them together.
    have hroom {hole : Block} (hhole : hole ∈ before ++ block :: after) :
        hole.size < size + headerSize := by
      have hlimit := (h.address_bounds hhole).2.2.2
      refine lt_of_blockSize?_eq_none hneeded (h.tiles.bounds hhole).2.2.2 ?_
      simp only [Block.limit] at hlimit
      omega
    refine Action.settles_bind (Action.settles_throw ⟨rfl, .inr ⟨rfl, hzero, ?_,
      fun hole hhole hfits => Nat.not_lt.mpr hfits.2 (hroom hhole)⟩⟩)
    rintro (hle | ⟨next, rest, rfl, -, hle⟩)
    · exact Nat.not_lt.mpr hle (hroom hblock)
    · have hnext : next ∈ before ++ block :: next :: rest :=
        List.mem_append_right _ (List.mem_cons_of_mem block List.mem_cons_self)
      have haddress := h.tiles_around.2.2.2.1
      have hlimit := (h.address_bounds hnext).2.2.2
      have hnextAligned := (h.tiles.bounds hnext).2.2.2
      refine Nat.not_lt.mpr hle (lt_of_blockSize?_eq_none hneeded ?_ ?_)
      · simp only [granule] at *
        omega
      · simp only [Block.limit] at *
        omega
  | some needed =>
    obtain ⟨hsize, haligned, hmin⟩ := blockSize?_bounds hneeded
    have hmin := hmin hzero
    have hle_iff {bytes : Nat} (haligned : bytes % granule = 0) :=
      blockSize?_le_iff hneeded haligned
    rw [Action.ofOption_some, pure_bind]
    refine Action.settles_bind (settles_header ?_)
    rw [h.chain_around.2.1]
    by_cases hle : needed ≤ block.size
    · -- The block is large enough by itself.
      have hreaches : block.Reaches after size := .inl ((hle_iff hsizeAligned).mp hle)
      simp only [Block.header, hle, if_true]
      refine (settles_shrink h hused hle hmin haligned).bind fun _ heap' hchanges => ?_
      refine Action.settles_pure ⟨?_, hzero, .inl ⟨hreaches, rfl⟩⟩
      unfold shrinkBlocks at hchanges
      split at hchanges
      · exact resized_of_changes block h rfl hused (Nat.le_trans hsize hle) (fun _ _ => Iff.rfl)
          hchanges
      · refine resized_of_changes { block with size := needed } h rfl hused hsize
          (fun other hother => ?_) hchanges
        exact mem_joinNext rfl hother
    · simp only [Block.header, hle, if_false]
      refine (settles_fitsWithNext h).bind ?_
      rintro fits _ ⟨rfl, hfits⟩
      cases fits with
      | true =>
        -- The block is large enough together with the one behind it.
        obtain ⟨next, rest, rfl, hfree, hle⟩ := hfits.mp rfl
        have hreaches : block.Reaches (next :: rest) size :=
          .inr ⟨next, rest, rfl, hfree, Nat.le_trans hsize hle⟩
        simp only [if_true]
        refine (settles_grow h hle hmin haligned).bind fun _ heap' hchanges => ?_
        refine Action.settles_pure ⟨?_, hzero, .inl ⟨hreaches, rfl⟩⟩
        obtain ⟨new, cutOff, hcut, haddress, hnewUsed, hnewSize, hcutOff, -⟩ :=
          cutBlocks_eq_cons (absorb block next) needed
        rw [growBlocks, hcut] at hchanges
        refine resized_of_changes new h haddress (hnewUsed.trans hused)
          (Nat.le_trans hsize (hnewSize hle)) (fun other hother => ?_) hchanges
        have hnot : other ∉ cutOff := fun hmem => absurd (hcutOff other hmem) (by simp [hother])
        have hne : other ≠ next := by
          rintro rfl
          exact absurd hfree (by simp [hother])
        simp [hnot, hne]
      | false =>
        have hshort : ¬block.Reaches after size := by
          rintro (hroom | ⟨next, rest, rfl, hfree, hroom⟩)
          · exact hle ((hle_iff hsizeAligned).mpr hroom)
          · refine Bool.false_ne_true (hfits.mpr ⟨next, rest, rfl, hfree, (hle_iff ?_).mpr hroom⟩)
            have hnextAligned := h.tiles_around.2.2.2.2.2.1
            simp only [granule] at *
            omega
        simp only [Bool.false_eq_true, if_false]
        refine (settles_move h hblock hused hzero hneeded (Nat.lt_of_not_le hle)).mono ?_ ?_
        · rintro pointer heap' ⟨hresized, hmoved, hhole⟩
          exact ⟨hresized, hzero, .inr ⟨hshort, hmoved, hhole⟩⟩
        · rintro error heap' ⟨rfl, rfl, hnone⟩
          exact ⟨rfl, .inr ⟨rfl, hzero, hshort, hnone⟩⟩

/-! ## Clean payloads and capacities -/

/-- What a client sees of allocating `size` bytes. A guarded heap stays guarded. -/
def Obtained (heap : Heap) (blocks : List Block) (size pointer : Nat) (heap' : Heap) : Prop :=
  ∃ new blocks', pointer = new.payload ∧ new.free = false ∧ size + headerSize ≤ new.size ∧
    Transfers heap blocks [] [new] heap' blocks' ∧ (Guarded heap blocks → Guarded heap' blocks')

/-- Allocating is done as `Obtained` says, or changes nothing. -/
theorem settles_allocate_obtained (h : Holds heap blocks) (size : Nat) :
    (allocate size).Settles heap (fun pointer heap' => Obtained heap blocks size pointer heap')
      fun _ heap' => heap' = heap := by
  refine (settles_allocate h size).mono ?_ fun _ _ hrefused => hrefused.1
  rintro pointer heap' ⟨before, block, after, needed, rfl, -, hneeded, hfits, -, rfl, hchanges⟩
  obtain ⟨new, haddress, hused, hsize, htransfers⟩ := transfers_cut_free h hfits hchanges
  refine ⟨new, _, ?_, hused, Nat.le_trans (blockSize?_bounds hneeded).1 hsize, htransfers,
    hchanges.guarded⟩
  rw [Block.payload, Block.payload, haddress]

/-- Allocating zeros is done as `Obtained` says, and the payload is zero, or changes nothing. -/
theorem settles_allocateZeroed (h : Holds heap blocks) (count size : Nat) :
    (allocateZeroed count size).Settles heap
      (fun pointer heap' => Obtained heap blocks (count * size) pointer heap' ∧
        ∀ offset < count * size, heap'.memory.read (pointer + offset) = 0)
      fun _ heap' => heap' = heap := by
  unfold allocateZeroed checkedMultiply?
  split
  case isFalse => exact Action.settles_bind (Action.settles_throw rfl)
  rw [Action.ofOption_some, pure_bind]
  refine (settles_allocate_obtained h _).bind ?_
  rintro _ obtained ⟨new, blocks', rfl, hused, hsize, htransfers, hobtained⟩
  have haligned := htransfers.holds.aligned_payload
    ((htransfers.inUse new).mpr (.inl List.mem_cons_self)).1
  refine Action.settles_bind (Action.settles_modify (Action.settles_pure
    ⟨⟨new, blocks', rfl, hused, hsize, ?_, fun hguarded => (hobtained hguarded).of_guardsWithin rfl
      (guardsWithin_fill _ _ haligned)⟩, fun offset hoffset => ?_⟩))
  -- The zeros reach no further than the payload.
  · refine htransfers.writing List.mem_cons_self rfl fun query hquery => ?_
    show Store.read (Store.fill _ _ _ _) _ = _
    rw [Store.read_fill, if_neg]
    simp only [Block.Contains, Block.payload, Block.limit, headerSize] at *
    omega
  · show Store.read (Store.fill _ _ _ _) _ = _
    rw [Store.read_fill, if_pos (by omega)]

/-- The capacity of a payload in use is what its block has behind the header. -/
theorem settles_capacity {refused : MemoryError → Heap → Prop} (h : Holds heap blocks)
    (hblock : block ∈ blocks) (hused : block.free = false) :
    (capacity block.payload).Settles heap
      (fun found heap' => heap' = heap ∧ found = block.size - headerSize) refused := by
  have hmin := (h.tiles.bounds hblock).2.2.1
  have hheader : headerSize ≤ block.size := by
    simp only [minBlockSize, headerSize, granule] at *
    omega
  refine (settles_ownerOf h hblock hused).bind ?_
  rintro found _ ⟨rfl, rfl⟩
  obtain ⟨before, after, rfl⟩ := List.append_of_mem hblock
  refine Action.settles_bind (settles_header ?_)
  rw [h.chain_around.2.1, Block.header, Action.subtract_eq_pure hheader]
  exact Action.settles_pure ⟨rfl, rfl⟩

/-! ## New heaps -/

/-- Installing lays out an arena of granules in the range it was given; the only header is that of
a free block. -/
theorem install_eq_done {start size : Nat} {memory memory' : ByteMemory} {arena : Arena}
    {journal journal' : Journal}
    (h : install start size memory journal = .done arena memory' journal') :
    arena.start ≠ 0 ∧ arena.start % granule = 0 ∧ minBlockSize ≤ arena.size ∧
      arena.size % granule = 0 ∧ start ≤ arena.start ∧ arena.start + arena.size ≤ start + size ∧
      memory' = Header.store memory arena.start
        { size := arena.size, next := none, prev := none, guardWord, free := true } := by
  unfold install at h
  cases hgranules : inGranules? start with
  | none =>
    rw [hgranules] at h
    cases h
  | some aligned =>
    obtain ⟨sum, hsum, rfl⟩ := Option.map_eq_some_iff.mp hgranules
    have hge : start ≤ roundDown sum granule := by
      unfold checkedAdd? at hsum
      split at hsum
      case isFalse => cases hsum
      cases hsum
      simp only [roundDown, granule]
      omega
    have hstart : roundDown sum granule % granule = 0 := Nat.mul_mod_left _ _
    have hsize : roundDown (size - (roundDown sum granule - start)) granule % granule = 0 :=
      Nat.mul_mod_left _ _
    have hbytes : roundDown (size - (roundDown sum granule - start)) granule ≤
        size - (roundDown sum granule - start) := Nat.div_mul_le_self _ _
    rw [hgranules, Action.ofOption_some, pure_bind] at h
    -- From here on the two roundings are kept out of sight.
    generalize roundDown (size - (roundDown sum granule - start)) granule = bytes at *
    generalize roundDown sum granule = aligned at *
    by_cases hsmall : bytes < minBlockSize
    · simp only [hsmall, Action.refuseIf_of_pos] at h
      cases h
    by_cases hzero : aligned = 0
    · rw [Action.refuseIf_of_neg hsmall, pure_bind, Action.refuseIf_of_pos hzero] at h
      cases h
    rw [Action.refuseIf_of_neg hsmall, pure_bind, Action.refuseIf_of_neg hzero, pure_bind] at h
    injection h with harena hmemory
    subst harena hmemory
    refine ⟨hzero, hstart, Nat.le_of_not_lt hsmall, hsize, hge, ?_, rfl⟩
    simp only [minBlockSize, headerSize, granule] at hsmall
    show aligned + bytes ≤ start + size
    omega

/-- A new heap is one free block. -/
theorem holds_install {start size : Nat} {memory memory' : ByteMemory} {arena : Arena}
    {journal journal' : Journal}
    (h : install start size memory journal = .done arena memory' journal')
    (hlimit : start + size < bitRange 64) :
    Holds ⟨arena, memory'⟩ [{ address := arena.start, size := arena.size, free := true }] := by
  obtain ⟨hzero, hstart, hmin, hsize, -, hle, hmemory⟩ := install_eq_done h
  have hfits : Header.Fits
      { size := arena.size, next := none, prev := none, guardWord, free := true } := by
    refine ⟨?_, by simp, by simp, (by decide : guardWord < bitRange 32)⟩
    show arena.size < bitRange 64
    omega
  refine ⟨⟨rfl, hmin, hsize, rfl⟩, ⟨?_, trivial⟩, ?_, Nat.pos_of_ne_zero hzero, hstart,
    Nat.lt_of_le_of_lt hle hlimit⟩
  · rw [hmemory]
    exact Header.load_store _ _ hfits
  · simp only [minBlockSize, headerSize, granule] at *
    omega

end KernelResources.Heap
