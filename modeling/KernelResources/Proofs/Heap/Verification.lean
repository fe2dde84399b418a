import KernelResources.Heap.Audit
import KernelResources.Proofs.Heap.Coalescing

/-!
# Verification of the block list

Verification follows the links through memory that may hold anything: the list may be damaged,
overlap itself or go round in circles. This file says exactly which memories pass.

* `WellFormed` says what a list of blocks has to be like, and `Passed.Continues` the same of what
  is left of it behind the blocks that verification has passed, or of a first part of that.
* `continues_cons` takes such a list apart at its first block, and `verifyBlock_eq_done` says that
  verification passes over just these blocks. One induction along the list in each direction gives
  `walk_verifyBlock_of_continues` and `continues_of_walk_verifyBlock`.
* `verify_exact`: verification succeeds just on the well-formed lists, with their true statistics,
  and it never goes round in circles.
-/

namespace KernelResources.Heap

variable {heap heap' : Heap} {blocks rest : List Block} {block : Block} {journal journal' : Journal}
  {memory : ByteMemory} {first limit steps : Nat}

/-! ## Well-formed lists -/

/-- The blocks cover `[first, limit)` side by side, in ascending order, and each has room for its
header. -/
def Paves : Nat → List Block → Nat → Prop
  | first, [], limit => first = limit
  | first, block :: rest, limit =>
    block.address = first ∧ headerSize ≤ block.size ∧ block.size % granule = 0 ∧
      Paves block.limit rest limit

theorem Paves.le (h : Paves first blocks limit) : first ≤ limit := by
  induction blocks generalizing first with
  | nil => exact Nat.le_of_eq h
  | cons block rest ih =>
    obtain ⟨rfl, -, -, hrest⟩ := h
    exact Nat.le_trans (Nat.le_add_right _ _) (ih hrest)

/-- There are no more blocks than addresses. -/
theorem Paves.length_le (h : Paves first blocks limit) : first + blocks.length ≤ limit := by
  induction blocks generalizing first with
  | nil => exact Nat.le_of_eq h
  | cons block rest ih =>
    obtain ⟨rfl, hmin, -, hrest⟩ := h
    have hlength := ih hrest
    simp only [Block.limit, headerSize, List.length_cons] at *
    omega

/-- The allocator itself makes no block without room for a payload. -/
theorem Tiles.paves (h : Tiles first blocks limit) : Paves first blocks limit := by
  induction blocks generalizing first with
  | nil => exact h
  | cons block rest ih =>
    obtain ⟨haddress, hmin, haligned, hrest⟩ := h
    exact ⟨haddress, Nat.le_trans (Nat.le_add_right _ _) hmin, haligned, ih hrest⟩

/-- The links from the first address of the arena lead through these blocks, and nothing about
them contradicts what a heap has to be like. -/
structure WellFormed (heap : Heap) (blocks : List Block) : Prop where
  /-- The list begins at the first address of the arena. -/
  firstLink_eq : firstLink blocks none = some heap.arena.start
  /-- The blocks cover the arena. -/
  paves : Paves heap.arena.start blocks (heap.arena.start + heap.arena.size)
  /-- Their headers have intact guards, and are linked in both directions. -/
  chain : Chain heap.memory none blocks none
  /-- Of two blocks side by side, at least one is in use. -/
  coalesced : Coalesced blocks

/-- What the allocator leaves in an arena is well-formed. -/
theorem Holds.wellFormed (h : Holds heap blocks) (hcoalesced : Coalesced blocks) :
    WellFormed heap blocks where
  firstLink_eq := h.firstLink_eq
  paves := h.tiles.paves
  chain := h.chain
  coalesced := hcoalesced

/-! ## Statistics -/

/-- The statistics of these blocks. -/
def statsOf (arenaSize : Nat) (blocks : List Block) : HeapStats where
  arenaSize
  usedBytes := ((blocks.filter (!·.free)).map Block.size).foldr (· + ·) 0
  freeBytes := ((blocks.filter Block.free).map Block.size).foldr (· + ·) 0
  blocks := blocks.length
  freeBlocks := blocks.countP Block.free
  largestFree := ((blocks.filter Block.free).map (·.size - headerSize)).foldr max 0

/-- The statistics with one more block. -/
def tally (stats : HeapStats) (block : Block) : HeapStats :=
  if block.free then
    { stats with
      blocks := stats.blocks + 1
      freeBlocks := stats.freeBlocks + 1
      freeBytes := stats.freeBytes + block.size
      largestFree := max stats.largestFree (block.size - headerSize) }
  else { stats with blocks := stats.blocks + 1, usedBytes := stats.usedBytes + block.size }

/-- Counting blocks one by one adds their statistics to those that are there. -/
theorem foldl_tally (stats : HeapStats) :
    blocks.foldl tally stats =
      { arenaSize := stats.arenaSize
        usedBytes := stats.usedBytes + (statsOf stats.arenaSize blocks).usedBytes
        freeBytes := stats.freeBytes + (statsOf stats.arenaSize blocks).freeBytes
        blocks := stats.blocks + (statsOf stats.arenaSize blocks).blocks
        freeBlocks := stats.freeBlocks + (statsOf stats.arenaSize blocks).freeBlocks
        largestFree := max stats.largestFree (statsOf stats.arenaSize blocks).largestFree } := by
  induction blocks generalizing stats with
  | nil => simp [statsOf]
  | cons block rest ih =>
    rw [List.foldl_cons, ih]
    cases hfree : block.free <;>
      simp [tally, statsOf, hfree, Nat.add_assoc, Nat.add_comm 1, max_assoc]

theorem foldl_tally_empty (arenaSize : Nat) :
    blocks.foldl tally { arenaSize } = statsOf arenaSize blocks := by
  simp [foldl_tally, statsOf]

/-- The bytes of a block are added to those in use or to those that are free. -/
theorem bytes_tally (stats : HeapStats) (block : Block) :
    (tally stats block).usedBytes + (tally stats block).freeBytes =
      stats.usedBytes + stats.freeBytes + block.size := by
  unfold tally
  split
  · exact (Nat.add_assoc _ _ _).symm
  · exact Nat.add_right_comm _ _ _

/-- Blocks side by side have as many bytes as the range they cover. -/
theorem bytes_foldl_tally (stats : HeapStats) (h : Paves first blocks limit) :
    (blocks.foldl tally stats).usedBytes + (blocks.foldl tally stats).freeBytes + first =
      stats.usedBytes + stats.freeBytes + limit := by
  induction blocks generalizing first stats with
  | nil => rw [← show first = limit from h, List.foldl_nil]
  | cons block rest ih =>
    obtain ⟨rfl, -, -, hrest⟩ := h
    have hbytes := bytes_tally stats block
    have hrest' := ih (tally stats block) hrest
    rw [Block.limit] at hrest'
    rw [List.foldl_cons]
    omega

/-- Counting a block that fits into the range of addresses is done, and tallies it. -/
theorem countBlock_eq {ε : Type} {stats : HeapStats} {current : Header}
    (hsize : current.size = block.size) (hfree : current.free = block.free)
    (hmin : headerSize ≤ block.size)
    (hfits : stats.usedBytes + stats.freeBytes + block.size < bitRange 64) :
    (countBlock stats current : Action ε Heap HeapStats) = pure (tally stats block) := by
  cases hblock : block.free with
  | true =>
    have hsum : stats.freeBytes + block.size < bitRange 64 := by omega
    simp only [countBlock, hsize, hfree, hblock, if_true, Action.add_eq_pure hsum,
      Action.subtract_eq_pure hmin, pure_bind, tally]
  | false =>
    have hsum : stats.usedBytes + block.size < bitRange 64 := by omega
    simp only [countBlock, hsize, hfree, hblock, Action.add_eq_pure hsum, pure_bind, tally,
      Bool.false_eq_true, if_false]

/-! ## One step of verification -/

/-- The block that a header describes. -/
def Header.blockAt (current : Header) (address : Nat) : Block :=
  { address, size := current.size, free := current.free }

/-- What verification knows after one more block. -/
def Passed.past (passed : Passed) (block : Block) : Passed :=
  { stats := tally passed.stats block, expected := block.limit, previous := some block.address,
    previousFree := block.free }

/-- A header in an arena that ends at `limit` agrees with the blocks before it. -/
structure Passed.Admits (passed : Passed) (limit address : Nat) (current : Header) : Prop where
  /-- The block begins where the one before it ends. -/
  address_eq : address = passed.expected
  /-- The guard is intact. -/
  guardWord_eq : current.guardWord = guardWord
  /-- The backward link leads to the block before it. -/
  prev_eq : current.prev = passed.previous
  /-- The block has room for its header. -/
  headerSize_le : headerSize ≤ current.size
  /-- The block is made of granules. -/
  size_mod : current.size % granule = 0
  /-- The block lies in the arena. -/
  limit_le : address + current.size ≤ limit
  /-- The block and the one before it are not both free. -/
  apart : passed.previousFree = true → current.free = false

section Step

variable {passed found : Passed} {address : Nat} {current : Header}

theorem faultOf_eq_done {ε : Type} (hlimit : heap.arena.start + heap.arena.size < bitRange 64) :
    (faultOf passed address current : Action ε Heap (Option Fault)) heap journal =
        .done none heap' journal' ↔
      passed.Admits (heap.arena.start + heap.arena.size) address current ∧ heap' = heap ∧
        journal' = journal := by
  constructor
  · intro h
    unfold faultOf at h
    split at h
    · cases h
    split at h
    · cases h
    split at h
    · cases h
    split at h
    · cases h
    rename_i haddress hguard hprev hsize
    obtain ⟨hmin, hmod⟩ := not_or.mp hsize
    rw [Action.get_bind] at h
    by_cases hlast : address + current.size < bitRange 64
    · rw [Action.add_eq_pure hlast, pure_bind, Action.add_eq_pure hlimit, pure_bind] at h
      split at h
      · cases h
      split at h
      · cases h
      rename_i hinside hboth
      cases h
      refine ⟨⟨not_not.mp haddress, not_not.mp hguard, not_not.mp hprev, not_lt.mp hmin,
        not_not.mp hmod, not_lt.mp hinside, fun hprevious => ?_⟩, rfl, rfl⟩
      exact Bool.eq_false_iff.mpr fun hfree => hboth ⟨hfree, hprevious⟩
    · -- The sum overflows, which stops the kernel.
      rw [Action.add, if_neg hlast] at h
      cases h
  · rintro ⟨hadmits, rfl, rfl⟩
    have hlast := Nat.lt_of_le_of_lt hadmits.limit_le hlimit
    have hsize := not_or.mpr ⟨not_lt.mpr hadmits.headerSize_le, not_not.mpr hadmits.size_mod⟩
    have hboth : ¬(current.free = true ∧ passed.previousFree = true) := fun h =>
      Bool.noConfusion (h.1.symm.trans (hadmits.apart h.2))
    rw [faultOf, if_neg (not_not.mpr hadmits.address_eq), if_neg (not_not.mpr hadmits.guardWord_eq),
      if_neg (not_not.mpr hadmits.prev_eq), if_neg hsize, Action.get_bind,
      Action.add_eq_pure hlast, pure_bind, Action.add_eq_pure hlimit, pure_bind,
      if_neg (not_lt.mpr hadmits.limit_le), if_neg hboth]
    rfl

/-- Verification passes over just the headers that agree with the blocks before them. -/
theorem verifyBlock_eq_done (hlimit : heap.arena.start + heap.arena.size < bitRange 64)
    (hbytes : passed.stats.usedBytes + passed.stats.freeBytes ≤ passed.expected) :
    verifyBlock passed address current heap journal = .done found heap' journal' ↔
      passed.Admits (heap.arena.start + heap.arena.size) address current ∧
        found = passed.past (current.blockAt address) ∧ heap' = heap ∧ journal' = journal := by
  have hgoes (hadmits : passed.Admits (heap.arena.start + heap.arena.size) address current) :
      verifyBlock passed address current heap journal =
        .done (passed.past (current.blockAt address)) heap journal := by
    have hlast := Nat.lt_of_le_of_lt hadmits.limit_le hlimit
    have hfits : passed.stats.usedBytes + passed.stats.freeBytes + current.size < bitRange 64 := by
      rw [hadmits.address_eq] at hlast
      omega
    have hcount : (countBlock passed.stats current : Action MemoryError Heap HeapStats) =
        pure (tally passed.stats (current.blockAt address)) :=
      countBlock_eq rfl rfl hadmits.headerSize_le hfits
    rw [verifyBlock, Action.bind_of_done ((faultOf_eq_done hlimit).mpr ⟨hadmits, rfl, rfl⟩)]
    simp only [hcount, Action.add_eq_pure hlast, pure_bind]
    rfl
  constructor
  · intro h
    obtain ⟨fault?, heap₁, journal₁, hfault, hnext⟩ := Action.bind_eq_done.mp h
    cases fault? with
    | some fault => cases hnext
    | none =>
      obtain ⟨hadmits, -, -⟩ := (faultOf_eq_done hlimit).mp hfault
      cases (hgoes hadmits).symm.trans h
      exact ⟨hadmits, rfl, rfl, rfl⟩
  · rintro ⟨hadmits, rfl, rfl, rfl⟩
    exact hgoes hadmits

/-- Blocks in an arena have no more bytes than there are addresses. -/
theorem Passed.Admits.bytes_le (h : passed.Admits limit address current)
    (hbytes : passed.stats.usedBytes + passed.stats.freeBytes ≤ passed.expected) :
    (passed.past (current.blockAt address)).stats.usedBytes +
        (passed.past (current.blockAt address)).stats.freeBytes ≤
      (passed.past (current.blockAt address)).expected := by
  show (tally _ _).usedBytes + (tally _ _).freeBytes ≤ address + current.size
  rw [bytes_tally, h.address_eq]
  exact Nat.add_le_add_right hbytes _

/-- Apart from its link to the next block, a header that agrees with the blocks before it is the
one that its block has there. -/
theorem Passed.Admits.header_eq (h : passed.Admits limit address current) :
    (current.blockAt address).header passed.previous current.next = current := by
  rw [Block.header, ← h.guardWord_eq, ← h.prev_eq]
  rfl

end Step

/-! ## Along the list -/

/-- The blocks that verification has passed are continued by these, up to `limit`; `next` is the link
behind them. -/
structure Passed.Continues (passed : Passed) (memory : ByteMemory) (blocks : List Block)
    (next : Option Nat) (limit : Nat) : Prop where
  /-- The headers are linked to each other and to the blocks around them. -/
  chain : Chain memory passed.previous blocks next
  /-- The blocks cover what is left in front of `limit`. -/
  paves : Paves passed.expected blocks limit
  /-- Of two blocks side by side, at least one is in use. -/
  coalesced : Coalesced blocks
  /-- So it is at the seam. -/
  apart : ∀ block ∈ blocks.head?, passed.previousFree = true → block.free = false

/-- A list continues the blocks that were passed if its first block does, and the rest continues
them and that block. -/
theorem continues_cons {passed : Passed} {next : Option Nat} :
    passed.Continues memory (block :: rest) next limit ↔
      Header.load memory block.address = block.header passed.previous (firstLink rest next) ∧
        passed.Admits limit block.address (Header.load memory block.address) ∧
          (passed.past block).Continues memory rest next limit := by
  constructor
  · rintro ⟨⟨hload, hchain⟩, ⟨haddress, hmin, hmod, hpaves⟩, hcoalesced, hapart⟩
    obtain ⟨hseam, hrest⟩ := List.isChain_cons.mp hcoalesced
    refine ⟨hload, ?_, hchain, hpaves, hrest, fun other hother hfree => ?_⟩
    · rw [hload]
      exact ⟨haddress, rfl, rfl, hmin, hmod, hpaves.le, hapart block rfl⟩
    · exact (hseam other hother).resolve_left fun hused => Bool.noConfusion (hused.symm.trans hfree)
  · rintro ⟨hload, hadmits, hchain, hpaves, hcoalesced, hseam⟩
    rw [hload] at hadmits
    refine ⟨⟨hload, hchain⟩, ⟨hadmits.address_eq, hadmits.headerSize_le, hadmits.size_mod, hpaves⟩,
      List.isChain_cons.mpr ⟨fun other hother => ?_, hcoalesced⟩, ?_⟩
    · cases hfree : block.free with
      | false => exact .inl rfl
      | true => exact .inr (hseam other hother hfree)
    · intro _ hhead
      cases hhead
      exact hadmits.apart

theorem walkFrom_some {ε α : Type} {visit : α → Nat → Header → Action ε Heap α} {found : α}
    {address : Nat} :
    walkFrom visit (steps + 1) (some address) found heap journal =
      (visit found address (Header.load heap.memory address) >>=
        walkFrom visit steps (Header.load heap.memory address).next) heap journal := rfl

/-- A walk along linked headers folds over their blocks if every visit is done. What the visits
rely on, `inv`, may speak of the blocks that are still to come. -/
theorem walkFrom_eq_done {ε α : Type} {visit : α → Nat → Header → Action ε Heap α}
    {step : α → Block → α} (inv : α → List Block → Prop)
    (hvisit : ∀ found block rest, inv found (block :: rest) →
      (Header.load heap.memory block.address).next = firstLink rest none ∧
        visit found block.address (Header.load heap.memory block.address) heap journal =
          .done (step found block) heap journal ∧ inv (step found block) rest)
    {found : α} (hinv : inv found blocks) (hsteps : blocks.length ≤ steps) :
    walkFrom visit steps (firstLink blocks none) found heap journal =
      .done (blocks.foldl step found) heap journal := by
  -- Induction on the blocks that are left; there are at most as many as steps.
  induction blocks generalizing found steps with
  | nil => cases steps <;> rfl
  | cons block rest ih =>
    obtain ⟨steps, rfl⟩ := Nat.exists_eq_add_of_le' hsteps
    obtain ⟨hnext, hdone, hrest⟩ := hvisit found block rest hinv
    rw [List.length_cons, ← Nat.add_assoc, firstLink, walkFrom_some, Action.bind_of_done hdone,
      hnext]
    exact ih hrest (Nat.le_add_left _ _)

/-- Verification passes over blocks that continue those before them. -/
theorem walk_verifyBlock_of_continues {passed : Passed}
    (h : passed.Continues heap.memory blocks none (heap.arena.start + heap.arena.size))
    (hlimit : heap.arena.start + heap.arena.size < bitRange 64)
    (hbytes : passed.stats.usedBytes + passed.stats.freeBytes ≤ passed.expected)
    (hsteps : blocks.length ≤ steps) :
    walkFrom verifyBlock steps (firstLink blocks none) passed heap journal =
      .done (blocks.foldl Passed.past passed) heap journal := by
  refine walkFrom_eq_done (fun passed blocks =>
    passed.Continues heap.memory blocks none (heap.arena.start + heap.arena.size) ∧
      passed.stats.usedBytes + passed.stats.freeBytes ≤ passed.expected) ?_ ⟨h, hbytes⟩ hsteps
  rintro passed block rest ⟨hcontinues, hbytes⟩
  obtain ⟨hload, hadmits, hrest⟩ := continues_cons.mp hcontinues
  have hblock : (Header.load heap.memory block.address).blockAt block.address = block := by
    rw [hload]
    rfl
  have hbytes' := hadmits.bytes_le hbytes
  rw [hblock] at hbytes'
  exact ⟨by rw [hload]; rfl,
    (verifyBlock_eq_done hlimit hbytes).mpr ⟨hadmits, by rw [hblock], rfl, rfl⟩, hrest, hbytes'⟩

/-- What verification has passed over continues the blocks before it. -/
theorem continues_of_walk_verifyBlock {passed found : Passed} {cursor : Option Nat}
    (hlimit : heap.arena.start + heap.arena.size < bitRange 64)
    (hbytes : passed.stats.usedBytes + passed.stats.freeBytes ≤ passed.expected)
    (h : walkFrom verifyBlock steps cursor passed heap journal = .done found heap' journal') :
    heap' = heap ∧ journal' = journal ∧ ∃ blocks, firstLink blocks none = cursor ∧
      found = blocks.foldl Passed.past passed ∧
        passed.Continues heap.memory blocks none found.expected := by
  -- Induction along the walk, each step of which passes over one block.
  induction steps, cursor, passed using walkFrom.induct with
  | case1 steps passed =>
    cases steps <;> cases h
    all_goals exact ⟨rfl, rfl, [], rfl, rfl, trivial, rfl, .nil, fun _ hblock => nomatch hblock⟩
  | case2 address passed => cases h
  | case3 steps address passed ih =>
    rw [walkFrom_some] at h
    obtain ⟨passed', heap₁, journal₁, hverify, hwalk⟩ := Action.bind_eq_done.mp h
    obtain ⟨hadmits, rfl, rfl, rfl⟩ := (verifyBlock_eq_done hlimit hbytes).mp hverify
    obtain ⟨rfl, rfl, rest, hfirst, hfound, hrest⟩ := ih _ _ (hadmits.bytes_le hbytes) hwalk
    refine ⟨rfl, rfl, _ :: rest, rfl, hfound, continues_cons.mpr ⟨?_, ?_, hrest⟩⟩
    · rw [hfirst]
      exact hadmits.header_eq.symm
    · exact { hadmits with limit_le := hrest.paves.le }

/-- Where the audit of a header stops the kernel, two numbers had a sum of more than 64 bits. -/
theorem cause_of_faultOf {ε : Type} {passed : Passed} {address : Nat} {current : Header}
    {cause : Halt}
    (h : (faultOf passed address current : Action ε Heap (Option Fault)) heap journal =
      .halted cause journal') : cause = .addOverflow := by
  have hadd (a b : Nat) {heap : Heap} {journal : Journal}
      (h : (Action.add 64 a b : Action ε Heap Nat) heap journal = .halted cause journal') :
      cause = .addOverflow := by
    unfold Action.add at h
    split at h
    · cases h
    · cases h
      rfl
  unfold faultOf at h
  split at h
  · cases h
  split at h
  · cases h
  split at h
  · cases h
  split at h
  · cases h
  rw [Action.get_bind] at h
  rcases Action.bind_eq_halted.mp h with h | ⟨last, _, _, -, h⟩
  · exact hadd _ _ h
  rcases Action.bind_eq_halted.mp h with h | ⟨end', _, _, -, h⟩
  · exact hadd _ _ h
  split at h
  · cases h
  split at h <;> cases h

/-- Verification of a block that does not pass is refused, or stops the kernel where two numbers
have a sum of more than 64 bits. -/
theorem cause_of_verifyBlock {passed : Passed} {address : Nat} {current : Header} {cause : Halt}
    (hlimit : heap.arena.start + heap.arena.size < bitRange 64)
    (hbytes : passed.stats.usedBytes + passed.stats.freeBytes ≤ passed.expected)
    (h : verifyBlock passed address current heap journal = .halted cause journal') :
    cause = .addOverflow := by
  rcases Action.bind_eq_halted.mp h with hfault | ⟨fault?, heap₁, journal₁, hfault, hnext⟩
  · exact cause_of_faultOf hfault
  · cases fault? with
    | some fault => cases hnext
    | none =>
      -- Without a fault nothing can go wrong any more.
      obtain ⟨hadmits, -, -⟩ := (faultOf_eq_done hlimit).mp hfault
      cases ((verifyBlock_eq_done hlimit hbytes).mpr ⟨hadmits, rfl, rfl, rfl⟩).symm.trans h

/-- Verification does not go round in circles: every block that passes lies behind the one before
it, and all of them lie in the arena. -/
theorem walk_verifyBlock_ends {passed : Passed} {cursor : Option Nat}
    (hlimit : heap.arena.start + heap.arena.size < bitRange 64)
    (hbytes : passed.stats.usedBytes + passed.stats.freeBytes ≤ passed.expected)
    (hinside : passed.expected ≤ heap.arena.start + heap.arena.size)
    (hsteps : heap.arena.start + heap.arena.size < passed.expected + steps) :
    walkFrom verifyBlock steps cursor passed heap journal ≠ .halted .endlessWalk journal' := by
  intro h
  induction steps, cursor, passed using walkFrom.induct with
  | case1 steps passed => cases steps <;> cases h
  | case2 address passed => omega
  | case3 steps address passed ih =>
    rw [walkFrom_some] at h
    rcases Action.bind_eq_halted.mp h with hverify | ⟨passed', heap₁, journal₁, hverify, hwalk⟩
    · cases cause_of_verifyBlock hlimit hbytes hverify
    · obtain ⟨hadmits, rfl, rfl, rfl⟩ := (verifyBlock_eq_done hlimit hbytes).mp hverify
      have haddress := hadmits.address_eq
      have hmin := hadmits.headerSize_le
      refine ih _ _ (hadmits.bytes_le hbytes) hadmits.limit_le ?_ hwalk
      simp only [Passed.past, Block.limit, Header.blockAt, headerSize] at *
      omega

/-! ## The whole list -/

/-- What verification knows at the start. -/
def Passed.start (arena : Arena) : Passed :=
  { stats := { arenaSize := arena.size }, expected := arena.start, previous := none,
    previousFree := false }

theorem foldl_past_stats (passed : Passed) :
    (blocks.foldl Passed.past passed).stats = blocks.foldl tally passed.stats := by
  induction blocks generalizing passed with
  | nil => rfl
  | cons block rest ih => exact ih (passed.past block)

/-- Verification ends where the blocks do. -/
theorem foldl_past_expected {passed : Passed} (hpaves : Paves passed.expected blocks limit) :
    (blocks.foldl Passed.past passed).expected = limit := by
  induction blocks generalizing passed with
  | nil => exact hpaves
  | cons block rest ih => exact ih hpaves.2.2.2

namespace WellFormed

theorem continues (h : WellFormed heap blocks) : (Passed.start heap.arena).Continues heap.memory
    blocks none (heap.arena.start + heap.arena.size) where
  chain := h.chain
  paves := h.paves
  coalesced := h.coalesced
  apart _ _ hfree := Bool.noConfusion hfree

/-- A well-formed list has as many bytes as its arena. -/
theorem bytes_eq (h : WellFormed heap blocks) :
    (statsOf heap.arena.size blocks).usedBytes + (statsOf heap.arena.size blocks).freeBytes =
      heap.arena.size := by
  have hbytes := bytes_foldl_tally { arenaSize := heap.arena.size } h.paves
  simp only [foldl_tally_empty] at hbytes
  omega

/-- A walk that has an address for every block does not stop early. -/
theorem length_le (h : WellFormed heap blocks)
    (hlimit : heap.arena.start + heap.arena.size < bitRange 64) : blocks.length ≤ walkLimit := by
  have hlength := h.paves.length_le
  rw [walkLimit]
  omega

/-- A well-formed list is verified: nothing is changed or reported, and every block is counted. -/
theorem verify_eq (h : WellFormed heap blocks)
    (hlimit : heap.arena.start + heap.arena.size < bitRange 64) :
    verify heap journal = .done (statsOf heap.arena.size blocks) heap journal := by
  have hwalk : walk verifyBlock (Passed.start heap.arena) heap journal =
      .done (blocks.foldl Passed.past (Passed.start heap.arena)) heap journal := by
    rw [walk, Action.get_bind, ← h.firstLink_eq]
    exact walk_verifyBlock_of_continues h.continues hlimit (Nat.zero_le _) (h.length_le hlimit)
  have hend : (blocks.foldl Passed.past (Passed.start heap.arena)).expected =
      heap.arena.start + heap.arena.size := foldl_past_expected h.paves
  rw [verify, Action.get_bind]
  refine (Action.bind_of_done hwalk).trans ?_
  rw [Action.add_eq_pure hlimit, pure_bind, hend, if_neg (not_not_intro rfl), foldl_past_stats,
    Passed.start, foldl_tally_empty]
  rfl

/-- Without verification its blocks are counted in the same way. -/
theorem stats_eq (h : WellFormed heap blocks)
    (hlimit : heap.arena.start + heap.arena.size < bitRange 64) :
    stats heap journal = .done (statsOf heap.arena.size blocks) heap journal := by
  rw [stats, Action.get_bind, walk, Action.get_bind, ← h.firstLink_eq, ← foldl_tally_empty]
  -- What was counted lies in front of what is left, so no sum overflows.
  refine walkFrom_eq_done (fun stats blocks => ∃ prev first, Chain heap.memory prev blocks none ∧
    Paves first blocks (heap.arena.start + heap.arena.size) ∧
      stats.usedBytes + stats.freeBytes ≤ first) ?_
    ⟨none, heap.arena.start, h.chain, h.paves, Nat.zero_le _⟩ (h.length_le hlimit)
  rintro stats block rest ⟨prev, first, ⟨hload, hchain⟩, ⟨rfl, hmin, -, hrest⟩, hbytes⟩
  have hlast := hrest.le
  have hfits : stats.usedBytes + stats.freeBytes + block.size < bitRange 64 := by
    rw [Block.limit] at hlast
    omega
  have hcount : (countBlock stats (Header.load heap.memory block.address) :
      Total Heap HeapStats) = pure (tally stats block) :=
    countBlock_eq (congrArg Header.size hload) (congrArg Header.free hload) hmin hfits
  refine ⟨congrArg Header.next hload, congrFun (congrFun hcount heap) journal,
    some block.address, block.limit, hchain, hrest, ?_⟩
  rw [bytes_tally]
  exact Nat.add_le_add_right hbytes _

end WellFormed

/-- A list that is verified is well-formed. -/
theorem wellFormed_of_verify {found : HeapStats}
    (hlimit : heap.arena.start + heap.arena.size < bitRange 64)
    (h : verify heap journal = .done found heap' journal') : ∃ blocks, WellFormed heap blocks := by
  rw [verify, Action.get_bind] at h
  obtain ⟨passed, heap₁, journal₁, hwalk, hend⟩ := Action.bind_eq_done.mp h
  obtain ⟨rfl, rfl, blocks, hfirst, -, hcontinues⟩ :=
    continues_of_walk_verifyBlock hlimit (Nat.zero_le _) hwalk
  rw [Action.add_eq_pure hlimit, pure_bind] at hend
  split at hend
  · -- The list ends before the arena does.
    obtain ⟨covered, heap₂, journal₂, -, hrefused⟩ := Action.bind_eq_done.mp hend
    cases hrefused
  · rename_i hexpected
    rw [not_not.mp hexpected] at hcontinues
    exact ⟨blocks, hfirst, hcontinues.paves, hcontinues.chain, hcontinues.coalesced⟩

/-- Whatever the links are, verification comes to an end. -/
theorem verify_ends (hlimit : heap.arena.start + heap.arena.size < bitRange 64) :
    verify heap journal ≠ .halted .endlessWalk journal' := by
  intro h
  rw [verify, Action.get_bind] at h
  rcases Action.bind_eq_halted.mp h with hwalk | ⟨passed, heap₁, journal₁, -, hend⟩
  · refine walk_verifyBlock_ends hlimit (Nat.zero_le _) (Nat.le_add_right _ _) ?_ hwalk
    exact Nat.lt_of_lt_of_le hlimit (Nat.le_add_left _ _)
  · rw [Action.add_eq_pure hlimit, pure_bind] at hend
    split at hend
    · rcases Action.bind_eq_halted.mp hend with hcovered | ⟨covered, heap₂, journal₂, -, hnote⟩
      · unfold Action.subtract at hcovered
        split at hcovered <;> cases hcovered
      · cases hnote
    · cases hend

/-- Verification is exact. Whatever the memory of a heap holds, on an arena whose end has 64 bits it
succeeds exactly if the list is well-formed, and it never goes round in circles. Where it succeeds
it changes and reports nothing, and its statistics are those of the blocks, whose bytes add up to
the arena; the statistics without verification are the same. -/
theorem verify_exact (heap : Heap) (journal : Journal)
    (hlimit : heap.arena.start + heap.arena.size < bitRange 64) :
    ((∃ found heap' journal', verify heap journal = .done found heap' journal') ↔
        ∃ blocks, WellFormed heap blocks) ∧
      (∀ journal', verify heap journal ≠ .halted .endlessWalk journal') ∧
      ∀ found heap' journal', verify heap journal = .done found heap' journal' →
        heap' = heap ∧ journal' = journal ∧
          (∃ blocks, WellFormed heap blocks ∧ found = statsOf heap.arena.size blocks) ∧
          found.usedBytes + found.freeBytes = heap.arena.size ∧
            stats heap journal = .done found heap journal := by
  refine ⟨⟨?_, ?_⟩, fun journal' hendless => ?_, fun found heap' journal' hverify => ?_⟩
  · rintro ⟨found, heap', journal', hverify⟩
    exact wellFormed_of_verify hlimit hverify
  · rintro ⟨blocks, h⟩
    exact ⟨_, _, _, h.verify_eq hlimit⟩
  · exact verify_ends hlimit hendless
  · obtain ⟨blocks, h⟩ := wellFormed_of_verify hlimit hverify
    cases (h.verify_eq hlimit).symm.trans hverify
    exact ⟨rfl, rfl, ⟨blocks, h, rfl⟩, h.bytes_eq, h.stats_eq hlimit⟩

/-- In an arena of 96 bytes with one free block, verification and statistics agree; in memory that
holds nothing but zeros the links lead through no well-formed list. -/
theorem verify_exact_of_smallArena :
    16 + 96 < bitRange 64 ∧
      (∃ memory : ByteMemory, (∃ blocks, WellFormed ⟨⟨16, 96⟩, memory⟩ blocks) ∧
        ∃ found, found.largestFree = 64 ∧
          stats ⟨⟨16, 96⟩, memory⟩ #[] = .done found ⟨⟨16, 96⟩, memory⟩ #[]) ∧
      ¬∃ blocks, WellFormed ⟨⟨16, 96⟩, .empty⟩ blocks := by
  have hlimit : 16 + 96 < bitRange 64 := by decide
  refine ⟨hlimit, ?_, ?_⟩
  · let memory := Header.store .empty 16
      { size := 96, next := none, prev := none, guardWord, free := true }
    have hrun : (verify ⟨⟨16, 96⟩, memory⟩ #[]).passes
        (fun found _ _ => found.largestFree = 64) = true := by decide +kernel
    obtain ⟨found, heap', journal', hverify, hlargest⟩ := Outcome.passes_iff.mp hrun
    obtain ⟨hiff, -, htrue⟩ := verify_exact ⟨⟨16, 96⟩, memory⟩ #[] hlimit
    obtain ⟨-, -, -, -, hstats⟩ := htrue found heap' journal' hverify
    exact ⟨memory, hiff.mp ⟨_, _, _, hverify⟩, found, of_decide_eq_true hlargest, hstats⟩
  · rw [← (verify_exact ⟨⟨16, 96⟩, .empty⟩ #[] hlimit).1]
    rintro ⟨found, heap', journal', hverify⟩
    have hrefused : (verify ⟨⟨16, 96⟩, .empty⟩ #[]).failsWith (fun _ _ _ => true) = true := by
      decide +kernel
    rw [hverify] at hrefused
    cases hrefused

end KernelResources.Heap
