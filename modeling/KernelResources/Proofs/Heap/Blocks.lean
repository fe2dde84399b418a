import KernelResources.Heap.Basic

/-!
# Blocks of a heap

The headers of a heap describe a list of blocks. This file says what it means that they do so
correctly, and how such a list is taken apart and changed.

* `Tiles` says that blocks lie side by side, `Chain` that their headers are linked in both
  directions, and `Heap.Holds` that both are true of the arena of a heap.
* `chain_append` and `tiles_append` take a list apart at a block, and `chain_relink` gives a list
  another predecessor.
* `OnlyHeaders` is the frame condition of the allocator's own writes: bytes outside the headers
  stay. `OnlyHeaders.read_payload` draws from it that the payloads in use do.
-/

namespace KernelResources.Heap

/-- What a header says about its block, apart from the links. -/
structure Block where
  /-- Address of the header. -/
  address : Nat
  /-- Bytes in the block, header included. -/
  size : Nat
  /-- Whether the block is free. -/
  free : Bool
deriving DecidableEq, Repr

namespace Block

/-- The address right behind the block. -/
def limit (block : Block) : Nat := block.address + block.size

/-- The address of the payload. -/
def payload (block : Block) : Nat := block.address + headerSize

/-- The header of a block between two others. -/
def header (block : Block) (prev next : Option Nat) : Header :=
  { size := block.size, next, prev, guardWord, free := block.free }

/-- Whether an address lies in the payload. -/
def Contains (block : Block) (query : Nat) : Prop := block.payload ≤ query ∧ query < block.limit

end Block

/-! ## Blocks side by side -/

/-- The blocks cover `[first, limit)` side by side, in ascending order. -/
def Tiles : Nat → List Block → Nat → Prop
  | first, [], limit => first = limit
  | first, block :: rest, limit =>
    block.address = first ∧ minBlockSize ≤ block.size ∧ block.size % granule = 0 ∧
      Tiles block.limit rest limit

section Tiles

variable {first limit : Nat} {blocks before after : List Block} {block other : Block}

theorem tiles_append :
    Tiles first (before ++ after) limit ↔
      ∃ middle, Tiles first before middle ∧ Tiles middle after limit := by
  induction before generalizing first with
  | nil =>
    constructor
    · exact fun h => ⟨first, rfl, h⟩
    · rintro ⟨middle, rfl, h⟩
      exact h
  | cons block rest ih =>
    constructor
    · rintro ⟨haddress, hmin, haligned, hrest⟩
      obtain ⟨middle, hbefore, hafter⟩ := ih.mp hrest
      exact ⟨middle, ⟨haddress, hmin, haligned, hbefore⟩, hafter⟩
    · rintro ⟨middle, ⟨haddress, hmin, haligned, hbefore⟩, hafter⟩
      exact ⟨haddress, hmin, haligned, ih.mpr ⟨middle, hbefore, hafter⟩⟩

/-- Blocks around a block end and begin where it does. -/
theorem tiles_around :
    Tiles first (before ++ block :: after) limit ↔
      Tiles first before block.address ∧ minBlockSize ≤ block.size ∧ block.size % granule = 0 ∧
        Tiles block.limit after limit := by
  rw [tiles_append]
  constructor
  · rintro ⟨middle, hbefore, rfl, hmin, haligned, hafter⟩
    exact ⟨hbefore, hmin, haligned, hafter⟩
  · rintro ⟨hbefore, hmin, haligned, hafter⟩
    exact ⟨block.address, hbefore, rfl, hmin, haligned, hafter⟩

theorem Tiles.le (h : Tiles first blocks limit) : first ≤ limit := by
  induction blocks generalizing first with
  | nil => exact Nat.le_of_eq h
  | cons block rest ih =>
    obtain ⟨rfl, -, -, hrest⟩ := h
    exact Nat.le_trans (Nat.le_add_right _ _) (ih hrest)

/-- Every block lies inside the range that is covered. -/
theorem Tiles.bounds (h : Tiles first blocks limit) (hblock : block ∈ blocks) :
    first ≤ block.address ∧ block.limit ≤ limit ∧ minBlockSize ≤ block.size ∧
      block.size % granule = 0 := by
  obtain ⟨before, after, rfl⟩ := List.append_of_mem hblock
  obtain ⟨hbefore, hmin, haligned, hafter⟩ := tiles_around.mp h
  exact ⟨hbefore.le, hafter.le, hmin, haligned⟩

/-- If the range begins at a multiple of a granule, every block does. -/
theorem Tiles.aligned (h : Tiles first blocks limit) (hfirst : first % granule = 0)
    (hblock : block ∈ blocks) : block.address % granule = 0 := by
  induction blocks generalizing first with
  | nil => cases hblock
  | cons head rest ih =>
    obtain ⟨rfl, -, hsize, hrest⟩ := h
    rcases List.mem_cons.mp hblock with rfl | hblock
    · exact hfirst
    · refine ih hrest ?_ hblock
      rw [Block.limit, Nat.add_mod, hfirst, hsize]
      rfl

/-- Different blocks do not overlap. -/
theorem Tiles.apart (h : Tiles first blocks limit) (hblock : block ∈ blocks)
    (hother : other ∈ blocks) (hne : other ≠ block) :
    other.limit ≤ block.address ∨ block.limit ≤ other.address := by
  obtain ⟨before, after, rfl⟩ := List.append_of_mem hblock
  obtain ⟨hbefore, -, -, hafter⟩ := tiles_around.mp h
  rcases List.mem_append.mp hother with hother | hother
  · exact .inl (hbefore.bounds hother).2.1
  · rcases List.mem_cons.mp hother with rfl | hother
    · exact absurd rfl hne
    · exact .inr (hafter.bounds hother).1

/-- Blocks at one address are one block. -/
theorem Tiles.eq_of_address (h : Tiles first blocks limit) (hblock : block ∈ blocks)
    (hother : other ∈ blocks) (heq : other.address = block.address) : other = block := by
  refine Decidable.byContradiction fun hne => ?_
  have hapart := h.apart hblock hother hne
  have hblock' := (h.bounds hblock).2.2.1
  have hother' := (h.bounds hother).2.2.1
  simp only [Block.limit, minBlockSize, headerSize, granule] at *
  omega

/-- There are no more blocks than addresses. -/
theorem Tiles.length_le (h : Tiles first blocks limit) : first + blocks.length ≤ limit := by
  induction blocks generalizing first with
  | nil => exact Nat.le_of_eq h
  | cons block rest ih =>
    obtain ⟨rfl, hmin, -, hrest⟩ := h
    have hlength := ih hrest
    simp only [Block.limit, minBlockSize, headerSize, granule, List.length_cons] at *
    omega

end Tiles

/-! ## Linked headers -/

/-- The link to the first of some blocks, or to what follows them if there are none. -/
def firstLink : List Block → Option Nat → Option Nat
  | [], next => next
  | block :: _, _ => some block.address

/-- The link to the last of some blocks, or to what precedes them if there are none. -/
def lastLink : Option Nat → List Block → Option Nat
  | prev, [] => prev
  | _, block :: rest => lastLink (some block.address) rest

/-- The headers of the blocks are intact and linked in both directions, between the blocks that
`prev` and `next` lead to. -/
def Chain (memory : ByteMemory) : Option Nat → List Block → Option Nat → Prop
  | _, [], _ => True
  | prev, block :: rest, next =>
    Header.load memory block.address = block.header prev (firstLink rest next) ∧
      Chain memory (some block.address) rest next

section Chain

variable {memory memory' : ByteMemory} {prev next : Option Nat} {blocks before after : List Block}
  {block : Block}

theorem firstLink_append :
    firstLink (before ++ after) next = firstLink before (firstLink after next) := by
  cases before <;> rfl

/-- A link into a list leads to one of its blocks. -/
theorem exists_of_firstLink {link : Nat} (h : firstLink blocks none = some link) :
    ∃ block ∈ blocks, block.address = link := by
  cases blocks with
  | nil => cases h
  | cons block rest => exact ⟨block, List.mem_cons_self, Option.some.inj h⟩

theorem lastLink_append :
    lastLink prev (before ++ after) = lastLink (lastLink prev before) after := by
  induction before generalizing prev with
  | nil => rfl
  | cons block rest ih => exact ih

/-- Headers of a concatenation: both halves, linked at the seam. -/
theorem chain_append :
    Chain memory prev (before ++ after) next ↔
      Chain memory prev before (firstLink after next) ∧
        Chain memory (lastLink prev before) after next := by
  induction before generalizing prev with
  | nil => simp [Chain, lastLink]
  | cons block rest ih =>
    rw [List.cons_append, Chain, Chain, lastLink, ih, firstLink_append, and_assoc]

/-- Headers around a block. -/
theorem chain_around :
    Chain memory prev (before ++ block :: after) next ↔
      Chain memory prev before (some block.address) ∧
        Header.load memory block.address =
          block.header (lastLink prev before) (firstLink after next) ∧
        Chain memory (some block.address) after next :=
  chain_append

/-- A list of headers depends on the bytes of the headers. -/
theorem Chain.congr (h : Chain memory prev blocks next)
    (hsame : ∀ block ∈ blocks,
      Header.load memory' block.address = Header.load memory block.address) :
    Chain memory' prev blocks next := by
  induction blocks generalizing prev with
  | nil => trivial
  | cons block rest ih =>
    refine ⟨(hsame block List.mem_cons_self).trans h.1, ih h.2 fun other hother => ?_⟩
    exact hsame other (List.mem_cons_of_mem _ hother)

/-- The memory after the block that a link leads to was given another predecessor. -/
def relink (memory : ByteMemory) (link : Option Nat) (block : Nat) : ByteMemory :=
  match link with
  | some next => Header.Field.prev.write memory next block
  | none => memory

/-- A list whose first block is given another predecessor is linked to that one. -/
theorem chain_relink {first limit address : Nat} (h : Chain memory prev blocks none)
    (htiles : Tiles first blocks limit) (hpos : address ≠ 0) (hlt : address < bitRange 64) :
    Chain (relink memory (firstLink blocks none) address) (some address) blocks none := by
  cases blocks with
  | nil => trivial
  | cons block rest =>
    obtain ⟨rfl, hmin, -, hrest⟩ := htiles
    refine ⟨?_, h.2.congr fun other hother => ?_⟩
    · refine (Header.load_write .prev memory block.address hlt).trans ?_
      rw [h.1, Header.update, linkOf, if_neg hpos]
      rfl
    · have hbound := (hrest.bounds hother).1
      refine Header.load_write_of_disjoint .prev _ _ _ _ (.inr ?_)
      simp only [Block.limit, minBlockSize, headerSize, granule, Header.usedBytes] at *
      omega

end Chain

/-! ## Heaps -/

/-- The headers in the arena of a heap describe these blocks. -/
structure Holds (heap : Heap) (blocks : List Block) : Prop where
  /-- The blocks cover the arena. -/
  tiles : Tiles heap.arena.start blocks (heap.arena.start + heap.arena.size)
  /-- Their headers are intact and linked. -/
  chain : Chain heap.memory none blocks none
  /-- The arena is not empty. -/
  size_pos : 0 < heap.arena.size
  /-- No block is at the address that stands for no link. -/
  start_pos : 0 < heap.arena.start
  /-- The arena begins at a multiple of a granule. -/
  start_aligned : heap.arena.start % granule = 0
  /-- Every address of the arena has 64 bits. -/
  limit_lt : heap.arena.start + heap.arena.size < bitRange 64

/-- The headers in the arena of a heap describe these blocks, and the addresses that occur in them
can be kept in headers. -/
theorem Holds.address_bounds {heap : Heap} {blocks : List Block} {block : Block}
    (h : Holds heap blocks) (hblock : block ∈ blocks) :
    heap.arena.start ≤ block.address ∧ block.limit ≤ heap.arena.start + heap.arena.size ∧
      block.address ≠ 0 ∧ block.limit < bitRange 64 := by
  obtain ⟨hfirst, hlimit, -, -⟩ := h.tiles.bounds hblock
  have hpos := h.start_pos
  exact ⟨hfirst, hlimit, by omega, Nat.lt_of_le_of_lt hlimit h.limit_lt⟩

/-! ## Frame conditions -/

/-- Whether an address lies in the header of one of the blocks. -/
def InHeader (blocks : List Block) (query : Nat) : Prop :=
  ∃ block ∈ blocks, block.address ≤ query ∧ query < block.payload

/-- From `memory` to `memory'`, no bytes have changed but those in the headers of the blocks that
were there before or are there afterwards. -/
def OnlyHeaders (memory : ByteMemory) (blocks : List Block) (memory' : ByteMemory)
    (blocks' : List Block) : Prop :=
  ∀ query, ¬InHeader blocks query → ¬InHeader blocks' query →
    memory'.read query = memory.read query

/-- From one memory to another, no bytes have changed but those in headers at these addresses. -/
def AgreeOutside (addresses : List Nat) (memory memory' : ByteMemory) : Prop :=
  ∀ query, (∀ address ∈ addresses, query < address ∨ address + headerSize ≤ query) →
    memory'.read query = memory.read query

section Edits

variable {memory middle memory' : ByteMemory} {addresses addresses' : List Nat} {address : Nat}

theorem agreeOutside_write (field : Header.Field) (memory : ByteMemory) (address number : Nat) :
    AgreeOutside [address] memory (field.write memory address number) := by
  intro query hquery
  have houtside := hquery address List.mem_cons_self
  refine field.read_write_of_outside memory address number query ?_
  simp only [headerSize, Header.usedBytes] at *
  omega

theorem agreeOutside_store (memory : ByteMemory) (address : Nat) (header : Header) :
    AgreeOutside [address] memory (header.store memory address) := by
  intro query hquery
  have houtside := hquery address List.mem_cons_self
  refine Header.read_store_of_outside memory address header query ?_
  simp only [headerSize, Header.usedBytes] at *
  omega

theorem agreeOutside_relink (memory : ByteMemory) (link : Option Nat) (address : Nat) :
    AgreeOutside link.toList memory (relink memory link address) := by
  cases link with
  | none => exact fun _ _ => rfl
  | some next => exact agreeOutside_write .prev memory next address

theorem AgreeOutside.trans (h : AgreeOutside addresses memory middle)
    (h' : AgreeOutside addresses' middle memory') :
    AgreeOutside (addresses ++ addresses') memory memory' := by
  intro query hquery
  refine (h' query fun other hother => ?_).trans (h query fun other hother => ?_)
  · exact hquery other (List.mem_append_right _ hother)
  · exact hquery other (List.mem_append_left _ hother)

/-- A header at another address is not touched. -/
theorem AgreeOutside.load (h : AgreeOutside addresses memory memory')
    (hapart : ∀ other ∈ addresses, address + headerSize ≤ other ∨ other + headerSize ≤ address) :
    Header.load memory' address = Header.load memory address := by
  refine Header.load_congr fun query hle hlt => h query fun other hother => ?_
  have houtside := hapart other hother
  simp only [headerSize, Header.usedBytes] at *
  omega

/-- Headers behind all that is written are linked to another predecessor, and stay otherwise. -/
theorem Chain.relinked {stored linked : ByteMemory} {prev : Option Nat} {after : List Block}
    {first limit : Nat} (h : Chain memory prev after none) (htiles : Tiles first after limit)
    (hstore : AgreeOutside addresses memory stored)
    (hlinked : linked = relink stored (firstLink after none) address)
    (hwrite : AgreeOutside addresses' linked memory')
    (hbelow : ∀ other ∈ addresses ++ addresses', other + headerSize ≤ first)
    (hpos : address ≠ 0) (hlt : address < bitRange 64) :
    Chain memory' (some address) after none := by
  have hkept : Chain stored prev after none := by
    refine h.congr fun block hblock => hstore.load fun other hother => .inr ?_
    exact Nat.le_trans (hbelow other (List.mem_append_left _ hother)) (htiles.bounds hblock).1
  have hrelinked := chain_relink hkept htiles hpos hlt
  rw [← hlinked] at hrelinked
  refine hrelinked.congr fun block hblock => hwrite.load fun other hother => .inr ?_
  exact Nat.le_trans (hbelow other (List.mem_append_right _ hother)) (htiles.bounds hblock).1

end Edits

section Frame

variable {first limit query : Nat} {blocks blocks' : List Block} {block : Block}

theorem outside_of_not_inHeader (h : ¬InHeader blocks query) (hblock : block ∈ blocks) :
    query < block.address ∨ block.payload ≤ query := by
  refine Decidable.byContradiction fun hin => h ⟨block, hblock, ?_⟩
  omega

/-- A payload has no byte in common with any header. -/
theorem Tiles.not_inHeader (h : Tiles first blocks limit) (hblock : block ∈ blocks)
    (hquery : block.Contains query) : ¬InHeader blocks query := by
  rintro ⟨other, hother, hle, hlt⟩
  by_cases heq : other = block
  · rw [heq] at hlt
    exact Nat.not_lt.mpr hquery.1 hlt
  · have hapart := h.apart hblock hother heq
    have hmin := (h.bounds hother).2.2.1
    simp only [Block.Contains, Block.payload, Block.limit, minBlockSize, headerSize, granule] at *
    omega

/-- If only headers have changed, the payload of a block that is still there has not. -/
theorem OnlyHeaders.read_payload {memory memory' : ByteMemory}
    (h : OnlyHeaders memory blocks memory' blocks') {first' limit' : Nat}
    (htiles : Tiles first blocks limit) (htiles' : Tiles first' blocks' limit')
    (hblock : block ∈ blocks) (hblock' : block ∈ blocks') (hquery : block.Contains query) :
    memory'.read query = memory.read query :=
  h query (htiles.not_inHeader hblock hquery) (htiles'.not_inHeader hblock' hquery)

end Frame

end KernelResources.Heap
