import KernelResources.Proofs.Heap.Resizing

/-!
# Freeing undoes allocating

Cutting a block and merging it again are written independently of each other, and what is merged
depends on the neighbours of a block at that time. What makes them inverse is that a coalesced list
has no choice: it is determined by the blocks in use, since each gap between them is one free block.

* `Coalesced.ext`: coalesced lists that cover the same range with the same blocks in use are equal.
* `SameList` says that two heaps have the same block list, as one finds it by following the links,
  and `sameList_of_inUse` draws it from the blocks in use.
* `reversal_of_attained`: after any run, freeing what was just allocated restores the block list,
  and the order in which two payloads are given back makes no difference.
-/

namespace KernelResources.Heap

variable {heap heap' : Heap} {blocks blocks' rest rest' : List Block} {block block' : Block}
  {session : Session} {first limit : Nat}

/-! ## Lists with the same blocks in use -/

theorem Tiles.eq_nil (h : Tiles limit blocks limit) : blocks = [] := by
  cases blocks with
  | nil => rfl
  | cons block rest =>
    obtain ⟨haddress, hmin, -, hrest⟩ := h
    have hle := hrest.le
    simp only [Block.limit, minBlockSize, headerSize, granule] at *
    omega

/-- A free block reaches at least as far as the free block of another list that begins at the same
address, if all blocks in use are also in that list. -/
theorem Coalesced.limit_le (hcoalesced : Coalesced (block :: rest))
    (h : Tiles first (block :: rest) limit) (h' : Tiles first (block' :: rest') limit)
    (hfree : block.free = true) (hfree' : block'.free = true)
    (hsame : ∀ other ∈ block :: rest, other.free = false → other ∈ block' :: rest') :
    block'.limit ≤ block.limit := by
  cases rest with
  | nil =>
    have hlimit : block.limit = limit := h.2.2.2
    exact hlimit ▸ h'.2.2.2.le
  | cons next rest =>
    -- The block behind is in use, so the other list has it too, behind its own free block.
    have hused : next.free = false :=
      (coalesced_cons_cons.mp hcoalesced).1.resolve_left (by simp [hfree])
    have hnext := hsame next (List.mem_cons_of_mem _ List.mem_cons_self) hused
    rcases List.mem_cons.mp hnext with rfl | hnext
    · exact Bool.noConfusion (hused.symm.trans hfree')
    · exact h.2.2.2.1 ▸ (h'.2.2.2.bounds hnext).1

/-- Coalesced lists that cover the same range with the same blocks in use begin with the same
block. -/
theorem Coalesced.head_eq (hcoalesced : Coalesced (block :: rest))
    (hcoalesced' : Coalesced (block' :: rest')) (h : Tiles first (block :: rest) limit)
    (h' : Tiles first (block' :: rest') limit)
    (hsame : ∀ other, (other ∈ block' :: rest' ∧ other.free = false) ↔
      other ∈ block :: rest ∧ other.free = false) : block' = block := by
  have haddress : block'.address = block.address := h'.1.trans h.1.symm
  -- A block in use is in both lists, and no list has two blocks at one address.
  cases hfree : block.free with
  | false =>
    have hmem := ((hsame block).mpr ⟨List.mem_cons_self, hfree⟩).1
    exact h'.eq_of_address hmem List.mem_cons_self haddress
  | true =>
    cases hfree' : block'.free with
    | false =>
      have hmem := ((hsame block').mp ⟨List.mem_cons_self, hfree'⟩).1
      exact h.eq_of_address List.mem_cons_self hmem haddress
    | true =>
      -- Two free blocks both reach to the first block in use, or to the end.
      have hle := hcoalesced.limit_le h h' hfree hfree' fun other hother hused =>
        ((hsame other).mpr ⟨hother, hused⟩).1
      have hge := hcoalesced'.limit_le h' h hfree' hfree fun other hother hused =>
        ((hsame other).mp ⟨hother, hused⟩).1
      have hsize : block'.size = block.size := by
        simp only [Block.limit] at hle hge
        omega
      obtain ⟨address, size, free⟩ := block
      obtain ⟨address', size', free'⟩ := block'
      exact (Block.mk.injEq ..).mpr ⟨haddress, hsize, hfree'.trans hfree.symm⟩

/-- The first block of a list does not come again. -/
theorem Tiles.head_not_mem (h : Tiles first (block :: rest) limit) {others : List Block}
    (hothers : Tiles block.limit others limit) : block ∉ others := by
  intro hmem
  have hge := (hothers.bounds hmem).1
  have hmin := h.2.1
  simp only [Block.limit, minBlockSize, headerSize, granule] at *
  omega

/-- A coalesced list is determined by the range it covers and the blocks in use. -/
theorem Coalesced.ext (hcoalesced : Coalesced blocks) (hcoalesced' : Coalesced blocks')
    (h : Tiles first blocks limit) (h' : Tiles first blocks' limit)
    (hsame : ∀ other, (other ∈ blocks' ∧ other.free = false) ↔
      other ∈ blocks ∧ other.free = false) : blocks = blocks' := by
  -- Induction on the first list; it is enough that both lists begin with the same block.
  induction blocks generalizing first blocks' with
  | nil =>
    obtain rfl : first = limit := h
    exact h'.eq_nil.symm
  | cons block rest ih =>
    cases blocks' with
    | nil =>
      obtain rfl : first = limit := h'
      exact h.eq_nil
    | cons block' rest' =>
      obtain rfl := hcoalesced.head_eq hcoalesced' h h' hsame
      rw [ih hcoalesced.tail hcoalesced'.tail h.2.2.2 h'.2.2.2 fun other => ?_]
      -- What is in use behind the first block is what is in use but for that block.
      have hother := hsame other
      by_cases heq : other = block'
      · subst heq
        simp [h.head_not_mem h.2.2.2, h.head_not_mem h'.2.2.2]
      · simpa [heq] using hother

/-! ## Heaps with the same block list -/

/-- The headers of two heaps describe the same list: the links lead to the same addresses, and the
headers there are the same. -/
structure SameList (heap heap' : Heap) : Prop where
  /-- The arena is the same. -/
  arena_eq : heap'.arena = heap.arena
  /-- The blocks are at the same addresses. -/
  linked_iff : ∀ address, Linked heap' address ↔ Linked heap address
  /-- Their headers say the same of size, links, guard and free flag. -/
  load_eq : ∀ address, Linked heap address →
    Header.load heap'.memory address = Header.load heap.memory address

/-- Headers that describe the same blocks are the same. -/
theorem Holds.sameList (h : Holds heap blocks) (h' : Holds heap' blocks)
    (harena : heap'.arena = heap.arena) : SameList heap heap' where
  arena_eq := harena
  linked_iff address := by
    constructor
    · intro hlinked
      obtain ⟨block, hblock, rfl⟩ := h'.exists_of_linked hlinked
      exact h.linked hblock
    · intro hlinked
      obtain ⟨block, hblock, rfl⟩ := h.exists_of_linked hlinked
      exact h'.linked hblock
  load_eq address hlinked := by
    obtain ⟨block, hblock, rfl⟩ := h.exists_of_linked hlinked
    obtain ⟨before, after, rfl⟩ := List.append_of_mem hblock
    exact h'.chain_around.2.1.trans h.chain_around.2.1.symm

/-- Coalesced lists in one arena with the same blocks in use are the same. -/
theorem sameList_of_inUse (h : Holds heap blocks) (hcoalesced : Coalesced blocks)
    (h' : Holds heap' blocks') (hcoalesced' : Coalesced blocks')
    (harena : heap'.arena = heap.arena)
    (hsame : ∀ other, (other ∈ blocks' ∧ other.free = false) ↔
      other ∈ blocks ∧ other.free = false) : SameList heap heap' := by
  have htiles' := h'.tiles
  rw [harena] at htiles'
  obtain rfl := hcoalesced.ext hcoalesced' h.tiles htiles' hsame
  exact h.sameList h' harena

/-! ## Giving back -/

section Freed

variable (h : Holds heap blocks) (hcoalesced : Coalesced blocks)
include h hcoalesced

/-- A block in use can be given back, and then all others are still in use. -/
theorem settles_freed {refused : MemoryError → Heap → Prop} (hblock : block ∈ blocks)
    (hused : block.free = false) :
    (free block.payload).Settles heap (fun _ heap' => ∃ blocks',
      Transfers heap blocks [block] [] heap' blocks' ∧ Coalesced blocks') refused := by
  have htidy := ensures_tidy_free h hcoalesced hblock hused
  obtain ⟨before, after, rfl⟩ := List.append_of_mem hblock
  refine ((settles_free h hused).also htidy).mono_done ?_
  rintro _ heap' ⟨hchanges, htidy'⟩
  exact ⟨_, transfers_free h hchanges, htidy'.coalesced hchanges.holds⟩

/-- What was just obtained can be given back, which leads to the list there was before. -/
theorem settles_freed_of_transfers {refused : MemoryError → Heap → Prop}
    (htransfers : Transfers heap blocks [] [block] heap' blocks')
    (hcoalesced' : Coalesced blocks') :
    (free block.payload).Settles heap' (fun _ final => SameList heap final) refused := by
  obtain ⟨hblock, hused⟩ := (htransfers.inUse block).mpr (.inl List.mem_cons_self)
  refine (settles_freed htransfers.holds hcoalesced' hblock hused).mono_done ?_
  rintro _ final ⟨blocks'', hfreed, hcoalesced''⟩
  refine sameList_of_inUse h hcoalesced hfreed.holds hcoalesced''
    (hfreed.arena_eq.trans htransfers.arena_eq) fun other => ?_
  have hnew : ¬(block ∈ blocks ∧ block.free = false) := fun hold =>
    htransfers.apart block List.mem_cons_self block hold.1 hold.2 List.not_mem_nil rfl
  rw [hfreed.inUse, htransfers.inUse]
  by_cases heq : other = block
  · subst heq
    simpa using hnew
  · simp [heq]

/-- Two blocks in use can be given back one after the other, and then all others are still in
use. -/
theorem settles_freed_both {refused : MemoryError → Heap → Prop} (hblock : block ∈ blocks)
    (hused : block.free = false) (hblock' : block' ∈ blocks) (hused' : block'.free = false)
    (hne : block' ≠ block) :
    (do free block.payload; free block'.payload : Action MemoryError Heap Unit).Settles heap
      (fun _ heap' => heap'.arena = heap.arena ∧ ∃ blocks', Holds heap' blocks' ∧
        Coalesced blocks' ∧ ∀ other, (other ∈ blocks' ∧ other.free = false) ↔
          (other ∈ blocks ∧ other.free = false) ∧ other ≠ block ∧ other ≠ block') refused := by
  refine (settles_freed h hcoalesced hblock hused).bind ?_
  rintro _ middle ⟨between, hfirst, hbetween⟩
  have hkept := (hfirst.inUse block').mpr
    (.inr ⟨⟨hblock', hused'⟩, fun hmem => hne (List.mem_singleton.mp hmem)⟩)
  refine (settles_freed hfirst.holds hbetween hkept.1 hused').mono_done ?_
  rintro _ final ⟨blocks', hsecond, hcoalesced'⟩
  refine ⟨hsecond.arena_eq.trans hfirst.arena_eq, blocks', hsecond.holds, hcoalesced',
    fun other => ?_⟩
  rw [hsecond.inUse, hfirst.inUse]
  simp [and_assoc]

end Freed

/-! ## Runs -/

/-- Freeing undoes allocating. After any run on an arena whose end has 64 bits, what was just
allocated can be given back at once, with zeros or without, and then the block list is as it was.
Two live payloads can be given back in either order, and the block list is the same afterwards. -/
theorem reversal_of_attained {start bytes : Nat} {memory : ByteMemory} {journal : Journal}
    (hlimit : start + bytes < bitRange 64)
    (h : Session.Attained start bytes memory journal session) :
    (∀ size pointer heap' journal',
      allocate size session.heap session.journal = .done pointer heap' journal' →
        ∃ final journal'', free pointer heap' journal' = .done () final journal'' ∧
          SameList session.heap final) ∧
    (∀ count size pointer heap' journal',
      allocateZeroed count size session.heap session.journal = .done pointer heap' journal' →
        ∃ final journal'', free pointer heap' journal' = .done () final journal'' ∧
          SameList session.heap final) ∧
    ∀ first second, (session.live first).isSome → (session.live second).isSome → first ≠ second →
      ∃ final final' journal' journal'',
        (do free first; free second : Action MemoryError Heap Unit) session.heap session.journal =
          .done () final journal' ∧
        (do free second; free first : Action MemoryError Heap Unit) session.heap session.journal =
          .done () final' journal'' ∧ SameList final final' := by
  obtain ⟨blocks, haccounted, hcoalesced⟩ := coalesced_of_attained hlimit h
  have hholds := haccounted.holds
  -- Both ways of allocating come to a new block in a coalesced list.
  have hundone {size pointer : Nat} {heap' : Heap} {journal' : Journal}
      (hobtained : Obtained session.heap blocks size pointer heap') (htidy : Tidy heap') :
      ∃ final journal'', free pointer heap' journal' = .done () final journal'' ∧
        SameList session.heap final := by
    obtain ⟨new, blocks', rfl, -, -, htransfers, -⟩ := hobtained
    obtain ⟨⟨⟩, final, journal'', hout, hsame⟩ := (settles_freed_of_transfers hholds hcoalesced
      htransfers (htidy.coalesced htransfers.holds)).exists_done journal'
    exact ⟨final, journal'', hout, hsame⟩
  refine ⟨fun size pointer heap' journal' hout => ?_,
    fun count size pointer heap' journal' hout => ?_, fun first second hfirst hsecond hne => ?_⟩
  · exact hundone ((settles_allocate_obtained hholds size).of_done hout)
      ((ensures_tidy_allocate hholds hcoalesced size).of_done hout)
  · exact hundone ((settles_allocateZeroed hholds count size).of_done hout).1
      ((ensures_tidy_allocateZeroed hholds hcoalesced count size).of_done hout)
  · obtain ⟨block, hblock, hused, rfl⟩ := haccounted.exists_block hfirst
    obtain ⟨block', hblock', hused', rfl⟩ := haccounted.exists_block hsecond
    have hapart : block' ≠ block := fun heq => hne (congrArg Block.payload heq.symm)
    obtain ⟨⟨⟩, final, journal', hout, harena, freed, hfreed, hfreedCoalesced, hinUse⟩ :=
      (settles_freed_both hholds hcoalesced hblock hused hblock' hused' hapart).exists_done
        session.journal
    obtain ⟨⟨⟩, final', journal'', hout', harena', freed', hfreed', hfreedCoalesced', hinUse'⟩ :=
      (settles_freed_both hholds hcoalesced hblock' hused' hblock hused hapart.symm).exists_done
        session.journal
    refine ⟨final, final', journal', journal'', hout, hout', ?_⟩
    refine sameList_of_inUse hfreed hfreedCoalesced hfreed' hfreedCoalesced'
      (harena'.trans harena.symm) fun other => ?_
    rw [hinUse, hinUse', and_comm (a := other ≠ block)]

/-- In an arena of 256 bytes two payloads lie side by side. Eight bytes more can be had and given
back, and the order in which the two are given back makes no difference. -/
theorem reversal_of_smallArena :
    ∃ session, Session.Attained 16 256 .empty #[] session ∧
      (∃ pointer heap' journal' final journal'',
        allocate 8 session.heap session.journal = .done pointer heap' journal' ∧
          free pointer heap' journal' = .done () final journal'' ∧
            SameList session.heap final) ∧
      ∃ final final' journal' journal'',
        (do free 48; free 112 : Action MemoryError Heap Unit) session.heap session.journal =
          .done () final journal' ∧
        (do free 112; free 48 : Action MemoryError Heap Unit) session.heap session.journal =
          .done () final' journal'' ∧ SameList final final' := by
  have hrun : (Session.ofRun? (fun session request => session.Permits request) 16 256
      [.allocate 20, .allocate 8]).any (fun session => (session.live 48).isSome ∧
        (session.live 112).isSome ∧
          (allocate 8 session.heap session.journal).passes fun _ _ _ => true) = true := by
    decide +kernel
  obtain ⟨session, hsession, hfacts⟩ := (Option.any_eq_true _ _).mp hrun
  obtain ⟨hfirst, hsecond, hpasses⟩ := of_decide_eq_true hfacts
  obtain ⟨pointer, heap', journal', hout, -⟩ := Outcome.passes_iff.mp hpasses
  have hattained : Session.Attained 16 256 .empty #[] session :=
    .inl (Session.reachable_of_ofRun? hsession)
  obtain ⟨hundone, -, horders⟩ := reversal_of_attained (by decide) hattained
  obtain ⟨final, journal'', hfree, hsame⟩ := hundone 8 pointer heap' journal' hout
  exact ⟨session, hattained, ⟨pointer, heap', journal', final, journal'', hout, hfree, hsame⟩,
    horders 48 112 hfirst hsecond (by decide)⟩

end KernelResources.Heap
