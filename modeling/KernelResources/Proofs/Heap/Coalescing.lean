import Mathlib.Data.List.Chain
import KernelResources.Proofs.Ensures
import KernelResources.Proofs.Heap.Clients

/-!
# Free blocks that lie side by side

A heap merges what is given back with its free neighbours, so of two blocks side by side at least
one is in use. This file shows that every operation keeps it that way, whatever the neighbours of
the blocks it works on are.

* `Coalesced` is the property of a list of blocks; `coalesced_cut`, `coalesced_joinNext` and
  `coalesced_mergeBlocks` say how it survives the changes to the list.
* `Tidy` is the property of a heap; `ensures_tidy_run` says that every permitted request keeps it.
-/

namespace KernelResources.Heap

variable {heap heap' : Heap} {blocks before after : List Block} {block new hole : Block}
  {size needed : Nat}

/-! ## Lists of blocks -/

/-- Of two blocks side by side, at least one is in use. -/
def Coalesced (blocks : List Block) : Prop :=
  blocks.IsChain fun block next => block.free = false ∨ next.free = false

theorem coalesced_singleton (block : Block) : Coalesced [block] := .singleton _

/-- A list is taken apart at a block that belongs to both parts. -/
theorem coalesced_around :
    Coalesced (before ++ block :: after) ↔
      Coalesced (before ++ [block]) ∧ Coalesced (block :: after) :=
  List.isChain_split

theorem coalesced_cons_cons {next : Block} :
    Coalesced (block :: next :: after) ↔
      (block.free = false ∨ next.free = false) ∧ Coalesced (next :: after) :=
  List.isChain_cons_cons

/-- A block in use may stand in front of any list. -/
theorem Coalesced.cons_used (h : Coalesced after) (hused : block.free = false) :
    Coalesced (block :: after) :=
  List.isChain_cons.mpr ⟨fun _ _ => .inl hused, h⟩

theorem Coalesced.tail (h : Coalesced (block :: after)) : Coalesced after :=
  (List.isChain_cons.mp h).2

/-- The first block may be replaced by one that is free only if it was. -/
theorem Coalesced.replace_head (h : Coalesced (block :: after))
    (hfree : new.free = true → block.free = true) : Coalesced (new :: after) := by
  refine List.isChain_cons.mpr ⟨fun next hnext => ?_, h.tail⟩
  cases hnew : new.free with
  | false => exact .inl rfl
  | true =>
    refine .inr (((List.isChain_cons.mp h).1 next hnext).resolve_left ?_)
    simp [hfree hnew]

/-- So may the last block. -/
theorem Coalesced.replace_last (h : Coalesced (before ++ [block]))
    (hfree : new.free = true → block.free = true) : Coalesced (before ++ [new]) := by
  obtain ⟨hbefore, -, hseam⟩ := List.isChain_append.mp h
  refine List.isChain_append.mpr ⟨hbefore, .singleton _, fun last hlast next hnext => ?_⟩
  obtain rfl : new = next := Option.some.inj hnext
  cases hnew : new.free with
  | false => exact .inr rfl
  | true =>
    refine .inl ((hseam last hlast block rfl).resolve_right ?_)
    simp [hfree hnew]

/-- A block in use is cut in two where a free block was: what is left over is free, but so was what
stood in front of `after`. -/
theorem coalesced_cut (hbefore : Coalesced (before ++ [block])) (hused : block.free = false)
    (hafter : Coalesced (hole :: after)) (hfree : hole.free = true) :
    Coalesced (before ++ (cutBlocks block needed ++ after)) := by
  unfold cutBlocks
  split
  · exact coalesced_around.mpr ⟨hbefore, hafter.tail.cons_used hused⟩
  · refine coalesced_around.mpr ⟨hbefore.replace_last fun h => h, ?_⟩
    exact (hafter.replace_head fun _ => hfree : Coalesced (restOf block needed :: after)).cons_used
      hused

/-- A block that was merged with the block behind it borders on a block in use. -/
theorem coalesced_joinNext (h : Coalesced after) : Coalesced (joinNext block after) := by
  cases after with
  | nil => exact coalesced_singleton block
  | cons next rest =>
    by_cases hnext : next.free = true
    · rw [joinNext, if_pos hnext]
      exact h.replace_head fun _ => hnext
    · rw [joinNext, if_neg hnext]
      exact coalesced_cons_cons.mpr ⟨.inr (Bool.eq_false_iff.mpr hnext), h⟩

/-- A free block that was merged with its neighbours borders on blocks in use. -/
theorem coalesced_mergeBlocks (hbefore : Coalesced before) (hafter : Coalesced after)
    (hfree : block.free = true) : Coalesced (mergeBlocks before block after) := by
  obtain ⟨joined, rest, hjoined, -, hjoinedFree⟩ := joinNext_eq_cons block after
  have hbehind : Coalesced (joined :: rest) := hjoined ▸ coalesced_joinNext hafter
  rw [mergeBlocks, hjoined]
  rcases List.eq_nil_or_concat before with rfl | ⟨front, prev, rfl⟩
  · exact hbehind
  rw [List.concat_eq_append] at hbefore
  rw [List.concat_eq_append, joinPrev_concat]
  by_cases hprev : prev.free = true
  · rw [if_pos hprev]
    refine coalesced_around.mpr ⟨hbefore.replace_last fun _ => hprev, ?_⟩
    exact hbehind.replace_head fun _ => hjoinedFree.trans hfree
  · rw [if_neg hprev]
    exact coalesced_around.mpr ⟨hbefore, hbehind.cons_used (Bool.eq_false_iff.mpr hprev)⟩

/-- If all blocks of an intact heap are free, there is only one. -/
theorem Coalesced.eq_singleton (h : Coalesced blocks) (hholds : Holds heap blocks)
    (hfree : ∀ block ∈ blocks, block.free = true) :
    blocks = [{ address := heap.arena.start, size := heap.arena.size, free := true }] := by
  have htiles := hholds.tiles
  have hpos := hholds.size_pos
  rcases blocks with _ | ⟨⟨address, size, free⟩, _ | ⟨next, rest⟩⟩
  · have heq : heap.arena.start = heap.arena.start + heap.arena.size := htiles
    omega
  · obtain ⟨haddress, -, -, hlimit⟩ := htiles
    obtain rfl : free = true := hfree _ List.mem_cons_self
    obtain rfl : address = heap.arena.start := haddress
    obtain rfl : size = heap.arena.size := Nat.add_left_cancel hlimit
    rfl
  · -- Two free blocks side by side were merged.
    obtain ⟨hfirst, hnext⟩ := List.forall_mem_cons.mp hfree
    rcases (coalesced_cons_cons.mp h).1 with hused | hused
    · exact Bool.noConfusion (hfirst.symm.trans hused)
    · exact Bool.noConfusion ((hnext next List.mem_cons_self).symm.trans hused)

/-- Headers describe only one list of blocks. -/
theorem blocks_unique {memory : ByteMemory} {prev : Option Nat} {first limit : Nat}
    {blocks blocks' : List Block} (htiles : Tiles first blocks limit)
    (hchain : Chain memory prev blocks none) (htiles' : Tiles first blocks' limit)
    (hchain' : Chain memory prev blocks' none) : blocks = blocks' := by
  -- Induction on the first list; as long as the limit is not reached, the other one goes on too.
  induction blocks generalizing first prev blocks' with
  | nil =>
    cases blocks' with
    | nil => rfl
    | cons block' rest' =>
      obtain ⟨rfl, hmin, -, hrest⟩ := htiles'
      have hle := hrest.le
      have hlimit : block'.address = limit := htiles
      simp only [Block.limit, minBlockSize, headerSize, granule] at *
      omega
  | cons block rest ih =>
    obtain ⟨rfl, hmin, -, hrest⟩ := htiles
    cases blocks' with
    | nil =>
      have hle := hrest.le
      have hlimit : block.address = limit := htiles'
      simp only [Block.limit, minBlockSize, headerSize, granule] at *
      omega
    | cons block' rest' =>
      obtain ⟨haddress, -, -, hrest'⟩ := htiles'
      -- One header is read for both blocks.
      have hheader := hchain.1.symm.trans (haddress ▸ hchain'.1)
      have hsize : block.size = block'.size := congrArg Header.size hheader
      have hfree : block.free = block'.free := congrArg Header.free hheader
      have heq : block = block' := by
        cases block
        cases block'
        simp_all
      subst heq
      rw [ih hrest hchain.2 hrest' hchain'.2]

theorem Holds.unique {blocks' : List Block} (h : Holds heap blocks) (h' : Holds heap blocks') :
    blocks = blocks' :=
  blocks_unique h.tiles h.chain h'.tiles h'.chain

/-! ## Operations -/

/-- The headers describe blocks of which no two free ones lie side by side. -/
def Tidy (heap : Heap) : Prop := ∃ blocks, Holds heap blocks ∧ Coalesced blocks

/-- The blocks of a tidy heap are coalesced. -/
theorem Tidy.coalesced (htidy : Tidy heap) (h : Holds heap blocks) : Coalesced blocks := by
  obtain ⟨blocks', h', hcoalesced⟩ := htidy
  exact h.unique h' ▸ hcoalesced

/-- Bytes written into a payload leave a heap tidy. -/
theorem Holds.tidy_writing (h : Holds heap blocks) (hcoalesced : Coalesced blocks)
    (hblock : block ∈ blocks) (harena : heap'.arena = heap.arena)
    (hread : ∀ query, ¬block.Contains query →
      heap'.memory.read query = heap.memory.read query) : Tidy heap' :=
  ⟨blocks, h.writing hblock harena hread, hcoalesced⟩

section Operations

variable (h : Holds heap blocks) (hcoalesced : Coalesced blocks)
include h hcoalesced

/-- Allocating yields a new block of sufficient size in a coalesced list. -/
theorem settles_allocate_coalesced (size : Nat) :
    (allocate size).Settles heap
      (fun pointer heap' => ∃ new blocks' needed, blockSize? size = some needed ∧
        pointer = new.payload ∧ needed ≤ new.size ∧
          Transfers heap blocks [] [new] heap' blocks' ∧ Coalesced blocks')
      fun _ heap' => heap' = heap := by
  refine (settles_allocate h size).mono ?_ fun _ _ hrefused => hrefused.1
  rintro _ heap' ⟨before, block, after, needed, rfl, -, hneeded, hfits, -, rfl, hchanges⟩
  obtain ⟨new, haddress, -, hsize, htransfers⟩ := transfers_cut_free h hfits hchanges
  obtain ⟨hbefore, hafter⟩ := coalesced_around.mp hcoalesced
  -- The chosen block was free, so both its neighbours are in use.
  have hfree : block.free = true := (Bool.and_eq_true_iff.mp hfits).1
  refine ⟨new, _, needed, hneeded, ?_, hsize, htransfers, ?_⟩
  · rw [Block.payload, Block.payload, haddress]
  · exact coalesced_cut (hbefore.replace_last fun hused => Bool.noConfusion hused) rfl hafter hfree

theorem ensures_tidy_allocate (size : Nat) :
    (allocate size).Ensures heap (fun _ => Tidy) fun _ _ => True := by
  refine (settles_allocate_coalesced h hcoalesced size).ensures.mono ?_ fun _ _ _ => trivial
  rintro _ heap' ⟨new, blocks', needed, -, -, -, htransfers, hcoalesced'⟩
  exact ⟨blocks', htransfers.holds, hcoalesced'⟩

theorem ensures_tidy_free (hblock : block ∈ blocks) (hused : block.free = false) :
    (free block.payload).Ensures heap (fun _ => Tidy) fun _ _ => True := by
  obtain ⟨before, after, rfl⟩ := List.append_of_mem hblock
  refine (settles_free h hused).ensures.mono_done fun _ heap' hchanges => ?_
  obtain ⟨hbefore, hafter⟩ := coalesced_around.mp hcoalesced
  exact ⟨_, hchanges.holds,
    coalesced_mergeBlocks (List.isChain_append.mp hbefore).1 hafter.tail rfl⟩

theorem ensures_tidy_allocateZeroed (count size : Nat) :
    (allocateZeroed count size).Ensures heap (fun _ => Tidy) fun _ _ => True := by
  refine Action.ensures_bind (Action.ensures_ofOption (fun _ => trivial) fun total _ => ?_)
  refine ((settles_allocate_coalesced h hcoalesced total).ensures.mono (fun _ _ hdone => hdone)
    fun _ _ _ => trivial).bind ?_
  rintro _ obtained ⟨new, blocks', needed, hneeded, rfl, hsize, htransfers, hcoalesced'⟩
  have hroom := (blockSize?_bounds hneeded).1
  have hnew := ((htransfers.inUse new).mpr (.inl List.mem_cons_self)).1
  refine Action.ensures_bind (Action.ensures_modify (Action.ensures_pure ?_))
  -- The zeros reach no further than the payload.
  refine htransfers.holds.tidy_writing hcoalesced' hnew rfl fun query hquery => ?_
  show Store.read (Store.fill _ _ _ _) _ = _
  rw [Store.read_fill, if_neg]
  simp only [Block.Contains, Block.payload, Block.limit, headerSize] at *
  omega

theorem ensures_tidy_move (hblock : block ∈ blocks) (hused : block.free = false)
    (hneeded : blockSize? size = some needed) (hgrows : block.size < needed) :
    (move block.payload block.size size).Ensures heap (fun _ => Tidy) fun _ _ => True := by
  refine ((settles_allocate_coalesced h hcoalesced size).ensures.mono (fun _ _ hdone => hdone)
    fun _ _ _ => trivial).bind ?_
  rintro _ obtained ⟨new, between, needed', hneeded', rfl, hsize, htransfers, hcoalesced'⟩
  obtain rfl : needed = needed' := Option.some.inj (hneeded.symm.trans hneeded')
  have hnew := ((htransfers.inUse new).mpr (.inl List.mem_cons_self)).1
  have hkept := ((htransfers.inUse block).mpr (.inr ⟨⟨hblock, hused⟩, List.not_mem_nil⟩)).1
  refine Action.ensures_bind (Action.ensures_subtract ?_)
  refine Action.ensures_bind (Action.ensures_modify ?_)
  generalize hcopied : ({ obtained with memory := _ } : Heap) = copied
  -- The copy fits into the new payload, and the old block is still there to be given back.
  have hholds : Holds copied between := by
    refine htransfers.holds.writing hnew (by rw [← hcopied]) fun query hquery => ?_
    rw [← hcopied, Store.read_copy, if_neg]
    simp only [Block.Contains, Block.payload, Block.limit, headerSize] at *
    omega
  exact (ensures_tidy_free hholds hcoalesced' hkept hused).bind fun _ _ htidy =>
    Action.ensures_pure htidy

/-- Resizing in place or by moving leaves a tidy heap. -/
theorem ensures_tidy_resize (hblock : block ∈ blocks) (hused : block.free = false) (size : Nat) :
    (resize block.payload size).Ensures heap (fun _ => Tidy) fun _ _ => True := by
  rw [resize_eq]
  refine (settles_ownerOf h hblock hused).ensures.bind ?_
  rintro found _ ⟨rfl, rfl⟩
  refine Action.ensures_bind (Action.ensures_refuseIf (fun _ => trivial) fun hzero => ?_)
  refine Action.ensures_bind (Action.ensures_ofOption (fun _ => trivial) fun needed hneeded => ?_)
  obtain ⟨-, haligned, hmin⟩ := blockSize?_bounds hneeded
  have hmin := hmin hzero
  refine Action.ensures_bind (settles_header ?_).ensures
  obtain ⟨before, after, rfl⟩ := List.append_of_mem hblock
  obtain ⟨hbefore, hafter⟩ := coalesced_around.mp hcoalesced
  rw [h.chain_around.2.1]
  by_cases hle : needed ≤ block.size
  · -- The rest that is cut off is merged with the block behind it.
    simp only [Block.header, hle, if_true]
    refine (settles_shrink h hused hle hmin haligned).ensures.bind fun _ heap' hchanges => ?_
    refine Action.ensures_pure ⟨_, hchanges.holds, ?_⟩
    unfold shrinkBlocks
    split
    · exact hcoalesced
    · refine coalesced_around.mpr ⟨hbefore.replace_last fun hfree => hfree, ?_⟩
      exact (coalesced_joinNext hafter.tail).cons_used hused
  · simp only [Block.header, hle, if_false]
    refine (settles_fitsWithNext h).ensures.bind ?_
    rintro fits _ ⟨rfl, hfits⟩
    cases fits with
    | true =>
      -- The block behind was free, so the one behind that is in use.
      obtain ⟨next, rest, rfl, hfree, hle⟩ := hfits.mp rfl
      simp only [if_true]
      refine (settles_grow h hle hmin haligned).ensures.bind fun _ heap' hchanges => ?_
      refine Action.ensures_pure ⟨_, hchanges.holds, ?_⟩
      exact coalesced_cut (hbefore.replace_last fun hfree => hfree) hused hafter.tail hfree
    | false =>
      simp only [Bool.false_eq_true, if_false]
      exact ensures_tidy_move h hcoalesced hblock hused hneeded (Nat.lt_of_not_le hle)

end Operations

/-- Every permitted request leaves a tidy heap. -/
theorem ensures_tidy_run {session : Session} {request : Request}
    (h : Accounted session.heap session.live blocks) (hcoalesced : Coalesced blocks)
    (hpermits : session.Permits request) :
    request.run.Ensures session.heap (fun _ => Tidy) fun _ _ => True := by
  cases request with
  | allocate size => exact ensures_tidy_allocate h.holds hcoalesced size
  | allocateZeroed count size => exact ensures_tidy_allocateZeroed h.holds hcoalesced count size
  | resize pointer size =>
    obtain ⟨block, hblock, hused, rfl⟩ := h.exists_block hpermits
    exact ensures_tidy_resize h.holds hcoalesced hblock hused size
  | free pointer =>
    obtain ⟨block, hblock, hused, rfl⟩ := h.exists_block hpermits
    exact (ensures_tidy_free h.holds hcoalesced hblock hused).bind fun _ _ htidy =>
      Action.ensures_pure htidy
  | write pointer offset byte =>
    obtain ⟨hlive, capacity, hcapacity, hoffset⟩ := hpermits
    obtain ⟨block, hblock, hused, rfl⟩ := h.exists_block hlive
    obtain rfl : block.size - headerSize = capacity :=
      Option.some.inj ((Session.capacity?_eq h.holds hblock hused).symm.trans hcapacity)
    refine Action.ensures_bind (Action.ensures_modify (Action.ensures_pure ?_))
    refine h.holds.tidy_writing hcoalesced hblock rfl fun query hquery => ?_
    show Store.read (Store.write _ _ _) _ = _
    rw [Store.read_write, if_neg]
    simp only [Block.Contains, Block.payload, Block.limit, headerSize] at *
    omega

end KernelResources.Heap
