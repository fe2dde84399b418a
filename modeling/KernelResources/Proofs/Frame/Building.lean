import KernelResources.Proofs.Frame.Packing

/-!
# Building a frame pool in words

There are two ways of building a pool, and both build the words of the pool that is built on bits:
`packed_allFree` for a number of free frames and `packed_ofMap` for a memory map. On words, ranges
are gone through frame by frame. `Marks.forM_packed` says that this takes or gives back the range.
-/

namespace KernelResources

namespace FramePool

variable {σ : Type} {pool pool' : FramePool} {first last frame : Nat}

/-! ## Full and free pools -/

/-- The counter of a consistent pool follows from its bits. -/
theorem Consistent.packed_eq (h : pool.Consistent) (h' : pool'.Consistent)
    (htotal : pool.total = pool'.total)
    (hbits : ∀ frame, pool.isTaken frame = pool'.isTaken frame) :
    pool.packed = pool'.packed := by
  refine packed_congr htotal ?_ hbits
  rw [h.freeCount_eq, h'.freeCount_eq, ← htotal]
  refine List.countP_congr fun frame hframe => ?_
  have hlt := List.mem_range.mp hframe
  rw [← isTaken_eq_read hlt, hbits, isTaken_eq_read (htotal ▸ hlt)]

theorem isTaken_allFree (total frame : Nat) :
    (allFree total).isTaken frame = decide (total ≤ frame) := by
  rw [isTaken, allFree, Store.read_fill]
  by_cases hle : total ≤ frame
  · simp [hle]
  · simp [hle, Nat.lt_of_not_le hle]

/-- Full words are the words of a full pool. -/
theorem packed_allTaken (total : Nat) : (allTaken total).packed = Bitmap.allTaken total := by
  refine Bitmap.ext rfl rfl (Eq.symm (words_packed_eq List.length_replicate ?_))
  intro number word hword bit hbit
  obtain rfl := List.eq_of_mem_replicate (List.mem_of_getElem? hword)
  rw [BitVec.getLsbD_allOnes, decide_eq_true hbit, isTaken, allTaken, Store.read_empty,
    Bool.or_true]

/-- Empty words with a sealed tail are the words of a free pool. -/
theorem packed_allFree (total : Nat) : (allFree total).packed = Bitmap.allFree total := by
  refine Bitmap.ext rfl rfl (Eq.symm (words_packed_eq Bitmap.length_words_allFree ?_))
  intro number word hword bit hbit
  rw [Bitmap.getLsbD_words_allFree hword hbit, isTaken_allFree]

/-! ## Memory maps -/

/-- `pool'` is `pool` with the frames in `[first, last)` taken or given back, as `mark` says. -/
structure Marks (mark : Bool) (first last : Nat) (pool pool' : FramePool) : Prop where
  consistent : pool'.Consistent
  total_eq : pool'.total = pool.total
  isTaken_eq : ∀ frame, pool'.isTaken frame =
    if first ≤ frame ∧ frame < last then mark else pool.isTaken frame

namespace Marks

variable {mark : Bool}

/-- What is to be marked says what is packed. -/
theorem packed_eq {pool₁ pool₂ : FramePool} (h₁ : Marks mark first last pool pool₁)
    (h₂ : Marks mark first last pool pool₂) : pool₁.packed = pool₂.packed :=
  h₁.consistent.packed_eq h₂.consistent (h₁.total_eq.trans h₂.total_eq.symm) fun frame =>
    (h₁.isTaken_eq frame).trans (h₂.isTaken_eq frame).symm

theorem taking (h : pool.Consistent) (hlast : last ≤ pool.total) :
    Marks true first last pool (pool.taking first last) where
  consistent := consistent_taking h hlast
  total_eq := rfl
  isTaken_eq := fun frame => by
    rw [isTaken_taking]
    split <;> simp [*]

theorem releasing (h : pool.Consistent) (hlast : last ≤ pool.total) :
    Marks false first last pool (pool.releasing first last) where
  consistent := consistent_releasing h hlast
  total_eq := rfl
  isTaken_eq := fun frame => by
    rw [isTaken_releasing hlast]
    split <;> simp [*]

/-- Nothing changes if every frame of the range is marked already. -/
theorem self (h : pool.Consistent)
    (hmark : ∀ frame, first ≤ frame → frame < last → pool.isTaken frame = mark) :
    Marks mark first last pool pool where
  consistent := h
  total_eq := rfl
  isTaken_eq := fun frame => by
    split
    next hframe => exact hmark frame hframe.1 hframe.2
    next => rfl

/-- A range is marked from its first frame on. -/
theorem cons {middle : FramePool} (h : Marks mark first (first + 1) pool middle)
    (h' : Marks mark (first + 1) last middle pool') (hfirst : first < last) :
    Marks mark first last pool pool' where
  consistent := h'.consistent
  total_eq := h'.total_eq.trans h.total_eq
  isTaken_eq := fun frame => by
    rw [h'.isTaken_eq, h.isTaken_eq]
    by_cases hframe : frame = first
    · rw [if_neg (by omega), if_pos (by omega), if_pos (by omega)]
    · by_cases hin : first ≤ frame ∧ frame < last
      · rw [if_pos (by omega), if_pos hin]
      · rw [if_neg (by omega), if_neg (by omega), if_neg hin]

/-- If every frame of a range can be marked, the range can, frame by frame. When its turn comes, a
frame is still as it was. -/
theorem forM_packed {ε : Type} {markBit : Nat → Action ε Bitmap Unit} (h : pool.Consistent)
    (hlast : last ≤ pool.total)
    (hstep : ∀ middle : FramePool, middle.Consistent → middle.total = pool.total →
      ∀ frame, first ≤ frame → frame < last → middle.isTaken frame = pool.isTaken frame →
        ∃ pool', Marks mark frame (frame + 1) middle pool' ∧
          ∀ journal, markBit frame middle.packed journal = .done () pool'.packed journal) :
    ∃ pool', Marks mark first last pool pool' ∧ ∀ journal,
      (List.range' first (last - first)).forM markBit pool.packed journal =
        .done () pool'.packed journal := by
  -- Induction on the length of the range, which begins one frame later in every round.
  induction hlength : last - first generalizing first pool with
  | zero => exact ⟨pool, .self h fun frame hle hlt => by omega, fun _ => rfl⟩
  | succ length ih =>
    have hfirst : first < last := by omega
    obtain ⟨middle, hmiddle, hdone⟩ := hstep pool h rfl first (Nat.le_refl _) hfirst rfl
    have hrest : last - (first + 1) = length := by omega
    obtain ⟨pool', hpool', hloop⟩ := ih hmiddle.consistent (hmiddle.total_eq ▸ hlast)
      (fun other hother htotal frame hle hlt hsame => by
        refine hstep other hother (htotal.trans hmiddle.total_eq) frame (by omega) hlt ?_
        rw [hsame, hmiddle.isTaken_eq, if_neg (by omega)]) hrest
    refine ⟨pool', hmiddle.cons hpool' hfirst, fun journal => ?_⟩
    rw [List.range'_succ]
    exact (Action.bind_of_done (hdone journal)).trans (hloop journal)

end Marks

theorem markFree_packed (h : pool.Consistent) (hlt : frame < pool.total) :
    ∃ pool', Marks false frame (frame + 1) pool pool' ∧
      ∀ journal, Bitmap.markFree frame pool.packed journal = .done () pool'.packed journal := by
  cases hmark : pool.isTaken frame with
  | true =>
    refine ⟨_, .releasing h hlt, fun journal => ?_⟩
    rw [Bitmap.markFree, Action.bind_of_done (isSet_packed journal hlt), hmark, if_pos rfl,
      clearBit_packed journal h hlt hmark]
  | false =>
    refine ⟨pool, .self h fun other hle hother => ?_, fun journal => ?_⟩
    · rwa [show other = frame by omega]
    · rw [Bitmap.markFree, Action.bind_of_done (isSet_packed journal hlt), hmark]
      rfl

theorem markTaken_packed (h : pool.Consistent) (hlt : frame < pool.total) :
    ∃ pool', Marks true frame (frame + 1) pool pool' ∧
      ∀ journal, Bitmap.markTaken frame pool.packed journal = .done () pool'.packed journal := by
  cases hmark : pool.isTaken frame with
  | true =>
    refine ⟨pool, .self h fun other hle hother => ?_, fun journal => ?_⟩
    · rwa [show other = frame by omega]
    · rw [Bitmap.markTaken, Action.bind_of_done (isTaken_packed frame journal), hmark]
      rfl
  | false =>
    refine ⟨_, .taking h hlt, fun journal => ?_⟩
    rw [Bitmap.markTaken, Action.bind_of_done (isTaken_packed frame journal), hmark,
      if_neg Bool.false_ne_true, setBit_packed journal h hmark]

section Ranges

variable (h : pool.Consistent)
include h

/-- Giving back the frames of a range one by one gives back the range. -/
theorem releaseRange_mirrors (first last : Nat) :
    Action.Mirrors packed (Bitmap.releaseRange first last) (MemoryMap.releaseRange first last)
      pool := by
  intro journal
  have hlast := Nat.min_le_right (last / Frame.size) pool.total
  obtain ⟨pool', hmarks, hloop⟩ := Marks.forM_packed h hlast
    fun middle hmiddle htotal frame (_ : ceilDiv first Frame.size ≤ frame) hlt _ =>
      markFree_packed hmiddle (htotal ▸ Nat.lt_of_lt_of_le hlt hlast)
  rw [MemoryMap.releaseRange, Action.get_bind, release_eq h hlast, Bitmap.releaseRange,
    Action.get_bind, total_packed, hloop, hmarks.packed_eq (.releasing h hlast)]
  rfl

/-- Taking the frames of a range one by one takes the range. -/
theorem reserveRange_mirrors (first last : Nat) :
    Action.Mirrors packed (Bitmap.reserveRange first last) (MemoryMap.reserveRange first last)
      pool := by
  intro journal
  have hlast := Nat.min_le_right (ceilDiv last Frame.size) pool.total
  obtain ⟨pool', hmarks, hloop⟩ := Marks.forM_packed h hlast
    fun middle hmiddle htotal frame (_ : first / Frame.size ≤ frame) hlt _ =>
      markTaken_packed hmiddle (htotal ▸ Nat.lt_of_lt_of_le hlt hlast)
  rw [MemoryMap.reserveRange, Action.get_bind, take_eq h hlast, Bitmap.reserveRange,
    Action.get_bind, total_packed, hloop, hmarks.packed_eq (.taking h hlast)]
  rfl

end Ranges

theorem releaseRanges_mirrors (h : pool.Consistent) (ranges : List (Nat × Nat)) :
    Action.Mirrors packed (ranges.forM fun range => Bitmap.releaseRange range.1 range.2)
      (ranges.forM fun range => MemoryMap.releaseRange range.1 range.2) pool := by
  refine .forM Consistent (fun range pool h => releaseRange_mirrors h range.1 range.2)
    (fun range pool journal middle journal' h hdone => ?_) ranges h
  rw [MemoryMap.releaseRange_eq h range] at hdone
  cases hdone
  exact consistent_releasing h (Nat.min_le_right _ _)

/-- A pool is built by giving back ranges one after the other and then taking the reserved one. -/
private theorem build_mirrors (h : pool.Consistent) (ranges : List (Nat × Nat))
    (reserved? : Option (Nat × Nat)) :
    Action.Mirrors packed
      (do
        ranges.forM fun range => Bitmap.releaseRange range.1 range.2
        match reserved? with
        | some range => Bitmap.reserveRange range.1 range.2
        | none => pure ())
      (do
        ranges.forM fun range => MemoryMap.releaseRange range.1 range.2
        match reserved? with
        | some range => MemoryMap.reserveRange range.1 range.2
        | none => pure ()) pool := by
  refine (releaseRanges_mirrors h ranges).bind fun _ middle journal _ hdone => ?_
  obtain ⟨hloop, hend, -⟩ := MemoryMap.forM_releaseRange_eq h ranges
  rw [hloop journal] at hdone
  cases hdone
  cases reserved? with
  | some range => exact reserveRange_mirrors hend range.1 range.2
  | none => exact .pure ()

/-- From a memory map, the pool is built on words as it is built on bits. -/
theorem packed_ofMap (regions : List Region) (reserved : Nat × Nat) :
    packed <$> (MemoryMap.framePool regions reserved : Total σ FramePool) =
      Bitmap.ofMap regions reserved := by
  have hbody := (build_mirrors (MemoryMap.consistent_allTaken_top regions)
    (MemoryMap.usable regions) (MemoryMap.clip? reserved.1 reserved.2)).running σ
  simp only [Bitmap.ofMap, MemoryMap.framePool, map_bind, ← packed_allTaken, total_packed,
    length_words_packed]
  refine bind_congr fun _ => ?_
  refine Eq.trans ?_ (congrArg (· >>= fun built => pure built.2) hbody.symm)
  rw [bind_map_left]
  exact bind_congr fun _ => map_pure _ _

end FramePool

end KernelResources
