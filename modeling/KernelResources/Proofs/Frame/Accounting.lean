import KernelResources.Frame.MemoryMap

/-!
# Accounting of frames

A frame pool keeps its count of free frames beside the bits that say which frames are taken. This
file shows that the two never disagree, and says what each operation of the pool does to the set
of taken frames.

* `FramePool.takenFrames` lists the taken frames; `FramePool.Consistent` says that the count of
  free frames is right.
* `take_eq`, `release_eq`, `allocate_eq`, `discard_eq` and `allocateRun_cases` give the outcome of
  each operation on a consistent pool.
* `consistent_of_reachable`: whatever is done with a pool after it was built, it is consistent.
-/

namespace KernelResources

namespace FramePool

variable {ε σ : Type} {pool : FramePool} {first last frame : Nat}

/-- The taken frames in ascending order. -/
def takenFrames (pool : FramePool) : List Nat := (List.range pool.total).filter pool.isTaken

/-- The count of free frames agrees with the bits, and every frame has a physical address. -/
structure Consistent (pool : FramePool) : Prop where
  /-- As many frames are free as the count says. -/
  freeCount_eq : pool.freeCount = (List.range pool.total).countP fun frame =>
    !pool.taken.read frame
  /-- The last frame begins below the end of physical addresses. -/
  total_le : pool.total ≤ bitRange 40

theorem mem_takenFrames : frame ∈ pool.takenFrames ↔ frame < pool.total ∧ pool.isTaken frame := by
  simp [takenFrames]

theorem nodup_takenFrames (pool : FramePool) : pool.takenFrames.Nodup :=
  List.nodup_range.filter _

theorem isTaken_eq_read (h : frame < pool.total) : pool.isTaken frame = pool.taken.read frame := by
  simp [isTaken, Nat.not_le.mpr h]

theorem isTaken_of_total_le (h : pool.total ≤ frame) : pool.isTaken frame := by
  simp [isTaken, h]

theorem lt_total_of_isTaken_eq_false (h : pool.isTaken frame = false) : frame < pool.total := by
  rw [isTaken, Bool.or_eq_false_iff, decide_eq_false_iff_not] at h
  exact Nat.lt_of_not_le h.1

/-! ## Taking and giving back a range -/

/-- The pool after the frames in `[first, last)` were taken. -/
def taking (pool : FramePool) (first last : Nat) : FramePool :=
  { pool with
    freeCount := pool.freeCount - pool.taken.count (!·) first last
    taken := pool.taken.fill first last true }

/-- The pool after the frames in `[first, last)` were given back. -/
def releasing (pool : FramePool) (first last : Nat) : FramePool :=
  { pool with
    freeCount := pool.freeCount + pool.taken.count id first last
    taken := pool.taken.fill first last false }

@[simp] theorem total_taking : (pool.taking first last).total = pool.total := rfl

@[simp] theorem total_releasing : (pool.releasing first last).total = pool.total := rfl

theorem isTaken_taking :
    (pool.taking first last).isTaken frame =
      (decide (first ≤ frame ∧ frame < last) || pool.isTaken frame) := by
  simp only [isTaken, taking, Store.read_fill]
  by_cases h : first ≤ frame ∧ frame < last
  · rw [if_pos h, decide_eq_true h, Bool.or_true, Bool.true_or]
  · rw [if_neg h, decide_eq_false h, Bool.false_or]
    rfl

theorem isTaken_releasing (hlast : last ≤ pool.total) :
    (pool.releasing first last).isTaken frame =
      (!decide (first ≤ frame ∧ frame < last) && pool.isTaken frame) := by
  simp only [isTaken, releasing, Store.read_fill]
  by_cases h : first ≤ frame ∧ frame < last
  · have hlt : ¬pool.total ≤ frame := by omega
    rw [if_pos h, decide_eq_true h, Bool.not_true, Bool.false_and, Bool.or_false]
    exact decide_eq_false hlt
  · rw [if_neg h, decide_eq_false h, Bool.not_false, Bool.true_and]
    rfl

/-- The frames of a range are those of all frames that lie in it. -/
private theorem filter_range_perm {total : Nat} (hlast : last ≤ total) :
    ((List.range total).filter fun frame => first ≤ frame ∧ frame < last).Perm
      (List.range' first (last - first)) := by
  refine (List.perm_ext_iff_of_nodup (List.nodup_range.filter _) List.nodup_range').mpr
    fun frame => ?_
  simp only [List.mem_filter, List.mem_range, List.mem_range'_1, decide_eq_true_eq]
  omega

/-- Counting all frames is counting those of a range and those outside. -/
private theorem countP_range_split {total : Nat} (first : Nat) (passes : Nat → Bool)
    (hlast : last ≤ total) :
    (List.range total).countP passes =
      (List.range' first (last - first)).countP passes +
        ((List.range total).filter fun frame => !decide (first ≤ frame ∧ frame < last)).countP
          passes := by
  rw [List.countP_eq_countP_filter_add (List.range total) passes
    (fun frame => decide (first ≤ frame ∧ frame < last)), (filter_range_perm hlast).countP_eq]

/-- Outside a range that is filled, counting finds the same as before. -/
private theorem countP_outside_fill {total : Nat} (taken : Store Bool true) (value : Bool) :
    ((List.range total).filter fun frame => !decide (first ≤ frame ∧ frame < last)).countP
        (fun frame => !(taken.fill first last value).read frame) =
      ((List.range total).filter fun frame => !decide (first ≤ frame ∧ frame < last)).countP
        fun frame => !taken.read frame := by
  refine List.countP_congr fun frame hframe => ?_
  have hout := (List.mem_filter.mp hframe).2
  rw [Bool.not_eq_true', decide_eq_false_iff_not] at hout
  rw [Store.read_fill, if_neg hout]

/-- Inside a range that is filled, counting finds everything or nothing. -/
private theorem countP_inside_fill (taken : Store Bool true) (value : Bool) :
    (List.range' first (last - first)).countP
        (fun frame => !(taken.fill first last value).read frame) =
      if value then 0 else last - first := by
  have hconst : (List.range' first (last - first)).countP
      (fun frame => !(taken.fill first last value).read frame) =
        (List.range' first (last - first)).countP fun _ => !value := by
    refine List.countP_congr fun frame hframe => ?_
    rw [List.mem_range'_1] at hframe
    rw [Store.read_fill, if_pos (by omega)]
  rw [hconst]
  cases value <;> simp

/-- In a range, every frame is either taken or free. -/
private theorem countP_taken_add_free (taken : Store Bool true) (first length : Nat) :
    (List.range' first length).countP (fun frame => taken.read frame) +
      (List.range' first length).countP (fun frame => !taken.read frame) = length := by
  have h := List.length_eq_countP_add_countP (l := List.range' first length)
    fun frame => taken.read frame
  simpa using h.symm

section Range

variable (h : pool.Consistent) (hlast : last ≤ pool.total)
include h hlast

/-- The free frames of a range are among those that are counted. -/
theorem count_le_freeCount : pool.taken.count (!·) first last ≤ pool.freeCount := by
  rw [Store.count_eq, h.freeCount_eq, countP_range_split first _ hlast]
  exact Nat.le_add_right _ _

/-- The taken frames of a range and all free frames are no more than there are frames. -/
theorem freeCount_add_count_le (first : Nat) :
    pool.freeCount + pool.taken.count id first last ≤ pool.total := by
  have hrange := countP_taken_add_free pool.taken first (last - first)
  have houtside := List.countP_le_length
    (p := fun frame => !pool.taken.read frame)
    (l := (List.range pool.total).filter fun frame => !decide (first ≤ frame ∧ frame < last))
  have hparts := countP_range_split first (fun _ => true) hlast
  rw [Store.count_eq, h.freeCount_eq, countP_range_split first _ hlast]
  simp only [List.countP_true, List.length_range, List.length_range', id_eq] at *
  omega

theorem consistent_taking : (pool.taking first last).Consistent where
  freeCount_eq := by
    show pool.freeCount - pool.taken.count (!·) first last = _
    rw [Store.count_eq, h.freeCount_eq, total_taking, countP_range_split first _ hlast,
      countP_range_split first _ hlast]
    simp only [taking, countP_outside_fill, countP_inside_fill]
    simp
  total_le := h.total_le

theorem consistent_releasing : (pool.releasing first last).Consistent where
  freeCount_eq := by
    have hrange := countP_taken_add_free pool.taken first (last - first)
    show pool.freeCount + pool.taken.count id first last = _
    rw [Store.count_eq, h.freeCount_eq, total_releasing,
      countP_range_split first _ hlast, countP_range_split first _ hlast]
    simp only [releasing, countP_outside_fill, countP_inside_fill]
    simp only [id_eq, Bool.false_eq_true, if_false]
    omega
  total_le := h.total_le

omit h in
private theorem checkBounds_eq (journal : Journal) :
    (checkBounds last : Action ε FramePool Unit) pool journal = .done () pool journal := by
  have hwords : last ≤ pool.words * wordBits := by
    simp only [words, ceilDiv, wordBits]
    omega
  simp [checkBounds, Action.apply_bind, hwords]

/-- Taking a range that lies in memory is always done. -/
theorem take_eq (journal : Journal) :
    (take first last : Action ε FramePool Unit) pool journal =
      .done () (pool.taking first last) journal := by
  rw [take, Action.bind_of_done (checkBounds_eq hlast journal)]
  simp [Action.apply_bind, Action.subtract_eq_pure (count_le_freeCount h hlast), taking]

/-- Giving back a range that lies in memory is always done. -/
theorem release_eq (journal : Journal) :
    (release first last : Action ε FramePool Unit) pool journal =
      .done () (pool.releasing first last) journal := by
  have hfits : pool.freeCount + pool.taken.count id first last < bitRange 64 := by
    have hle := freeCount_add_count_le h hlast first
    have htotal := h.total_le
    have hwidth : bitRange 40 < bitRange 64 := by decide
    omega
  rw [release, Action.bind_of_done (checkBounds_eq hlast journal)]
  simp [Action.apply_bind, Action.add_eq_pure hfits, releasing]

end Range

/-! ## What an operation does to the taken frames -/

/-- Taking free frames adds them to the taken ones. -/
theorem takenFrames_taking (hlast : last ≤ pool.total)
    (hfree : ∀ frame, first ≤ frame → frame < last → pool.isTaken frame = false) :
    (pool.taking first last).takenFrames.Perm
      (List.range' first (last - first) ++ pool.takenFrames) := by
  -- Both lists name every frame at most once, so it is enough that they name the same.
  have hnodup : (List.range' first (last - first) ++ pool.takenFrames).Nodup := by
    refine List.nodup_append.mpr ⟨List.nodup_range', nodup_takenFrames pool, ?_⟩
    rintro frame hrange _ htaken rfl
    rw [List.mem_range'_1] at hrange
    have hfalse := hfree frame (by omega) (by omega)
    rw [(mem_takenFrames.mp htaken).2] at hfalse
    cases hfalse
  refine (List.perm_ext_iff_of_nodup (nodup_takenFrames _) hnodup).mpr fun frame => ?_
  simp only [mem_takenFrames, isTaken_taking, total_taking, List.mem_append, List.mem_range'_1,
    Bool.or_eq_true, decide_eq_true_eq]
  constructor
  · rintro ⟨hlt, hin | htaken⟩
    · exact .inl (by omega)
    · exact .inr ⟨hlt, htaken⟩
  · rintro (hin | ⟨hlt, htaken⟩)
    · exact ⟨by omega, .inl (by omega)⟩
    · exact ⟨hlt, .inr htaken⟩

/-- Giving back a taken frame removes it from the taken ones. -/
theorem takenFrames_releasing (htaken : frame ∈ pool.takenFrames) :
    pool.takenFrames.Perm (frame :: (pool.releasing frame (frame + 1)).takenFrames) := by
  have hlast : frame + 1 ≤ pool.total := (mem_takenFrames.mp htaken).1
  have hnodup : (frame :: (pool.releasing frame (frame + 1)).takenFrames).Nodup := by
    refine List.nodup_cons.mpr ⟨?_, nodup_takenFrames _⟩
    simp [mem_takenFrames, isTaken_releasing hlast]
  refine (List.perm_ext_iff_of_nodup (nodup_takenFrames _) hnodup).mpr fun other => ?_
  simp only [List.mem_cons, mem_takenFrames, isTaken_releasing hlast, total_releasing,
    Bool.and_eq_true, Bool.not_eq_true', decide_eq_false_iff_not]
  constructor
  · rintro ⟨hlt, hother⟩
    by_cases heq : other = frame
    · exact .inl heq
    · exact .inr ⟨hlt, by omega, hother⟩
  · rintro (rfl | ⟨hlt, -, hother⟩)
    · exact mem_takenFrames.mp htaken
    · exact ⟨hlt, hother⟩

/-- The search for a free frame finds the lowest one. -/
theorem lowestFree_eq_some_iff {start : Nat} :
    pool.lowestFree start = some frame ↔
      start ≤ frame ∧ frame < pool.total ∧ pool.isTaken frame = false ∧
        ∀ other, start ≤ other → other < frame → pool.isTaken other := by
  rw [lowestFree, Store.first?_eq_some_iff]
  constructor
  · rintro ⟨hstart, hlt, hfree, hbefore⟩
    refine ⟨hstart, hlt, by simpa [isTaken_eq_read hlt] using hfree, fun other h hother => ?_⟩
    rw [isTaken_eq_read (Nat.lt_trans hother hlt)]
    simpa using hbefore other h hother
  · rintro ⟨hstart, hlt, hfree, hbefore⟩
    refine ⟨hstart, hlt, by simpa [isTaken_eq_read hlt] using hfree, fun other h hother => ?_⟩
    rw [Bool.not_eq_false', ← isTaken_eq_read (Nat.lt_trans hother hlt)]
    exact hbefore other h hother

section Operations

variable (h : pool.Consistent) (journal : Journal)
include h

theorem ofIndex_eq (hlt : frame < pool.total) :
    (Frame.ofIndex frame : Action ε σ Nat) = pure frame := by
  refine Frame.ofIndex_eq_pure ?_
  have htotal := h.total_le
  simp only [Frame.address, Frame.size, Frame.addressWidth, bitRange] at *
  omega

/-- While frames are left, the lowest free one is handed out. -/
theorem allocate_of_some (hfree : pool.lowestFree 0 = some frame) :
    allocate pool journal = .done frame (pool.taking frame (frame + 1)) journal := by
  have hlt := (lowestFree_eq_some_iff.mp hfree).2.1
  simp only [allocate, Action.apply_bind, Action.apply_get, hfree, Action.ofOption_some,
    Action.apply_pure, take_eq h hlt journal, ofIndex_eq h hlt]

omit h in
/-- A full pool hands out nothing. -/
theorem allocate_of_none (hfull : pool.lowestFree 0 = none) :
    allocate pool journal = .refused .outOfMemory pool journal := by
  simp only [allocate, Action.apply_bind, Action.apply_get, hfull, Action.ofOption_none,
    Action.apply_throw]

/-- Giving back a taken frame is always done. -/
theorem free_eq (htaken : frame ∈ pool.takenFrames) :
    free frame pool journal = .done () (pool.releasing frame (frame + 1)) journal := by
  obtain ⟨hlt, hmark⟩ := mem_takenFrames.mp htaken
  simp only [free, Action.apply_bind, Action.apply_get, hlt, hmark, and_self, if_true]
  exact release_eq h hlt journal

omit h in
/-- A frame that is not taken cannot be given back. -/
theorem free_of_not_mem (hfree : frame ∉ pool.takenFrames) :
    free frame pool journal =
      .refused .invalidOperation pool (journal.push (.strayFrame (Frame.address frame))) := by
  have hnot : ¬(pool.isTaken frame = true ∧ frame < pool.total) := fun hboth =>
    hfree (mem_takenFrames.mpr hboth.symm)
  rw [free, Action.get_bind, Action.get_bind, if_neg hnot]
  rfl

theorem discard_eq (htaken : frame ∈ pool.takenFrames) :
    discard frame pool journal = .done () (pool.releasing frame (frame + 1)) journal := by
  rw [discard, Action.bind_of_done (Action.attempt_of_done (free_eq h journal htaken))]
  rfl

/-- One round of a search for a run of frames: nothing is free any more, the lowest free frame is
too close to the end of memory, an obstacle lies above it, or the run is taken. -/
theorem allocateRunFrom_succ {count : Nat} (hcount : 0 < count) (rounds start : Nat) :
    (pool.lowestFree start = none ∧
        allocateRunFrom count (rounds + 1) start pool journal =
          .refused .outOfMemory pool journal) ∨
      ∃ first, pool.lowestFree start = some first ∧
        (bitRange 64 ≤ first + count ∧ allocateRunFrom count (rounds + 1) start pool journal =
            .halted .addOverflow journal ∨
          (first + count < bitRange 64 ∧ pool.total < first + count ∧
            allocateRunFrom count (rounds + 1) start pool journal =
              .refused .outOfMemory pool journal) ∨
          (∃ obstacle, pool.taken.first? id first (first + count) = some obstacle ∧
            first + count ≤ pool.total ∧ allocateRunFrom count (rounds + 1) start pool journal =
              allocateRunFrom count rounds (obstacle + 1) pool journal) ∨
          pool.taken.first? id first (first + count) = none ∧ first + count ≤ pool.total ∧
            allocateRunFrom count (rounds + 1) start pool journal =
              .done first (pool.taking first (first + count)) journal) := by
  simp only [allocateRunFrom, Action.apply_bind, Action.apply_get]
  cases hfree : pool.lowestFree start with
  | none => exact .inl ⟨rfl, rfl⟩
  | some first =>
    refine .inr ⟨first, rfl, ?_⟩
    simp only [Action.ofOption_some, Action.apply_pure]
    by_cases hfits : first + count < bitRange 64
    case neg => exact .inl ⟨Nat.le_of_not_lt hfits, by simp [Action.add, hfits]⟩
    simp only [Action.add_eq_pure hfits, Action.apply_pure]
    by_cases htotal : pool.total < first + count
    · simp only [Action.refuseIf_of_pos htotal]
      exact .inr (.inl ⟨hfits, htotal, rfl⟩)
    · have hlast : first + count ≤ pool.total := Nat.le_of_not_lt htotal
      simp only [Action.refuseIf_of_neg htotal, Action.apply_pure]
      cases hobstacle : pool.taken.first? id first (first + count) with
      | some obstacle => exact .inr (.inr (.inl ⟨obstacle, rfl, hlast, rfl⟩))
      | none =>
        refine .inr (.inr (.inr ⟨rfl, hlast, ?_⟩))
        simp only [Action.apply_bind, take_eq h hlast journal,
          ofIndex_eq h (by omega : first < pool.total), Action.apply_pure]

omit h in
/-- If no frame of a run is an obstacle, all of them are free. -/
theorem isTaken_of_first?_eq_none (hlast : last ≤ pool.total)
    (hnone : pool.taken.first? id first last = none) (hfirst : first ≤ frame)
    (hlt : frame < last) : pool.isTaken frame = false := by
  rw [isTaken_eq_read (Nat.lt_of_lt_of_le hlt hlast)]
  exact (Store.first?_eq_none_iff _).mp hnone frame hfirst hlt

/-- A search for a run of frames takes a run that was free, changes nothing, or halts on a frame
number that 64 bits cannot hold. -/
theorem allocateRunFrom_cases {count : Nat} (hcount : 0 < count) (rounds start : Nat) :
    (∃ first, first + count ≤ pool.total ∧
        (∀ frame, first ≤ frame → frame < first + count → pool.isTaken frame = false) ∧
        allocateRunFrom count rounds start pool journal =
          .done first (pool.taking first (first + count)) journal) ∨
      allocateRunFrom count rounds start pool journal = .refused .outOfMemory pool journal ∨
      allocateRunFrom count rounds start pool journal = .halted .addOverflow journal := by
  -- Induction on the rounds: each one begins behind the last obstacle.
  induction rounds generalizing start with
  | zero => exact .inr (.inl rfl)
  | succ rounds ih =>
    rcases allocateRunFrom_succ h journal hcount rounds start with
      ⟨-, hrun⟩ | ⟨first, -, ⟨-, hrun⟩ | ⟨-, -, hrun⟩ | ⟨obstacle, -, -, hrun⟩ |
        ⟨hnone, hlast, hrun⟩⟩
    · exact .inr (.inl hrun)
    · exact .inr (.inr hrun)
    · exact .inr (.inl hrun)
    · rw [hrun]
      exact ih (obstacle + 1)
    · exact .inl ⟨first, hlast, fun frame => isTaken_of_first?_eq_none hlast hnone, hrun⟩

/-- A request for a run takes a run that was free, changes nothing, or halts. -/
theorem allocateRun_cases (count : Nat) :
    (∃ first, first + count ≤ pool.total ∧
        (∀ frame, first ≤ frame → frame < first + count → pool.isTaken frame = false) ∧
        allocateRun count pool journal = .done first (pool.taking first (first + count)) journal) ∨
      (∃ error, allocateRun count pool journal = .refused error pool journal) ∨
      allocateRun count pool journal = .halted .addOverflow journal := by
  by_cases hcount : count = 0
  · refine .inr (.inl ⟨.invalidOperation, ?_⟩)
    rw [allocateRun, Action.refuseIf_of_pos hcount]
    rfl
  · rw [allocateRun, Action.refuseIf_of_neg hcount, pure_bind, Action.get_bind]
    rcases allocateRunFrom_cases h journal (Nat.pos_of_ne_zero hcount) (pool.total + 1) 0 with
      hdone | hrefused | hhalted
    · exact .inl hdone
    · exact .inr (.inl ⟨_, hrefused⟩)
    · exact .inr (.inr hhalted)

end Operations

/-! ## Reachable pools -/

theorem consistent_allTaken {total : Nat} (h : total ≤ bitRange 40) :
    (allTaken total).Consistent where
  freeCount_eq := by simp [allTaken]
  total_le := h

theorem consistent_allFree {total : Nat} (h : total ≤ bitRange 40) :
    (allFree total).Consistent where
  freeCount_eq := by
    have hfree : (List.range total).countP (fun frame =>
        !((Store.empty : Store Bool true).fill 0 total false).read frame) =
          (List.range total).length := by
      refine List.countP_eq_length.mpr fun frame hframe => ?_
      rw [Store.read_fill, if_pos ⟨Nat.zero_le _, List.mem_range.mp hframe⟩]
      rfl
    exact (hfree.trans List.length_range).symm
  total_le := h

end FramePool

namespace MemoryMap

open FramePool

variable {regions : List Region}

/-- The pool after the whole frames inside a range were given back. -/
def releasingRange (pool : FramePool) (range : Nat × Nat) : FramePool :=
  pool.releasing (ceilDiv range.1 Frame.size) (min (range.2 / Frame.size) pool.total)

/-- The pool after every frame that meets a range was taken. -/
def takingRange (pool : FramePool) (range : Nat × Nat) : FramePool :=
  pool.taking (range.1 / Frame.size) (min (ceilDiv range.2 Frame.size) pool.total)

theorem releaseRange_eq {pool : FramePool} (h : pool.Consistent) (range : Nat × Nat)
    (journal : Journal) :
    releaseRange range.1 range.2 pool journal = .done () (releasingRange pool range) journal := by
  rw [releaseRange, Action.get_bind]
  exact release_eq h (Nat.min_le_right _ _) journal

theorem reserveRange_eq {pool : FramePool} (h : pool.Consistent) (range : Nat × Nat)
    (journal : Journal) :
    reserveRange range.1 range.2 pool journal = .done () (takingRange pool range) journal := by
  rw [reserveRange, Action.get_bind]
  exact take_eq h (Nat.min_le_right _ _) journal

/-- Usable memory ends within reach of 32-bit page tables. -/
theorem top_usable_le (regions : List Region) : top (usable regions) ≤ physicalLimit := by
  have hfold (ranges : List (Nat × Nat)) (start : Nat) (hstart : start ≤ physicalLimit)
      (hranges : ∀ range ∈ ranges, range.2 ≤ physicalLimit) :
      ranges.foldl (fun top range => max top range.2) start ≤ physicalLimit := by
    induction ranges generalizing start with
    | nil => exact hstart
    | cons range rest ih =>
      refine ih _ (Nat.max_le.mpr ⟨hstart, hranges range List.mem_cons_self⟩) fun other hother => ?_
      exact hranges other (List.mem_cons_of_mem _ hother)
  refine hfold _ 0 (Nat.zero_le _) fun range hrange => ?_
  obtain ⟨region, -, hclip⟩ := List.mem_filterMap.mp hrange
  simp only [clip?] at hclip
  split at hclip
  · cases hclip
    exact Nat.min_le_right _ _
  · cases hclip

/-- The pool of a memory map, before anything of it is given back. -/
theorem consistent_allTaken_top (regions : List Region) :
    (allTaken (top (usable regions) / Frame.size)).Consistent := by
  refine consistent_allTaken (Nat.le_trans (Nat.div_le_self _ _) ?_)
  exact Nat.le_trans (top_usable_le regions) (bitRange_le (by decide))

/-- Frames are released range by range, and each range leaves the count right. -/
theorem forM_releaseRange_eq {pool : FramePool} (h : pool.Consistent) (ranges : List (Nat × Nat)) :
    (∀ journal, ranges.forM (fun range => releaseRange range.1 range.2) pool journal =
        .done ⟨⟩ (ranges.foldl releasingRange pool) journal) ∧
      (ranges.foldl releasingRange pool).Consistent ∧
        (ranges.foldl releasingRange pool).total = pool.total :=
  Action.forM_eq_done (fun range => releaseRange range.1 range.2) releasingRange
    (fun _ pool' => pool'.Consistent ∧ pool'.total = pool.total)
    (fun range _ _ hpool => ⟨releaseRange_eq hpool.1 range,
      consistent_releasing hpool.1 (Nat.min_le_right _ _), hpool.2⟩)
    ranges pool ⟨h, rfl⟩

/-- Every frame that holds an address of a range is taken after the range was. -/
theorem isTaken_takingRange {pool : FramePool} {range : Nat × Nat} {address : Nat}
    (hfirst : range.1 ≤ address) (hlast : address < range.2) :
    (takingRange pool range).isTaken (Frame.containing address) := by
  rw [takingRange, isTaken_taking, Bool.or_eq_true, decide_eq_true_eq]
  by_cases htotal : Frame.containing address < pool.total
  · refine .inl ⟨Nat.div_le_div_right hfirst, Nat.lt_min.mpr ⟨?_, htotal⟩⟩
    simp only [Frame.containing, ceilDiv, Frame.size]
    omega
  · exact .inr (isTaken_of_total_le (Nat.le_of_not_lt htotal))

/-- What lies out of reach of 32-bit page tables lies past the end of memory. -/
theorem total_le_of_physicalLimit_le {address : Nat} (h : physicalLimit ≤ address) :
    top (usable regions) / Frame.size ≤ Frame.containing address :=
  Nat.div_le_div_right (Nat.le_trans (top_usable_le regions) h)

/-- The pool of a memory map, before the reserved range is taken. -/
def released (regions : List Region) : FramePool :=
  (usable regions).foldl releasingRange (allTaken (top (usable regions) / Frame.size))

/-- The pool of a memory map. -/
def built (regions : List Region) (reserved : Nat × Nat) : FramePool :=
  match clip? reserved.1 reserved.2 with
  | some range => takingRange (released regions) range
  | none => released regions

theorem consistent_released (regions : List Region) : (released regions).Consistent :=
  (forM_releaseRange_eq (consistent_allTaken_top regions) (usable regions)).2.1

theorem consistent_built (regions : List Region) (reserved : Nat × Nat) :
    (built regions reserved).Consistent := by
  unfold built
  split
  · exact consistent_taking (consistent_released regions) (Nat.min_le_right _ _)
  · exact consistent_released regions

theorem total_released (regions : List Region) :
    (released regions).total = top (usable regions) / Frame.size :=
  (forM_releaseRange_eq (consistent_allTaken_top regions) (usable regions)).2.2

theorem total_built (regions : List Region) (reserved : Nat × Nat) :
    (built regions reserved).total = top (usable regions) / Frame.size := by
  unfold built
  split
  · exact total_released regions
  · exact total_released regions

/-- Building a pool from a memory map is always done, and reports the size of the pool. -/
theorem framePool_eq_done (regions : List Region) (reserved : Nat × Nat) (state : σ)
    (journal : Journal) :
    (framePool regions reserved : Total σ FramePool) state journal =
      .done (built regions reserved) state (journal.push (.memoryTop (top (usable regions))
        (built regions reserved).total (built regions reserved).words)) := by
  obtain ⟨hloop, hend, -⟩ :=
    forM_releaseRange_eq (consistent_allTaken_top regions) (usable regions)
  simp only [framePool, FramePool.words, total_built, Action.apply_bind, Action.apply_note,
    Action.running]
  rw [hloop]
  unfold built
  cases clip? reserved.1 reserved.2 with
  | none => rfl
  | some range =>
    simp only [reserveRange_eq hend range]
    rfl

/-- Every frame that meets the reserved range is taken. -/
theorem isTaken_built {reserved : Nat × Nat} {address : Nat} (hfirst : reserved.1 ≤ address)
    (hlast : address < reserved.2) :
    (built regions reserved).isTaken (Frame.containing address) := by
  by_cases hlimit : physicalLimit ≤ address
  · -- What is clipped off the reserved range lies past the end of memory.
    refine isTaken_of_total_le ?_
    rw [total_built]
    exact total_le_of_physicalLimit_le hlimit
  · have hlast' : address < min reserved.2 physicalLimit :=
      Nat.lt_min.mpr ⟨hlast, Nat.lt_of_not_le hlimit⟩
    have hclip : clip? reserved.1 reserved.2 =
        some (reserved.1, min reserved.2 physicalLimit) :=
      if_pos (Nat.lt_of_le_of_lt hfirst hlast')
    rw [built, hclip]
    exact isTaken_takingRange hfirst hlast'

/-- Whatever a memory map says, a consistent pool is built from it. It reaches up to the end of
usable memory, and every frame that meets the reserved range is taken. -/
theorem framePool_eq (regions : List Region) (reserved : Nat × Nat) (state : σ)
    (journal : Journal) :
    ∃ pool : FramePool, (pool.Consistent ∧ pool.total = top (usable regions) / Frame.size ∧
      ∀ address, reserved.1 ≤ address → address < reserved.2 →
        pool.isTaken (Frame.containing address)) ∧
      ∃ journal', (framePool regions reserved : Total σ FramePool) state journal =
        .done pool state journal' :=
  ⟨built regions reserved, ⟨consistent_built _ _, total_built _ _, fun _ => isTaken_built⟩, _,
    framePool_eq_done regions reserved state journal⟩

/-- The pool of a memory map is the one that can always be built. -/
theorem of_framePool {reserved : Nat × Nat} {state state' : σ} {journal journal' : Journal}
    {pool : FramePool} (h : (framePool regions reserved : Total σ FramePool) state journal =
      .done pool state' journal') :
    pool.Consistent ∧ pool.total = top (usable regions) / Frame.size ∧
      ∀ address, reserved.1 ≤ address → address < reserved.2 →
        pool.isTaken (Frame.containing address) := by
  obtain ⟨pool, hpool, _, heq⟩ := framePool_eq regions reserved state journal
  rw [heq] at h
  cases h
  exact hpool

end MemoryMap

namespace FramePool

variable {pool : FramePool}

/-- A pool is reachable if it was built empty, full or from a memory map and then changed by
operations of the pool only. -/
inductive Reachable : FramePool → Prop where
  | allFree {total : Nat} : total ≤ bitRange 40 → Reachable (allFree total)
  | ofMap {regions : List Region} {reserved : Nat × Nat} {journal journal' : Journal}
      {pool : FramePool} :
      (MemoryMap.framePool regions reserved : Total Unit FramePool) () journal =
        .done pool () journal' → Reachable pool
  | allocate {pool pool' : FramePool} {journal journal' : Journal} {frame : Nat} :
      Reachable pool → allocate pool journal = .done frame pool' journal' → Reachable pool'
  | allocateRun {pool pool' : FramePool} {journal journal' : Journal} {count first : Nat} :
      Reachable pool → allocateRun count pool journal = .done first pool' journal' →
        Reachable pool'
  | free {pool pool' : FramePool} {journal journal' : Journal} {frame : Nat} :
      Reachable pool → free frame pool journal = .done () pool' journal' → Reachable pool'
  | markTaken {pool pool' : FramePool} {journal journal' : Journal} {frame : Nat} :
      Reachable pool → markTaken frame pool journal = .done () pool' journal' → Reachable pool'

/-- However a pool was reached, its count of free frames is right. -/
theorem consistent_of_reachable (h : Reachable pool) : pool.Consistent := by
  induction h with
  | allFree htotal => exact consistent_allFree htotal
  | ofMap hpool => exact (MemoryMap.of_framePool hpool).1
  | @allocate pool pool' journal _ frame _ hdone ih =>
    cases hfree : pool.lowestFree 0 with
    | none =>
      rw [allocate_of_none journal hfree] at hdone
      cases hdone
    | some lowest =>
      rw [allocate_of_some ih journal hfree] at hdone
      cases hdone
      exact consistent_taking ih (lowestFree_eq_some_iff.mp hfree).2.1
  | @allocateRun pool pool' journal _ count first _ hdone ih =>
    rcases allocateRun_cases ih journal count with ⟨_, hlast, -, heq⟩ | ⟨_, heq⟩ | heq
    · rw [heq] at hdone
      cases hdone
      exact consistent_taking ih hlast
    · rw [heq] at hdone
      cases hdone
    · rw [heq] at hdone
      cases hdone
  | @free pool pool' journal _ frame _ hdone ih =>
    by_cases htaken : frame ∈ pool.takenFrames
    · rw [free_eq ih journal htaken] at hdone
      cases hdone
      exact consistent_releasing ih (mem_takenFrames.mp htaken).1
    · rw [free_of_not_mem journal htaken] at hdone
      cases hdone
  | @markTaken pool pool' journal _ frame _ hdone ih =>
    rw [markTaken, Action.get_bind] at hdone
    by_cases htaken : pool.isTaken frame = true
    · rw [if_pos htaken] at hdone
      cases hdone
      exact ih
    · have hlt := lt_total_of_isTaken_eq_false (Bool.eq_false_iff.mpr htaken)
      rw [if_neg htaken, take_eq ih hlt] at hdone
      cases hdone
      exact consistent_taking ih hlt

end FramePool

end KernelResources
