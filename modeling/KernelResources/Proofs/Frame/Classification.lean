import Mathlib.Order.Bounds.Basic
import KernelResources.Proofs.Frame.FreeSet

/-!
# Which frames a memory map frees

The regions of a memory map come in any order. They may overlap, occur twice, begin and end in the
middle of a frame, and reach beyond what page tables can address or 64 bits can hold. This file says
frame by frame what the pool makes of them.

* `Frame.Within` and `Frame.Meets` compare a frame with a range of addresses, `Covers` a frame with a
  memory map. `IsTop` says how far usable memory reaches.
* `mem_freeFrames_releasingRange`, `mem_freeFrames_takingRange`: giving a range back rounds inwards,
  taking it rounds outwards.
* `mem_freeFrames_built` says which frames of the pool are free.
* `classifies_regions` puts this together, and adds that nothing depends on the order of the regions
  or on how often one occurs.
-/

namespace KernelResources

/-- The whole frame lies in `[first, last)`, for a range of addresses `(first, last)`. -/
def Frame.Within (frame : Nat) (range : Nat × Nat) : Prop :=
  range.1 ≤ address frame ∧ address (frame + 1) ≤ range.2

instance (frame : Nat) (range : Nat × Nat) : Decidable (Frame.Within frame range) :=
  inferInstanceAs (Decidable (_ ∧ _))

/-- Some address in `[first, last)` lies in the frame, for a range of addresses `(first, last)`. -/
def Frame.Meets (frame : Nat) (range : Nat × Nat) : Prop :=
  ∃ address, range.1 ≤ address ∧ address < range.2 ∧ containing address = frame

/-- The end of a region, or the first address out of reach if the region goes beyond that. -/
def Region.limit (region : Region) : Nat :=
  min (region.base + region.length) MemoryMap.physicalLimit

namespace MemoryMap

open FramePool

variable {regions regions' : List Region} {reserved range : Nat × Nat} {pool : FramePool}
  {frame : Nat}

/-- The highest end of a usable region that is not empty, or zero if there is none. -/
def IsTop (regions : List Region) (top : Nat) : Prop :=
  IsGreatest (insert 0 {limit | ∃ region ∈ regions, region.kind = .usable ∧
    region.base < region.limit ∧ limit = region.limit}) top

/-- The whole frame lies in what can be reached of some usable region. -/
def Covers (regions : List Region) (frame : Nat) : Prop :=
  ∃ region ∈ regions, region.kind = .usable ∧ Frame.Within frame (region.base, region.limit)

instance : Decidable (Covers regions frame) :=
  inferInstanceAs (Decidable (∃ region ∈ regions, _))

/-! ## Usable ranges -/

/-- An end that 64 bits cannot hold is out of reach in any case. -/
theorem min_last_eq_limit (region : Region) : min region.last physicalLimit = region.limit := by
  have hreach : physicalLimit ≤ bitRange 64 - 1 := by decide
  rw [Region.last, addSaturating, Region.limit, Nat.min_assoc, Nat.min_eq_right hreach]

theorem mem_usable : range ∈ usable regions ↔
    ∃ region ∈ regions, region.kind = .usable ∧ region.base < region.limit ∧
      range = (region.base, region.limit) := by
  simp only [usable, List.mem_filterMap, List.mem_filter, decide_eq_true_eq, clip?,
    min_last_eq_limit, Option.ite_none_right_eq_some, Option.some_inj, and_assoc]
  exact exists_congr fun _ => and_congr_right fun _ => and_congr_right fun _ =>
    and_congr_right fun _ => eq_comm

/-- The end of some ranges is the highest one. -/
theorem isGreatest_top (ranges : List (Nat × Nat)) :
    IsGreatest (insert 0 {limit | ∃ range ∈ ranges, limit = range.2}) (top ranges) := by
  suffices hfold : ∀ start, IsGreatest (insert start {limit | ∃ range ∈ ranges, limit = range.2})
      (ranges.foldl (fun top range => max top range.2) start) from hfold 0
  induction ranges with
  | nil => simp
  | cons range rest ih =>
    intro start
    obtain ⟨hmem, hupper⟩ := ih (max start range.2)
    have hmax := hupper (Set.mem_insert _ _)
    refine ⟨?_, ?_⟩
    · rcases hmem with heq | ⟨other, hother, heq⟩
      · rcases max_choice start range.2 with hstart | hrange
        · exact .inl (heq.trans hstart)
        · exact .inr ⟨range, List.mem_cons_self, heq.trans hrange⟩
      · exact .inr ⟨other, List.mem_cons_of_mem _ hother, heq⟩
    · rintro limit (rfl | ⟨other, hother, rfl⟩)
      · exact Nat.le_trans (Nat.le_max_left _ _) hmax
      · rcases List.mem_cons.mp hother with rfl | hother
        · exact Nat.le_trans (Nat.le_max_right _ _) hmax
        · exact hupper (.inr ⟨other, hother, rfl⟩)

theorem isTop_top (regions : List Region) : IsTop regions (top (usable regions)) := by
  have hends : {limit | ∃ range ∈ usable regions, limit = range.2} =
      {limit | ∃ region ∈ regions, region.kind = .usable ∧ region.base < region.limit ∧
        limit = region.limit} := by
    ext limit
    constructor
    · rintro ⟨range, hrange, rfl⟩
      obtain ⟨region, hregion, hkind, hlt, rfl⟩ := mem_usable.mp hrange
      exact ⟨region, hregion, hkind, hlt, rfl⟩
    · rintro ⟨region, hregion, hkind, hlt, rfl⟩
      exact ⟨_, mem_usable.mpr ⟨region, hregion, hkind, hlt, rfl⟩, rfl⟩
  rw [IsTop, ← hends]
  exact isGreatest_top _

/-! ## Ranges -/

/-- The frames that are given back with a range are those that lie in it. -/
theorem mem_freeFrames_releasingRange :
    frame ∈ (releasingRange pool range).freeFrames ↔
      frame ∈ pool.freeFrames ∨ frame < pool.total ∧ Frame.Within frame range := by
  have hfirst : ceilDiv range.1 Frame.size ≤ frame ↔ range.1 ≤ Frame.address frame := by
    simp only [ceilDiv, Frame.address, Frame.size]
    omega
  have hlast : frame < range.2 / Frame.size ↔ Frame.address (frame + 1) ≤ range.2 := by
    simp only [Frame.address, Frame.size]
    omega
  rw [mem_freeFrames, mem_freeFrames, releasingRange, isTaken_releasing (Nat.min_le_right _ _),
    Bool.and_eq_false_iff, Bool.not_eq_false', decide_eq_true_eq, Nat.lt_min, hfirst, hlast,
    Frame.Within]
  tauto

/-- A frame between the bounds of a range, rounded outwards, meets the range. -/
theorem meets_iff (hrange : range.1 < range.2) :
    Frame.Meets frame range ↔
      range.1 / Frame.size ≤ frame ∧ frame < ceilDiv range.2 Frame.size := by
  constructor
  · rintro ⟨address, hfirst, hlast, rfl⟩
    refine ⟨Nat.div_le_div_right hfirst, ?_⟩
    simp only [Frame.containing, ceilDiv, Frame.size]
    omega
  · rintro ⟨hfirst, hlast⟩
    refine ⟨max range.1 (Frame.address frame), Nat.le_max_left _ _, ?_, ?_⟩
    · simp only [ceilDiv, Frame.address, Frame.size] at *
      omega
    · simp only [Frame.containing, Frame.address, Frame.size] at *
      omega

/-- The frames that are taken with a range are those that meet it. -/
theorem mem_freeFrames_takingRange (hrange : range.1 < range.2) :
    frame ∈ (takingRange pool range).freeFrames ↔
      frame ∈ pool.freeFrames ∧ ¬Frame.Meets frame range := by
  rw [meets_iff hrange, mem_freeFrames, mem_freeFrames, takingRange, isTaken_taking,
    Bool.or_eq_false_iff, decide_eq_false_iff_not, Nat.lt_min, and_comm]
  refine and_congr_right fun hfree => not_congr ?_
  rw [← and_assoc, and_iff_left (lt_total_of_isTaken_eq_false hfree)]

/-- Of the frames that exist, giving back some ranges frees those that lie in one of them. -/
theorem mem_freeFrames_foldl (ranges : List (Nat × Nat)) :
    frame ∈ (ranges.foldl releasingRange pool).freeFrames ↔ frame ∈ pool.freeFrames ∨
      frame < pool.total ∧ ∃ range ∈ ranges, Frame.Within frame range := by
  induction ranges generalizing pool with
  | nil => simp
  | cons range rest ih =>
    rw [List.foldl_cons, ih, mem_freeFrames_releasingRange, List.exists_mem_cons_iff]
    show _ ∨ frame < pool.total ∧ _ ↔ _
    rw [or_assoc, ← and_or_left]

/-! ## The pool of a memory map -/

theorem exists_mem_usable :
    (∃ range ∈ usable regions, Frame.Within frame range) ↔ Covers regions frame := by
  constructor
  · rintro ⟨range, hrange, hwithin⟩
    obtain ⟨region, hregion, hkind, -, rfl⟩ := mem_usable.mp hrange
    exact ⟨region, hregion, hkind, hwithin⟩
  · rintro ⟨region, hregion, hkind, hwithin⟩
    have hlt : Frame.address frame < Frame.address (frame + 1) :=
      Nat.mul_lt_mul_of_pos_right (Nat.lt_succ_self frame) (by decide)
    have hnonempty : region.base < region.limit :=
      Nat.lt_of_le_of_lt hwithin.1 (Nat.lt_of_lt_of_le hlt hwithin.2)
    exact ⟨_, mem_usable.mpr ⟨region, hregion, hkind, hnonempty, rfl⟩, hwithin⟩

theorem mem_freeFrames_released :
    frame ∈ (released regions).freeFrames ↔
      frame < top (usable regions) / Frame.size ∧ Covers regions frame := by
  have hnone : frame ∉ (allTaken (top (usable regions) / Frame.size)).freeFrames := by
    rw [mem_freeFrames, isTaken, allTaken, Store.read_empty, Bool.or_true]
    exact Bool.noConfusion
  rw [released, mem_freeFrames_foldl, or_iff_right hnone, exists_mem_usable]
  rfl

/-- What is clipped off a range meets no frame of the pool. -/
theorem meets_clipped (hframe : frame < top (usable regions) / Frame.size) :
    Frame.Meets frame (range.1, min range.2 physicalLimit) ↔ Frame.Meets frame range := by
  refine exists_congr fun address => and_congr_right fun _ => ?_
  rw [Nat.lt_min, and_assoc]
  refine and_congr_right fun _ => and_iff_right_of_imp ?_
  rintro rfl
  by_contra hlimit
  exact Nat.not_lt.mpr (total_le_of_physicalLimit_le (Nat.le_of_not_lt hlimit)) hframe

/-- Free are the frames that lie in a usable region and do not meet the reserved range. -/
theorem mem_freeFrames_built :
    frame ∈ (built regions reserved).freeFrames ↔
      frame < (built regions reserved).total ∧ Covers regions frame ∧
        ¬Frame.Meets frame reserved := by
  rw [total_built, ← and_assoc, ← mem_freeFrames_released]
  rw [built, clip?]
  by_cases hclip : reserved.1 < min reserved.2 physicalLimit
  · simp only [if_pos hclip]
    rw [mem_freeFrames_takingRange hclip]
    refine and_congr_right fun hfree => not_congr ?_
    exact meets_clipped (mem_freeFrames_released.mp hfree).1
  · simp only [if_neg hclip]
    refine (and_iff_left_of_imp fun hfree => ?_).symm
    rw [← meets_clipped (mem_freeFrames_released.mp hfree).1]
    rintro ⟨address, hfirst, hlast, -⟩
    exact hclip (Nat.lt_of_le_of_lt hfirst hlast)

/-- Memory maps with the same regions reach equally far. -/
theorem top_congr (hsame : ∀ region, region ∈ regions' ↔ region ∈ regions) :
    top (usable regions') = top (usable regions) := by
  have htop : IsTop regions' (top (usable regions)) := by
    simpa only [IsTop, hsame] using isTop_top regions
  exact (isTop_top regions').unique htop

/-- Memory maps with the same regions make the same words. -/
theorem packed_built_congr (hsame : ∀ region, region ∈ regions' ↔ region ∈ regions) :
    (built regions' reserved).packed = (built regions reserved).packed := by
  have htotal : (built regions' reserved).total = (built regions reserved).total := by
    rw [total_built, total_built, top_congr hsame]
  refine (consistent_built _ _).packed_eq (consistent_built _ _) htotal fun frame => ?_
  have hfree : frame ∈ (built regions' reserved).freeFrames ↔
      frame ∈ (built regions reserved).freeFrames := by
    simp only [mem_freeFrames_built, htotal, Covers, hsame]
  rw [mem_freeFrames, mem_freeFrames] at hfree
  exact Bool.eq_iff_iff.mpr (by simpa only [Bool.not_eq_false] using not_congr hfree)

/-- Building a pool in words from a memory map is always done. -/
theorem ofMap_eq_done (regions : List Region) (reserved : Nat × Nat) (journal : Journal) :
    (Bitmap.ofMap regions reserved : Total Unit Bitmap) () journal =
      .done (built regions reserved).packed () (journal.push (.memoryTop (top (usable regions))
        (built regions reserved).total (built regions reserved).words)) := by
  rw [← packed_ofMap, Action.apply_map, framePool_eq_done]

/-- From every list of regions and every reserved range a pool is built. It has the whole frames
below the highest end of a usable region that is not empty, where ends are cut off at 4 GiB. Of
these, a frame is free if and only if all of it lies in one usable region and none of it in the
reserved range, and the counter says how many are free. Nothing depends on the order of the regions
or on how often one occurs: the same words are built, and the same is reported. -/
theorem classifies_regions (regions : List Region) (reserved : Nat × Nat) (journal : Journal) :
    ∃ pool journal',
      (framePool regions reserved : Total Unit FramePool) () journal = .done pool () journal' ∧
      (∃ top, IsTop regions top ∧ pool.total = top / Frame.size) ∧
      (∃ free : Finset Nat, pool.Represents free ∧ ∀ frame, frame ∈ free ↔
        frame < pool.total ∧ Covers regions frame ∧ ¬Frame.Meets frame reserved) ∧
      ∀ regions' : List Region, (∀ region, region ∈ regions' ↔ region ∈ regions) →
        (Bitmap.ofMap regions' reserved : Total Unit Bitmap) () journal =
          .done pool.packed () journal' := by
  refine ⟨_, _, framePool_eq_done regions reserved () journal,
    ⟨_, isTop_top regions, total_built regions reserved⟩,
    ⟨_, (consistent_built regions reserved).represents_freeFrames, fun _ => mem_freeFrames_built⟩,
    fun regions' hsame => ?_⟩
  rw [ofMap_eq_done, packed_built_congr hsame, top_congr hsame, FramePool.words, FramePool.words,
    total_built, total_built, top_congr hsame]

/-- A frame that only two regions together contain is not free. -/
example : Covers [⟨0, 6144, .usable⟩, ⟨6144, 6144, .usable⟩] 0 ∧
    ¬Covers [⟨0, 6144, .usable⟩, ⟨6144, 6144, .usable⟩] 1 ∧
    Covers [⟨0, 6144, .usable⟩, ⟨6144, 6144, .usable⟩] 2 := by decide

end MemoryMap

end KernelResources
