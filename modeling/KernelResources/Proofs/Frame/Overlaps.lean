import KernelResources.Proofs.Frame.Classification
import KernelResources.Proofs.Frame.Runs

/-!
# Memory that is not usable

A memory map may say of one address that it is usable and that it is not. The pool is built from the
usable regions alone, so it is they that count: what another region says of a frame matters only if
no usable region contains the frame.

* `HandsOut` are the frames that a pool hands out as long as nothing is given back.
  `HandsOut.freeFrames_eq`: they are taken from the free ones.
* `Contests` says of a frame and a region that a usable region overlaps the region there.
* `handsOut_contested`: whatever the pool of a memory map hands out of a region that is not usable
  is contested.
-/

namespace KernelResources

/-! ## Frames that are handed out -/

namespace FramePool

/-- What a pool becomes, and the frames it has handed out, as long as nothing is given back. -/
inductive HandsOut (pool : FramePool) : FramePool → Finset Nat → Prop where
  | start : HandsOut pool pool ∅
  | allocate {later pool' : FramePool} {frames : Finset Nat} {frame : Nat}
      {journal journal' : Journal} (h : HandsOut pool later frames)
      (run : FramePool.allocate later journal = .done frame pool' journal') :
      HandsOut pool pool' (insert frame frames)
  | allocateRun {later pool' : FramePool} {frames : Finset Nat} {first count : Nat}
      {journal journal' : Journal} (h : HandsOut pool later frames)
      (run : FramePool.allocateRun count later journal = .done first pool' journal') :
      HandsOut pool pool' (frames ∪ Finset.Ico first (first + count))

variable {pool later pool' : FramePool} {frames : Finset Nat} {frame first count : Nat}
  {journal journal' : Journal}

/-- The one frame that is handed out was free. -/
theorem Consistent.mem_of_allocate (h : pool.Consistent)
    (hrun : allocate pool journal = .done frame pool' journal') :
    frame ∈ pool.freeFrames ∧ pool' = pool.taking frame (frame + 1) := by
  cases hfree : pool.lowestFree 0 with
  | none => cases hrun.symm.trans (allocate_of_none journal hfree)
  | some found =>
    cases hrun.symm.trans (allocate_of_some h journal hfree)
    exact ⟨mem_freeFrames.mpr (lowestFree_eq_some_iff.mp hfree).2.2.1, rfl⟩

/-- All frames of a run that is handed out were free. -/
theorem Consistent.isRun_of_allocateRun (h : pool.Consistent)
    (hrun : allocateRun count pool journal = .done first pool' journal') :
    IsRun pool.freeFrames count first ∧ first + count ≤ pool.total ∧
      pool' = pool.taking first (first + count) := by
  obtain ⟨found, hlast, hfree, hdone⟩ | ⟨error, hrefused⟩ | hhalted :=
    allocateRun_cases h journal count
  · cases hrun.symm.trans hdone
    refine ⟨fun frame hframe => ?_, hlast, rfl⟩
    obtain ⟨hle, hlt⟩ := Finset.mem_Ico.mp hframe
    exact mem_freeFrames.mpr (hfree frame hle hlt)
  · cases hrun.symm.trans hrefused
  · cases hrun.symm.trans hhalted

/-- The frames that were handed out are the ones that have ceased to be free. -/
theorem HandsOut.freeFrames_eq (h : pool.Consistent) (hout : HandsOut pool later frames) :
    later.Consistent ∧ frames ⊆ pool.freeFrames ∧ later.freeFrames = pool.freeFrames \ frames := by
  induction hout with
  | start => exact ⟨h, Finset.empty_subset _, Finset.sdiff_empty.symm⟩
  | allocate _ run ih =>
    obtain ⟨hlater, hsub, hfree⟩ := ih
    obtain ⟨hmem, rfl⟩ := hlater.mem_of_allocate run
    refine ⟨consistent_taking hlater (lt_total_of_mem hmem), ?_, ?_⟩
    · rw [hfree] at hmem
      exact Finset.insert_subset (Finset.mem_sdiff.mp hmem).1 hsub
    · rw [freeFrames_taking, hfree, Finset.sdiff_insert]
  | allocateRun _ run ih =>
    obtain ⟨hlater, hsub, hfree⟩ := ih
    obtain ⟨hrun, hlast, rfl⟩ := hlater.isRun_of_allocateRun run
    refine ⟨consistent_taking hlater hlast, ?_, ?_⟩
    · rw [IsRun, hfree] at hrun
      exact Finset.union_subset hsub (hrun.trans Finset.sdiff_subset)
    · rw [freeFrames_taking_range, hfree, sdiff_sdiff_left, Finset.sup_eq_union]

end FramePool

/-! ## Regions that contradict each other -/

/-- The addresses of a region, as a range. -/
def Region.range (region : Region) : Nat × Nat := (region.base, region.base + region.length)

/-- Some address lies in both regions. -/
def Region.Overlaps (region other : Region) : Prop :=
  ∃ address, (region.range.1 ≤ address ∧ address < region.range.2) ∧
    other.range.1 ≤ address ∧ address < other.range.2

namespace MemoryMap

open FramePool

variable {regions : List Region} {reserved : Nat × Nat} {region other : Region} {frame : Nat}

/-- A usable region of the memory map contains the whole frame, and it overlaps the given region. -/
def Contests (regions : List Region) (region : Region) (frame : Nat) : Prop :=
  ∃ other ∈ regions, other.kind = .usable ∧ Frame.Within frame (other.base, other.limit) ∧
    region.Overlaps other

/-- A region that meets a frame overlaps every region that contains the frame. -/
theorem overlaps_of_meets (hmeets : Frame.Meets frame region.range)
    (hwithin : Frame.Within frame (other.base, other.limit)) : region.Overlaps other := by
  obtain ⟨address, hfirst, hlast, rfl⟩ := hmeets
  obtain ⟨hbase, hlimit⟩ := hwithin
  have hend : other.limit ≤ other.base + other.length := Nat.min_le_left _ _
  simp only [Frame.address, Frame.containing, Frame.size] at hbase hlimit
  exact ⟨address, ⟨hfirst, hlast⟩, by simp only [Region.range]; omega,
    by simp only [Region.range]; omega⟩

theorem contests_iff (hmeets : Frame.Meets frame region.range) :
    Contests regions region frame ↔ Covers regions frame :=
  exists_congr fun _ => and_congr_right fun _ => and_congr_right fun _ =>
    and_iff_left_of_imp (overlaps_of_meets hmeets)

/-- A frame that a usable region contains lies below the end of usable memory. -/
theorem lt_total_of_covers (h : Covers regions frame) :
    frame < (built regions reserved).total := by
  rw [total_built]
  obtain ⟨range, hrange, -, hlast⟩ := exists_mem_usable.mpr h
  have htop : range.2 ≤ top (usable regions) :=
    (isGreatest_top (usable regions)).2 (.inr ⟨range, hrange, rfl⟩)
  simp only [Frame.address, Frame.size] at *
  omega

/-- Of the frames that meet a region, the contested ones are free, the reserved range aside. -/
theorem mem_freeFrames_iff_contests (hmeets : Frame.Meets frame region.range) :
    frame ∈ (built regions reserved).freeFrames ↔
      Contests regions region frame ∧ ¬Frame.Meets frame reserved := by
  rw [mem_freeFrames_built, contests_iff hmeets]
  exact and_iff_right_of_imp fun hcovers => lt_total_of_covers hcovers.1

/-- From every memory map and every reserved range a pool is built. A frame that meets a region of
another kind than usable is free in it exactly if some usable region contains the whole frame, and
so overlaps the region that it meets, and the reserved range does not meet the frame. The frames
that the pool hands out, one by one or in runs, are free ones. So no frame of a region that is not
usable is ever handed out unless a usable region overlaps it there. -/
theorem handsOut_contested (regions : List Region) (reserved : Nat × Nat) (journal : Journal) :
    ∃ pool journal',
      (framePool regions reserved : Total Unit FramePool) () journal = .done pool () journal' ∧
      (∀ region ∈ regions, region.kind ≠ .usable → ∀ frame, Frame.Meets frame region.range →
        (frame ∈ pool.freeFrames ↔
          Contests regions region frame ∧ ¬Frame.Meets frame reserved)) ∧
      (∀ later frames, HandsOut pool later frames → frames ⊆ pool.freeFrames) ∧
      ∀ region ∈ regions, region.kind ≠ .usable →
        (∀ other ∈ regions, other.kind = .usable → ¬region.Overlaps other) →
        ∀ later frames, HandsOut pool later frames →
          ∀ frame, Frame.Meets frame region.range →
            frame ∉ pool.freeFrames ∧ frame ∉ frames := by
  have hhanded {later frames} (hout : HandsOut (built regions reserved) later frames) :
      frames ⊆ (built regions reserved).freeFrames :=
    (hout.freeFrames_eq (consistent_built regions reserved)).2.1
  refine ⟨_, _, framePool_eq_done regions reserved () journal,
    fun _ _ _ _ hmeets => mem_freeFrames_iff_contests hmeets, fun _ _ => hhanded,
    fun region _ _ happart later frames hout frame hmeets => ?_⟩
  have hfree : frame ∉ (built regions reserved).freeFrames := fun hmem => by
    obtain ⟨other, hother, hkind, -, hoverlaps⟩ := ((mem_freeFrames_iff_contests hmeets).mp hmem).1
    exact happart other hother hkind hoverlaps
  exact ⟨hfree, fun hmem => hfree (hhanded hout hmem)⟩

/-- If the first frame is usable by one region and damaged by another, it is free, and it is the
first one to be handed out, alone as in a run. -/
theorem handsOut_damaged :
    let damaged : Region := ⟨0, 4096, .bad⟩
    let regions : List Region := [⟨0, 65536, .usable⟩, damaged]
    ∃ pool journal later run,
      (framePool regions (0, 0) : Total Unit FramePool) () #[] = .done pool () journal ∧
      Frame.Meets 0 damaged.range ∧ 0 ∈ pool.freeFrames ∧
      allocate pool journal = .done 0 later journal ∧
      allocateRun 1 pool journal = .done 0 run journal := by
  intro damaged regions
  let pool := built regions (0, 0)
  have hpool : pool.Consistent := consistent_built regions (0, 0)
  have hmeets : Frame.Meets 0 damaged.range := ⟨0, by decide, by decide, by decide⟩
  have hfree : 0 ∈ pool.freeFrames := by
    refine mem_freeFrames_built.mpr ⟨by rw [total_built]; decide, by decide, ?_⟩
    rintro ⟨address, -, hlast, -⟩
    exact absurd hlast (Nat.not_lt_zero address)
  have hlowest : pool.lowestFree 0 = some 0 :=
    lowestFree_eq_some_iff.mpr ⟨Nat.le_refl _, lt_total_of_mem hfree, mem_freeFrames.mp hfree,
      fun other _ hlt => absurd hlt (Nat.not_lt_zero other)⟩
  have hbuilt := framePool_eq_done regions (0, 0) () #[]
  have hrun : IsRun pool.freeFrames 1 0 := Finset.singleton_subset_iff.mpr hfree
  have hfits : pool.total + 1 < bitRange 64 := Nat.lt_of_le_of_lt
    (Nat.add_le_add_right hpool.total_le 1) (by decide)
  obtain ⟨first, run, ⟨-, hleast⟩, hdone, -⟩ | ⟨hnone, -⟩ :=
    allocateRun_least (.ofMap hbuilt) _ (by decide : 0 < 1) hfits
  · obtain rfl : first = 0 := Nat.eq_zero_of_le_zero (hleast hrun)
    exact ⟨pool, _, _, run, hbuilt, hmeets, hfree, allocate_of_some hpool _ hlowest, hdone⟩
  · exact absurd hrun (hnone 0)

end MemoryMap

end KernelResources
