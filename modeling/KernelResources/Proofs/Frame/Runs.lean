import Mathlib.Order.Bounds.Basic
import Mathlib.Order.Interval.Finset.Nat
import KernelResources.Proofs.Frame.FreeSet

/-!
# Runs of frames

A request for a run of frames is answered by a search that alternates between two directions: from
a start it looks for the next free frame, and from there for the next taken one. If that one lies
too close, the search starts again behind it. It passes over many places, and none of them is ever
looked at again.

* `IsRun` says that a run of free frames begins at a place.
* `allocateRunFrom_mirrors`: the search through words does what the search through bits does.
* `allocateRunFrom_finds`: whatever the search has passed over is no place for a run, and so it
  finds the lowest one.
* `allocateRun_least` says this of a request to a reachable pool.
-/

namespace KernelResources

namespace FramePool

variable {ε : Type} {pool : FramePool} {free : Finset Nat} {first last frame count start rounds : Nat}

/-! ## Places for a run -/

/-- The `count` frames from `first` on are all free. -/
def IsRun (free : Finset Nat) (count first : Nat) : Prop := Finset.Ico first (first + count) ⊆ free

instance : Decidable (IsRun free count first) :=
  inferInstanceAs (Decidable (Finset.Ico first (first + count) ⊆ free))

theorem IsRun.mem (h : IsRun free count first) (hfirst : first ≤ frame)
    (hlast : frame < first + count) : frame ∈ free := h (Finset.mem_Ico.mpr ⟨hfirst, hlast⟩)

/-- A run ends in memory. -/
theorem IsRun.le_total (h : IsRun pool.freeFrames count first) (hcount : 0 < count) :
    first + count ≤ pool.total := by
  have hlast : first + count - 1 ∈ pool.freeFrames := h.mem (by omega) (by omega)
  have htotal := lt_total_of_mem hlast
  omega

/-- No run begins between the start of a search and the frame that it finds. -/
theorem IsRun.le_of_lowestFree {found : Nat} (h : IsRun pool.freeFrames count first)
    (hcount : 0 < count) (hstart : start ≤ first) (hfree : pool.lowestFree start = some found) :
    found ≤ first := by
  obtain ⟨-, -, -, hbefore⟩ := lowestFree_eq_some_iff.mp hfree
  by_contra hlt
  have htaken := hbefore first hstart (Nat.lt_of_not_le hlt)
  rw [mem_freeFrames.mp (h.mem (Nat.le_refl _) (Nat.lt_add_of_pos_right hcount))] at htaken
  cases htaken

theorem isRun_of_first?_eq_none (hlast : first + count ≤ pool.total)
    (hnone : pool.taken.first? id first (first + count) = none) :
    IsRun pool.freeFrames count first := fun frame hframe => by
  obtain ⟨hle, hlt⟩ := Finset.mem_Ico.mp hframe
  exact mem_freeFrames.mpr (isTaken_of_first?_eq_none hlast hnone hle hlt)

/-- The search for an obstacle finds the lowest taken frame of a range. -/
theorem obstacle_eq_some_iff {obstacle : Nat} (hlast : last ≤ pool.total) :
    pool.taken.first? id first last = some obstacle ↔
      first ≤ obstacle ∧ obstacle < last ∧ pool.isTaken obstacle = true ∧
        ∀ other, first ≤ other → other < obstacle → pool.isTaken other = false := by
  have hread {frame : Nat} (hframe : frame < last) :
      pool.taken.read frame = pool.isTaken frame :=
    (isTaken_eq_read (Nat.lt_of_lt_of_le hframe hlast)).symm
  rw [Store.first?_eq_some_iff]
  refine and_congr_right fun _ => and_congr_right fun hlt => ?_
  simp only [id_eq, hread hlt]
  refine and_congr_right fun _ => forall₃_congr fun other _ hother => ?_
  rw [hread (Nat.lt_trans hother hlt)]

/-- Taking a range takes it out of the free frames. -/
theorem freeFrames_taking_range :
    (pool.taking first last).freeFrames = pool.freeFrames \ Finset.Ico first last := by
  ext other
  rw [Finset.mem_sdiff, Finset.mem_Ico, mem_freeFrames, mem_freeFrames, isTaken_taking,
    Bool.or_eq_false_iff, decide_eq_false_iff_not, and_comm]

/-! ## The search on words -/

section Words

variable (journal : Journal)

theorem obstacle?_eq (frames : List Nat) (h : ∀ frame ∈ frames, frame < pool.total) :
    (Bitmap.obstacle? frames : Action ε Bitmap _) pool.packed journal =
      .done (frames.find? pool.isTaken) pool.packed journal := by
  induction frames with
  | nil => rfl
  | cons frame rest ih =>
    have hset := isSet_packed (ε := ε) journal (h frame List.mem_cons_self)
    rw [Bitmap.obstacle?, Action.bind_of_done hset, List.find?_cons]
    cases pool.isTaken frame with
    | true => rfl
    | false => exact ih fun other hother => h other (List.mem_cons_of_mem _ hother)

/-- Going through the frames of a range one by one finds its first obstacle. -/
theorem obstacle?_packed (hlast : last ≤ pool.total) :
    (Bitmap.obstacle? (List.range' first (last - first)) : Action ε Bitmap _) pool.packed journal =
      .done (pool.taken.first? id first last) pool.packed journal := by
  have hrange {frame : Nat} (h : frame ∈ List.range' first (last - first)) : frame < pool.total := by
    rw [List.mem_range'_1] at h
    omega
  rw [obstacle?_eq journal _ fun _ => hrange]
  congr 1
  ext obstacle
  rw [List.find?_range'_eq_some, obstacle_eq_some_iff hlast, List.mem_range'_1]
  simp only [Bool.not_eq_true']
  constructor
  · rintro ⟨htaken, ⟨hle, hlt⟩, hbefore⟩
    exact ⟨hle, by omega, htaken, hbefore⟩
  · rintro ⟨hle, hlt, htaken, hbefore⟩
    exact ⟨htaken, ⟨hle, by omega⟩, hbefore⟩

/-- Setting the bits of free frames one by one takes the range. -/
theorem setBits_packed (h : pool.Consistent) (hlast : last ≤ pool.total)
    (hfree : ∀ frame, first ≤ frame → frame < last → pool.isTaken frame = false) :
    (List.range' first (last - first)).forM (Bitmap.setBit : Nat → Action ε Bitmap _) pool.packed
        journal = .done () (pool.taking first last).packed journal := by
  obtain ⟨pool', hmarks, hloop⟩ := Marks.forM_packed h hlast
    fun middle hmiddle htotal frame (hle : first ≤ frame) hlt hsame =>
      ⟨_, .taking hmiddle (htotal ▸ Nat.lt_of_lt_of_le hlt hlast), fun journal =>
        setBit_packed (ε := ε) journal hmiddle (hsame.trans (hfree frame hle hlt))⟩
  rw [hloop, hmarks.packed_eq (.taking h hlast)]

/-- The search through words does what the search through bits does, if it has enough rounds. -/
theorem allocateRunFrom_mirrors (h : pool.Consistent) (hcount : 0 < count)
    (hstart : start ≤ pool.total) (hrounds : pool.total < start + rounds) :
    Action.Mirrors packed (Bitmap.allocateRunFrom count rounds start)
      (allocateRunFrom count rounds start) pool := by
  intro journal
  have htotal : pool.total < bitRange 64 :=
    Nat.lt_of_le_of_lt h.total_le (by decide)
  -- Induction on the rounds; every obstacle lies behind the start of its round.
  induction rounds generalizing start with
  | zero => omega
  | succ rounds ih =>
    rw [Bitmap.allocateRunFrom, Action.get_bind, lowestFree_packed, total_packed]
    rcases allocateRunFrom_succ h journal hcount rounds start with
      ⟨hfree, hrun⟩ | ⟨first, hfree, ⟨hfits, hrun⟩ | ⟨hfits, htotal, hrun⟩ |
        ⟨obstacle, hobstacle, hlast, hrun⟩ | ⟨hnone, hlast, hrun⟩⟩
    · rw [hrun, hfree]
      rfl
    · rw [hrun, hfree, Action.ofOption_some, pure_bind, Action.add, if_neg (Nat.not_lt.mpr hfits)]
      rfl
    · rw [hrun, hfree, Action.ofOption_some, pure_bind, Action.add_eq_pure hfits, pure_bind,
        Action.refuseIf_of_pos htotal]
      rfl
    · obtain ⟨hle, hlt, -, -⟩ := (obstacle_eq_some_iff hlast).mp hobstacle
      have hbehind := (lowestFree_eq_some_iff.mp hfree).1
      rw [hrun, hfree, Action.ofOption_some, pure_bind,
        Action.add_eq_pure (Nat.lt_of_le_of_lt hlast htotal), pure_bind,
        Action.refuseIf_of_neg (Nat.not_lt.mpr hlast), pure_bind,
        Action.bind_of_done (obstacle?_packed journal hlast), hobstacle]
      simp only [Action.add_eq_pure (by omega : obstacle + 1 < bitRange 64), pure_bind]
      exact ih (by omega) (by omega)
    · rw [hrun, hfree, Action.ofOption_some, pure_bind,
        Action.add_eq_pure (Nat.lt_of_le_of_lt hlast htotal), pure_bind,
        Action.refuseIf_of_neg (Nat.not_lt.mpr hlast), pure_bind,
        Action.bind_of_done (obstacle?_packed journal hlast), hnone]
      simp only
      rw [Action.bind_of_done (setBits_packed journal h hlast fun frame =>
        isTaken_of_first?_eq_none hlast hnone), ofIndex_eq h (by omega)]
      rfl

theorem allocateRun_mirrors (h : pool.Consistent) (count : Nat) :
    Action.Mirrors packed (Bitmap.allocateRun count) (allocateRun count) pool := by
  by_cases hcount : count = 0
  · intro journal
    rw [Bitmap.allocateRun, allocateRun, Action.refuseIf_of_pos hcount, Action.refuseIf_of_pos hcount]
    rfl
  · intro journal
    rw [Bitmap.allocateRun, allocateRun, Action.refuseIf_of_neg hcount,
      Action.refuseIf_of_neg hcount, pure_bind, pure_bind, Action.get_bind, Action.get_bind,
      total_packed]
    exact allocateRunFrom_mirrors h (Nat.pos_of_ne_zero hcount) (Nat.zero_le _) (by omega) journal

end Words

/-! ## The lowest run -/

/-- If no run begins below its start, a search takes the lowest run, or it is refused because there
is none. -/
theorem allocateRunFrom_finds (h : pool.Consistent) (journal : Journal) (hcount : 0 < count)
    (hfits : pool.total + count < bitRange 64) (hstart : start ≤ pool.total)
    (hrounds : pool.total < start + rounds)
    (hpassed : ∀ first < start, ¬IsRun pool.freeFrames count first) :
    (∃ first, IsLeast {first | IsRun pool.freeFrames count first} first ∧
        allocateRunFrom count rounds start pool journal =
          .done first (pool.taking first (first + count)) journal) ∨
      (∀ first, ¬IsRun pool.freeFrames count first) ∧
        allocateRunFrom count rounds start pool journal = .refused .outOfMemory pool journal := by
  -- Induction on the rounds; what a round passes over holds no place for a run.
  induction rounds generalizing start with
  | zero => omega
  | succ rounds ih =>
    have hbehind {first : Nat} (hrun : IsRun pool.freeFrames count first) : start ≤ first :=
      Nat.le_of_not_lt fun hlt => hpassed first hlt hrun
    rcases allocateRunFrom_succ h journal hcount rounds start with
      ⟨hfree, hdone⟩ | ⟨found, hfree, ⟨hwide, hdone⟩ | ⟨-, htotal, hdone⟩ |
        ⟨obstacle, hobstacle, hlast, hdone⟩ | ⟨hnone, hlast, hdone⟩⟩
    · -- No frame is free behind the start.
      refine .inr ⟨fun first hrun => ?_, hdone⟩
      have hmem : first ∈ pool.freeFrames := hrun.mem (Nat.le_refl _) (by omega)
      have htaken := (Store.first?_eq_none_iff _).mp hfree first (hbehind hrun)
        (lt_total_of_mem hmem)
      rw [← isTaken_eq_read (lt_total_of_mem hmem), mem_freeFrames.mp hmem] at htaken
      cases htaken
    · have hlt := (lowestFree_eq_some_iff.mp hfree).2.1
      omega
    · -- A run that begins at the frame that was found or later does not end in memory.
      refine .inr ⟨fun first hrun => ?_, hdone⟩
      have hle := hrun.le_of_lowestFree hcount (hbehind hrun) hfree
      have hend := hrun.le_total hcount
      omega
    · -- A run that begins at the obstacle or before contains the obstacle.
      obtain ⟨hle, hlt, htaken, -⟩ := (obstacle_eq_some_iff hlast).mp hobstacle
      have hstart' := (lowestFree_eq_some_iff.mp hfree).1
      rw [hdone]
      refine ih (by omega) (by omega) fun first hfirst hrun => ?_
      have hfound := hrun.le_of_lowestFree hcount (hbehind hrun) hfree
      rw [mem_freeFrames.mp (hrun.mem (by omega : first ≤ obstacle) (by omega))] at htaken
      cases htaken
    · exact .inl ⟨found, ⟨isRun_of_first?_eq_none hlast hnone, fun first hrun =>
        hrun.le_of_lowestFree hcount (hbehind hrun) hfree⟩, hdone⟩

/-- A request for one frame or more to a reachable pool takes the lowest run of free frames of that
length, and nothing else; if there is none, it is refused, and the pool is left as it was. It always
returns, on the bits as on the words, where a search without end would halt. -/
theorem allocateRun_least (h : pool.Reachable) (journal : Journal) (hcount : 0 < count)
    (hfits : pool.total + count < bitRange 64) :
    (∃ first pool', IsLeast {first | IsRun pool.freeFrames count first} first ∧
        allocateRun count pool journal = .done first pool' journal ∧
        Bitmap.allocateRun count pool.packed journal = .done first pool'.packed journal ∧
        pool'.total = pool.total ∧
        pool'.Represents (pool.freeFrames \ Finset.Ico first (first + count))) ∨
      (∀ first, ¬IsRun pool.freeFrames count first) ∧
        allocateRun count pool journal = .refused .outOfMemory pool journal ∧
        Bitmap.allocateRun count pool.packed journal = .refused .outOfMemory pool.packed journal := by
  have hconsistent := consistent_of_reachable h
  have hmirrors := allocateRun_mirrors hconsistent count journal
  have hsearch : allocateRun count pool journal =
      allocateRunFrom count (pool.total + 1) 0 pool journal := by
    rw [allocateRun, Action.refuseIf_of_neg (Nat.ne_of_gt hcount), pure_bind, Action.get_bind]
  rcases allocateRunFrom_finds hconsistent journal hcount hfits (Nat.zero_le _)
    (by omega : pool.total < 0 + (pool.total + 1)) (fun first hfirst => by omega) with
    ⟨first, hleast, hdone⟩ | ⟨hnone, hrefused⟩
  · have hrun := hsearch.trans hdone
    refine .inl ⟨first, _, hleast, hrun, ?_, rfl, ?_⟩
    · rw [hmirrors, hrun]
      rfl
    · rw [← freeFrames_taking_range]
      exact (h.allocateRun hrun).represents
  · have hrun := hsearch.trans hrefused
    refine .inr ⟨hnone, hrun, ?_⟩
    rw [hmirrors, hrun]
    rfl

/-- In a pool of eight frames of which frame 1 is taken, the lowest run of three frames begins right
behind it, and there is no run of seven. -/
theorem allocateRun_behindObstacle :
    ∃ pool pool' : FramePool, pool.Reachable ∧ pool.total + 7 < bitRange 64 ∧
      Bitmap.allocateRun 3 pool.packed #[] = .done 2 pool'.packed #[] ∧
      pool'.Represents {0, 5, 6, 7} ∧
      Bitmap.allocateRun 7 pool.packed #[] = .refused .outOfMemory pool.packed #[] := by
  let pool : FramePool := (allFree 8).taking 1 2
  have hmark : markTaken 1 (allFree 8) #[] = .done () pool #[] := by
    rw [markTaken, Action.get_bind, isTaken_allFree]
    exact take_eq (consistent_allFree (by decide)) (by decide : 2 ≤ 8) #[]
  have hreach : pool.Reachable := .markTaken (.allFree (by decide)) hmark
  have hfree : pool.freeFrames = {0, 2, 3, 4, 5, 6, 7} := by
    rw [freeFrames_taking, freeFrames_allFree]
    decide
  -- A run that begins at frame 0 or 1 contains frame 1.
  have hbehind {count first : Nat} (hcount : 1 < count) (hrun : IsRun pool.freeFrames count first) :
      2 ≤ first := by
    by_contra hlt
    have hone : 1 ∈ pool.freeFrames := hrun.mem (by omega) (by omega)
    rw [hfree] at hone
    exact absurd hone (by decide)
  have hthree : IsRun pool.freeFrames 3 2 := by
    rw [hfree]
    decide
  obtain ⟨first, pool', hleast, -, hdone, -, hafter⟩ | ⟨hnone, -⟩ :=
    allocateRun_least hreach #[] (by decide : 0 < 3) (by decide)
  · obtain rfl : first = 2 := hleast.unique ⟨hthree, fun first => hbehind (by decide)⟩
    obtain ⟨first, -, ⟨hseven, -⟩, -⟩ | ⟨-, -, hrefused⟩ :=
      allocateRun_least hreach #[] (by decide : 0 < 7) (by decide)
    · have hle := hbehind (by decide) hseven
      have htotal : first + 7 ≤ 8 := hseven.le_total (by decide)
      omega
    · refine ⟨pool, pool', hreach, by decide, hdone, ?_, hrefused⟩
      rw [hfree] at hafter
      exact hafter
  · exact absurd hthree (hnone 2)

end FramePool

end KernelResources
