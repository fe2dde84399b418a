import Mathlib.Data.Finset.Max
import Mathlib.Data.Finset.Range
import KernelResources.Proofs.Frame.Requests

/-!
# A frame pool as a set of free frames

A client of a frame pool needs to know no more than which frames are free. `FramePool.serve` says
what a set of free frames does with a request: it hands out its least element, takes in a frame
that it does not have, and refuses what it cannot do.

* `serves_of_consistent`: the pool and the set of its free frames answer every request alike, and a
  refusal leaves the pool as it is.
* `performAll_eq`: so they do over any sequence of requests.
* `refines_freeSet`: the two together for every pool, from when it is built, with what the counters
  and the words say.
-/

namespace KernelResources

namespace FramePool

variable {pool : FramePool} {frame : Nat}

/-- The set of free frames. -/
def freeFrames (pool : FramePool) : Finset Nat :=
  (Finset.range pool.total).filter fun frame => pool.isTaken frame = false

theorem mem_freeFrames : frame ∈ pool.freeFrames ↔ pool.isTaken frame = false := by
  rw [freeFrames, Finset.mem_filter, Finset.mem_range]
  exact and_iff_right_of_imp lt_total_of_isTaken_eq_false

theorem lt_total_of_mem (h : frame ∈ pool.freeFrames) : frame < pool.total :=
  lt_total_of_isTaken_eq_false (mem_freeFrames.mp h)

/-- A frame can be given back if it lies in memory and is not free. -/
theorem mem_takenFrames_iff :
    frame ∈ pool.takenFrames ↔ frame < pool.total ∧ frame ∉ pool.freeFrames := by
  rw [mem_takenFrames, mem_freeFrames, Bool.not_eq_false]

/-- A frame is free if it lies in memory and cannot be given back. -/
theorem mem_freeFrames_iff :
    frame ∈ pool.freeFrames ↔ frame < pool.total ∧ frame ∉ pool.takenFrames := by
  rw [mem_takenFrames_iff, not_and_not_right]
  exact ⟨fun hfree => ⟨lt_total_of_mem hfree, fun _ => hfree⟩, fun hfree => hfree.2 hfree.1⟩

/-- Pools of the same size in which the same frames are taken have the same free frames. -/
theorem freeFrames_congr {pool' : FramePool} (htotal : pool.total = pool'.total)
    (htaken : pool.takenFrames.Perm pool'.takenFrames) : pool.freeFrames = pool'.freeFrames := by
  ext frame
  rw [mem_freeFrames_iff, mem_freeFrames_iff, htotal, htaken.mem_iff]

/-- The count of a consistent pool is the number of its free frames. -/
theorem Consistent.freeCount_eq_card (h : pool.Consistent) :
    pool.freeCount = pool.freeFrames.card := by
  have hcard : pool.freeFrames.card = (List.range pool.total).countP fun frame =>
      decide (pool.isTaken frame = false) := List.countP_eq_length_filter.symm
  rw [hcard, h.freeCount_eq]
  refine List.countP_congr fun frame hframe => ?_
  rw [isTaken_eq_read (List.mem_range.mp hframe), Bool.not_eq_true', decide_eq_true_eq]

theorem Consistent.freeCount_le (h : pool.Consistent) : pool.freeCount ≤ pool.total := by
  rw [h.freeCount_eq_card]
  exact (Finset.card_filter_le _ _).trans_eq (Finset.card_range _)

theorem freeFrames_allFree (total : Nat) : (allFree total).freeFrames = Finset.range total := by
  ext frame
  rw [mem_freeFrames, Finset.mem_range, isTaken_allFree, decide_eq_false_iff_not, Nat.not_le]

theorem freeFrames_taking :
    (pool.taking frame (frame + 1)).freeFrames = pool.freeFrames.erase frame := by
  ext other
  rw [Finset.mem_erase, mem_freeFrames, mem_freeFrames, isTaken_taking, Bool.or_eq_false_iff,
    decide_eq_false_iff_not]
  exact and_congr_left fun _ => by omega

theorem freeFrames_releasing (h : frame < pool.total) :
    (pool.releasing frame (frame + 1)).freeFrames = insert frame pool.freeFrames := by
  ext other
  rw [Finset.mem_insert, mem_freeFrames, mem_freeFrames, isTaken_releasing h, Bool.and_eq_false_iff,
    Bool.not_eq_false', decide_eq_true_eq]
  exact or_congr_left (by omega)

/-- The search from the first frame on finds the least free frame. -/
theorem min'_freeFrames (hfree : pool.lowestFree 0 = some frame) :
    ∃ h : pool.freeFrames.Nonempty, pool.freeFrames.min' h = frame := by
  obtain ⟨-, -, hmark, hbefore⟩ := lowestFree_eq_some_iff.mp hfree
  have hmem := mem_freeFrames.mpr hmark
  refine ⟨⟨frame, hmem⟩, le_antisymm (Finset.min'_le _ _ hmem) (Finset.le_min' _ _ _ ?_)⟩
  intro other hother
  by_contra hlt
  -- Whatever lies below the frame that was found is taken.
  have htaken := hbefore other (Nat.zero_le _) (Nat.lt_of_not_le hlt)
  rw [mem_freeFrames.mp hother] at htaken
  cases htaken

theorem freeFrames_eq_empty (hfull : pool.lowestFree 0 = none) : pool.freeFrames = ∅ := by
  refine Finset.eq_empty_of_forall_notMem fun frame hmem => ?_
  have hread := (Store.first?_eq_none_iff _).mp hfull frame (Nat.zero_le _) (lt_total_of_mem hmem)
  rw [← isTaken_eq_read (lt_total_of_mem hmem), mem_freeFrames.mp hmem] at hread
  cases hread

/-- A set of frames is what a pool knows: it says which frames are taken, also by the bits in the
words, and the counters of the pool agree with its size. -/
structure Represents (pool : FramePool) (free : Finset Nat) : Prop where
  /-- Only frames that exist are free. -/
  lt_total : ∀ frame ∈ free, frame < pool.total
  /-- A frame counts as taken unless it is in the set. -/
  isTaken_iff : ∀ frame, pool.isTaken frame = true ↔ frame ∉ free
  /-- The words say the same of every frame. -/
  isTaken_packed : ∀ frame journal, (Bitmap.isTaken frame : Total Bitmap Bool) pool.packed journal =
    .done (decide (frame ∉ free)) pool.packed journal
  /-- The counter of free frames is the size of the set. -/
  freeCount_eq : pool.freeCount = free.card
  /-- The totals can be computed, and used and free frames add up to all of them. -/
  stats_eq : ∀ journal, ∃ stats, FramePool.stats pool journal = .done stats pool journal ∧
    stats.totalFrames = pool.total ∧ stats.freeFrames = free.card ∧
      stats.usedFrames + stats.freeFrames = stats.totalFrames

/-- The sizes in bytes of a consistent pool fit into 64 bits. -/
theorem Consistent.stats_eq (h : pool.Consistent) (journal : Journal) :
    stats pool journal = .done {
      totalFrames := pool.total
      freeFrames := pool.freeCount
      usedFrames := pool.total - pool.freeCount
      totalMemory := pool.total * Frame.size
      freeMemory := pool.freeCount * Frame.size
      usedMemory := (pool.total - pool.freeCount) * Frame.size } pool journal := by
  have hle := h.freeCount_le
  have hfits {frames : Nat} (hframes : frames ≤ pool.total) :
      frames * Frame.size < bitRange 64 := by
    have htotal := h.total_le
    simp only [Frame.size, bitRange] at *
    omega
  simp only [stats, Action.apply_bind, Action.apply_get, Action.subtract_eq_pure hle,
    Action.multiply_eq_pure (hfits (Nat.le_refl _)), Action.multiply_eq_pure (hfits hle),
    Action.multiply_eq_pure (hfits (Nat.sub_le _ _)), Action.apply_pure]

theorem Consistent.represents_freeFrames (h : pool.Consistent) :
    pool.Represents pool.freeFrames where
  lt_total := fun _ hmem => lt_total_of_mem hmem
  isTaken_iff := fun _ => by rw [mem_freeFrames, Bool.not_eq_false]
  isTaken_packed := fun frame journal => by
    simp only [FramePool.isTaken_packed, mem_freeFrames, Bool.not_eq_false, Bool.decide_eq_true]
  freeCount_eq := h.freeCount_eq_card
  stats_eq := fun journal => by
    refine ⟨_, h.stats_eq journal, rfl, h.freeCount_eq_card, ?_⟩
    exact Nat.sub_add_cancel h.freeCount_le

/-- Only one set represents a pool. -/
theorem Represents.eq_freeFrames {free : Finset Nat} (h : pool.Represents free) :
    free = pool.freeFrames := by
  ext frame
  rw [mem_freeFrames, ← Bool.not_eq_true, h.isTaken_iff, not_not]

theorem Reachable.represents (h : pool.Reachable) : pool.Represents pool.freeFrames :=
  (consistent_of_reachable h).represents_freeFrames

/-! ## Requests -/

/-- What a set of free frames below `total` does with a request: the frame it hands out, and the
frames that are free from then on. -/
def serve (total : Nat) (free : Finset Nat) :
    Request → Except MemoryError (Option Nat × Finset Nat)
  | .allocate =>
    if h : free.Nonempty then .ok (some (free.min' h), free.erase (free.min' h))
    else .error .outOfMemory
  | .allocate? =>
    if h : free.Nonempty then .ok (some (free.min' h), free.erase (free.min' h))
    else .ok (none, free)
  | .free frame =>
    if frame < total ∧ frame ∉ free then .ok (none, insert frame free)
    else .error .invalidOperation
  | .discard frame => .ok (none, if frame < total then insert frame free else free)
  | .markTaken frame => .ok (none, free.erase frame)

/-- The pool answers a request as the set of its free frames does. It always returns, and if it
refuses, it is left as it is. -/
def Serves (request : Request) (pool : FramePool) (free : Finset Nat) : Prop :=
  ∀ journal, match request.perform pool journal with
    | .done frame? pool' _ =>
      pool'.Reachable ∧ pool'.total = pool.total ∧
        ∃ free', serve pool.total free request = .ok (frame?, free') ∧ pool'.Represents free'
    | .refused error pool' _ => pool' = pool ∧ serve pool.total free request = .error error
    | .halted _ _ => False

section Steps

variable (h : pool.Reachable)
include h

private theorem serves_allocate : Serves .allocate pool pool.freeFrames := by
  intro journal
  have hconsistent := consistent_of_reachable h
  rw [Request.perform, Action.apply_map]
  cases hfree : pool.lowestFree 0 with
  | none =>
    rw [allocate_of_none journal hfree]
    refine ⟨rfl, ?_⟩
    rw [serve, dif_neg (by simp [freeFrames_eq_empty hfree])]
  | some lowest =>
    obtain ⟨hnonempty, hmin⟩ := min'_freeFrames hfree
    have hdone := allocate_of_some hconsistent journal hfree
    rw [hdone]
    have hafter := h.allocate hdone
    refine ⟨hafter, rfl, _, ?_, hafter.represents⟩
    rw [serve, dif_pos hnonempty, hmin, freeFrames_taking]

private theorem serves_allocate? : Serves .allocate? pool pool.freeFrames := by
  intro journal
  have hconsistent := consistent_of_reachable h
  cases hfree : pool.lowestFree 0 with
  | none =>
    have hrun : Request.perform .allocate? pool journal = .done none pool journal :=
      Action.unrefused_of_done
        (Action.bind_of_done (Action.attempt_of_refused (allocate_of_none journal hfree)))
    rw [hrun]
    refine ⟨h, rfl, _, ?_, h.represents⟩
    rw [serve, dif_neg (by simp [freeFrames_eq_empty hfree])]
  | some lowest =>
    obtain ⟨hnonempty, hmin⟩ := min'_freeFrames hfree
    have hdone := allocate_of_some hconsistent journal hfree
    have hrun : Request.perform .allocate? pool journal =
        .done (some lowest) (pool.taking lowest (lowest + 1)) journal :=
      Action.unrefused_of_done (Action.bind_of_done (Action.attempt_of_done hdone))
    rw [hrun]
    have hafter := h.allocate hdone
    refine ⟨hafter, rfl, _, ?_, hafter.represents⟩
    rw [serve, dif_pos hnonempty, hmin, freeFrames_taking]

private theorem serves_free (frame : Nat) : Serves (.free frame) pool pool.freeFrames := by
  intro journal
  by_cases htaken : frame ∈ pool.takenFrames
  · have hdone := free_eq (consistent_of_reachable h) journal htaken
    obtain ⟨hlt, hfree⟩ := mem_takenFrames_iff.mp htaken
    have hrun : Request.perform (.free frame) pool journal =
        .done none (pool.releasing frame (frame + 1)) journal := Action.bind_of_done hdone
    rw [hrun]
    have hafter := h.free hdone
    refine ⟨hafter, rfl, _, ?_, hafter.represents⟩
    rw [serve, if_pos ⟨hlt, hfree⟩, freeFrames_releasing hlt]
  · have hrun : Request.perform (.free frame) pool journal =
        .refused .invalidOperation pool (journal.push (.strayFrame (Frame.address frame))) :=
      Action.bind_of_refused (free_of_not_mem journal htaken)
    rw [hrun]
    refine ⟨rfl, ?_⟩
    rw [serve, if_neg (mem_takenFrames_iff.not.mp htaken)]

private theorem serves_discard (frame : Nat) : Serves (.discard frame) pool pool.freeFrames := by
  intro journal
  by_cases htaken : frame ∈ pool.takenFrames
  · have hconsistent := consistent_of_reachable h
    have hlt := (mem_takenFrames_iff.mp htaken).1
    have hrun : Request.perform (.discard frame) pool journal =
        .done none (pool.releasing frame (frame + 1)) journal :=
      Action.bind_of_done (Action.unrefused_of_done (discard_eq hconsistent journal htaken))
    rw [hrun]
    have hafter := h.free (free_eq hconsistent journal htaken)
    refine ⟨hafter, rfl, _, ?_, hafter.represents⟩
    rw [serve, if_pos hlt, freeFrames_releasing hlt]
  · have hdiscard : FramePool.discard frame pool journal =
        .done () pool (journal.push (.strayFrame (Frame.address frame))) :=
      Action.bind_of_done (Action.attempt_of_refused (free_of_not_mem journal htaken))
    have hrun : Request.perform (.discard frame) pool journal =
        .done none pool (journal.push (.strayFrame (Frame.address frame))) :=
      Action.bind_of_done (Action.unrefused_of_done hdiscard)
    rw [hrun]
    refine ⟨h, rfl, _, ?_, h.represents⟩
    -- The frame is free already, or it does not exist.
    rw [mem_takenFrames_iff, not_and_not_right] at htaken
    rw [serve]
    by_cases hlt : frame < pool.total
    · rw [if_pos hlt, Finset.insert_eq_self.mpr (htaken hlt)]
    · rw [if_neg hlt]

private theorem serves_markTaken (frame : Nat) :
    Serves (.markTaken frame) pool pool.freeFrames := by
  intro journal
  by_cases htaken : pool.isTaken frame = true
  · have hmark : FramePool.markTaken frame pool journal = .done () pool journal := by
      rw [FramePool.markTaken, Action.get_bind, if_pos htaken]
      rfl
    have hrun : Request.perform (.markTaken frame) pool journal = .done none pool journal :=
      Action.bind_of_done (Action.unrefused_of_done hmark)
    have hfree : frame ∉ pool.freeFrames := by
      rw [mem_freeFrames, htaken]
      exact Bool.noConfusion
    rw [hrun]
    refine ⟨h, rfl, _, ?_, h.represents⟩
    rw [serve, Finset.erase_eq_of_notMem hfree]
  · have hfree := mem_freeFrames.mpr (Bool.not_eq_true _ ▸ htaken)
    have hmark : FramePool.markTaken frame pool journal =
        .done () (pool.taking frame (frame + 1)) journal := by
      rw [FramePool.markTaken, Action.get_bind, if_neg htaken]
      exact take_eq (consistent_of_reachable h) (lt_total_of_mem hfree) journal
    have hrun : Request.perform (.markTaken frame) pool journal =
        .done none (pool.taking frame (frame + 1)) journal :=
      Action.bind_of_done (Action.unrefused_of_done hmark)
    rw [hrun]
    have hafter := h.markTaken hmark
    refine ⟨hafter, rfl, _, ?_, hafter.represents⟩
    rw [serve, freeFrames_taking]

/-- A reachable pool answers every request as the set that represents it does. -/
theorem serves_of_reachable {free : Finset Nat} (hfree : pool.Represents free)
    (request : Request) : Serves request pool free := by
  obtain rfl := hfree.eq_freeFrames
  cases request with
  | allocate => exact serves_allocate h
  | allocate? => exact serves_allocate? h
  | free frame => exact serves_free h frame
  | discard frame => exact serves_discard h frame
  | markTaken frame => exact serves_markTaken h frame

end Steps

/-! ## Sequences of requests -/

/-- What a set of free frames below `total` does with a sequence of requests. -/
def serveAll (total : Nat) (free : Finset Nat) : List Request → List Answer × Finset Nat
  | [] => ([], free)
  | request :: rest =>
    match serve total free request with
    | .ok (frame?, free') =>
      let (answers, final) := serveAll total free' rest
      (.ok frame? :: answers, final)
    | .error error =>
      let (answers, final) := serveAll total free rest
      (.error error :: answers, final)

/-- A reachable pool answers a sequence of requests as the set that represents it does. -/
theorem performAll_eq (requests : List Request) {free : Finset Nat} (h : pool.Reachable)
    (hfree : pool.Represents free) (journal : Journal) :
    ∃ pool' journal', performAll Request.perform requests pool journal =
        .done (serveAll pool.total free requests).1 pool' journal' ∧
      pool'.Reachable ∧ pool'.total = pool.total ∧
        pool'.Represents (serveAll pool.total free requests).2 := by
  -- Induction on the requests: after the first one, the pool is reachable and represented again.
  induction requests generalizing pool free journal with
  | nil => exact ⟨pool, journal, rfl, h, rfl, hfree⟩
  | cons request rest ih =>
    have hstep := serves_of_reachable h hfree request journal
    cases hrun : request.perform pool journal with
    | done frame? middle journalMiddle =>
      rw [hrun] at hstep
      obtain ⟨hmiddle, htotal, free', hserve, hfree'⟩ := hstep
      obtain ⟨pool', journal', hrest, hpool', htotal', hfinal⟩ := ih hmiddle hfree' journalMiddle
      rw [htotal] at hrest htotal' hfinal
      refine ⟨pool', journal', ?_, hpool', htotal', ?_⟩
      · rw [performAll, Action.bind_of_done (Action.attempt_of_done hrun),
          Action.bind_of_done hrest, serveAll, hserve]
        rfl
      · rw [serveAll, hserve]
        exact hfinal
    | refused error middle journalMiddle =>
      rw [hrun] at hstep
      obtain ⟨rfl, hserve⟩ := hstep
      obtain ⟨pool', journal', hrest, hpool', htotal', hfinal⟩ := ih h hfree journalMiddle
      refine ⟨pool', journal', ?_, hpool', htotal', ?_⟩
      · rw [performAll, Action.bind_of_done (Action.attempt_of_refused hrun),
          Action.bind_of_done hrest, serveAll, hserve]
        rfl
      · rw [serveAll, hserve]
        exact hfinal
    | halted cause journalMiddle =>
      rw [hrun] at hstep
      exact hstep.elim

/-- Whatever a pool answers, it is reachable afterwards. -/
theorem reachable_of_attempt {request : Request} {answer : Answer} {pool' : FramePool}
    {journal journal' : Journal} (h : pool.Reachable)
    (hdone : (request.perform.attempt : Total FramePool Answer) pool journal =
      .done answer pool' journal') : pool'.Reachable := by
  have hserves := serves_of_reachable h h.represents request journal
  rw [Action.apply_attempt] at hdone
  cases hrun : request.perform pool journal with
  | done frame? middle journalMiddle =>
    rw [hrun] at hserves hdone
    cases hdone
    exact hserves.1
  | refused error middle journalMiddle =>
    rw [hrun] at hserves hdone
    cases hdone
    exact hserves.1 ▸ h
  | halted cause journalMiddle =>
    rw [hrun] at hserves
    exact hserves.elim

/-- Sequences of requests do on words what they do on bits. -/
theorem performAll_mirrors (requests : List Request) (h : pool.Reachable) :
    Action.Mirrors packed (performAll Request.performPacked requests)
      (performAll Request.perform requests) pool := by
  induction requests generalizing pool with
  | nil => exact .pure []
  | cons request rest ih =>
    refine (request.perform_mirrors (consistent_of_reachable h)).attempt.bind
      fun answer middle _ _ hdone => ?_
    exact (ih (reachable_of_attempt h hdone)).bind fun _ _ _ _ _ => .pure _

/-- A frame pool refines a set of free frames. However the pool was built, some set represents it,
and over any sequence of requests the pool gives the answers that the set gives and is represented
by what the set has become. All of this is so on the bits and on the words. -/
theorem refines_freeSet (origin : Origin) (journal : Journal) :
    ∃ pool free built,
      origin.build () journal = .done pool () built ∧
      origin.buildPacked () journal = .done pool.packed () built ∧
      pool.Represents free ∧
      ∀ requests journal, ∃ pool' journal',
        performAll Request.perform requests pool journal =
            .done (serveAll pool.total free requests).1 pool' journal' ∧
          performAll Request.performPacked requests pool.packed journal =
            .done (serveAll pool.total free requests).1 pool'.packed journal' ∧
          pool'.total = pool.total ∧ pool'.Represents (serveAll pool.total free requests).2 ∧
            ∀ request, Serves request pool' (serveAll pool.total free requests).2 ∧
              Action.Mirrors packed request.performPacked request.perform pool' := by
  obtain ⟨pool, built, hbuild, hbuildPacked, h⟩ := origin.exists_built journal
  refine ⟨pool, pool.freeFrames, built, hbuild, hbuildPacked, h.represents,
    fun requests journal => ?_⟩
  obtain ⟨pool', journal', hrun, hreach, htotal, hfree⟩ :=
    performAll_eq requests h h.represents journal
  refine ⟨pool', journal', hrun, ?_, htotal, hfree, fun request =>
    ⟨serves_of_reachable hreach hfree request,
      request.perform_mirrors (consistent_of_reachable hreach)⟩⟩
  rw [performAll_mirrors requests h journal, hrun]
  rfl

/-- A pool of two frames is used up, refuses what it has to and takes a frame back. -/
theorem refines_freeSet_twoFrames :
    ∃ pool' journal',
      performAll Request.perform [.allocate, .allocate?, .allocate, .free 1, .free 1, .free 2,
          .markTaken 1, .allocate?, .discard 0] (allFree 2) #[] =
        .done [.ok (some 0), .ok (some 1), .error .outOfMemory, .ok none,
          .error .invalidOperation, .error .invalidOperation, .ok none, .ok none, .ok none]
          pool' journal' ∧
      performAll Request.performPacked [.allocate, .allocate?, .allocate, .free 1, .free 1,
          .free 2, .markTaken 1, .allocate?, .discard 0] (Bitmap.allFree 2) #[] =
        .done [.ok (some 0), .ok (some 1), .error .outOfMemory, .ok none,
          .error .invalidOperation, .error .invalidOperation, .ok none, .ok none, .ok none]
          pool'.packed journal' ∧
      pool'.Represents {0} := by
  obtain ⟨pool, free, built, hbuild, -, hfree, hrun⟩ :=
    refines_freeSet (.allFree 2 (by decide)) #[]
  cases hbuild
  obtain rfl : free = Finset.range 2 := hfree.eq_freeFrames.trans (freeFrames_allFree 2)
  obtain ⟨pool', journal', hdone, hpacked, -, hfinal, -⟩ := hrun [.allocate, .allocate?, .allocate,
    .free 1, .free 1, .free 2, .markTaken 1, .allocate?, .discard 0] #[]
  rw [packed_allFree] at hpacked
  exact ⟨pool', journal', hdone, hpacked, hfinal⟩

end FramePool

end KernelResources
