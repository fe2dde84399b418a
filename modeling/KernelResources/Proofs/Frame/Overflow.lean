import KernelResources.Proofs.Frame.Runs
import KernelResources.Proofs.Returns

/-!
# Calls that do not return

Every access of a frame pool to its words is checked, and so is every change of its counter and
every sum and product that it computes. The kernel halts where a check fails. This file says where
that can be: nowhere but in the request for a run, which adds the length that its caller gives to a
frame number before it compares the sum with the size of memory.

* `Call` is everything that can be asked of a pool.
* `allocateRun_of_overflows`, `allocateRun_returns`: a request for a run halts at the first free
  frame, or it returns.
* `calls_return`: no other call ever halts, and the pool is fit for further calls after each.
-/

namespace KernelResources

namespace FramePool

variable {pool : FramePool} {first count : Nat}

/-! ## Requests for a run -/

/-- The search from the first frame on finds the least free frame. -/
theorem lowestFree_iff_isLeast :
    pool.lowestFree 0 = some first ↔ IsLeast (pool.freeFrames : Set Nat) first := by
  rw [lowestFree_eq_some_iff]
  constructor
  · rintro ⟨-, -, hfree, hbefore⟩
    refine ⟨mem_freeFrames.mpr hfree, fun other hother => ?_⟩
    by_contra hlt
    have htaken := hbefore other (Nat.zero_le _) (Nat.lt_of_not_le hlt)
    rw [mem_freeFrames.mp hother] at htaken
    cases htaken
  · rintro ⟨hmem, hleast⟩
    refine ⟨Nat.zero_le _, lt_total_of_mem hmem, mem_freeFrames.mp hmem, fun other _ hother => ?_⟩
    by_contra hfree
    exact Nat.not_le.mpr hother (hleast (mem_freeFrames.mpr (Bool.not_eq_true _ ▸ hfree)))

/-- The sum of the least free frame and the length of a run does not fit into 64 bits. -/
def Overflows (pool : FramePool) (count : Nat) : Prop :=
  ∃ first, IsLeast (pool.freeFrames : Set Nat) first ∧ bitRange 64 ≤ first + count

/-- A request for a run looks at the least free frame first, and halts if the sum is too large. -/
theorem allocateRun_of_overflows (h : pool.Consistent) (hover : pool.Overflows count)
    (journal : Journal) : allocateRun count pool journal = .halted .addOverflow journal := by
  obtain ⟨first, hleast, hsum⟩ := hover
  have hfirst := lt_total_of_mem hleast.1
  have htotal : pool.total < bitRange 64 := Nat.lt_of_le_of_lt h.total_le (by decide)
  have hcount : 0 < count := by omega
  rw [allocateRun, Action.refuseIf_of_neg (Nat.ne_of_gt hcount), pure_bind, Action.get_bind]
  rcases allocateRunFrom_succ h journal hcount pool.total 0 with
    ⟨hnone, -⟩ | ⟨found, hfound, ⟨-, hrun⟩ | ⟨hfits, -⟩ | ⟨_, -, hlast, -⟩ | ⟨-, hlast, -⟩⟩
  · rw [lowestFree_iff_isLeast.mpr hleast] at hnone
    cases hnone
  · exact hrun
  all_goals
    obtain rfl := (lowestFree_iff_isLeast.mp hfound).unique hleast
    omega

/-- A request for a run returns otherwise. If the length is so large that some later sum would not
fit either, then the first one already leads out of memory, and there is no later one. -/
theorem allocateRun_returns (h : pool.Reachable) (hfits : ¬pool.Overflows count)
    (journal : Journal) :
    ∃ pool', pool'.Reachable ∧ pool'.total = pool.total ∧
      (allocateRun count pool journal).state? = some pool' := by
  have hconsistent := consistent_of_reachable h
  rcases Nat.eq_zero_or_pos count with rfl | hcount
  · refine ⟨pool, h, rfl, ?_⟩
    rw [allocateRun, Action.refuseIf_of_pos rfl]
    rfl
  by_cases hwide : pool.total + count < bitRange 64
  · obtain ⟨first, pool', -, hdone, -, htotal, -⟩ | ⟨-, hrefused, -⟩ :=
      allocateRun_least h journal hcount hwide
    · exact ⟨pool', h.allocateRun hdone, htotal, by rw [hdone]; rfl⟩
    · exact ⟨pool, h, rfl, by rw [hrefused]; rfl⟩
  · have htotal := hconsistent.total_le
    have hrange : bitRange 40 + bitRange 40 < bitRange 64 := by decide
    refine ⟨pool, h, rfl, ?_⟩
    rw [allocateRun, Action.refuseIf_of_neg (Nat.ne_of_gt hcount), pure_bind, Action.get_bind]
    rcases allocateRunFrom_succ hconsistent journal hcount pool.total 0 with
      ⟨-, hrun⟩ | ⟨found, hfound, ⟨hsum, -⟩ | ⟨-, -, hrun⟩ | ⟨_, -, hlast, -⟩ | ⟨-, hlast, -⟩⟩
    · rw [hrun]
      rfl
    · exact absurd ⟨found, lowestFree_iff_isLeast.mp hfound, hsum⟩ hfits
    · rw [hrun]
      rfl
    all_goals omega

/-! ## Calls -/

/-- Everything that can be asked of a pool and that looks at its bits. -/
inductive Call where
  /-- One frame, handed out or given back. -/
  | single (request : Request)
  /-- A run of frames. -/
  | allocateRun (count : Nat)
  /-- Whether a frame is taken. -/
  | isTaken (frame : Nat)
deriving DecidableEq, Repr

/-- What a pool can answer. -/
inductive Reply where
  /-- The frame that is handed out, if one is. -/
  | frame (frame? : Option Nat)
  /-- Whether a frame is taken. -/
  | taken (answer : Bool)
deriving DecidableEq, Repr

namespace Call

/-- What a pool does with a call. -/
def perform : Call → Action MemoryError FramePool Reply
  | single request => .frame <$> request.perform
  | allocateRun count => (.frame ∘ some) <$> FramePool.allocateRun count
  | isTaken frame => do return .taken ((← get).isTaken frame)

/-- What a pool in words does with a call. -/
def performPacked : Call → Action MemoryError Bitmap Reply
  | single request => .frame <$> request.performPacked
  | allocateRun count => (.frame ∘ some) <$> Bitmap.allocateRun count
  | isTaken frame => .taken <$> Bitmap.isTaken frame

/-- The call is for a run of a length that cannot be added to the least free frame. -/
def Overflows (pool : FramePool) : Call → Prop
  | single _ => False
  | allocateRun count => pool.Overflows count
  | isTaken _ => False

/-- A call does on words what it does on bits. -/
theorem perform_mirrors (h : pool.Consistent) (call : Call) :
    Action.Mirrors packed call.performPacked call.perform pool := by
  cases call with
  | single request => exact (request.perform_mirrors h).map _
  | allocateRun count => exact (allocateRun_mirrors h count).map _
  | isTaken frame =>
    intro journal
    rw [performPacked, Action.apply_map, isTaken_packed]
    rfl

/-- A call that overflows halts. -/
theorem perform_of_overflows (h : pool.Consistent) {call : Call} (hover : call.Overflows pool)
    (journal : Journal) : call.perform pool journal = .halted .addOverflow journal := by
  cases call with
  | single request => exact hover.elim
  | allocateRun count =>
    rw [perform, Action.apply_map, allocateRun_of_overflows h hover]
  | isTaken frame => exact hover.elim

/-- Every other call returns, and leaves a reachable pool behind. -/
theorem perform_returns (h : pool.Reachable) {call : Call} (hfits : ¬call.Overflows pool)
    (journal : Journal) :
    ∃ pool', pool'.Reachable ∧ pool'.total = pool.total ∧
      (call.perform pool journal).state? = some pool' := by
  cases call with
  | single request =>
    rw [perform, Action.state?_map]
    have hserves := serves_of_reachable h h.represents request journal
    cases hrun : request.perform pool journal with
    | done frame? pool' journal' =>
      rw [hrun] at hserves
      exact ⟨pool', hserves.1, hserves.2.1, rfl⟩
    | refused error pool' journal' =>
      rw [hrun] at hserves
      exact ⟨pool, h, rfl, congrArg some hserves.1⟩
    | halted cause journal' =>
      rw [hrun] at hserves
      exact hserves.elim
  | allocateRun count =>
    rw [perform, Action.state?_map]
    exact allocateRun_returns h hfits journal
  | isTaken frame => exact ⟨pool, h, rfl, rfl⟩

end Call

/-- A pool can be built from up to 2 ^ 40 frames and from every memory map, and then every call
returns, whatever it is given and in whatever state the pool has come to be, but for one: a request
for a run halts if its length cannot be added to the least free frame. All of this is so on the bits
and on the words. The totals can always be computed. -/
theorem calls_return (journal : Journal) :
    (∀ origin : Origin, ∃ pool built,
      origin.build () journal = .done pool () built ∧
        origin.buildPacked () journal = .done pool.packed () built ∧ pool.Reachable) ∧
      ∀ pool : FramePool, pool.Reachable →
        (∃ stats, FramePool.stats pool journal = .done stats pool journal) ∧
        ∀ call : Call,
          (call.Overflows pool →
            call.perform pool journal = .halted .addOverflow journal ∧
              call.performPacked pool.packed journal = .halted .addOverflow journal) ∧
          (¬call.Overflows pool → ∃ pool', pool'.Reachable ∧ pool'.total = pool.total ∧
            (call.perform pool journal).state? = some pool' ∧
              (call.performPacked pool.packed journal).state? = some pool'.packed) := by
  refine ⟨fun origin => origin.exists_built journal, fun pool h => ?_⟩
  have hconsistent := consistent_of_reachable h
  refine ⟨⟨_, hconsistent.stats_eq journal⟩, fun call => ⟨fun hover => ?_, fun hfits => ?_⟩⟩
  · have hrun := call.perform_of_overflows hconsistent hover journal
    refine ⟨hrun, ?_⟩
    rw [call.perform_mirrors hconsistent journal, hrun]
    rfl
  · obtain ⟨pool', hreach, htotal, hstate⟩ := call.perform_returns h hfits journal
    refine ⟨pool', hreach, htotal, hstate, ?_⟩
    rw [call.perform_mirrors hconsistent journal]
    cases hrun : call.perform pool journal with
    | done reply final journal' =>
      rw [hrun] at hstate
      exact congrArg (Option.map packed) hstate
    | refused error final journal' =>
      rw [hrun] at hstate
      exact congrArg (Option.map packed) hstate
    | halted cause journal' =>
      rw [hrun] at hstate
      cases hstate

/-- In a pool of eight frames the first of which is taken, a request for 2 ^ 64 - 1 frames halts. -/
theorem halts_of_hugeRun :
    ∃ pool : FramePool, pool.Reachable ∧
      (Call.single (.markTaken 0)).perform (allFree 8) #[] = .done (.frame none) pool #[] ∧
      (Call.allocateRun (bitRange 64 - 1)).perform pool #[] = .halted .addOverflow #[] ∧
      (Call.allocateRun (bitRange 64 - 1)).performPacked pool.packed #[] =
        .halted .addOverflow #[] := by
  let pool : FramePool := (allFree 8).taking 0 1
  have hmark : markTaken 0 (allFree 8) #[] = .done () pool #[] := by
    rw [markTaken, Action.get_bind, isTaken_allFree]
    exact take_eq (consistent_allFree (by decide)) (by decide : 1 ≤ 8) #[]
  have hreach : pool.Reachable := .markTaken (.allFree (by decide)) hmark
  have hover : (Call.allocateRun (bitRange 64 - 1)).Overflows pool := by
    refine ⟨1, lowestFree_iff_isLeast.mp (by decide), by decide⟩
  have hconsistent := consistent_of_reachable hreach
  have hrun := Call.perform_of_overflows hconsistent hover #[]
  refine ⟨pool, hreach, ?_, hrun, ?_⟩
  · have hmarked : Request.perform (.markTaken 0) (allFree 8) #[] = .done none pool #[] :=
      Action.bind_of_done (Action.unrefused_of_done hmark)
    rw [Call.perform, Action.apply_map, hmarked]
  · rw [Call.perform_mirrors hconsistent _ #[], hrun]
    rfl

end FramePool

end KernelResources
