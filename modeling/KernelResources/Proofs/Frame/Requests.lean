import KernelResources.Proofs.Frame.Building

/-!
# Requests to a frame pool

How a pool can be built, and what a client asks of it, one frame at a time. Each request can be
performed on the bits of a pool and on its words.

* `Origin.exists_built`: either way of building a pool succeeds, and builds the words of the pool.
* `Request.perform_mirrors`: a request does on words what it does on bits.
-/

namespace KernelResources

namespace FramePool

variable {σ : Type} {pool : FramePool}

/-! ## Building a pool -/

/-- How a pool is built. -/
inductive Origin where
  /-- From a number of frames, all of them free. -/
  | allFree (total : Nat) (fits : total ≤ bitRange 40)
  /-- From a memory map and a reserved range. -/
  | ofMap (regions : List Region) (reserved : Nat × Nat)

namespace Origin

/-- The pool that is built. -/
def build : Origin → Total Unit FramePool
  | allFree total _ => return FramePool.allFree total
  | ofMap regions reserved => MemoryMap.framePool regions reserved

/-- The pool that is built, with its bits in words. -/
def buildPacked : Origin → Total Unit Bitmap
  | allFree total _ => return Bitmap.allFree total
  | ofMap regions reserved => Bitmap.ofMap regions reserved

theorem packed_build (origin : Origin) : packed <$> origin.build = origin.buildPacked := by
  cases origin with
  | allFree total fits => rw [build, buildPacked, map_pure, packed_allFree]
  | ofMap regions reserved => exact packed_ofMap regions reserved

/-- A pool can always be built, on bits and on words. -/
theorem exists_built (origin : Origin) (journal : Journal) : ∃ pool built,
    origin.build () journal = .done pool () built ∧
      origin.buildPacked () journal = .done pool.packed () built ∧ pool.Reachable := by
  have hbuilt : ∃ pool built, origin.build () journal = .done pool () built ∧ pool.Reachable := by
    cases origin with
    | allFree total fits => exact ⟨_, _, rfl, .allFree fits⟩
    | ofMap regions reserved =>
      obtain ⟨pool, -, built, hdone⟩ :=
        MemoryMap.framePool_eq regions reserved () journal
      exact ⟨pool, built, hdone, .ofMap hdone⟩
  obtain ⟨pool, built, hdone, hreach⟩ := hbuilt
  refine ⟨pool, built, hdone, ?_, hreach⟩
  rw [← packed_build, Action.apply_map, hdone]

end Origin

/-! ## Requests -/

/-- What a client asks of a pool, one frame at a time. -/
inductive Request where
  /-- A frame, or an error if there is none. -/
  | allocate
  /-- A frame, if there is one. -/
  | allocate?
  /-- To take a frame back, or an error if it cannot be taken back. -/
  | free (frame : Nat)
  /-- To take a frame back, if it can be taken back. -/
  | discard (frame : Nat)
  /-- To count a frame as taken. -/
  | markTaken (frame : Nat)
deriving DecidableEq, Repr

namespace Request

/-- What a pool does with a request. The value is the frame it hands out. -/
def perform : Request → Action MemoryError FramePool (Option Nat)
  | allocate => some <$> FramePool.allocate
  | allocate? => FramePool.allocate?.unrefused
  | free frame => do
    FramePool.free frame
    return none
  | discard frame => do
    (FramePool.discard frame).unrefused
    return none
  | markTaken frame => do
    (FramePool.markTaken frame).unrefused
    return none

/-- What a pool in words does with a request. -/
def performPacked : Request → Action MemoryError Bitmap (Option Nat)
  | allocate => some <$> Bitmap.allocate
  | allocate? => Bitmap.allocate?.unrefused
  | free frame => do
    Bitmap.free frame
    return none
  | discard frame => do
    (Bitmap.discard frame).unrefused
    return none
  | markTaken frame => do
    (Bitmap.markTaken frame).unrefused
    return none

/-- A request does on words what it does on bits. -/
theorem perform_mirrors (h : pool.Consistent) (request : Request) :
    Action.Mirrors packed request.performPacked request.perform pool := by
  cases request with
  | allocate => exact (allocate_mirrors h).map some
  | allocate? => exact (allocate?_mirrors h).mapError _
  | free frame => exact (free_mirrors h frame).bind fun _ _ _ _ _ => .pure none
  | discard frame =>
    exact ((discard_mirrors h frame).mapError _).bind fun _ _ _ _ _ => .pure none
  | markTaken frame =>
    exact ((markTaken_mirrors h frame).mapError _).bind fun _ _ _ _ _ => .pure none

end Request

/-! ## Sequences of requests -/

/-- A client's answer: the frame that was handed out, or the error. -/
abbrev Answer : Type := Except MemoryError (Option Nat)

/-- A sequence of requests, each performed as `perform` says. A refusal does not end it. -/
def performAll (perform : Request → Action MemoryError σ (Option Nat)) :
    List Request → Total σ (List Answer)
  | [] => return []
  | request :: rest => do
    let answer ← (perform request).attempt
    let answers ← performAll perform rest
    return answer :: answers

end FramePool

end KernelResources
