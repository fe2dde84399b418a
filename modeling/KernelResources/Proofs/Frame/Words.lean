import KernelResources.Frame.MemoryMap

/-!
# Frames in words

A frame pool keeps its bits in words of 64, the lowest frame of a word in its lowest bit. `Bitmap`
is the pool in that form, with its operations written for words: a bit is tested and changed with
a mask, the search for a free frame skips full words and masks the first one, and the bits of the
last word that stand for no frame are sealed. Ranges are gone through frame by frame.

Every access is checked against the number of words and every change of the counter against its
range, and the kernel halts if one of these checks fails.
-/

namespace KernelResources

/-- A frame pool with its bits in words. -/
@[ext]
structure Bitmap where
  /-- Number of frames, free or taken. -/
  total : Nat
  /-- Number of free frames. -/
  freeCount : Nat
  /-- The bits of the frames; a bit that is set stands for a taken frame. -/
  words : List (BitVec 64)

namespace Bitmap

variable {ε σ : Type}

/-! ## Words -/

/-- The number of ones below the lowest zero of a word. -/
def trailingOnes (word : BitVec 64) : Nat := (~~~word).ctz.toNat

/-- The place of the lowest zero in a list of words that begins with word `number`. -/
def lowestZero? : (number : Nat) → List (BitVec 64) → Option Nat
  | _, [] => none
  | number, word :: rest =>
    if word = .allOnes 64 then lowestZero? (number + 1) rest
    else some (64 * number + trailingOnes word)

/-- The lowest free frame at or above `start`. The bits of lower frames in the first word count as
set, and a zero past the end of memory stands for no frame. -/
def lowestFree (bitmap : Bitmap) (start : Nat) : Option Nat :=
  if bitmap.total ≤ start then none
  else
    match bitmap.words.drop (start / 64) with
    | [] => none
    | word :: rest =>
      let masked := word ||| ~~~(BitVec.allOnes 64 <<< (start % 64))
      (lowestZero? (start / 64) (masked :: rest)).filter (· < bitmap.total)

/-- The word with a given number. -/
def wordAt (number : Nat) : Action ε Bitmap (BitVec 64) := do
  let bitmap ← get
  match bitmap.words[number]? with
  | some word => return word
  | none => Action.halt (.indexOutOfBounds bitmap.words.length number)

/-! ## Bits -/

/-- Whether the bit of a frame is set. -/
def isSet (frame : Nat) : Action ε Bitmap Bool := do
  let word ← wordAt (frame / 64)
  return (word &&& 1#64 <<< (frame % 64)) != 0#64

/-- Sets the bit of a frame, which must not be set. -/
def setBit (frame : Nat) : Action ε Bitmap Unit := do
  let word ← wordAt (frame / 64)
  let bitmap ← get
  let freeCount ← Action.subtract bitmap.freeCount 1
  set { bitmap with
    freeCount
    words := bitmap.words.set (frame / 64) (word ||| 1#64 <<< (frame % 64)) }

/-- Clears the bit of a frame, which must be set. -/
def clearBit (frame : Nat) : Action ε Bitmap Unit := do
  let word ← wordAt (frame / 64)
  let bitmap ← get
  let freeCount ← Action.add 64 bitmap.freeCount 1
  set { bitmap with
    freeCount
    words := bitmap.words.set (frame / 64) (word &&& ~~~(1#64 <<< (frame % 64))) }

/-! ## Operations -/

/-- Whether a frame is taken; a frame past the end of memory is. -/
def isTaken (frame : Nat) : Action ε Bitmap Bool := do
  if (← get).total ≤ frame then return true else isSet frame

/-- Hands out the lowest free frame. -/
def allocate : Action MemoryError Bitmap Nat := do
  let frame ← Action.ofOption .outOfMemory ((← get).lowestFree 0)
  setBit frame
  Frame.ofIndex frame

/-- Hands out the lowest free frame, if there is one. -/
def allocate? : Total Bitmap (Option Nat) := do
  match ← allocate.attempt with
  | .ok frame => return some frame
  | .error _ => return none

/-- The first of some frames whose bit is set. -/
def obstacle? : List Nat → Action ε Bitmap (Option Nat)
  | [] => return none
  | frame :: rest => do
    if ← isSet frame then return some frame else obstacle? rest

/-- Looks for a run of `count` free frames at or above `start`, and goes on behind the first
obstacle if there is one. A search that is not over after `rounds` rounds counts as endless. -/
def allocateRunFrom (count : Nat) : (rounds start : Nat) → Action MemoryError Bitmap Nat
  | 0, _ => Action.halt .endlessWalk
  | rounds + 1, start => do
    let bitmap ← get
    let first ← Action.ofOption .outOfMemory (bitmap.lowestFree start)
    let last ← Action.add 64 first count
    Action.refuseIf (bitmap.total < last) .outOfMemory
    match ← obstacle? (List.range' first (last - first)) with
    | some obstacle => allocateRunFrom count rounds (← Action.add 64 obstacle 1)
    | none =>
      (List.range' first (last - first)).forM setBit
      Frame.ofIndex first

/-- Hands out the lowest run of `count` free frames and returns the first of them. -/
def allocateRun (count : Nat) : Action MemoryError Bitmap Nat := do
  Action.refuseIf (count = 0) .invalidOperation
  allocateRunFrom count ((← get).total + 1) 0

/-- Reports a frame that cannot be given back, and refuses it. -/
def refuseStray (frame : Nat) : Action MemoryError Bitmap Unit := do
  Action.note (.strayFrame (Frame.address frame))
  throw .invalidOperation

/-- Gives a frame back. A frame that is free already, or does not exist, is reported and refused. -/
def free (frame : Nat) : Action MemoryError Bitmap Unit := do
  if (← get).total ≤ frame then refuseStray frame
  else if ← isSet frame then clearBit frame
  else refuseStray frame

/-- Gives a frame back; one that cannot be given back is only reported. -/
def discard (frame : Nat) : Total Bitmap Unit := do
  let _ ← (free frame).attempt

/-- Takes one frame, unless it is taken already. -/
def markTaken (frame : Nat) : Total Bitmap Unit := do
  if ← isTaken frame then pure () else setBit frame

/-- Gives back one frame, unless its bit is clear already. -/
def markFree (frame : Nat) : Total Bitmap Unit := do
  if ← isSet frame then clearBit frame else pure ()

/-! ## Construction -/

/-- Sets the bits of the last word that stand for no frame. -/
def sealTail (bitmap : Bitmap) : Bitmap :=
  { bitmap with
    words :=
      if bitmap.total % 64 = 0 then bitmap.words
      else bitmap.words.modify (bitmap.words.length - 1)
        (· ||| BitVec.allOnes 64 <<< (bitmap.total % 64)) }

/-- A pool of `total` free frames. -/
def allFree (total : Nat) : Bitmap :=
  sealTail { total, freeCount := total, words := List.replicate (ceilDiv total 64) 0#64 }

/-- A pool of `total` frames that are all taken. -/
def allTaken (total : Nat) : Bitmap :=
  { total, freeCount := 0, words := List.replicate (ceilDiv total 64) (.allOnes 64) }

/-- Gives back the whole frames inside `[first, last)`, one by one. -/
def releaseRange (first last : Nat) : Total Bitmap Unit := do
  let first := ceilDiv first Frame.size
  let last := min (last / Frame.size) (← get).total
  (List.range' first (last - first)).forM markFree

/-- Takes every frame that meets `[first, last)`, one by one. -/
def reserveRange (first last : Nat) : Total Bitmap Unit := do
  let first := first / Frame.size
  let last := min (ceilDiv last Frame.size) (← get).total
  (List.range' first (last - first)).forM markTaken

/-- Builds the frame pool of a memory map: everything starts taken, usable ranges are released,
and then the reserved range is taken again. -/
def ofMap (regions : List Region) (reserved : Nat × Nat) : Total σ Bitmap := do
  let ranges := MemoryMap.usable regions
  let top := MemoryMap.top ranges
  let bitmap := allTaken (top / Frame.size)
  Action.note (.memoryTop top bitmap.total bitmap.words.length)
  let (_, bitmap) ← Action.running bitmap do
    ranges.forM fun range => releaseRange range.1 range.2
    match MemoryMap.clip? reserved.1 reserved.2 with
    | some range => reserveRange range.1 range.2
    | none => pure ()
  return bitmap

/-! ## What the words say -/

variable {word : BitVec 64} {bit : Nat}

theorem complement_ne_zero (h : word ≠ .allOnes 64) : ~~~word ≠ 0#64 := fun hzero =>
  h ((BitVec.not_eq_comm.mp hzero).trans BitVec.not_zero)

theorem trailingOnes_lt (h : word ≠ .allOnes 64) : trailingOnes word < 64 := by
  have hlt := BitVec.ctz_lt_iff_ne_zero.mpr (complement_ne_zero h)
  simpa [trailingOnes, BitVec.lt_def] using hlt

theorem getLsbD_trailingOnes (h : word ≠ .allOnes 64) :
    word.getLsbD (trailingOnes word) = false := by
  have hbit := BitVec.getLsbD_true_ctz_of_ne_zero (complement_ne_zero h)
  rw [BitVec.getLsbD_not, Bool.and_eq_true, Bool.not_eq_true'] at hbit
  exact hbit.2

theorem getLsbD_of_lt_trailingOnes (h : word ≠ .allOnes 64) (hbit : bit < trailingOnes word) :
    word.getLsbD bit = true := by
  have hone := BitVec.getLsbD_false_of_lt_ctz hbit
  have hlt : bit < 64 := Nat.lt_trans hbit (trailingOnes_lt h)
  simpa [BitVec.getLsbD_not, hlt] using hone

theorem and_mask_ne_zero (hbit : bit < 64) :
    (word &&& 1#64 <<< bit != 0#64) = word.getLsbD bit := by
  have hmask : BitVec.twoPow 64 bit ≠ 0#64 := by
    intro hzero
    have hone := congrArg (fun word => word.getLsbD bit) hzero
    simp [hbit] at hone
  rw [← BitVec.twoPow_eq, BitVec.and_twoPow]
  cases word.getLsbD bit <;> simp [hmask]

/-- The search in a list of words finds the lowest place that is not taken. -/
theorem lowestZero?_eq (taken : Nat → Bool) {number : Nat} {words : List (BitVec 64)}
    (h : ∀ index word, words[index]? = some word →
      ∀ bit < 64, word.getLsbD bit = taken (64 * (number + index) + bit)) :
    lowestZero? number words =
      (List.range' (64 * number) (64 * words.length)).find? fun frame => !taken frame := by
  induction words generalizing number with
  | nil => rfl
  | cons word rest ih =>
    have hrest := @ih (number + 1) fun index word hword bit hbit => by
      rw [h (index + 1) word hword bit hbit]
      congr 1
      omega
    have hsplit : List.range' (64 * number) (64 * (word :: rest).length) =
        List.range' (64 * number) 64 ++ List.range' (64 * (number + 1)) (64 * rest.length) := by
      rw [List.length_cons, Nat.mul_succ, Nat.mul_succ, Nat.add_comm _ 64, List.range'_append_1]
    have hword (bit : Nat) (hbit : bit < 64) : word.getLsbD bit = taken (64 * number + bit) :=
      h 0 word rfl bit hbit
    rw [lowestZero?, hrest, hsplit, List.find?_append]
    by_cases hfull : word = .allOnes 64
    · -- Nothing is free in a full word.
      have hnone : (List.range' (64 * number) 64).find? (fun frame => !taken frame) = none := by
        refine List.find?_eq_none.mpr fun frame hframe => ?_
        rw [List.mem_range'_1] at hframe
        obtain ⟨bit, rfl⟩ := Nat.exists_eq_add_of_le hframe.1
        have hbit : bit < 64 := by omega
        rw [← hword bit hbit, hfull, BitVec.getLsbD_allOnes, decide_eq_true hbit]
        decide
      rw [if_pos hfull, hnone, Option.none_or]
    · have hlt := trailingOnes_lt hfull
      have hfound : (List.range' (64 * number) 64).find? (fun frame => !taken frame) =
          some (64 * number + trailingOnes word) := by
        refine List.find?_range'_eq_some.mpr ⟨?_, ?_, fun frame hle hbefore => ?_⟩
        · rw [← hword _ hlt, getLsbD_trailingOnes hfull]
          rfl
        · rw [List.mem_range'_1]
          omega
        · obtain ⟨bit, rfl⟩ := Nat.exists_eq_add_of_le hle
          have hbit := Nat.lt_of_add_lt_add_left hbefore
          rw [← hword bit (Nat.lt_trans hbit hlt), getLsbD_of_lt_trailingOnes hfull hbit]
          rfl
      rw [if_neg hfull, hfound, Option.some_or]

/-! ## What is sealed -/

variable {total number : Nat}

theorem words_allFree (total : Nat) : (allFree total).words =
    if total % 64 = 0 then List.replicate (ceilDiv total 64) 0#64
    else (List.replicate (ceilDiv total 64) 0#64).modify (ceilDiv total 64 - 1)
      (· ||| BitVec.allOnes 64 <<< (total % 64)) := by
  simp only [allFree, sealTail, List.length_replicate]

@[simp] theorem length_words_allFree : (allFree total).words.length = ceilDiv total 64 := by
  rw [words_allFree]
  split
  · exact List.length_replicate
  · rw [List.length_modify, List.length_replicate]

/-- In a pool that is all free, exactly the bits that stand for no frame are set. -/
theorem getLsbD_words_allFree (h : (allFree total).words[number]? = some word) (hbit : bit < 64) :
    word.getLsbD bit = decide (total ≤ 64 * number + bit) := by
  have hnumber : number < ceilDiv total 64 := by
    rw [← length_words_allFree]
    exact (List.getElem?_eq_some_iff.mp h).1
  rw [words_allFree] at h
  split at h
  next hwhole =>
    -- The last word is used up, so no bit is left to be sealed.
    obtain rfl := List.eq_of_mem_replicate (List.mem_of_getElem? h)
    rw [ceilDiv] at hnumber
    rw [BitVec.getLsbD_zero, decide_eq_false (by omega)]
  next hrest =>
    rw [List.getElem?_modify, List.getElem?_replicate, if_pos hnumber, Option.map_eq_map,
      Option.map_some, Option.some_inj] at h
    rw [← h]
    rw [ceilDiv] at hnumber ⊢
    by_cases hlast : (total + (64 - 1)) / 64 - 1 = number
    · have hplace : decide (total ≤ 64 * number + bit) = !decide (bit < total % 64) := by
        rw [← decide_not]
        exact decide_eq_decide.mpr (by omega)
      have hwithin : bit - total % 64 < 64 := by omega
      rw [if_pos hlast, hplace, BitVec.zero_or, BitVec.getLsbD_shiftLeft, decide_eq_true hbit,
        BitVec.getLsbD_allOnes, decide_eq_true hwithin, Bool.and_true, Bool.true_and]
    · rw [if_neg hlast, BitVec.getLsbD_zero, decide_eq_false (by omega)]

end Bitmap

end KernelResources
