import KernelResources.Proofs.Frame.Accounting
import KernelResources.Proofs.Frame.Words
import KernelResources.Proofs.Mirrors

/-!
# Packing a frame pool into words

`FramePool.packed` puts the bits of a pool into words; the bits that stand for no frame are set. The
operations on words do to the packed pool what the operations of the pool do to the pool itself.

* `lowestFree_packed`: the search through masked words finds the frame that the pool finds.
* `setBit_packed`, `clearBit_packed`: a mask changes the bit of one frame, and the counter with it.
* `allocate_mirrors` and its companions: the operations on words mirror those of the pool.
-/

namespace KernelResources

namespace FramePool

variable {ε : Type} {pool pool' : FramePool} {frame number bit : Nat}

/-- The word of 64 frames. -/
def word (pool : FramePool) (number : Nat) : BitVec 64 :=
  (BitVec.ofBoolListLE ((List.range 64).map fun bit => pool.isTaken (64 * number + bit))).cast
    (by simp)

/-- The pool with its bits in words. -/
def packed (pool : FramePool) : Bitmap where
  total := pool.total
  freeCount := pool.freeCount
  words := (List.range pool.words).map pool.word

theorem getLsbD_word (hbit : bit < 64) :
    (pool.word number).getLsbD bit = pool.isTaken (64 * number + bit) := by
  rw [word, BitVec.getLsbD_cast, BitVec.getLsbD_ofBoolListLE]
  simp [hbit]

@[simp] theorem total_packed : pool.packed.total = pool.total := rfl

@[simp] theorem freeCount_packed : pool.packed.freeCount = pool.freeCount := rfl

@[simp] theorem length_words_packed : pool.packed.words.length = pool.words := by
  simp [packed]

theorem getElem?_words_packed :
    pool.packed.words[number]? = if number < pool.words then some (pool.word number) else none := by
  rw [packed, List.getElem?_map]
  by_cases h : number < pool.words <;> simp [h]

theorem getLsbD_of_words_packed {word : BitVec 64} (h : pool.packed.words[number]? = some word)
    (hbit : bit < 64) : word.getLsbD bit = pool.isTaken (64 * number + bit) := by
  rw [getElem?_words_packed] at h
  split at h
  · cases h
    exact getLsbD_word hbit
  · cases h

/-- Every frame has its bit in a word. -/
theorem div_lt_words (h : frame < pool.total) : frame / 64 < pool.words := by
  simp only [words, ceilDiv, wordBits]
  omega

/-- The words hold a bit for every frame. -/
theorem total_le_words (pool : FramePool) : pool.total ≤ 64 * pool.words := by
  simp only [words, ceilDiv, wordBits]
  omega

/-- The words of a packed pool are known by their bits. -/
theorem words_packed_eq {words : List (BitVec 64)} (hlength : words.length = pool.words)
    (hbits : ∀ number word, words[number]? = some word → ∀ bit < 64,
      word.getLsbD bit = pool.isTaken (64 * number + bit)) : words = pool.packed.words := by
  refine List.ext_getElem? fun number => ?_
  rw [getElem?_words_packed]
  by_cases hnumber : number < pool.words
  · have hword := List.getElem?_eq_getElem (hlength ▸ hnumber)
    rw [if_pos hnumber, hword, Option.some_inj]
    refine BitVec.eq_of_getLsbD_eq fun bit hbit => ?_
    rw [hbits number _ hword bit hbit, getLsbD_word hbit]
  · rw [if_neg hnumber, List.getElem?_eq_none_iff, hlength]
    exact Nat.le_of_not_lt hnumber

/-- Pools of which the same frames are taken are packed into the same words. -/
theorem packed_congr (htotal : pool.total = pool'.total) (hcount : pool.freeCount = pool'.freeCount)
    (hbits : ∀ frame, pool.isTaken frame = pool'.isTaken frame) : pool.packed = pool'.packed := by
  have hlength : pool.packed.words.length = pool'.words := by
    rw [length_words_packed, words, words, htotal]
  have hwords : pool.packed.words = pool'.packed.words :=
    words_packed_eq hlength fun number word hword bit hbit => by
      rw [getLsbD_of_words_packed hword hbit, hbits]
  exact Bitmap.ext htotal hcount hwords

/-! ## The search -/

/-- The first word of a search and the words behind it, with the frames below the start masked. -/
private theorem getLsbD_masked {start index : Nat} {word : BitVec 64}
    (h : ((pool.word (start / 64) ||| ~~~(BitVec.allOnes 64 <<< (start % 64))) ::
      pool.packed.words.drop (start / 64 + 1))[index]? = some word) (hbit : bit < 64) :
    word.getLsbD bit = (decide (64 * (start / 64 + index) + bit < start) ||
      pool.isTaken (64 * (start / 64 + index) + bit)) := by
  cases index with
  | zero =>
    cases h
    have hmask : decide (bit < start % 64) = decide (64 * (start / 64) + bit < start) :=
      decide_eq_decide.mpr (by omega)
    rw [BitVec.getLsbD_or, getLsbD_word hbit, BitVec.getLsbD_not, BitVec.getLsbD_shiftLeft,
      BitVec.getLsbD_allOnes, Nat.add_zero, ← hmask, Bool.or_comm]
    have hrest : bit - start % 64 < 64 := by omega
    simp [hbit, hrest]
  | succ index =>
    rw [List.getElem?_cons_succ, List.getElem?_drop] at h
    have hplace : start / 64 + 1 + index = start / 64 + (index + 1) := by omega
    have hpast : ¬64 * (start / 64 + (index + 1)) + bit < start := by omega
    rw [getLsbD_of_words_packed h hbit, hplace, decide_eq_false hpast, Bool.false_or]

/-- The search through words finds the frame that the search through bits finds. -/
theorem lowestFree_packed (start : Nat) : pool.packed.lowestFree start = pool.lowestFree start := by
  rw [Bitmap.lowestFree, total_packed]
  by_cases hstart : pool.total ≤ start
  · have hnone : pool.lowestFree start = none :=
      (Store.first?_eq_none_iff _).mpr fun frame hle hlt => by omega
    rw [if_pos hstart, hnone]
  have hlt := div_lt_words (Nat.lt_of_not_le hstart)
  have hdrop : pool.packed.words.drop (start / 64) =
      pool.word (start / 64) :: pool.packed.words.drop (start / 64 + 1) := by
    rw [List.drop_eq_getElem?_toList_append, getElem?_words_packed, if_pos hlt]
    rfl
  have hlength : ((pool.word (start / 64) ||| ~~~(BitVec.allOnes 64 <<< (start % 64))) ::
      pool.packed.words.drop (start / 64 + 1)).length = pool.words - start / 64 := by
    rw [List.length_cons, List.length_drop, length_words_packed]
    omega
  rw [if_neg hstart, hdrop]
  simp only
  -- Behind the mask, the frames below the start count as taken.
  rw [Bitmap.lowestZero?_eq (fun frame => decide (frame < start) || pool.isTaken frame)
    fun index word h bit hbit => getLsbD_masked h hbit, hlength]
  ext frame
  rw [Option.filter_eq_some_iff, List.find?_range'_eq_some, lowestFree_eq_some_iff,
    List.mem_range'_1]
  have htotal := total_le_words pool
  simp only [Bool.not_or, Bool.and_eq_true, Bool.and_eq_false_iff, Bool.not_eq_true',
    Bool.not_eq_false', decide_eq_false_iff_not, decide_eq_true_eq]
  constructor
  · rintro ⟨⟨⟨hle, hfree⟩, -, hbefore⟩, hframe⟩
    refine ⟨Nat.le_of_not_lt hle, hframe, hfree, fun other hother hlt => ?_⟩
    exact (hbefore other (by omega) hlt).resolve_left (Nat.not_lt_of_le hother)
  · rintro ⟨hle, hframe, hfree, hbefore⟩
    refine ⟨⟨⟨Nat.not_lt_of_le hle, hfree⟩, by omega, fun other _ hlt => ?_⟩, hframe⟩
    exact (Nat.lt_or_ge other start).imp_right fun hother => hbefore other hother hlt

/-! ## Bits -/

section Bits

variable (journal : Journal)

theorem wordAt_packed (h : frame < pool.total) :
    (Bitmap.wordAt (frame / 64) : Action ε Bitmap _) pool.packed journal =
      .done (pool.word (frame / 64)) pool.packed journal := by
  rw [Bitmap.wordAt, Action.get_bind, getElem?_words_packed, if_pos (div_lt_words h)]
  rfl

/-- A mask reads the bit of a frame. -/
theorem isSet_packed (h : frame < pool.total) :
    (Bitmap.isSet frame : Action ε Bitmap _) pool.packed journal =
      .done (pool.isTaken frame) pool.packed journal := by
  have hbit : frame % 64 < 64 := Nat.mod_lt _ (by decide)
  rw [Bitmap.isSet, Action.bind_of_done (wordAt_packed journal h), Action.apply_pure,
    Bitmap.and_mask_ne_zero hbit, getLsbD_word hbit, Nat.div_add_mod]

/-- A word with one bit changed holds the bits of a pool with one frame changed. -/
private theorem set_words_eq {word : BitVec 64} (hwords : pool'.words = pool.words)
    (hword : ∀ bit < 64, word.getLsbD bit = pool'.isTaken (64 * (frame / 64) + bit))
    (hothers : ∀ other, other ≠ frame → pool'.isTaken other = pool.isTaken other) :
    pool.packed.words.set (frame / 64) word = pool'.packed.words := by
  refine words_packed_eq (by rw [List.length_set, length_words_packed, hwords])
    fun number word' hword' bit hbit => ?_
  rw [List.getElem?_set] at hword'
  split at hword'
  next hnumber =>
    split at hword'
    · cases hword'
      rw [hword bit hbit, hnumber]
    · cases hword'
  next hnumber =>
    rw [getLsbD_of_words_packed hword' hbit, hothers _ (by omega)]

/-- The mask of a frame has the bit that stands for the frame in its word. -/
private theorem getLsbD_mask :
    (1#64 <<< (frame % 64)).getLsbD bit =
      decide (frame ≤ 64 * (frame / 64) + bit ∧ 64 * (frame / 64) + bit < frame + 1) := by
  rw [← BitVec.twoPow_eq, BitVec.getLsbD_twoPow, decide_eq_true (Nat.mod_lt frame (by decide)),
    Bool.true_and]
  exact decide_eq_decide.mpr (by omega)

private theorem count_succ (test : Bool → Bool) :
    pool.taken.count test frame (frame + 1) = if test (pool.taken.read frame) then 1 else 0 := by
  rw [Store.count_eq, Nat.add_sub_cancel_left, List.range'_one, List.countP_singleton]

section Consistent

variable (h : pool.Consistent)
include h

/-- Setting the bit of a free frame takes the frame. -/
theorem setBit_packed (hfree : pool.isTaken frame = false) :
    (Bitmap.setBit frame : Action ε Bitmap _) pool.packed journal =
      .done () (pool.taking frame (frame + 1)).packed journal := by
  have hlt := lt_total_of_isTaken_eq_false hfree
  have hone : pool.taken.count (!·) frame (frame + 1) = 1 := by
    rw [count_succ, ← isTaken_eq_read hlt, hfree]
    rfl
  have hcount : 1 ≤ pool.freeCount := hone ▸ count_le_freeCount h hlt
  rw [Bitmap.setBit, Action.bind_of_done (wordAt_packed journal hlt), Action.get_bind,
    freeCount_packed, Action.subtract_eq_pure hcount, pure_bind, Action.apply_set]
  congr 1
  refine Bitmap.ext rfl ?_ (set_words_eq rfl (fun bit hbit => ?_) fun other hother => ?_)
  · rw [freeCount_packed, taking, hone]
  · rw [BitVec.getLsbD_or, getLsbD_word hbit, getLsbD_mask, isTaken_taking, Bool.or_comm]
  · rw [isTaken_taking, decide_eq_false (by omega), Bool.false_or]

/-- Clearing the bit of a taken frame gives the frame back. -/
theorem clearBit_packed (hlt : frame < pool.total) (htaken : pool.isTaken frame = true) :
    (Bitmap.clearBit frame : Action ε Bitmap _) pool.packed journal =
      .done () (pool.releasing frame (frame + 1)).packed journal := by
  have hone : pool.taken.count id frame (frame + 1) = 1 := by
    rw [count_succ, ← isTaken_eq_read hlt, htaken]
    rfl
  have hcount : pool.freeCount + 1 < bitRange 64 := by
    have hle : pool.freeCount + 1 ≤ pool.total := hone ▸ freeCount_add_count_le h hlt frame
    have htotal := h.total_le
    have hwidth : bitRange 40 < bitRange 64 := by decide
    omega
  rw [Bitmap.clearBit, Action.bind_of_done (wordAt_packed journal hlt), Action.get_bind,
    freeCount_packed, Action.add_eq_pure hcount, pure_bind, Action.apply_set]
  congr 1
  refine Bitmap.ext rfl ?_ (set_words_eq rfl (fun bit hbit => ?_) fun other hother => ?_)
  · rw [freeCount_packed, releasing, hone]
  · rw [BitVec.getLsbD_and, BitVec.getLsbD_not, getLsbD_word hbit, getLsbD_mask,
      isTaken_releasing hlt, decide_eq_true hbit, Bool.true_and, Bool.and_comm]
  · rw [isTaken_releasing hlt, decide_eq_false (by omega), Bool.not_false, Bool.true_and]

end Consistent

end Bits

/-! ## Operations -/

/-- On words, whether a frame is taken reads off as it does on bits. -/
theorem isTaken_packed (frame : Nat) (journal : Journal) :
    (Bitmap.isTaken frame : Action ε Bitmap _) pool.packed journal =
      .done (pool.isTaken frame) pool.packed journal := by
  rw [Bitmap.isTaken, Action.get_bind, total_packed]
  by_cases hlt : frame < pool.total
  · rw [if_neg (Nat.not_le_of_lt hlt), isSet_packed journal hlt]
  · have hle := Nat.le_of_not_lt hlt
    rw [if_pos hle, isTaken, decide_eq_true hle, Bool.true_or]
    rfl

section Operations

variable (h : pool.Consistent)
include h

theorem allocate_mirrors :
    Action.Mirrors packed Bitmap.allocate FramePool.allocate pool := by
  intro journal
  rw [Bitmap.allocate, Action.get_bind, lowestFree_packed]
  cases hfree : pool.lowestFree 0 with
  | none =>
    rw [allocate_of_none journal hfree]
    rfl
  | some frame =>
    obtain ⟨-, hlt, hmark, -⟩ := lowestFree_eq_some_iff.mp hfree
    rw [allocate_of_some h journal hfree, Action.ofOption_some, pure_bind,
      Action.bind_of_done (setBit_packed journal h hmark), ofIndex_eq h hlt]
    rfl

theorem allocate?_mirrors :
    Action.Mirrors packed Bitmap.allocate? FramePool.allocate? pool := by
  refine (allocate_mirrors h).attempt.bind fun answer _ _ _ _ => ?_
  cases answer <;> exact .pure _

theorem free_mirrors (frame : Nat) :
    Action.Mirrors packed (Bitmap.free frame) (FramePool.free frame) pool := by
  intro journal
  rw [Bitmap.free, Action.get_bind, total_packed]
  by_cases htaken : frame ∈ pool.takenFrames
  · obtain ⟨hlt, hmark⟩ := mem_takenFrames.mp htaken
    rw [free_eq h journal htaken, if_neg (Nat.not_le_of_lt hlt),
      Action.bind_of_done (isSet_packed journal hlt), hmark, if_pos rfl,
      clearBit_packed journal h hlt hmark]
    rfl
  · rw [free_of_not_mem journal htaken]
    by_cases hlt : frame < pool.total
    · have hmark : pool.isTaken frame = false :=
        Bool.eq_false_iff.mpr fun hmark => htaken (mem_takenFrames.mpr ⟨hlt, hmark⟩)
      rw [if_neg (Nat.not_le_of_lt hlt), Action.bind_of_done (isSet_packed journal hlt), hmark]
      rfl
    · rw [if_pos (Nat.le_of_not_lt hlt)]
      rfl

theorem discard_mirrors (frame : Nat) :
    Action.Mirrors packed (Bitmap.discard frame) (FramePool.discard frame) pool :=
  (free_mirrors h frame).attempt.bind fun _ _ _ _ _ => .pure _

theorem markTaken_mirrors (frame : Nat) :
    Action.Mirrors packed (Bitmap.markTaken frame) (FramePool.markTaken frame) pool := by
  intro journal
  rw [Bitmap.markTaken, Action.bind_of_done (isTaken_packed frame journal), FramePool.markTaken,
    Action.get_bind]
  cases hmark : pool.isTaken frame with
  | true => rfl
  | false =>
    have hlt := lt_total_of_isTaken_eq_false hmark
    rw [if_neg Bool.false_ne_true, if_neg Bool.false_ne_true, setBit_packed journal h hmark,
      take_eq h hlt journal]
    rfl

end Operations

end FramePool

end KernelResources
