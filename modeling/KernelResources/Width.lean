/-!
# Widths

How many numbers a given number of bits can hold. `bitRange_succ` is the recursion that doubles a
range with every bit, and the bits of a number say in which half of a range it lies; the widths
that the machine has are given as numbers.
-/

namespace KernelResources

/-- The number of values of `width` bits. -/
def bitRange (width : Nat) : Nat := 1 <<< width

@[simp] theorem bitRange_zero : bitRange 0 = 1 := rfl

theorem bitRange_succ (width : Nat) : bitRange (width + 1) = bitRange width + bitRange width := by
  rw [bitRange, Nat.shiftLeft_succ, bitRange]
  omega

theorem bitRange_add (width width' : Nat) :
    bitRange (width + width') = bitRange width * bitRange width' := by
  induction width' with
  | zero => rw [Nat.add_zero, bitRange_zero, Nat.mul_one]
  | succ width' ih => rw [← Nat.add_assoc, bitRange_succ, bitRange_succ, ih, Nat.mul_add]

theorem bitRange_pos (width : Nat) : 0 < bitRange width := by
  induction width with
  | zero => exact Nat.one_pos
  | succ width ih =>
    rw [bitRange_succ]
    omega

theorem bitRange_le {width width' : Nat} (h : width ≤ width') :
    bitRange width ≤ bitRange width' := by
  induction h with
  | refl => exact Nat.le_refl _
  | step _ ih =>
    rw [bitRange_succ]
    omega

/-- A number fits into as many bits as its logarithm says. -/
theorem lt_bitRange_log2 (n : Nat) : n < bitRange (n.log2 + 1) := by
  rw [bitRange, Nat.one_shiftLeft]
  exact Nat.lt_log2_self

/-- Dropping the lower bits of a number divides it. -/
theorem shiftRight_eq_div (n width : Nat) : n >>> width = n / bitRange width := by
  rw [bitRange, Nat.one_shiftLeft, Nat.shiftRight_eq_div_pow]

/-- A number fits into `width` bits if nothing is left of it above them. -/
theorem shiftRight_eq_zero_iff {n width : Nat} : n >>> width = 0 ↔ n < bitRange width := by
  rw [shiftRight_eq_div, Nat.div_eq_zero_iff_lt (bitRange_pos width)]

/-- The highest bit of a number is zero in the lower half of its range. -/
theorem testBit_of_lt_bitRange {n width : Nat} (h : n < bitRange width) :
    n.testBit width = false := by
  rw [bitRange, Nat.one_shiftLeft] at h
  exact Nat.testBit_lt_two_pow h

/-- The highest bit of a number is one in the upper half of its range. -/
theorem testBit_of_bitRange_le {n width : Nat} (h : bitRange width ≤ n)
    (hlt : n < bitRange (width + 1)) : n.testBit width = true := by
  have hrest : n - bitRange width < bitRange width := by
    rw [bitRange_succ] at hlt
    omega
  have hzero := testBit_of_lt_bitRange hrest
  obtain ⟨rest, rfl⟩ := Nat.exists_eq_add_of_le h
  rw [Nat.add_sub_cancel_left] at hzero
  rw [bitRange, Nat.one_shiftLeft, Nat.testBit_two_pow_add_eq, hzero]
  rfl

/-- The lower bits of a number are the same in both halves of a range. -/
theorem testBit_sub_bitRange {n width bit : Nat} (h : bitRange width ≤ n) (hbit : bit < width) :
    (n - bitRange width).testBit bit = n.testBit bit := by
  obtain ⟨rest, rfl⟩ := Nat.exists_eq_add_of_le h
  rw [Nat.add_sub_cancel_left, bitRange, Nat.one_shiftLeft, Nat.testBit_two_pow_add_gt hbit]

/-- The lower bits of a number depend on its remainder only. -/
theorem testBit_eq_of_mod_eq {n n' width bit : Nat} (h : n % bitRange width = n' % bitRange width)
    (hbit : bit < width) : n.testBit bit = n'.testBit bit := by
  rw [bitRange, Nat.one_shiftLeft] at h
  have hlow := congrArg (Nat.testBit · bit) h
  simpa [Nat.testBit_mod_two_pow, hbit] using hlow

/-- Two numbers agree in one bit more if that bit and the lower ones agree. -/
theorem mod_bitRange_succ_eq_iff {n n' width : Nat} :
    n % bitRange (width + 1) = n' % bitRange (width + 1) ↔
      n.testBit width = n'.testBit width ∧ n % bitRange width = n' % bitRange width := by
  have hstep (n : Nat) :
      n % bitRange (width + 1) =
        n % bitRange width + if n.testBit width then bitRange width else 0 := by
    rw [bitRange_succ, ← Nat.mul_two, Nat.mod_mul, Nat.testBit_eq_decide_div_mod_eq,
      ← Nat.one_shiftLeft, ← bitRange]
    rcases Nat.mod_two_eq_zero_or_one (n / bitRange width) with h | h <;> simp [h]
  have hlt (n : Nat) : n % bitRange width < bitRange width := Nat.mod_lt _ (bitRange_pos width)
  have hn := hlt n
  have hn' := hlt n'
  rw [hstep, hstep]
  cases n.testBit width <;> cases n'.testBit width <;> simp <;> omega

/-- One more byte makes a range 256 times as large. -/
theorem bitRange_bytes_succ (length : Nat) :
    bitRange (8 * (length + 1)) = 256 * bitRange (8 * length) := by
  show bitRange (8 * length + 1 + 1 + 1 + 1 + 1 + 1 + 1 + 1) = _
  simp only [bitRange_succ]
  omega

theorem bitRange_8 : bitRange 8 = 0x100 := rfl

theorem bitRange_32 : bitRange 32 = 0x100000000 := rfl

theorem bitRange_52 : bitRange 52 = 0x10000000000000 := rfl

theorem bitRange_64 : bitRange 64 = 0x10000000000000000 := rfl

end KernelResources
