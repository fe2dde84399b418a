import KernelResources.Store.Part

/-!
# Byte memory

Memory addressed by bytes, zero where nothing was written. Numbers of several bytes are kept with
the least significant byte first. `readNumber_writeNumber` and its companion for other addresses
are what the structures kept in memory rest on.

A number of eight bytes at a multiple of eight is read from the store as a whole, and any other
number byte by byte. `readNumber_eq` says that this makes no difference.
-/

namespace KernelResources

/-- Memory addressed by bytes. -/
abbrev ByteMemory : Type := Store UInt8 0

namespace ByteMemory

/-- The number whose `length` bytes begin at `address`, where `byteAt` gives the bytes. -/
def numberFrom (byteAt : Nat → UInt8) (address : Nat) : (length : Nat) → Nat
  | 0 => 0
  | length + 1 => (byteAt address).toNat + 256 * numberFrom byteAt (address + 1) length

/-- How many numbers `bitRange depth` bytes can hold. -/
def byteRange : (depth : Nat) → Nat
  | 0 => 256
  | depth + 1 => byteRange depth * byteRange depth

/-- The number that a range of `bitRange depth` bytes holds. -/
def cellsNumber : (depth : Nat) → Cells UInt8 → Nat
  | 0, cells => (cells.get 0 0).toNat
  | depth + 1, .all value =>
    if value = 0 then 0
    else
      let half := cellsNumber depth (.all value)
      half + byteRange depth * half
  | depth + 1, .halves lower upper =>
    cellsNumber depth lower + byteRange depth * cellsNumber depth upper

/-- The number in the part of the memory around an address, if a number of `length` bytes at that
address is such a part. -/
def alignedNumber? (memory : ByteMemory) (address length : Nat) : Option Nat :=
  if length = 8 ∧ address % 8 = 0 then (memory.part? 3 address).map (cellsNumber 3) else none

/-- The number kept in `length` bytes from `address` on. -/
def readNumber (memory : ByteMemory) (address length : Nat) : Nat :=
  (alignedNumber? memory address length).getD (numberFrom memory.read address length)

/-- Keeps a number in `length` bytes from `address` on. -/
def writeNumber (memory : ByteMemory) (address : Nat) : (length value : Nat) → ByteMemory
  | 0, _ => memory
  | length + 1, value =>
    writeNumber (memory.write address (UInt8.ofNat value)) (address + 1) length (value / 256)

/-- The bytes of `[address, address + length)`. -/
def readBytes (memory : ByteMemory) (address length : Nat) : List UInt8 :=
  (List.range length).map fun offset => memory.read (address + offset)

/-- Puts a byte string at `address`. -/
def writeBytes (memory : ByteMemory) (address : Nat) : List UInt8 → ByteMemory
  | [] => memory
  | byte :: rest => writeBytes (memory.write address byte) (address + 1) rest

theorem read_writeNumber_of_outside (memory : ByteMemory) (address length value query : Nat)
    (h : query < address ∨ address + length ≤ query) :
    (memory.writeNumber address length value).read query = memory.read query := by
  induction length generalizing memory address value with
  | zero => rfl
  | succ length ih =>
    rw [writeNumber, ih _ _ _ (by omega), Store.read_write, if_neg (by omega)]

/-- The first byte of a number is its least significant one. -/
theorem read_writeNumber_succ (memory : ByteMemory) (address length value : Nat) :
    (memory.writeNumber address (length + 1) value).read address = UInt8.ofNat value := by
  rw [writeNumber, read_writeNumber_of_outside _ _ _ _ _ (by omega), Store.read_write, if_pos rfl]

theorem numberFrom_congr {byteAt byteAt' : Nat → UInt8} {address address' length : Nat}
    (h : ∀ offset < length, byteAt (address + offset) = byteAt' (address' + offset)) :
    numberFrom byteAt address length = numberFrom byteAt' address' length := by
  induction length generalizing address address' with
  | zero => rfl
  | succ length ih =>
    have hfirst : byteAt address = byteAt' address' := h 0 (Nat.succ_pos _)
    rw [numberFrom, numberFrom, hfirst, ih fun offset hoffset => ?_]
    rw [Nat.add_assoc, Nat.add_assoc, Nat.add_comm 1]
    exact h (offset + 1) (Nat.succ_lt_succ hoffset)

/-- A number is made of the numbers in its lower and in its upper bytes. -/
theorem numberFrom_add (byteAt : Nat → UInt8) (address length length' : Nat) :
    numberFrom byteAt address (length + length') =
      numberFrom byteAt address length +
        bitRange (8 * length) * numberFrom byteAt (address + length) length' := by
  induction length generalizing address with
  | zero => rw [Nat.zero_add, numberFrom, Nat.mul_zero, bitRange_zero, Nat.one_mul, Nat.zero_add,
      Nat.add_zero]
  | succ length ih =>
    have hnext : address + 1 + length = address + (length + 1) := by omega
    rw [Nat.add_right_comm, numberFrom, numberFrom, ih, bitRange_bytes_succ, hnext]
    simp only [Nat.mul_add, Nat.mul_assoc, Nat.add_assoc]

theorem byteRange_eq (depth : Nat) : byteRange depth = bitRange (8 * bitRange depth) := by
  induction depth with
  | zero => rfl
  | succ depth ih => rw [byteRange, ih, bitRange_succ, Nat.mul_add, bitRange_add]

theorem numberFrom_get_succ (depth : Nat) (cells : Cells UInt8) :
    numberFrom (cells.get (depth + 1)) 0 (bitRange (depth + 1)) =
      numberFrom (cells.split.1.get depth) 0 (bitRange depth) +
        byteRange depth * numberFrom (cells.split.2.get depth) 0 (bitRange depth) := by
  have hdouble := bitRange_succ depth
  rw [hdouble, numberFrom_add, byteRange_eq]
  refine congr (congrArg HAdd.hAdd (numberFrom_congr fun offset hoffset => ?_))
    (congrArg (bitRange (8 * bitRange depth) * ·) (numberFrom_congr fun offset hoffset => ?_))
  · rw [Cells.get_succ depth cells (by omega), if_pos (by omega)]
  · rw [Cells.get_succ depth cells (by omega), if_neg (by omega)]
    exact congrArg (cells.split.2.get depth) (by omega)

/-- A range of bytes holds the number that its bytes make. -/
theorem cellsNumber_eq (depth : Nat) (cells : Cells UInt8) :
    cellsNumber depth cells = numberFrom (cells.get depth) 0 (bitRange depth) := by
  induction depth generalizing cells with
  | zero => rw [cellsNumber, bitRange_zero, numberFrom, numberFrom, Nat.mul_zero, Nat.add_zero]
  | succ depth ih =>
    rw [numberFrom_get_succ, ← ih, ← ih]
    cases cells with
    | halves lower upper => rfl
    | all value =>
      by_cases hzero : value = 0
      · have hnone (depth : Nat) : cellsNumber depth (.all 0) = 0 := by
          cases depth <;> rfl
        subst hzero
        rw [cellsNumber, if_pos rfl, Cells.split, hnone, Nat.mul_zero]
      · rw [cellsNumber, if_neg hzero]
        rfl

/-- However a number is read, it is the number that its bytes make. -/
theorem readNumber_eq (memory : ByteMemory) (address length : Nat) :
    memory.readNumber address length = numberFrom memory.read address length := by
  unfold readNumber alignedNumber?
  split
  next h =>
    obtain ⟨rfl, haligned⟩ := h
    cases hpart : memory.part? 3 address with
    | none => rfl
    | some part =>
      show cellsNumber 3 part = _
      rw [cellsNumber_eq]
      refine numberFrom_congr fun offset hoffset => ?_
      have hoffset : offset < 8 := hoffset
      have hlow : (0 + offset) % bitRange 3 = (address + offset) % bitRange 3 := by
        show (0 + offset) % 8 = (address + offset) % 8
        omega
      have hhigh : (address + offset) >>> 3 = address >>> 3 := by
        rw [shiftRight_eq_div, shiftRight_eq_div]
        show (address + offset) / 8 = address / 8
        omega
      rw [← Store.get_of_part?_eq_some hpart hhigh]
      exact Cells.get_congr part fun bit hbit => testBit_eq_of_mod_eq hlow hbit
  next => rfl

/-- Two memories that agree on the bytes of a number hold the same number. -/
theorem readNumber_congr (memory : ByteMemory) {memory' : ByteMemory} {address length : Nat}
    (h : ∀ query, address ≤ query → query < address + length →
      memory'.read query = memory.read query) :
    memory'.readNumber address length = memory.readNumber address length := by
  rw [readNumber_eq, readNumber_eq]
  exact numberFrom_congr fun offset _ => h (address + offset) (by omega) (by omega)

/-- A number reads back as it was kept, as far as its bytes can hold it. -/
theorem readNumber_writeNumber (memory : ByteMemory) (address length value : Nat) :
    (memory.writeNumber address length value).readNumber address length =
      value % bitRange (8 * length) := by
  rw [readNumber_eq]
  induction length generalizing memory address value with
  | zero => simp [numberFrom, Nat.mod_one]
  | succ length ih =>
    rw [numberFrom, read_writeNumber_succ, writeNumber, ih, bitRange_bytes_succ, Nat.mod_mul]
    simp

/-- Keeping a number leaves the numbers in other bytes alone. -/
theorem readNumber_writeNumber_of_disjoint (memory : ByteMemory)
    (address length value address' length' : Nat)
    (h : address' + length' ≤ address ∨ address + length ≤ address') :
    (memory.writeNumber address length value).readNumber address' length' =
      memory.readNumber address' length' :=
  readNumber_congr _ fun query hlow hhigh => read_writeNumber_of_outside _ _ _ _ _ (by omega)

theorem readNumber_lt (memory : ByteMemory) (address length : Nat) :
    memory.readNumber address length < bitRange (8 * length) := by
  rw [readNumber_eq]
  induction length generalizing address with
  | zero => simp [numberFrom]
  | succ length ih =>
    have hbyte := (memory.read address).toNat_lt
    have hrest := ih (address + 1)
    rw [numberFrom, bitRange_bytes_succ]
    omega

end ByteMemory

end KernelResources
