import KernelResources.Arithmetic

/-!
# Physical frames

Physical memory is handed out in frames of 4 KiB. A frame is named by its index, a natural number:
frame `n` is the range `[4096 * n, 4096 * (n + 1))` of physical addresses.
-/

namespace KernelResources

namespace Frame

variable {ε σ : Type}

/-- Bytes in a frame. -/
def size : Nat := 4096

/-- Number of bits in a physical address. -/
def addressWidth : Nat := 52

/-- The first physical address of a frame. -/
def address (frame : Nat) : Nat := frame * size

/-- The frame that holds a physical address. -/
def containing (address : Nat) : Nat := address / size

/-- A number as a physical address, which has to fit into 52 bits. -/
def physicalAddress (number : Nat) : Action ε σ Nat :=
  if number < bitRange addressWidth then return number else Action.halt .physicalAddressRange

/-- The frame with a given index, which must begin at a physical address. -/
def ofIndex (index : Nat) : Action ε σ Nat := do
  let _ ← physicalAddress (← Action.multiply 64 index size)
  return index

theorem containing_address (frame : Nat) : containing (address frame) = frame :=
  Nat.mul_div_cancel frame (by decide)

theorem physicalAddress_eq_pure {number : Nat} (h : number < bitRange addressWidth) :
    (physicalAddress number : Action ε σ Nat) = pure number := if_pos h

theorem ofIndex_eq_pure {index : Nat} (h : address index < bitRange addressWidth) :
    (ofIndex index : Action ε σ Nat) = pure index := by
  have hproduct : index * size < bitRange 64 := Nat.lt_of_lt_of_le h (bitRange_le (by decide))
  unfold ofIndex
  rw [Action.multiply_eq_pure hproduct, pure_bind]
  exact (congrArg (· >>= _) (physicalAddress_eq_pure h)).trans (pure_bind _ _)

end Frame

end KernelResources
