import KernelResources.Action
import KernelResources.Width

/-!
# Machine arithmetic

Numbers are natural numbers here; where the machine has a register of a fixed width, the result of
an operation must fit into it and the kernel halts if it does not. `addSaturating` stops at the
largest number instead.
-/

namespace KernelResources

variable {ε σ : Type}

namespace Action

/-- The sum, which must fit into `width` bits. -/
@[inline]
def add (width a b : Nat) : Action ε σ Nat :=
  if a + b < bitRange width then pure (a + b) else halt .addOverflow

/-- The difference, which must not be negative. -/
@[inline]
def subtract (a b : Nat) : Action ε σ Nat :=
  if b ≤ a then pure (a - b) else halt .subtractOverflow

/-- The product, which must fit into `width` bits. -/
@[inline]
def multiply (width a b : Nat) : Action ε σ Nat :=
  if a * b < bitRange width then pure (a * b) else halt .multiplyOverflow

theorem add_eq_pure {width a b : Nat} (h : a + b < bitRange width) :
    (add width a b : Action ε σ Nat) = pure (a + b) := by
  simp [add, h]

theorem subtract_eq_pure {a b : Nat} (h : b ≤ a) :
    (subtract a b : Action ε σ Nat) = pure (a - b) := by
  simp [subtract, h]

theorem multiply_eq_pure {width a b : Nat} (h : a * b < bitRange width) :
    (multiply width a b : Action ε σ Nat) = pure (a * b) := by
  simp [multiply, h]

end Action

/-- The sum, if it fits into `width` bits. -/
def checkedAdd? (width a b : Nat) : Option Nat :=
  if a + b < bitRange width then some (a + b) else none

/-- The product, if it fits into `width` bits. -/
def checkedMultiply? (width a b : Nat) : Option Nat :=
  if a * b < bitRange width then some (a * b) else none

/-- The sum, or the largest number of `width` bits if it does not fit. -/
def addSaturating (width a b : Nat) : Nat := min (a + b) (bitRange width - 1)

/-- The least whole number of units of size `unit` that holds `n`. -/
def ceilDiv (n unit : Nat) : Nat := (n + (unit - 1)) / unit

/-- The next multiple of `unit` at or above `n`. -/
def roundUp (n unit : Nat) : Nat := ceilDiv n unit * unit

/-- The next multiple of `unit` at or below `n`. -/
def roundDown (n unit : Nat) : Nat := n / unit * unit

end KernelResources
