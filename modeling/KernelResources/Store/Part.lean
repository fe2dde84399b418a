import KernelResources.Store

/-!
# Parts of a store

The cells around an index, cut out as a small range of their own. Whoever needs several of them
pays for the way down to that range once. `get_part` says that a part holds the cells it was cut
from; an index into a part may keep its high bits, because only the low ones matter there.
-/

namespace KernelResources

namespace Cells

variable {α : Type}

/-- The range of `bitRange depth` cells in which `index` lies, within a range that is `levels`
times doubled. -/
def part (depth : Nat) : (levels : Nat) → Cells α → Nat → Cells α
  | 0, cells, _ => cells
  | _ + 1, all value, _ => all value
  | levels + 1, halves lower upper, index =>
    if index.testBit (depth + levels) then part depth levels upper index
    else part depth levels lower index

/-- A part holds the cells it was cut from. -/
theorem get_part (depth levels : Nat) (cells : Cells α) {index other : Nat}
    (h : other >>> depth = index >>> depth) :
    get depth (part depth levels cells index) other = get (depth + levels) cells other := by
  induction levels generalizing cells with
  | zero => rfl
  | succ levels ih =>
    cases cells with
    | all value => rw [part, get_all, get_all]
    | halves lower upper =>
      have hbit : other.testBit (depth + levels) = index.testBit (depth + levels) := by
        rw [← Nat.testBit_shiftRight, h, Nat.testBit_shiftRight]
      show _ = get (depth + levels + 1) (halves lower upper) other
      rw [part, get, hbit]
      split
      · exact ih upper
      · exact ih lower

end Cells

namespace Store

variable {α : Type} {blank : α}

/-- The range of `bitRange depth` cells in which `index` lies, where the store keeps one. -/
def part? (store : Store α blank) (depth index : Nat) : Option (Cells α) :=
  if depth ≤ store.depth ∧ index >>> store.depth = 0 then
    some (store.cells.part depth (store.depth - depth) index)
  else none

/-- A part holds the cells it was cut from. -/
theorem get_of_part?_eq_some {store : Store α blank} {depth index other : Nat} {part : Cells α}
    (hpart : store.part? depth index = some part) (h : other >>> depth = index >>> depth) :
    part.get depth other = store.read other := by
  unfold part? at hpart
  split at hpart
  next hinside =>
    obtain ⟨hdepth, hindex⟩ := hinside
    obtain ⟨levels, hlevels⟩ := Nat.exists_eq_add_of_le hdepth
    cases hpart
    have hother : other >>> store.depth = 0 := by
      rw [hlevels, Nat.shiftRight_add, h, ← Nat.shiftRight_add, ← hlevels, hindex]
    rw [read, if_pos hother, Cells.get_part _ _ _ h, Nat.add_sub_cancel' hdepth]
  next => cases hpart

end Store

end KernelResources
