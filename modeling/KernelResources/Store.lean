import KernelResources.Width

/-!
# Stores

A store is a total map from natural numbers to cells, blank almost everywhere. It is held as a
binary tree in which a range of equal cells is a single node, so filling a long range costs no
more than filling a few cells. `read_fill` says that a fill changes the range it names and nothing
else, and `read_write` the same of a single cell. No statement about a store needs more than these.
-/

namespace KernelResources

/-- The cells of a range of length `bitRange depth`, for a depth known to the holder. -/
inductive Cells (α : Type) where
  /-- Every cell of the range holds `value`. -/
  | all (value : α)
  /-- The lower and the upper half of the range. -/
  | halves (lower upper : Cells α)
deriving Repr

namespace Cells

variable {α : Type}

/-- The cell at `index`, which should lie below `bitRange depth`. The bits of the index, from the
highest on, say which half it lies in. -/
def get : Nat → Cells α → Nat → α
  | _, all value, _ => value
  | 0, halves lower _, index => get 0 lower index
  | depth + 1, halves lower upper, index =>
    if index.testBit depth then get depth upper index else get depth lower index

/-- The two halves of a range. -/
def split : Cells α → Cells α × Cells α
  | all value => (all value, all value)
  | halves lower upper => (lower, upper)

/-- A range made of two halves; if all their cells are equal, it is a single node. -/
def join [DecidableEq α] : Cells α → Cells α → Cells α
  | all value, all value' =>
    if value = value' then all value else halves (all value) (all value')
  | lower, upper => halves lower upper

/-- Puts `value` into every cell of `[first, last)`. -/
def fill [DecidableEq α] (value : α) : Nat → Cells α → Nat → Nat → Cells α
  | 0, cells, first, last => if first = 0 ∧ 0 < last then all value else cells
  | depth + 1, cells, first, last =>
    let half := bitRange depth
    if last ≤ first ∨ half + half ≤ first then cells
    else if first = 0 ∧ half + half ≤ last then all value
    else
      match cells.split with
      | (lower, upper) =>
        join (fill value depth lower first last)
          (fill value depth upper (first - half) (last - half))

/-- Puts `value` into the cell at `index`. -/
def set [DecidableEq α] (value : α) : Nat → Cells α → Nat → Cells α
  | 0, _, _ => all value
  | depth + 1, cells, index =>
    match cells.split with
    | (lower, upper) =>
      if index.testBit depth then join lower (set value depth upper index)
      else join (set value depth lower index) upper

/-- The same cells as the lowest part of a range that is `levels` times doubled. -/
def widen (blank : α) (cells : Cells α) : Nat → Cells α
  | 0 => cells
  | levels + 1 => halves (widen blank cells levels) (all blank)

theorem get_all (depth : Nat) (value : α) (index : Nat) :
    get depth (all value) index = value := by
  cases depth <;> rfl

/-- Joined halves hold the same cells as the two halves apart. -/
theorem get_join [DecidableEq α] (depth : Nat) (lower upper : Cells α) (index : Nat) :
    get (depth + 1) (join lower upper) index =
      if index.testBit depth then get depth upper index else get depth lower index := by
  unfold join
  split
  next value value' =>
    by_cases h : value = value'
    · rw [if_pos h, ← h]
      simp [get_all]
    · rw [if_neg h]
      rfl
  next => rfl

theorem get_split (depth : Nat) (cells : Cells α) (index : Nat) :
    get (depth + 1) cells index =
      if index.testBit depth then get depth cells.split.2 index
      else get depth cells.split.1 index := by
  cases cells with
  | all value => simp [split, get_all]
  | halves lower upper => rfl

/-- Setting a cell changes the cells whose indices have the same bits, and no other. -/
theorem get_set [DecidableEq α] (value : α) (depth : Nat) (cells : Cells α) (index query : Nat) :
    get depth (set value depth cells index) query =
      if query % bitRange depth = index % bitRange depth then value
      else get depth cells query := by
  induction depth generalizing cells with
  | zero => rw [bitRange_zero, Nat.mod_one, Nat.mod_one, if_pos rfl, set, get_all]
  | succ depth ih =>
    rw [get_split depth cells, set]
    cases hindex : index.testBit depth <;> cases hquery : query.testBit depth <;>
      simp [get_join, ih, mod_bitRange_succ_eq_iff, hindex, hquery]

/-- Only the bits of an index below the depth matter. -/
theorem get_congr (cells : Cells α) {depth index index' : Nat}
    (h : ∀ bit < depth, index.testBit bit = index'.testBit bit) :
    get depth cells index = get depth cells index' := by
  induction cells generalizing depth with
  | all value => rw [get_all, get_all]
  | halves lower upper hlower hupper =>
    cases depth with
    | zero =>
      rw [get, get]
      exact hlower h
    | succ depth =>
      rw [get, get, h depth (Nat.lt_succ_self _)]
      split
      · exact hupper fun bit hbit => h bit (by omega)
      · exact hlower fun bit hbit => h bit (by omega)

/-- An index leads to the lower half of a range, or to a place in the upper half. -/
theorem get_halves (depth : Nat) (lower upper : Cells α) {index : Nat}
    (h : index < bitRange (depth + 1)) :
    get (depth + 1) (halves lower upper) index =
      if index < bitRange depth then get depth lower index
      else get depth upper (index - bitRange depth) := by
  rw [get]
  by_cases hside : index < bitRange depth
  · rw [if_pos hside, testBit_of_lt_bitRange hside]
    rfl
  · have hle : bitRange depth ≤ index := Nat.le_of_not_lt hside
    rw [if_neg hside, testBit_of_bitRange_le hle h]
    exact get_congr upper fun bit hbit => (testBit_sub_bitRange hle hbit).symm

theorem get_succ (depth : Nat) (cells : Cells α) {index : Nat} (h : index < bitRange (depth + 1)) :
    get (depth + 1) cells index =
      if index < bitRange depth then get depth cells.split.1 index
      else get depth cells.split.2 (index - bitRange depth) := by
  cases cells with
  | all value => simp [split, get_all]
  | halves lower upper => exact get_halves depth lower upper h

theorem get_fill [DecidableEq α] (value : α) (depth : Nat) (cells : Cells α)
    (first last index : Nat) (hindex : index < bitRange depth) :
    get depth (fill value depth cells first last) index =
      if first ≤ index ∧ index < last then value else get depth cells index := by
  induction depth generalizing cells first last index with
  | zero =>
    rw [bitRange_zero] at hindex
    obtain rfl : index = 0 := by omega
    rw [fill]
    by_cases h : first = 0 ∧ 0 < last
    · rw [if_pos h, get_all, if_pos (by omega)]
    · rw [if_neg h, if_neg (by omega)]
  | succ depth ih =>
    have hdouble := bitRange_succ depth
    simp only [fill, ← hdouble]
    by_cases hout : last ≤ first ∨ bitRange (depth + 1) ≤ first
    · rw [if_pos hout, if_neg (by omega)]
    rw [if_neg hout]
    by_cases hin : first = 0 ∧ bitRange (depth + 1) ≤ last
    · rw [if_pos hin, get_all, if_pos (by omega)]
    rw [if_neg hin, get_join, ← get, get_halves depth _ _ hindex, get_succ depth cells hindex]
    by_cases hlow : index < bitRange depth
    · rw [if_pos hlow, if_pos hlow]
      exact ih _ _ _ _ hlow
    · rw [if_neg hlow, if_neg hlow]
      refine (ih cells.split.2 _ _ _ (by omega)).trans ?_
      by_cases h : first ≤ index ∧ index < last
      · rw [if_pos h, if_pos (by omega)]
      · rw [if_neg h, if_neg (by omega)]

theorem get_widen (blank : α) (depth : Nat) (cells : Cells α) (levels index : Nat)
    (hindex : index < bitRange (depth + levels)) :
    get (depth + levels) (widen blank cells levels) index =
      if index < bitRange depth then get depth cells index else blank := by
  induction levels generalizing index with
  | zero =>
    rw [if_pos (show index < bitRange depth from hindex)]
    rfl
  | succ levels ih =>
    have hdouble := bitRange_succ (depth + levels)
    have hle : bitRange depth ≤ bitRange (depth + levels) := bitRange_le (by omega)
    rw [← Nat.add_assoc, get_succ _ _ (show index < bitRange (depth + levels + 1) from hindex)]
    by_cases hlow : index < bitRange (depth + levels)
    · rw [if_pos hlow]
      exact ih _ hlow
    · rw [if_neg hlow, if_neg (by omega)]
      exact get_all _ _ _

end Cells

/-- A total map from natural numbers to cells that holds `blank` outside a finite range. -/
structure Store (α : Type) (blank : α) where
  /-- The range `[0, bitRange depth)` is kept in `cells`; everything above it is blank. -/
  depth : Nat
  /-- The cells of that range. -/
  cells : Cells α

namespace Store

variable {α : Type} {blank : α}

/-- The store that is blank everywhere. -/
def empty : Store α blank := ⟨0, .all blank⟩

instance : Inhabited (Store α blank) := ⟨empty⟩

/-- The cell at `index`. -/
def read (store : Store α blank) (index : Nat) : α :=
  if index >>> store.depth = 0 then store.cells.get store.depth index else blank

theorem read_eq (store : Store α blank) (index : Nat) :
    store.read index =
      if index < bitRange store.depth then store.cells.get store.depth index else blank := by
  simp only [read, shiftRight_eq_zero_iff]

/-- The same store, kept in a range that reaches at least to `last`. -/
def reaching (store : Store α blank) (last : Nat) : Store α blank :=
  match store with
  | ⟨depth, cells⟩ =>
    let levels := last.log2 + 1 - depth
    ⟨depth + levels, cells.widen blank levels⟩

/-- Puts `value` into every cell of `[first, last)`. -/
def fill [DecidableEq α] (store : Store α blank) (first last : Nat) (value : α) : Store α blank :=
  match store.reaching last with
  | ⟨depth, cells⟩ => ⟨depth, cells.fill value depth first last⟩

/-- Puts `value` into the cell at `index`. -/
def write [DecidableEq α] (store : Store α blank) (index : Nat) (value : α) : Store α blank :=
  match store.reaching index with
  | ⟨depth, cells⟩ => ⟨depth, cells.set value depth index⟩

@[simp] theorem read_empty (index : Nat) : (empty : Store α blank).read index = blank := by
  rw [read_eq]
  split
  · exact Cells.get_all _ _ _
  · rfl

private theorem lt_two_pow_reaching (store : Store α blank) (last : Nat) :
    last < bitRange (store.reaching last).depth := by
  refine Nat.lt_of_lt_of_le (lt_bitRange_log2 last) (bitRange_le ?_)
  show last.log2 + 1 ≤ store.depth + (last.log2 + 1 - store.depth)
  omega

private theorem read_reaching (store : Store α blank) (last index : Nat) :
    (store.reaching last).read index = store.read index := by
  have hle : bitRange store.depth ≤ bitRange (store.depth + (last.log2 + 1 - store.depth)) :=
    bitRange_le (by omega)
  rw [read_eq, read_eq]
  show (if index < bitRange (store.depth + (last.log2 + 1 - store.depth)) then _ else _) = _
  by_cases h : index < bitRange (store.depth + (last.log2 + 1 - store.depth))
  · rw [if_pos h]
    exact Cells.get_widen _ _ _ _ _ h
  · rw [if_neg h, if_neg (by omega)]

/-- A fill changes the range it names and nothing else. -/
theorem read_fill [DecidableEq α] (store : Store α blank) (first last : Nat) (value : α)
    (index : Nat) :
    (store.fill first last value).read index =
      if first ≤ index ∧ index < last then value else store.read index := by
  rw [← read_reaching store last index, read_eq, read_eq]
  have hlast := lt_two_pow_reaching store last
  show (if index < bitRange (store.reaching last).depth then
    Cells.get _ (Cells.fill value _ (store.reaching last).cells first last) index else blank) = _
  by_cases h : index < bitRange (store.reaching last).depth
  · rw [if_pos h, if_pos h]
    exact Cells.get_fill _ _ _ _ _ _ h
  · rw [if_neg h, if_neg h, if_neg (by omega)]

/-- A write changes the cell it names and no other. -/
@[simp] theorem read_write [DecidableEq α] (store : Store α blank) (index : Nat) (value : α)
    (query : Nat) :
    (store.write index value).read query =
      if query = index then value else store.read query := by
  rw [← read_reaching store index query, read_eq, read_eq]
  have hindex := lt_two_pow_reaching store index
  show (if query < bitRange (store.reaching index).depth then
    Cells.get _ (Cells.set value _ (store.reaching index).cells index) query else blank) = _
  by_cases h : query < bitRange (store.reaching index).depth
  · rw [if_pos h, if_pos h]
    refine (Cells.get_set value (store.reaching index).depth _ index query).trans ?_
    rw [Nat.mod_eq_of_lt h, Nat.mod_eq_of_lt hindex]
  · rw [if_neg h, if_neg h, if_neg (by omega)]

end Store

end KernelResources
