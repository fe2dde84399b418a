import KernelResources.Store.Search

/-!
# Copying within a store

A range of cells is copied run by run, where a run is a stretch of equal cells: each run is one
search in the source and one fill of the target. `read_copy` says what a copy does, without runs:
the target range holds what the source range held before, and every other cell stays.
-/

namespace KernelResources

namespace Store

variable {α : Type} {blank : α} [DecidableEq α]

/-- Length of the run of equal cells that begins at `first`, counted up to `length`. -/
def runLength (store : Store α blank) (first length : Nat) : Nat :=
  match store.first? (fun cell => cell ≠ store.read first) first (first + length) with
  | some stop => stop - first
  | none => length

/-- Puts the cells of `[first, first + length)` of `source` into `store` from `target` on, at most
`rounds` runs of them. -/
def paste (source : Store α blank) : (rounds first target length : Nat) → Store α blank →
    Store α blank
  | 0, _, _, _, store => store
  | rounds + 1, first, target, length, store =>
    if length = 0 then store
    else
      let run := source.runLength first length
      paste source rounds (first + run) (target + run) (length - run)
        (store.fill target (target + run) (source.read first))

/-- Copies the cells of `[first, first + length)` to `target` and behind it. -/
def copy (store : Store α blank) (first target length : Nat) : Store α blank :=
  paste store length first target length store

theorem runLength_le (store : Store α blank) (first length : Nat) :
    store.runLength first length ≤ length := by
  unfold runLength
  split
  next stop h =>
    obtain ⟨-, hlt, -, -⟩ := (first?_eq_some_iff _).mp h
    omega
  next => exact Nat.le_refl _

theorem runLength_pos (store : Store α blank) (first : Nat) {length : Nat} (hlength : 0 < length) :
    0 < store.runLength first length := by
  unfold runLength
  split
  next stop h =>
    obtain ⟨hle, -, htest, -⟩ := (first?_eq_some_iff _).mp h
    rcases Nat.lt_or_eq_of_le hle with hlt | rfl
    · omega
    · simp at htest
  next => exact hlength

/-- The cells of a run are equal. -/
theorem read_of_lt_runLength (store : Store α blank) {first length offset : Nat}
    (h : offset < store.runLength first length) :
    store.read (first + offset) = store.read first := by
  unfold runLength at h
  split at h
  next stop hfound =>
    obtain ⟨-, -, -, hbefore⟩ := (first?_eq_some_iff _).mp hfound
    simpa using hbefore (first + offset) (by omega) (by omega)
  next hfound =>
    simpa using (first?_eq_none_iff _).mp hfound (first + offset) (by omega) (by omega)

theorem read_paste (source : Store α blank) (rounds first target length : Nat)
    (store : Store α blank) (hrounds : length ≤ rounds) (query : Nat) :
    (paste source rounds first target length store).read query =
      if target ≤ query ∧ query < target + length then source.read (first + (query - target))
      else store.read query := by
  induction rounds generalizing first target length store with
  | zero => rw [paste, if_neg (by omega)]
  | succ rounds ih =>
    rw [paste]
    by_cases hzero : length = 0
    · rw [if_pos hzero, if_neg (by omega)]
    · have hpos := source.runLength_pos first (Nat.pos_of_ne_zero hzero)
      have hle := source.runLength_le first length
      rw [if_neg hzero, ih _ _ _ _ (by omega), read_fill]
      by_cases hrun : target ≤ query ∧ query < target + source.runLength first length
      · rw [if_neg (by omega), if_pos hrun, if_pos (by omega),
          source.read_of_lt_runLength (by omega : query - target < source.runLength first length)]
      · by_cases hrest : target ≤ query ∧ query < target + length
        · rw [if_pos (by omega), if_pos hrest]
          exact congrArg source.read (by omega)
        · rw [if_neg (by omega), if_neg hrun, if_neg hrest]

/-- After a copy the target range holds what the source range held, and every other cell stays. -/
theorem read_copy (store : Store α blank) (first target length query : Nat) :
    (store.copy first target length).read query =
      if target ≤ query ∧ query < target + length then store.read (first + (query - target))
      else store.read query :=
  read_paste store length first target length store (Nat.le_refl _) query

end Store

end KernelResources
