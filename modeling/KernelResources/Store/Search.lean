import KernelResources.Store

/-!
# Searching and counting in a store

`Store.first?` finds the least index of a range whose cell satisfies a test, and `Store.count`
counts such indices. Both take a range of equal cells in one step. `first?_eq_some_iff` and
`first?_eq_none_iff` say exactly what the search finds, and `count_eq` what is counted.
-/

namespace KernelResources

namespace Cells

variable {α : Type} (test : α → Bool)

/-- The least index in `[first, last)` whose cell passes the test. -/
def first? : Nat → Cells α → Nat → Nat → Option Nat
  | 0, cells, first, last =>
    if first = 0 ∧ 0 < last ∧ test (get 0 cells 0) then some 0 else none
  | depth + 1, cells, first, last =>
    let half := bitRange depth
    if last ≤ first ∨ half + half ≤ first then none
    else
      match cells with
      | all value => if test value then some first else none
      | halves lower upper =>
        match first? depth lower first last with
        | some index => some index
        | none => (first? depth upper (first - half) (last - half)).map (· + half)

/-- The number of indices in `[first, last)` whose cell passes the test. -/
def count : Nat → Cells α → Nat → Nat → Nat
  | 0, cells, first, last => if first = 0 ∧ 0 < last ∧ test (get 0 cells 0) then 1 else 0
  | depth + 1, cells, first, last =>
    let half := bitRange depth
    if last ≤ first ∨ half + half ≤ first then 0
    else
      match cells with
      | all value => if test value then min last (half + half) - first else 0
      | halves lower upper =>
        count depth lower first last + count depth upper (first - half) (last - half)

/-- `found` is the least index of `[first, last)` below `bound` that passes a test. -/
def IsFirst (passes : Nat → Prop) (first last bound : Nat) : Option Nat → Prop
  | some index =>
    first ≤ index ∧ index < last ∧ index < bound ∧ passes index ∧
      ∀ other, first ≤ other → other < index → ¬passes other
  | none => ∀ index, first ≤ index → index < last → index < bound → ¬passes index

private theorem isFirst_first? (depth : Nat) (cells : Cells α) (first last : Nat) :
    IsFirst (fun index => test (get depth cells index) = true) first last (bitRange depth)
      (first? test depth cells first last) := by
  induction depth generalizing cells first last with
  | zero =>
    rw [first?, bitRange_zero]
    by_cases h : first = 0 ∧ 0 < last ∧ test (get 0 cells 0) = true
    · rw [if_pos h]
      exact ⟨by omega, by omega, by omega, h.2.2, by omega⟩
    · rw [if_neg h]
      intro index hfirst hlast hindex htest
      obtain rfl : index = 0 := by omega
      exact h ⟨by omega, by omega, htest⟩
  | succ depth ih =>
    have hdouble := bitRange_succ depth
    simp only [first?, ← hdouble]
    by_cases hout : last ≤ first ∨ bitRange (depth + 1) ≤ first
    · rw [if_pos hout]
      intro index hfirst hlast hindex
      omega
    rw [if_neg hout]
    cases cells with
    | all value =>
      by_cases h : test value = true
      · simp only [h, if_true]
        exact ⟨by omega, by omega, by omega, by simpa [get_all] using h, by omega⟩
      · simp only [h]
        intro index _ _ _
        simpa [get_all] using h
    | halves lower upper =>
      -- Indices of the upper half count from its beginning.
      have hlower := ih lower first last
      have hupper := ih upper (first - bitRange depth) (last - bitRange depth)
      have hlow {index : Nat} (h : index < bitRange depth) :
          get (depth + 1) (halves lower upper) index = get depth lower index := by
        rw [get_halves depth lower upper (by omega), if_pos h]
      have hhigh (index : Nat) (hindex : index < bitRange (depth + 1))
          (h : ¬index < bitRange depth) :
          get (depth + 1) (halves lower upper) index =
            get depth upper (index - bitRange depth) := by
        rw [get_halves depth lower upper hindex, if_neg h]
      simp only
      cases hfound : first? test depth lower first last with
      | some index =>
        rw [hfound] at hlower
        obtain ⟨h1, h2, h3, h4, h5⟩ := hlower
        refine ⟨h1, h2, by omega, by simpa [hlow h3] using h4, fun other ho hlt => ?_⟩
        have hside : other < bitRange depth := by omega
        simpa [hlow hside] using h5 other ho hlt
      | none =>
        rw [hfound] at hlower
        cases hfound' :
            first? test depth upper (first - bitRange depth) (last - bitRange depth) with
        | some index =>
          rw [hfound'] at hupper
          obtain ⟨h1, h2, h3, h4, h5⟩ := hupper
          -- Nothing passes in the lower half, so the first of the upper half is the first of all.
          show IsFirst _ first last _ (some (index + bitRange depth))
          refine ⟨by omega, by omega, by omega, ?_, fun other ho hlt => ?_⟩
          · have hplace := hhigh (index + bitRange depth) (by omega) (by omega)
            simpa [hplace] using h4
          · by_cases hside : other < bitRange depth
            · simpa [hlow hside] using hlower other ho (by omega) hside
            · have hplace := hhigh other (by omega) hside
              simpa [hplace] using h5 (other - bitRange depth) (by omega) (by omega)
        | none =>
          rw [hfound'] at hupper
          intro index hfirst hlast hindex
          by_cases hside : index < bitRange depth
          · simpa [hlow hside] using hlower index hfirst hlast hside
          · simpa [hhigh index hindex hside] using
              hupper (index - bitRange depth) (by omega) (by omega) (by omega)

/-- A range splits in two at any place inside it. -/
private theorem countP_range'_split (passes : Nat → Bool) {first middle last : Nat}
    (hfirst : first ≤ middle) (hlast : middle ≤ last) :
    (List.range' first (last - first)).countP passes =
      (List.range' first (middle - first)).countP passes +
        (List.range' middle (last - middle)).countP passes := by
  have hlength : last - first = (middle - first) + (last - middle) := by omega
  have hmiddle : middle = first + (middle - first) := by omega
  rw [hlength, ← List.range'_append_1, List.countP_append, ← hmiddle]

/-- A count over a range looks at nothing outside it. -/
private theorem countP_congr_range' {passes passes' : Nat → Bool} {first length : Nat}
    (h : ∀ index, first ≤ index → index < first + length → passes index = passes' index) :
    (List.range' first length).countP passes = (List.range' first length).countP passes' := by
  refine List.countP_congr fun index hindex => ?_
  rw [List.mem_range'_1] at hindex
  rw [h index hindex.1 hindex.2]

/-- A count says how many indices of a range have a cell that passes. -/
theorem count_eq (depth : Nat) (cells : Cells α) (first last : Nat) :
    count test depth cells first last =
      (List.range' first (min last (bitRange depth) - first)).countP
        fun index => test (get depth cells index) := by
  induction depth generalizing cells first last with
  | zero =>
    rw [count, bitRange_zero]
    by_cases h : first = 0 ∧ 0 < last
    · obtain ⟨rfl, hlast⟩ := h
      have hlength : min last 1 - 0 = 1 := by omega
      rw [hlength]
      by_cases htest : test (get 0 cells 0) = true <;> simp [hlast, htest]
    · have hlength : min last 1 - first = 0 := by omega
      rw [hlength, if_neg (fun h' => h ⟨h'.1, h'.2.1⟩)]
      rfl
  | succ depth ih =>
    have hdouble := bitRange_succ depth
    simp only [count, ← hdouble]
    by_cases hout : last ≤ first ∨ bitRange (depth + 1) ≤ first
    · have hlength : min last (bitRange (depth + 1)) - first = 0 := by omega
      rw [if_pos hout, hlength]
      rfl
    rw [if_neg hout]
    cases cells with
    | all value =>
      simp only [get_all]
      by_cases htest : test value = true <;> simp [htest]
    | halves lower upper =>
      have hlower : count test depth lower first last =
          (List.range' first (min last (bitRange depth) - first)).countP
            fun index => test (get (depth + 1) (halves lower upper) index) := by
        rw [ih]
        refine countP_congr_range' fun index _ hindex => ?_
        rw [get_halves depth lower upper (by omega), if_pos (by omega)]
      have hupper : count test depth upper (first - bitRange depth) (last - bitRange depth) =
          (List.range' (first - bitRange depth + bitRange depth)
            (min (last - bitRange depth) (bitRange depth) - (first - bitRange depth))).countP
              fun index => test (get (depth + 1) (halves lower upper) index) := by
        rw [ih, Nat.add_comm _ (bitRange depth), ← List.map_add_range', List.countP_map]
        refine countP_congr_range' fun index _ hindex => ?_
        simp only [Function.comp_apply]
        rw [get_halves depth lower upper (by omega), if_neg (by omega), Nat.add_sub_cancel_left]
      refine (congr (congrArg HAdd.hAdd hlower) hupper).trans ?_
      by_cases hhigh : bitRange depth ≤ first
      · have hnone : min last (bitRange depth) - first = 0 := by omega
        rw [hnone, List.range'_zero, List.countP_nil, Nat.zero_add, Nat.sub_add_cancel hhigh]
        congr 2
        omega
      · by_cases hlow : last ≤ bitRange depth
        · have hnone :
              min (last - bitRange depth) (bitRange depth) - (first - bitRange depth) = 0 := by
            omega
          rw [hnone, List.range'_zero, List.countP_nil, Nat.add_zero]
          congr 2
          omega
        · rw [countP_range'_split _ (Nat.le_of_not_le hhigh)
            (by omega : bitRange depth ≤ min last (bitRange (depth + 1)))]
          congr 3 <;> omega

end Cells

namespace Store

variable {α : Type} {blank : α} (test : α → Bool)

/-- The least index in `[first, last)` whose cell passes the test. -/
def first? (store : Store α blank) (first last : Nat) : Option Nat :=
  match store.cells.first? test store.depth first last with
  | some index => some index
  | none =>
    let above := max first (bitRange store.depth)
    if test blank ∧ above < last then some above else none

/-- The number of indices in `[first, last)` whose cell passes the test. -/
def count (store : Store α blank) (first last : Nat) : Nat :=
  store.cells.count test store.depth first last +
    if test blank then last - max first (bitRange store.depth) else 0

private theorem isFirst_first? (store : Store α blank) (first last : Nat) :
    Cells.IsFirst (fun index => test (store.read index) = true) first last last
      (store.first? test first last) := by
  have hcells := Cells.isFirst_first? test store.depth store.cells first last
  unfold first?
  simp only [read_eq]
  cases hfound : store.cells.first? test store.depth first last with
  | some index =>
    rw [hfound] at hcells
    obtain ⟨h1, h2, h3, h4, h5⟩ := hcells
    refine ⟨h1, h2, h2, by simpa [h3] using h4, fun other ho hlt => ?_⟩
    have : other < bitRange store.depth := by omega
    simpa [this] using h5 other ho hlt
  | none =>
    rw [hfound] at hcells
    simp only
    by_cases h : test blank = true ∧ max first (bitRange store.depth) < last
    · rw [if_pos h]
      have hge : ¬max first (bitRange store.depth) < bitRange store.depth := by omega
      refine ⟨by omega, h.2, h.2, by simp [hge, h.1], fun other ho hlt => ?_⟩
      by_cases hside : other < bitRange store.depth
      · simpa [hside] using hcells other ho (by omega) hside
      · omega
    · rw [if_neg h]
      intro index hfirst hlast _
      by_cases hside : index < bitRange store.depth
      · simpa [hside] using hcells index hfirst hlast hside
      · simp only [hside, if_false]
        intro hblank
        exact h ⟨hblank, by omega⟩

/-- The search finds the least index that passes. -/
theorem first?_eq_some_iff {store : Store α blank} {first last index : Nat} :
    store.first? test first last = some index ↔
      first ≤ index ∧ index < last ∧ test (store.read index) = true ∧
        ∀ other, first ≤ other → other < index → test (store.read other) = false := by
  have hfirst := isFirst_first? test store first last
  constructor
  · intro h
    rw [h] at hfirst
    obtain ⟨h1, h2, -, h4, h5⟩ := hfirst
    exact ⟨h1, h2, h4, fun other ho hlt => by simpa using h5 other ho hlt⟩
  · rintro ⟨h1, h2, h3, h4⟩
    cases hfound : store.first? test first last with
    | none =>
      rw [hfound] at hfirst
      exact absurd h3 (hfirst index h1 h2 h2)
    | some found =>
      rw [hfound] at hfirst
      obtain ⟨g1, g2, -, g4, g5⟩ := hfirst
      rcases Nat.lt_trichotomy found index with hlt | rfl | hlt
      · simp [h4 found g1 hlt] at g4
      · rfl
      · exact absurd h3 (g5 index h1 hlt)

/-- The search finds nothing exactly when nothing passes. -/
theorem first?_eq_none_iff {store : Store α blank} {first last : Nat} :
    store.first? test first last = none ↔
      ∀ index, first ≤ index → index < last → test (store.read index) = false := by
  have hfirst := isFirst_first? test store first last
  constructor
  · intro h
    rw [h] at hfirst
    intro index h1 h2
    simpa using hfirst index h1 h2 h2
  · intro h
    cases hfound : store.first? test first last with
    | none => rfl
    | some found =>
      rw [hfound] at hfirst
      obtain ⟨g1, g2, -, g4, -⟩ := hfirst
      simp [h found g1 g2] at g4

/-- A count says how many indices of a range have a cell that passes. -/
theorem count_eq (store : Store α blank) (first last : Nat) :
    store.count test first last =
      (List.range' first (last - first)).countP fun index => test (store.read index) := by
  have hlow : store.cells.count test store.depth first last =
      (List.range' first (min last (bitRange store.depth) - first)).countP
        fun index => test (store.read index) := by
    rw [Cells.count_eq]
    refine Cells.countP_congr_range' fun index _ hindex => ?_
    rw [read_eq, if_pos (by omega)]
  have hhigh : (if test blank then last - max first (bitRange store.depth) else 0) =
      (List.range' (max first (bitRange store.depth))
        (last - max first (bitRange store.depth))).countP
          fun index => test (store.read index) := by
    have hblank : (List.range' (max first (bitRange store.depth))
        (last - max first (bitRange store.depth))).countP (fun index => test (store.read index)) =
        (List.range' (max first (bitRange store.depth))
          (last - max first (bitRange store.depth))).countP fun _ => test blank := by
      refine Cells.countP_congr_range' fun index hindex _ => ?_
      rw [read_eq, if_neg (by omega)]
    rw [hblank]
    by_cases htest : test blank = true <;> simp [htest]
  rw [count, hlow, hhigh]
  by_cases hin : bitRange store.depth ≤ first
  · have hnone : min last (bitRange store.depth) - first = 0 := by omega
    rw [hnone, List.range'_zero, List.countP_nil, Nat.zero_add, Nat.max_eq_left hin]
  · rw [Nat.max_eq_right (Nat.le_of_not_le hin)]
    by_cases hlast : last ≤ bitRange store.depth
    · have hnone : last - bitRange store.depth = 0 := by omega
      rw [hnone, List.range'_zero, List.countP_nil, Nat.add_zero, Nat.min_eq_left hlast]
    · rw [Nat.min_eq_right (Nat.le_of_not_le hlast)]
      exact (Cells.countP_range'_split _ (Nat.le_of_not_le hin) (Nat.le_of_not_le hlast)).symm

end Store

end KernelResources
