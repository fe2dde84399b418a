import KernelResources.Proofs.Heap.Verification

/-!
# Verification of damaged lists

Verification is there for memory that somebody has damaged, so it must not rely on anything that a
header says. Its walk always ends, and of all the fields that it reads there is one that it does not
distrust enough: it adds the size of a block to its address before it looks whether the block lies
in the arena, and a size that leads beyond all addresses stops the kernel.

* `Overrun` is such a header, and `LeadsToOverrun` a list that is intact up to it.
* `verifyBlock_cases` says how the verification of one block can end, and `walk_verifyBlock_cases`
  how that of a list can.
* `verify_outcome`: verification returns, unless it comes to a size that leads beyond all addresses.
* `halts_of_hugeBlock`: one header with such a size is enough.
-/

namespace KernelResources.Heap

variable {heap : Heap} {blocks rest : List Block} {block : Block} {journal : Journal}
  {memory : ByteMemory} {passed : Passed} {address limit steps : Nat} {current : Header}

/-! ## One block -/

/-- A header looks like that of a block behind `prev`, but the block ends beyond all addresses. -/
structure Overrun (prev : Option Nat) (address : Nat) (current : Header) : Prop where
  /-- The guard is intact. -/
  guardWord_eq : current.guardWord = guardWord
  /-- The backward link leads to the block before it. -/
  prev_eq : current.prev = prev
  /-- The block has room for its header. -/
  headerSize_le : headerSize ≤ current.size
  /-- The block is made of granules. -/
  size_mod : current.size % granule = 0
  /-- The end of the block has more than 64 bits. -/
  overflows : bitRange 64 ≤ address + current.size

/-- The audit of a block halts if the block begins where it has to and overruns, and only then. -/
theorem faultOf_cases {ε : Type} (hlimit : heap.arena.start + heap.arena.size < bitRange 64)
    (journal : Journal) (passed : Passed) (address : Nat) (current : Header) :
    (address = passed.expected ∧ Overrun passed.previous address current) ∧
        (faultOf passed address current : Action ε Heap (Option Fault)) heap journal =
          .halted .addOverflow journal ∨
      ¬(address = passed.expected ∧ Overrun passed.previous address current) ∧ ∃ fault?,
        (faultOf passed address current : Action ε Heap (Option Fault)) heap journal =
          .done fault? heap journal := by
  unfold faultOf
  split
  · exact .inr ⟨fun h => absurd h.1 ‹_›, _, rfl⟩
  split
  · exact .inr ⟨fun h => absurd h.2.guardWord_eq ‹_›, _, rfl⟩
  split
  · exact .inr ⟨fun h => absurd h.2.prev_eq ‹_›, _, rfl⟩
  split
  · rename_i hsize
    exact .inr ⟨fun h => hsize.elim (Nat.not_lt.mpr h.2.headerSize_le) (absurd h.2.size_mod), _,
      rfl⟩
  rename_i haddress hguard hprev hsize
  obtain ⟨hmin, hmod⟩ := not_or.mp hsize
  rw [Action.get_bind]
  by_cases hlast : address + current.size < bitRange 64
  · refine .inr ⟨fun h => Nat.not_le.mpr hlast h.2.overflows, ?_⟩
    rw [Action.add_eq_pure hlast, pure_bind, Action.add_eq_pure hlimit, pure_bind]
    split
    · exact ⟨_, rfl⟩
    split <;> exact ⟨_, rfl⟩
  · refine .inl ⟨⟨not_not.mp haddress, not_not.mp hguard, not_not.mp hprev, not_lt.mp hmin,
      not_not.mp hmod, Nat.le_of_not_lt hlast⟩, ?_⟩
    rw [Action.add, if_neg hlast]
    rfl

/-- A block that overruns does not lie in an arena. -/
theorem Passed.Admits.not_overrun {prev : Option Nat} (h : passed.Admits limit address current)
    (hlimit : limit < bitRange 64) : ¬Overrun prev address current := fun hoverruns =>
  absurd hoverruns.overflows (Nat.not_le.mpr (Nat.lt_of_le_of_lt h.limit_le hlimit))

/-- Verification passes over a block, refuses it, or halts because it overruns. -/
theorem verifyBlock_cases (hlimit : heap.arena.start + heap.arena.size < bitRange 64)
    (hbytes : passed.stats.usedBytes + passed.stats.freeBytes ≤ passed.expected)
    (journal : Journal) (address : Nat) (current : Header) :
    (address = passed.expected ∧ Overrun passed.previous address current) ∧
        verifyBlock passed address current heap journal = .halted .addOverflow journal ∨
      ¬(address = passed.expected ∧ Overrun passed.previous address current) ∧
        (¬passed.Admits (heap.arena.start + heap.arena.size) address current ∧
            (∃ journal', verifyBlock passed address current heap journal =
              .refused .corruptionDetected heap journal') ∨
          passed.Admits (heap.arena.start + heap.arena.size) address current ∧
            verifyBlock passed address current heap journal =
              .done (passed.past (current.blockAt address)) heap journal) := by
  rcases faultOf_cases hlimit journal passed address current with
    ⟨hoverruns, hhalted⟩ | ⟨hfits, fault?, hfault⟩
  · exact .inl ⟨hoverruns, Action.bind_eq_halted.mpr (.inl hhalted)⟩
  · refine .inr ⟨hfits, ?_⟩
    cases fault? with
    | some fault =>
      refine .inl ⟨fun hadmits => ?_, journal.push (.heapFault fault address), ?_⟩
      · cases ((faultOf_eq_done hlimit).mpr ⟨hadmits, rfl, rfl⟩).symm.trans hfault
      · rw [verifyBlock, Action.bind_of_done hfault]
        rfl
    | none =>
      obtain ⟨hadmits, -, -⟩ := (faultOf_eq_done hlimit).mp hfault
      exact .inr ⟨hadmits, (verifyBlock_eq_done hlimit hbytes).mpr ⟨hadmits, rfl, rfl, rfl⟩⟩

/-! ## Along the list -/

/-- The blocks that verification has passed are continued by these up to `address`, where the list
goes on with a block that overruns. -/
structure Passed.RunsInto (passed : Passed) (memory : ByteMemory) (blocks : List Block)
    (address limit : Nat) : Prop where
  /-- Nothing is wrong with the blocks, which are linked to the address. -/
  continues : passed.Continues memory blocks (some address) address
  /-- The blocks lie in the arena. -/
  address_le : address ≤ limit
  /-- The block behind them overruns. -/
  overruns : Overrun (lastLink passed.previous blocks) address (Header.load memory address)

theorem runsInto_nil :
    passed.RunsInto memory [] address limit ↔ address = passed.expected ∧ address ≤ limit ∧
      Overrun passed.previous address (Header.load memory address) := by
  constructor
  · rintro ⟨hcontinues, haddress, hoverruns⟩
    exact ⟨hcontinues.paves.symm, haddress, hoverruns⟩
  · rintro ⟨hexpected, haddress, hoverruns⟩
    exact ⟨⟨trivial, hexpected.symm, .nil, fun _ hblock => nomatch hblock⟩, haddress, hoverruns⟩

/-- A list runs into an overrun if its first block agrees with the blocks before it, and the rest
runs into one. -/
theorem runsInto_cons :
    passed.RunsInto memory (block :: rest) address limit ↔
      Header.load memory block.address =
          block.header passed.previous (firstLink rest (some address)) ∧
        passed.Admits limit block.address (Header.load memory block.address) ∧
          (passed.past block).RunsInto memory rest address limit := by
  constructor
  · rintro ⟨hcontinues, haddress, hoverruns⟩
    obtain ⟨hload, hadmits, hrest⟩ := continues_cons.mp hcontinues
    exact ⟨hload, { hadmits with limit_le := Nat.le_trans hadmits.limit_le haddress }, hrest,
      haddress, hoverruns⟩
  · rintro ⟨hload, hadmits, hcontinues, haddress, hoverruns⟩
    refine ⟨continues_cons.mpr ⟨hload, { hadmits with limit_le := ?_ }, hcontinues⟩, haddress,
      hoverruns⟩
    rw [hload]
    exact hcontinues.paves.le

/-- Verification of a list halts if the list runs into an overrun, and only then; otherwise it
succeeds or is refused. -/
theorem walk_verifyBlock_cases (journal : Journal) (cursor : Option Nat)
    (hlimit : heap.arena.start + heap.arena.size < bitRange 64)
    (hbytes : passed.stats.usedBytes + passed.stats.freeBytes ≤ passed.expected)
    (hinside : passed.expected ≤ heap.arena.start + heap.arena.size)
    (hsteps : heap.arena.start + heap.arena.size < passed.expected + steps) :
    (∃ blocks address, firstLink blocks (some address) = cursor ∧
          passed.RunsInto heap.memory blocks address (heap.arena.start + heap.arena.size)) ∧
        walkFrom verifyBlock steps cursor passed heap journal = .halted .addOverflow journal ∨
      (¬∃ blocks address, firstLink blocks (some address) = cursor ∧
          passed.RunsInto heap.memory blocks address (heap.arena.start + heap.arena.size)) ∧
        ((∃ found, walkFrom verifyBlock steps cursor passed heap journal =
            .done found heap journal) ∨
          ∃ journal', walkFrom verifyBlock steps cursor passed heap journal =
            .refused .corruptionDetected heap journal') := by
  -- Induction along the walk, each step of which passes over one block.
  induction steps, cursor, passed using walkFrom.induct with
  | case1 steps passed =>
    refine .inr ⟨?_, .inl ⟨passed, by cases steps <;> rfl⟩⟩
    rintro ⟨blocks, address, hfirst, -⟩
    cases blocks <;> cases hfirst
  | case2 address passed => omega
  | case3 steps address passed ih =>
    rw [walkFrom_some]
    rcases verifyBlock_cases hlimit hbytes journal address (Header.load heap.memory address) with
      ⟨⟨hexpected, hoverruns⟩, hhalted⟩ | ⟨hfits, ⟨hfault, journal', hrefused⟩ | ⟨hadmits, hdone⟩⟩
    · exact .inl ⟨⟨[], address, rfl, runsInto_nil.mpr ⟨hexpected, hexpected ▸ hinside, hoverruns⟩⟩,
        Action.bind_eq_halted.mpr (.inl hhalted)⟩
    · refine .inr ⟨?_, .inr ⟨journal', Action.bind_of_refused hrefused⟩⟩
      rintro ⟨blocks, other, hfirst, hruns⟩
      cases blocks with
      | nil =>
        cases hfirst
        obtain ⟨hexpected, -, hoverruns⟩ := runsInto_nil.mp hruns
        exact hfits ⟨hexpected, hoverruns⟩
      | cons block rest =>
        cases hfirst
        exact hfault (runsInto_cons.mp hruns).2.1
    · -- The walk goes on behind the block, closer to the end of the arena.
      rw [Action.bind_of_done hdone]
      have haddress := hadmits.address_eq
      have hmin := hadmits.headerSize_le
      have hcloser : heap.arena.start + heap.arena.size <
          (passed.past ((Header.load heap.memory address).blockAt address)).expected + steps := by
        simp only [Passed.past, Block.limit, Header.blockAt, headerSize] at *
        omega
      rcases ih _ _ (hadmits.bytes_le hbytes) hadmits.limit_le hcloser with
        ⟨⟨rest, other, hfirst, hruns⟩, hhalted⟩ | ⟨hnone, hends⟩
      · refine .inl ⟨⟨_ :: rest, other, rfl, runsInto_cons.mpr ⟨?_, hadmits, hruns⟩⟩, hhalted⟩
        rw [hfirst]
        exact hadmits.header_eq.symm
      · refine .inr ⟨?_, hends⟩
        rintro ⟨blocks, other, hfirst, hruns⟩
        cases blocks with
        | nil =>
          cases hfirst
          exact hadmits.not_overrun hlimit (runsInto_nil.mp hruns).2.2
        | cons block rest =>
          cases hfirst
          obtain ⟨hload, -, hrest⟩ := runsInto_cons.mp hruns
          refine hnone ⟨rest, other, ?_, ?_⟩
          · rw [hload]
            rfl
          · rw [hload]
            exact hrest

/-! ## The whole list -/

/-- From the first address of the arena the links lead through these blocks to `address`. Nothing
about the blocks contradicts what a heap has to be like, but the block at `address` overruns. -/
structure LeadsToOverrun (heap : Heap) (blocks : List Block) (address : Nat) : Prop where
  /-- The list begins at the first address of the arena. -/
  firstLink_eq : firstLink blocks (some address) = some heap.arena.start
  /-- The blocks lie side by side from there on. -/
  paves : Paves heap.arena.start blocks address
  /-- They lie in the arena. -/
  address_le : address ≤ heap.arena.start + heap.arena.size
  /-- Their headers have intact guards, and are linked in both directions. -/
  chain : Chain heap.memory none blocks (some address)
  /-- Of two blocks side by side, at least one is in use. -/
  coalesced : Coalesced blocks
  /-- The block behind them overruns. -/
  header : Overrun (lastLink none blocks) address (Header.load heap.memory address)

theorem leadsToOverrun_iff :
    LeadsToOverrun heap blocks address ↔ firstLink blocks (some address) = some heap.arena.start ∧
      (Passed.start heap.arena).RunsInto heap.memory blocks address
        (heap.arena.start + heap.arena.size) := by
  constructor
  · rintro ⟨hfirst, hpaves, haddress, hchain, hcoalesced, hheader⟩
    exact ⟨hfirst, ⟨hchain, hpaves, hcoalesced, fun _ _ hfree => Bool.noConfusion hfree⟩, haddress,
      hheader⟩
  · rintro ⟨hfirst, ⟨hchain, hpaves, hcoalesced, -⟩, haddress, hheader⟩
    exact ⟨hfirst, hpaves, haddress, hchain, hcoalesced, hheader⟩

/-- Once its walk is done, verification succeeds or finds that the list is too short. -/
theorem verify_of_walk {passed : Passed}
    (hlimit : heap.arena.start + heap.arena.size < bitRange 64)
    (hwalk : walk verifyBlock (Passed.start heap.arena) heap journal = .done passed heap journal)
    (hstart : heap.arena.start ≤ passed.expected) :
    (∃ found, verify heap journal = .done found heap journal) ∨
      ∃ journal', verify heap journal = .refused .corruptionDetected heap journal' := by
  by_cases hexpected : passed.expected = heap.arena.start + heap.arena.size
  · refine .inl ⟨passed.stats, ?_⟩
    rw [verify, Action.get_bind]
    refine (Action.bind_of_done hwalk).trans ?_
    rw [Action.add_eq_pure hlimit, pure_bind, if_neg (not_not_intro hexpected)]
    rfl
  · refine .inr ⟨journal.push
      (.heapShort (passed.expected - heap.arena.start) heap.arena.size), ?_⟩
    rw [verify, Action.get_bind]
    refine (Action.bind_of_done hwalk).trans ?_
    rw [Action.add_eq_pure hlimit, pure_bind, if_pos hexpected, Action.subtract_eq_pure hstart,
      pure_bind]
    rfl

/-- Whatever the memory of a heap holds, verification of an arena whose end has 64 bits comes to
an end and changes nothing. If the list leads to a block whose end has more than 64 bits, with
nothing wrong before it, verification halts at the sum of the address and the size of that block;
otherwise it succeeds or is refused because of corruption. -/
theorem verify_outcome (heap : Heap) (journal : Journal)
    (hlimit : heap.arena.start + heap.arena.size < bitRange 64) :
    (∃ blocks address, LeadsToOverrun heap blocks address) ∧
        verify heap journal = .halted .addOverflow journal ∨
      (¬∃ blocks address, LeadsToOverrun heap blocks address) ∧
        ((∃ found, verify heap journal = .done found heap journal) ∨
          ∃ journal', verify heap journal = .refused .corruptionDetected heap journal') := by
  have hsteps : heap.arena.start + heap.arena.size <
      (Passed.start heap.arena).expected + walkLimit :=
    Nat.lt_of_lt_of_le hlimit (Nat.le_add_left _ _)
  have hwalk : walk verifyBlock (Passed.start heap.arena) heap journal =
      walkFrom verifyBlock walkLimit (some heap.arena.start) (Passed.start heap.arena) heap
        journal := by
    rw [walk, Action.get_bind]
  simp only [leadsToOverrun_iff]
  rcases walk_verifyBlock_cases journal (some heap.arena.start) hlimit (Nat.zero_le _)
      (Nat.le_add_right _ _) hsteps with
    ⟨hruns, hhalted⟩ | ⟨hnone, ⟨passed, hdone⟩ | ⟨journal', hrefused⟩⟩
  · refine .inl ⟨hruns, ?_⟩
    rw [verify, Action.get_bind]
    exact Action.bind_eq_halted.mpr (.inl (hwalk.trans hhalted))
  · -- The blocks that were passed begin where the arena does.
    obtain ⟨-, -, blocks, -, -, hcontinues⟩ :=
      continues_of_walk_verifyBlock hlimit (Nat.zero_le _) hdone
    exact .inr ⟨hnone, verify_of_walk hlimit (hwalk.trans hdone) hcontinues.paves.le⟩
  · refine .inr ⟨hnone, .inr ⟨journal', ?_⟩⟩
    rw [verify, Action.get_bind]
    exact Action.bind_of_refused (hwalk.trans hrefused)

/-- Memory that holds nothing but zeros does not lead to an overrun: its verification is refused. -/
theorem refused_of_emptyMemory :
    16 + 96 < bitRange 64 ∧ (¬∃ blocks address, LeadsToOverrun ⟨⟨16, 96⟩, .empty⟩ blocks address) ∧
      ∃ journal', verify ⟨⟨16, 96⟩, .empty⟩ #[] =
        .refused .corruptionDetected ⟨⟨16, 96⟩, .empty⟩ journal' := by
  have hlimit : 16 + 96 < bitRange 64 := by decide
  have hrefused : (verify ⟨⟨16, 96⟩, .empty⟩ #[]).failsWith (fun _ _ _ => true) = true := by
    decide +kernel
  obtain ⟨-, hhalted⟩ | ⟨hnone, ⟨found, hdone⟩ | hrefuses⟩ :=
    verify_outcome ⟨⟨16, 96⟩, .empty⟩ #[] hlimit
  · rw [hhalted] at hrefused
    cases hrefused
  · rw [hdone] at hrefused
    cases hrefused
  · exact ⟨hlimit, hnone, hrefuses⟩

/-- Verification does not return on all memories: where the first header of the arena has an intact
guard and the size 2 ^ 64 - 16, a multiple of a granule, the kernel halts. -/
theorem halts_of_hugeBlock :
    16 + 96 < bitRange 64 ∧ ∃ memory : ByteMemory,
      Header.load memory 16 =
        { size := bitRange 64 - 16, next := none, prev := none, guardWord, free := true } ∧
      verify ⟨⟨16, 96⟩, memory⟩ #[] = .halted .addOverflow #[] := by
  refine ⟨by decide, Header.store .empty 16
    { size := bitRange 64 - 16, next := none, prev := none, guardWord, free := true }, ?_, rfl⟩
  decide +kernel

end KernelResources.Heap
