import Mathlib.Data.List.Perm.Subperm
import KernelResources.Heap.Shared
import KernelResources.Proofs.Ensures
import KernelResources.Proofs.Heap.Clients

/-!
# Links that go round in circles

Where the heap refuses a pointer that is given back, the kernel lists all blocks and stops. It does
so because the headers may be damaged, and still follows the links in them without a look at where
they lead. So whether the kernel stops depends on the links: if they come to an end, it does, after
no more blocks than the arena has places for; if they do not, the list goes on forever.

* `EndsAfter` says that the links lead through certain addresses and end behind them. No address
  comes twice, `EndsAfter.nodup`, which bounds how many there are.
* `dump_of_endsAfter` and `dump_of_endless` say what the list of blocks comes to in either case; the
  limit on the steps of a walk makes no difference.
* `Falters` says of an action that nothing but a sum of more than 64 bits stops it, and
  `free_cases` how giving a pointer back can end in any memory.
* `free_outcome`: giving a pointer back to the kernel heap returns, or stops the kernel, or never
  comes to an end; the last just if the pointer is refused and the links go round in circles.
* `endless_of_selfLink`: one link to its own header is enough.
-/

namespace KernelResources.Heap

variable {ε α β : Type} {heap heap' : Heap} {memory : ByteMemory} {cursor : Option Nat}
  {addresses addresses' before after : List Nat} {address steps pointer : Nat}
  {journal journal' journal'' : Journal}

/-! ## Where links lead -/

/-- The links from `cursor` lead through these addresses and end behind them. -/
def EndsAfter (memory : ByteMemory) : Option Nat → List Nat → Prop
  | cursor, [] => cursor = none
  | cursor, address :: rest =>
    cursor = some address ∧ EndsAfter memory (Header.load memory address).next rest

/-- Links lead through the same addresses whenever they are followed. -/
theorem EndsAfter.unique (h : EndsAfter memory cursor addresses)
    (h' : EndsAfter memory cursor addresses') : addresses = addresses' := by
  induction addresses generalizing cursor addresses' with
  | nil =>
    obtain rfl : cursor = none := h
    cases addresses' with
    | nil => rfl
    | cons address' rest' => cases h'.1
  | cons address rest ih =>
    obtain ⟨rfl, hrest⟩ := h
    cases addresses' with
    | nil => cases (h' : some address = none)
    | cons address' rest' =>
      obtain ⟨haddress, hrest'⟩ := h'
      cases haddress
      rw [ih hrest hrest']

/-- What follows an address in the list is where its link leads. -/
theorem EndsAfter.behind (h : EndsAfter memory cursor (before ++ address :: after)) :
    EndsAfter memory (Header.load memory address).next after := by
  induction before generalizing cursor with
  | nil => exact h.2
  | cons first rest ih => exact ih h.2

/-- Links that come to an end do not lead to an address twice. -/
theorem EndsAfter.nodup (h : EndsAfter memory cursor addresses) : addresses.Nodup := by
  induction addresses generalizing cursor with
  | nil => exact .nil
  | cons address rest ih =>
    refine List.nodup_cons.mpr ⟨fun hmem => ?_, ih h.2⟩
    -- From the second time on they would lead through what was still to come the first time.
    obtain ⟨before, after, rfl⟩ := List.append_of_mem hmem
    have hsame := congrArg List.length (h.2.behind.unique h.2)
    simp only [List.length_append, List.length_cons] at hsame
    omega

/-- Links that lead back to where they come from do not end. -/
theorem not_endsAfter_of_selfLink (h : (Header.load memory address).next = some address) :
    ¬∃ addresses, EndsAfter memory (some address) addresses := by
  rintro ⟨addresses, hends⟩
  cases addresses with
  | nil => cases (hends : some address = none)
  | cons first rest =>
    obtain ⟨hfirst, hrest⟩ := hends
    cases hfirst
    rw [h] at hrest
    -- The same list would follow once more.
    have htwice : EndsAfter memory (some address) (address :: address :: rest) :=
      ⟨rfl, by rw [h]; exact ⟨rfl, by rwa [h]⟩⟩
    exact (List.nodup_cons.mp htwice.nodup).1 List.mem_cons_self

/-- The links lead from the start of the arena to each of the addresses. -/
theorem EndsAfter.linked (h : EndsAfter heap.memory cursor addresses)
    (hcursor : ∀ first, cursor = some first → Linked heap first) (hmem : address ∈ addresses) :
    Linked heap address := by
  induction addresses generalizing cursor with
  | nil => cases hmem
  | cons first rest ih =>
    obtain ⟨rfl, hrest⟩ := h
    have hfirst := hcursor first rfl
    rcases List.mem_cons.mp hmem with rfl | hmem
    · exact hfirst
    · exact ih hrest (fun next hnext => hfirst.next hnext) hmem

/-- An address has 64 bits if a link leads to it. -/
theorem EndsAfter.lt_bitRange (h : EndsAfter memory cursor addresses)
    (hcursor : ∀ first, cursor = some first → first < bitRange 64) (hmem : address ∈ addresses) :
    address < bitRange 64 := by
  induction addresses generalizing cursor with
  | nil => cases hmem
  | cons first rest ih =>
    obtain ⟨rfl, hrest⟩ := h
    rcases List.mem_cons.mp hmem with rfl | hmem
    · exact hcursor _ rfl
    · exact ih hrest (fun next hnext => ((Header.fits_load memory first).next_lt next hnext).1) hmem

/-- A walk has a step for every address. -/
theorem EndsAfter.length_le_walkLimit (h : EndsAfter memory (some address) addresses)
    (haddress : address < bitRange 64) : addresses.length ≤ walkLimit := by
  have hsubset : addresses ⊆ List.range (bitRange 64) := fun other hmem =>
    List.mem_range.mpr (h.lt_bitRange (fun first hfirst => Option.some.inj hfirst ▸ haddress) hmem)
  have hle := (List.subperm_of_subset h.nodup hsubset).length_le
  rwa [List.length_range] at hle

/-- A header can begin at an address: it is aligned, and the whole header lies in the arena. -/
structure IsPlace (arena : Arena) (address : Nat) : Prop where
  /-- The address is that of a granule. -/
  aligned : address % granule = 0
  /-- The header does not begin in front of the arena. -/
  start_le : arena.start ≤ address
  /-- It does not reach beyond the end. -/
  le_limit : address + headerSize ≤ arena.start + arena.size

/-- Links that stay in the arena lead to no more addresses than there are places for headers. -/
theorem EndsAfter.length_le_places {arena : Arena}
    (h : EndsAfter memory (some arena.start) addresses)
    (hinside : ∀ address, Linked ⟨arena, memory⟩ address → IsPlace arena address) :
    addresses.length ≤ arena.size / granule := by
  have haligned := (hinside _ .start).aligned
  -- The links begin at the start of the arena, so its places are counted from there.
  have hsubset : addresses ⊆ (List.range (arena.size / granule)).map
      fun index => arena.start + granule * index := by
    intro address hmem
    have hlinked : Linked ⟨arena, memory⟩ address :=
      EndsAfter.linked h (fun first hfirst => Option.some.inj hfirst ▸ .start) hmem
    obtain ⟨haddress, hstart, hlimit⟩ := hinside address hlinked
    refine List.mem_map.mpr ⟨(address - arena.start) / granule, List.mem_range.mpr ?_, ?_⟩
    · simp only [headerSize, granule] at *
      omega
    · simp only [granule] at *
      omega
  have hle := (List.subperm_of_subset h.nodup hsubset).length_le
  rwa [List.length_map, List.length_range] at hle

/-! ## The list of blocks -/

/-- What the list of blocks says of the one at an address. -/
def report (memory : ByteMemory) (address : Nat) : Notice :=
  .blockDump address (Header.load memory address).size (Header.load memory address).free
    (Header.load memory address).guardWord

/-- The journal after these blocks were listed. -/
def reports (memory : ByteMemory) (addresses : List Nat) (journal : Journal) : Journal :=
  addresses.foldl (fun journal address => journal.push (report memory address)) journal

/-- One step of listing blocks. -/
def listBlock (_ : Unit) (block : Nat) (current : Header) : Action ε Heap Unit :=
  Action.note (.blockDump block current.size current.free current.guardWord)

/-- Blocks are listed up to the end of the links. -/
theorem walkFrom_of_endsAfter (h : EndsAfter heap.memory cursor addresses)
    (hsteps : addresses.length ≤ steps) (journal : Journal) :
    (walkFrom listBlock steps cursor () : Action ε Heap Unit) heap journal =
      .done () heap (reports heap.memory addresses journal) := by
  induction addresses generalizing cursor steps journal with
  | nil =>
    obtain rfl : cursor = none := h
    cases steps <;> rfl
  | cons address rest ih =>
    obtain ⟨rfl, hrest⟩ := h
    obtain ⟨steps, rfl⟩ := Nat.exists_eq_add_of_le' hsteps
    exact ih hrest (Nat.le_add_left _ _) _

/-- Where the links do not end, neither does the list, however many steps it is given. -/
theorem walkFrom_of_endless (h : ¬∃ addresses, EndsAfter heap.memory cursor addresses)
    (steps : Nat) (journal : Journal) : ∃ journal',
      (walkFrom listBlock steps cursor () : Action ε Heap Unit) heap journal =
        .halted .endlessWalk journal' := by
  -- Induction on the steps: behind a link that does not end there is another such link.
  induction steps generalizing cursor journal with
  | zero =>
    cases cursor with
    | none => exact absurd ⟨[], rfl⟩ h
    | some address => exact ⟨journal, rfl⟩
  | succ steps ih =>
    cases cursor with
    | none => exact absurd ⟨[], rfl⟩ h
    | some address =>
      refine ih (fun hends => ?_) _
      obtain ⟨rest, hrest⟩ := hends
      exact h ⟨address :: rest, rfl, hrest⟩

theorem dump_eq (heap : Heap) (journal : Journal) :
    dump heap journal = walkFrom listBlock walkLimit (some heap.arena.start) () heap
      (journal.push (.arenaDump heap.arena.start heap.arena.size)) := by
  rw [dump, Action.get_bind, Action.bind_of_done (Action.apply_note _ _ _), walk, Action.get_bind]
  rfl

/-- If the links end, the list of blocks does, and nothing changes. -/
theorem dump_of_endsAfter (heap : Heap)
    (h : EndsAfter heap.memory (some heap.arena.start) addresses)
    (hstart : heap.arena.start < bitRange 64) (journal : Journal) :
    dump heap journal = .done () heap (reports heap.memory addresses
      (journal.push (.arenaDump heap.arena.start heap.arena.size))) := by
  rw [dump_eq]
  -- The limit on the steps is never reached: it is the number of all addresses.
  exact walkFrom_of_endsAfter h (h.length_le_walkLimit hstart) _

/-- If they do not, the list of blocks goes on forever. -/
theorem dump_of_endless (heap : Heap)
    (h : ¬∃ addresses, EndsAfter heap.memory (some heap.arena.start) addresses)
    (journal : Journal) : ∃ journal', dump heap journal = .halted .endlessWalk journal' := by
  rw [dump_eq]
  exact walkFrom_of_endless h walkLimit _

/-! ## Giving back in any memory -/

/-- The action reports nothing, and nothing but a sum of more than 64 bits stops it. -/
def Falters (action : Action ε Heap α) : Prop :=
  ∀ heap journal, (∃ value heap', action heap journal = .done value heap' journal) ∨
    action heap journal = .halted .addOverflow journal

section Falters

theorem falters_pure (value : α) : Falters (pure value : Action ε Heap α) :=
  fun heap _ => .inl ⟨value, heap, rfl⟩

theorem falters_header (block : Nat) : Falters (header block : Action ε Heap Header) :=
  fun heap _ => .inl ⟨_, heap, rfl⟩

theorem falters_setField (block : Nat) (field : Header.Field) (number : Nat) :
    Falters (setField block field number : Action ε Heap Unit) :=
  fun _ _ => .inl ⟨(), _, rfl⟩

theorem falters_setPredecessor (link : Option Nat) (block : Nat) :
    Falters (setPredecessor link block : Action ε Heap Unit) := by
  cases link with
  | none => exact falters_pure ()
  | some next => exact falters_setField next .prev block

theorem falters_add (a b : Nat) : Falters (Action.add 64 a b : Action ε Heap Nat) := by
  intro heap journal
  unfold Action.add
  split
  · exact .inl ⟨_, heap, rfl⟩
  · exact .inr rfl

theorem Falters.bind {first : Action ε Heap α} {next : α → Action ε Heap β}
    (h : Falters first) (hnext : ∀ value, Falters (next value)) : Falters (first >>= next) := by
  intro heap journal
  rcases h heap journal with ⟨value, middle, hdone⟩ | hhalted
  · rw [Action.bind_of_done hdone]
    exact hnext value middle journal
  · exact .inr (Action.bind_eq_halted.mpr (.inl hhalted))

theorem falters_mergeNext (block : Nat) : Falters (mergeNext block : Action ε Heap Unit) := by
  refine (falters_header block).bind fun current => ?_
  split
  · exact falters_pure ()
  · refine (falters_header _).bind fun absorbed => (falters_add _ _).bind fun size => ?_
    exact (falters_setField _ _ _).bind fun _ => (falters_setField _ _ _).bind fun _ =>
      (falters_setPredecessor _ _).bind fun _ => (falters_setField _ _ _).bind fun _ =>
        (falters_setField _ _ _).bind fun _ => falters_setField _ _ _

theorem falters_mergeBehind (block : Nat) : Falters (mergeBehind block : Action ε Heap Unit) := by
  refine (falters_header block).bind fun current => ?_
  have hfree : Falters (isFreeLink current.next : Action ε Heap Bool) := by
    cases current.next with
    | none => exact falters_pure false
    | some next => exact (falters_header next).bind fun _ => falters_pure _
  refine hfree.bind fun behind => ?_
  split
  · exact falters_mergeNext block
  · exact falters_pure ()

theorem falters_mergeAhead (block : Nat) : Falters (mergeAhead block : Action ε Heap Unit) := by
  refine (falters_header block).bind fun current => ?_
  split
  · refine (falters_header _).bind fun ahead => ?_
    split
    · exact falters_mergeNext _
    · exact falters_pure ()
  · exact falters_pure ()

theorem falters_mergeNeighbours (block : Nat) :
    Falters (mergeNeighbours block : Action ε Heap Unit) := by
  rw [mergeNeighbours_eq]
  exact (falters_mergeBehind block).bind fun _ => falters_mergeAhead block

end Falters

/-- The owner of a pointer is found, or the pointer is refused with a notice. -/
theorem ownerOf_cases (hsize : headerSize ≤ heap.arena.size)
    (hlimit : heap.arena.start + heap.arena.size < bitRange 64) (pointer : Nat)
    (journal : Journal) :
    (∃ block, ownerOf pointer heap journal = .done block heap journal) ∨
      ∃ notice, ownerOf pointer heap journal =
        .refused .corruptionDetected heap (journal.push notice) := by
  -- Whether the pointer can have an owner is told by two sums, both of which have 64 bits.
  have hlowest : heap.arena.start + headerSize < bitRange 64 := by omega
  obtain ⟨owns, howns⟩ : ∃ owns,
      (canOwn pointer : Action MemoryError Heap Bool) heap journal = .done owns heap journal := by
    rw [canOwn, Action.get_bind, Action.add_eq_pure hlowest, pure_bind]
    split
    · exact ⟨_, rfl⟩
    · rw [Action.add_eq_pure hlimit, pure_bind]
      exact ⟨_, rfl⟩
  rw [ownerOf, Action.bind_of_done howns]
  cases owns with
  | false => exact .inr ⟨_, rfl⟩
  | true =>
    have hheader : (header (pointer - headerSize) : Action MemoryError Heap Header) heap journal =
        .done (Header.load heap.memory (pointer - headerSize)) heap journal := rfl
    rw [if_pos rfl, Action.bind_of_done hheader]
    split
    · exact .inr ⟨_, rfl⟩
    · split
      · exact .inr ⟨_, rfl⟩
      · exact .inl ⟨_, rfl⟩

/-- In any memory, giving a pointer back is done, or stopped by a sum of more than 64 bits, or the
pointer is refused and nothing changes. -/
theorem free_cases (heap : Heap) (hsize : headerSize ≤ heap.arena.size)
    (hlimit : heap.arena.start + heap.arena.size < bitRange 64) (pointer : Nat)
    (journal : Journal) :
    (∃ heap', free pointer heap journal = .done () heap' journal) ∨
      free pointer heap journal = .halted .addOverflow journal ∨
      ∃ notice, free pointer heap journal =
        .refused .corruptionDetected heap (journal.push notice) := by
  rcases ownerOf_cases hsize hlimit pointer journal with ⟨block, howner⟩ | ⟨notice, hrefused⟩
  · have hrest : Falters (do setField block .free true.toNat; mergeNeighbours block :
        Action MemoryError Heap Unit) :=
      (falters_setField _ _ _).bind fun _ => falters_mergeNeighbours block
    rw [free, Action.bind_of_done howner]
    rcases hrest heap journal with ⟨⟨⟩, heap', hdone⟩ | hhalted
    · exact .inl ⟨heap', hdone⟩
    · exact .inr (.inl hhalted)
  · exact .inr (.inr ⟨notice, Action.bind_of_refused hrefused⟩)

end KernelResources.Heap

namespace KernelResources.SharedHeap

open Heap

variable {α : Type} {shared : SharedHeap} {arena : Arena} {heap' : Heap} {pointer : Nat}
  {journal journal' journal'' : Journal}

/-! ## The kernel heap -/

/-- An action on the kernel heap is one on the heap in its arena; the interrupt flag is as before
when it returns. -/
theorem exclusively_eq (harena : shared.arena = some arena) (action : Action MemoryError Heap α)
    (journal : Journal) :
    exclusively action shared journal =
      match action ⟨arena, shared.memory⟩ journal with
      | .done value heap journal =>
        .done value { shared with arena := some heap.arena, memory := heap.memory } journal
      | .refused error heap journal =>
        .refused error { shared with arena := some heap.arena, memory := heap.memory } journal
      | .halted cause journal => .halted cause journal := by
  obtain ⟨enabled, _, memory⟩ := shared
  obtain rfl : _ = some arena := harena
  -- Whether interrupts were let in or not, the flag is put back as it was.
  cases hout : action ⟨arena, memory⟩ journal <;> cases enabled <;>
    simp [exclusively, Interrupts.masked, HasInterruptFlag.enabled, HasInterruptFlag.setEnabled,
      Action.get_bind, Action.apply_within, hout]

/-- Gives a pointer back, or lists all blocks and refuses it. -/
def freeOrDump (pointer : Nat) : Action MemoryError Heap Unit := do
  match ← (Heap.free pointer).attempt with
  | .ok () => pure ()
  | .error error =>
    Heap.dump.unrefused
    throw error

theorem freeOrDump_of_refused {heap : Heap} {error : MemoryError}
    (h : Heap.free pointer heap journal = .refused error heap' journal') :
    freeOrDump pointer heap journal =
      (do Heap.dump.unrefused; throw error : Action MemoryError Heap Unit) heap' journal' := by
  rw [freeOrDump, Action.bind_of_done (Action.attempt_of_refused h)]

/-- What the kernel makes of it. -/
theorem free_eq (harena : shared.arena = some arena) (pointer : Nat) (journal : Journal) :
    free pointer shared journal =
      match freeOrDump pointer ⟨arena, shared.memory⟩ journal with
      | .done () heap journal =>
        .done () { shared with arena := some heap.arena, memory := heap.memory } journal
      | .refused error _ journal => .halted (.heapFree error pointer) journal
      | .halted cause journal => .halted cause journal := by
  have hfree : free pointer = (exclusively (freeOrDump pointer)).attempt >>= fun result =>
      match result with
      | .ok () => pure ()
      | .error error => Action.halt (.heapFree error pointer) := rfl
  rw [hfree, Action.apply_bind, Action.apply_attempt, exclusively_eq harena]
  cases freeOrDump pointer ⟨arena, shared.memory⟩ journal <;> rfl

/-- A pointer that is refused stops the kernel once all blocks are listed, if the links end. -/
theorem free_of_endsAfter (harena : shared.arena = some arena) (hstart : arena.start < bitRange 64)
    (hrefused : Heap.free pointer ⟨arena, shared.memory⟩ journal =
      .refused .corruptionDetected ⟨arena, shared.memory⟩ journal')
    {addresses : List Nat} (hends : EndsAfter shared.memory (some arena.start) addresses) :
    free pointer shared journal = .halted (.heapFree .corruptionDetected pointer)
      (reports shared.memory addresses (journal'.push (.arenaDump arena.start arena.size))) := by
  have hdump := dump_of_endsAfter ⟨arena, shared.memory⟩ hends hstart journal'
  rw [free_eq harena, freeOrDump_of_refused hrefused,
    Action.bind_of_done (Action.unrefused_of_done hdump)]
  rfl

/-- It never does, if they do not. -/
theorem free_of_endless (shared : SharedHeap) (harena : shared.arena = some arena)
    (hrefused : Heap.free pointer ⟨arena, shared.memory⟩ journal =
      .refused .corruptionDetected ⟨arena, shared.memory⟩ journal')
    (hendless : ¬∃ addresses, EndsAfter shared.memory (some arena.start) addresses) :
    ∃ journal'', free pointer shared journal = .halted .endlessWalk journal'' := by
  obtain ⟨journal'', hdump⟩ := dump_of_endless ⟨arena, shared.memory⟩ hendless journal'
  have hunrefused : (dump.unrefused : Action MemoryError Heap Unit) ⟨arena, shared.memory⟩
      journal' = .halted .endlessWalk journal'' := by
    rw [Action.unrefused, Action.apply_mapError, hdump]
  refine ⟨journal'', ?_⟩
  rw [free_eq harena, freeOrDump_of_refused hrefused,
    Action.bind_eq_halted.mpr (.inl hunrefused)]

/-- How giving a pointer back to the kernel heap ends, whatever the memory of its arena holds and
whatever the pointer is. Either it returns, and nothing is reported; or two sizes have a sum of more
than 64 bits, which stops the kernel; or the pointer is refused with a notice. In that case all
blocks are listed before the kernel stops, if the links end, and no more of them than there are
places for headers as long as no link leads anywhere else. If the links do not end, neither does
the list, and the kernel never stops. -/
theorem free_outcome {start size : Nat} {memory memory' : ByteMemory}
    (hlimit : start + size < bitRange 64)
    (hinstall : Heap.install start size memory journal = .done arena memory' journal')
    (shared : SharedHeap) (harena : shared.arena = some arena) (pointer : Nat)
    (journal : Journal) :
    (∃ shared', free pointer shared journal = .done () shared' journal) ∨
      free pointer shared journal = .halted .addOverflow journal ∨
      ∃ notice, Heap.free pointer ⟨arena, shared.memory⟩ journal =
          .refused .corruptionDetected ⟨arena, shared.memory⟩ (journal.push notice) ∧
        ((∃ addresses, EndsAfter shared.memory (some arena.start) addresses ∧
            free pointer shared journal = .halted (.heapFree .corruptionDetected pointer)
              (reports shared.memory addresses
                ((journal.push notice).push (.arenaDump arena.start arena.size))) ∧
            ((∀ address, Linked ⟨arena, shared.memory⟩ address → IsPlace arena address) →
              addresses.length ≤ arena.size / granule)) ∨
          (¬∃ addresses, EndsAfter shared.memory (some arena.start) addresses) ∧
            ∃ journal', free pointer shared journal = .halted .endlessWalk journal') := by
  obtain ⟨-, -, hmin, -, -, hend, -⟩ := install_eq_done hinstall
  have hlimit : arena.start + arena.size < bitRange 64 := Nat.lt_of_le_of_lt hend hlimit
  have hsize : headerSize ≤ arena.size := Nat.le_trans (Nat.le_add_right _ _) hmin
  rcases free_cases ⟨arena, shared.memory⟩ hsize hlimit pointer journal with
    ⟨heap', hdone⟩ | hhalted | ⟨notice, hrefused⟩
  · refine .inl ⟨{ shared with arena := some heap'.arena, memory := heap'.memory }, ?_⟩
    rw [free_eq harena, freeOrDump, Action.bind_of_done (Action.attempt_of_done hdone)]
    rfl
  · refine .inr (.inl ?_)
    rw [free_eq harena, freeOrDump, Action.apply_bind, Action.apply_attempt, hhalted]
  · refine .inr (.inr ⟨notice, hrefused, ?_⟩)
    by_cases hends : ∃ addresses, EndsAfter shared.memory (some arena.start) addresses
    · obtain ⟨addresses, hends⟩ := hends
      refine .inl ⟨addresses, hends, free_of_endsAfter harena ?_ hrefused hends, fun hinside => ?_⟩
      · exact Nat.lt_of_le_of_lt (Nat.le_add_right _ _) hlimit
      · exact hends.length_le_places hinside
    · exact .inr ⟨hends, free_of_endless shared harena hrefused hends⟩

/-- In a new arena of 256 bytes nothing is alive, so a pointer that is given back is refused; the
one block is listed, and the kernel stops. -/
theorem free_outcome_of_newHeap :
    16 + 256 < bitRange 64 ∧ ∃ arena memory journal,
      Heap.install 16 256 .empty #[] = .done arena memory journal ∧
        ∃ addresses journal', EndsAfter memory (some arena.start) addresses ∧
          free 48 { enabled := true, arena := some arena, memory } #[] =
            .halted (.heapFree .corruptionDetected 48) journal' := by
  have hlimit : 16 + 256 < bitRange 64 := by decide
  have hrun : (Heap.install 16 256 .empty #[]).passes (fun arena memory _ =>
      match free 48 { enabled := true, arena := some arena, memory } #[] with
      | .done _ _ _ => false
      | .refused _ _ _ => false
      | .halted cause _ => cause = .heapFree .corruptionDetected 48) = true := by decide +kernel
  obtain ⟨arena, memory, journal, hinstall, hhalts⟩ := Outcome.passes_iff.mp hrun
  rcases free_outcome hlimit hinstall ⟨true, some arena, memory⟩ rfl 48 #[] with
    ⟨shared', hdone⟩ | hoverflow | ⟨notice, -, ⟨addresses, hends, hstops, -⟩ | ⟨-, journal', hgoes⟩⟩
  · rw [hdone] at hhalts
    cases hhalts
  · rw [hoverflow] at hhalts
    cases hhalts
  · exact ⟨hlimit, arena, memory, journal, hinstall, addresses, _, hends, hstops⟩
  · rw [hgoes] at hhalts
    cases hhalts

/-- Memory that is zero, but for the link of the header at 16, which leads to that header. -/
def selfLinked : ByteMemory := Header.Field.next.write .empty 16 16

theorem next_selfLinked {address : Nat} (haligned : address % granule = 0) (hstart : 16 ≤ address) :
    (Header.load selfLinked address).next = if address = 16 then some 16 else none := by
  split
  · subst address
    decide +kernel
  · -- The link of another header is in bytes that were not written to.
    have hzero : Header.Field.next.read selfLinked address = 0 := by
      rw [Header.Field.read, selfLinked, Header.Field.write,
        ByteMemory.readNumber_writeNumber_of_disjoint]
      · simp [ByteMemory.readNumber_eq, ByteMemory.numberFrom, Header.Field.length]
      · simp only [Header.Field.offset, Header.Field.length, granule] at *
        omega
    rw [Header.load, hzero]
    rfl

/-- The kernel does not always stop. In an arena of 256 bytes the link of the first header leads to
that header, and every link from a place for a header is absent or leads to such a place. A pointer
whose guard is damaged is refused, and then the list of blocks goes on forever. -/
theorem endless_of_selfLink :
    ∃ memory journal journal',
      Heap.install 16 256 .empty #[] = .done ⟨16, 256⟩ memory journal ∧
        (∀ address, IsPlace ⟨16, 256⟩ address → ∀ next,
          (Header.load selfLinked address).next = some next → IsPlace ⟨16, 256⟩ next) ∧
        (¬∃ addresses, EndsAfter selfLinked (some 16) addresses) ∧
          free 48 ⟨true, some ⟨16, 256⟩, selfLinked⟩ #[] = .halted .endlessWalk journal' := by
  have hrun : (Heap.install 16 256 .empty #[]).passes
      (fun arena _ _ => arena = ⟨16, 256⟩) = true := by decide +kernel
  obtain ⟨_, memory, journal, hinstall, harena⟩ := Outcome.passes_iff.mp hrun
  rw [of_decide_eq_true harena] at hinstall
  have hendless : ¬∃ addresses, EndsAfter selfLinked (some 16) addresses :=
    not_endsAfter_of_selfLink (next_selfLinked (by decide) (Nat.le_refl 16))
  have hrefused : Heap.free 48 ⟨⟨16, 256⟩, selfLinked⟩ #[] =
      .refused .corruptionDetected ⟨⟨16, 256⟩, selfLinked⟩
        #[.damagedGuard 0 16] := rfl
  obtain ⟨journal', hgoes⟩ :=
    free_of_endless ⟨true, some ⟨16, 256⟩, selfLinked⟩ rfl hrefused hendless
  refine ⟨memory, journal, journal', hinstall, fun address hplace next hnext => ?_, hendless, hgoes⟩
  rw [next_selfLinked hplace.aligned hplace.start_le] at hnext
  split at hnext
  · obtain rfl := Option.some.inj hnext
    exact ⟨by decide, by decide, by decide⟩
  · cases hnext

end KernelResources.SharedHeap
