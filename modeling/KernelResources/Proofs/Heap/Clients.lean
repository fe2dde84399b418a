import KernelResources.Proofs.Heap.Operations

/-!
# Clients of a heap

A session follows a heap and its clients from the installation of the arena on. Clients allocate,
resize and give back, and they write into payloads that are theirs. The session records which
payloads are alive and what size was asked for last.

* `Session.Permits` says what clients may do: they resize, give back and write to live payloads
  only, and they write no further than the capacity that the heap names.
* `Accounted` is the invariant: the blocks in use are the live payloads.
* `safety_of_reachable`: whatever clients did before, their payloads have the room that was asked
  for, are apart from each other and from all headers, and change only at their clients' request.
-/

namespace KernelResources

namespace Heap

/-- A request to the heap, or a byte that a client writes. -/
inductive Request where
  | allocate (size : Nat)
  | allocateZeroed (count size : Nat)
  | resize (pointer size : Nat)
  | free (pointer : Nat)
  | write (pointer offset : Nat) (byte : UInt8)
deriving DecidableEq, Repr

namespace Request

/-- Carries a request out. The answer is the payload that the request is about afterwards. -/
def run : Request → Action MemoryError Heap Nat
  | allocate size => Heap.allocate size
  | allocateZeroed count size => Heap.allocateZeroed count size
  | resize pointer size => Heap.resize pointer size
  | free pointer => do
    Heap.free pointer
    return pointer
  | write pointer offset byte => do
    modify fun heap => { heap with memory := heap.memory.write (pointer + offset) byte }
    return pointer

/-- Whether a client writes to its payload, which does not concern the heap. -/
def isWrite : Request → Bool
  | write _ _ _ => true
  | allocate _ | allocateZeroed _ _ | resize _ _ | free _ => false

/-- The live payload that a request was given. -/
def given? : Request → Option Nat
  | resize pointer _ | free pointer | write pointer _ _ => some pointer
  | allocate _ | allocateZeroed _ _ => none

end Request

/-- Which payloads are alive, with the size that was asked for last. -/
abbrev Live : Type := Nat → Option Nat

namespace Live

/-- The payload at `pointer` is alive. -/
def insert (live : Live) (pointer size : Nat) : Live := fun query =>
  if query = pointer then some size else live query

/-- The payload at `pointer` is given back. -/
def erase (live : Live) (pointer : Nat) : Live := fun query =>
  if query = pointer then none else live query

/-- The live payloads after a request was done with the answer `pointer`. -/
def after (live : Live) (pointer : Nat) : Request → Live
  | .allocate size => live.insert pointer size
  | .allocateZeroed count size => live.insert pointer (count * size)
  | .resize given size => (live.erase given).insert pointer size
  | .free given => live.erase given
  | .write _ _ _ => live

end Live

/-- The state of a run. -/
structure Session where
  /-- The heap. -/
  heap : Heap
  /-- The notices so far. -/
  journal : Journal
  /-- The live payloads. -/
  live : Live

namespace Session

/-- What the heap answers to the question for the capacity of a payload. -/
def capacity? (session : Session) (pointer : Nat) : Option Nat :=
  match capacity pointer session.heap session.journal with
  | .done found _ _ => some found
  | .refused _ _ _ | .halted _ _ => none

/-- The byte at an address. -/
def byteAt (session : Session) (address : Nat) : UInt8 := session.heap.memory.read address

/-- The session after a request, unless the request halts the kernel. -/
def step (request : Request) (session : Session) : Option Session :=
  match request.run session.heap session.journal with
  | .done pointer heap journal => some { heap, journal, live := session.live.after pointer request }
  | .refused _ heap journal => some { session with heap, journal }
  | .halted _ _ => none

/-- Only live payloads are resized, given back and written to, the latter within their capacity. -/
def Permits (session : Session) : Request → Prop
  | .resize pointer _ | .free pointer => (session.live pointer).isSome
  | .write pointer offset _ => (session.live pointer).isSome ∧
    ∃ capacity, session.capacity? pointer = some capacity ∧ offset < capacity
  | .allocate _ | .allocateZeroed _ _ => True

/-- A session is reachable if a run leads to it that begins with a new arena. -/
inductive Reachable (start size : Nat) (memory : ByteMemory) (journal : Journal) :
    Session → Prop where
  | install {arena : Arena} {memory' : ByteMemory} {journal' : Journal} :
      Heap.install start size memory journal = .done arena memory' journal' →
        Reachable start size memory journal ⟨⟨arena, memory'⟩, journal', fun _ => none⟩
  | step {session session' : Session} {request : Request} :
      Reachable start size memory journal session → session.Permits request →
        session.step request = some session' → Reachable start size memory journal session'

instance (session : Session) : (request : Request) → Decidable (session.Permits request)
  | .resize pointer _ | .free pointer => inferInstanceAs (Decidable (session.live pointer).isSome)
  | .write pointer offset _ =>
    inferInstanceAs (Decidable ((session.live pointer).isSome ∧
      ∃ capacity, capacity ∈ session.capacity? pointer ∧ offset < capacity))
  | .allocate _ | .allocateZeroed _ _ => inferInstanceAs (Decidable True)

/-- The session after a request, if that is allowed. -/
def after? (allowed : Session → Request → Bool) (session : Session) (request : Request) :
    Option Session :=
  if allowed session request then session.step request else none

/-- The session after these requests on a new arena, if all of them are allowed. -/
def ofRun? (allowed : Session → Request → Bool) (start size : Nat) (requests : List Request) :
    Option Session :=
  match Heap.install start size .empty #[] with
  | .done arena memory journal =>
    requests.foldlM (after? allowed) ⟨⟨arena, memory⟩, journal, fun _ => none⟩
  | .refused _ _ _ | .halted _ _ => none

/-- What holds of a new arena and is kept by allowed requests holds after them. -/
theorem of_ofRun? {allowed : Session → Request → Bool} {start size : Nat}
    {requests : List Request} {session : Session} (inv : Session → Prop)
    (hinstall : ∀ arena memory journal,
      Heap.install start size .empty #[] = .done arena memory journal →
        inv ⟨⟨arena, memory⟩, journal, fun _ => none⟩)
    (hstep : ∀ session request session', inv session → allowed session request = true →
      session.step request = some session' → inv session')
    (h : ofRun? allowed start size requests = some session) : inv session := by
  unfold ofRun? at h
  split at h
  case h_1 arena memory journal hdone =>
    refine of_foldlM inv (hinstall arena memory journal hdone) ?_ h
    intro request _ session session' hinv hafter
    unfold after? at hafter
    split at hafter
    case isTrue hallowed => exact hstep session request session' hinv hallowed hafter
    case isFalse => cases hafter
  case h_2 => cases h
  case h_3 => cases h

theorem reachable_of_ofRun? {start size : Nat} {requests : List Request} {session : Session}
    (h : ofRun? (fun session request => session.Permits request) start size requests =
      some session) : Reachable start size .empty #[] session :=
  of_ofRun? (Reachable start size .empty #[]) (fun _ _ _ => .install)
    (fun _ _ _ hreachable hpermits => hreachable.step (of_decide_eq_true hpermits)) h

end Session

/-- The links in the headers lead from the start of the arena to `address`. -/
inductive Linked (heap : Heap) : Nat → Prop where
  | start : Linked heap heap.arena.start
  | next {address next : Nat} : Linked heap address →
      (Header.load heap.memory address).next = some next → Linked heap next

/-! ## The invariant -/

/-- The blocks in use are the live payloads, and they have the room that was asked for. -/
structure Accounted (heap : Heap) (live : Live) (blocks : List Block) : Prop where
  /-- The headers describe the blocks. -/
  holds : Holds heap blocks
  /-- Every live payload is that of a block in use. -/
  owned : ∀ pointer size, live pointer = some size → ∃ block ∈ blocks, block.free = false ∧
    block.payload = pointer ∧ size + headerSize ≤ block.size
  /-- The payload of every block in use is alive. -/
  known : ∀ block ∈ blocks, block.free = false → (live block.payload).isSome

/-- The live payloads change as the blocks in use do. -/
structure Live.Follows (live live' : Live) (released obtained : List Block) : Prop where
  /-- A new block has the room that was asked for. -/
  present : ∀ new ∈ obtained, ∃ size, live' new.payload = some size ∧ size + headerSize ≤ new.size
  /-- The payload of a block that was given up is not alive, unless a new block takes its place. -/
  gone : ∀ old ∈ released, (∀ new ∈ obtained, new.payload ≠ old.payload) →
    live' old.payload = none
  /-- Nothing else changes. -/
  kept : ∀ query, (∀ block ∈ released ++ obtained, block.payload ≠ query) →
    live' query = live query

variable {heap heap' : Heap} {live live' : Live} {blocks blocks' released obtained : List Block}
  {block : Block} {session session' : Session} {request : Request} {pointer size : Nat}

/-- Blocks with one payload are one block. -/
theorem Holds.eq_of_payload (h : Holds heap blocks) {other : Block} (hblock : block ∈ blocks)
    (hother : other ∈ blocks) (hpayload : other.payload = block.payload) : other = block :=
  h.tiles.eq_of_address hblock hother (Nat.add_right_cancel hpayload)

/-- What stays in use stays alive, with the size that was asked for. -/
theorem Accounted.live_eq (h : Accounted heap live blocks)
    (htransfers : Transfers heap blocks released obtained heap' blocks')
    (hfollows : live.Follows live' released obtained) (hreleased : ∀ old ∈ released, old ∈ blocks)
    (hblock : block ∈ blocks) (hused : block.free = false) (hkept : block ∉ released) :
    live' block.payload = live block.payload := by
  refine hfollows.kept _ fun other hother heq => ?_
  rcases List.mem_append.mp hother with hold | hnew
  · exact hkept (h.holds.eq_of_payload hblock (hreleased other hold) heq ▸ hold)
  · exact htransfers.apart other hnew block hblock hused hkept (Nat.add_right_cancel heq.symm)

/-- The books are right after a change that the live payloads follow. -/
theorem Accounted.transfers (h : Accounted heap live blocks)
    (htransfers : Transfers heap blocks released obtained heap' blocks')
    (hfollows : live.Follows live' released obtained)
    (hreleased : ∀ old ∈ released, old ∈ blocks) : Accounted heap' live' blocks' where
  holds := htransfers.holds
  owned pointer size hlive := by
    by_cases hnew : ∃ new ∈ obtained, new.payload = pointer
    · obtain ⟨new, hmem, rfl⟩ := hnew
      obtain ⟨size', hlive', hsize⟩ := hfollows.present new hmem
      obtain rfl : size' = size := Option.some.inj (hlive'.symm.trans hlive)
      obtain ⟨hmem', hused⟩ := (htransfers.inUse new).mpr (.inl hmem)
      exact ⟨new, hmem', hused, rfl, hsize⟩
    -- A payload that is not new was alive before, and its block has stayed.
    · have hnot : ∀ new ∈ obtained, new.payload ≠ pointer := fun new hmem heq =>
        hnew ⟨new, hmem, heq⟩
      have hnotOld : ∀ old ∈ released, old.payload ≠ pointer := by
        rintro old hold rfl
        rw [hfollows.gone old hold hnot] at hlive
        cases hlive
      rw [hfollows.kept pointer fun block hblock =>
        (List.mem_append.mp hblock).elim (hnotOld block) (hnot block)] at hlive
      obtain ⟨block, hblock, hused, hpayload, hsize⟩ := h.owned pointer size hlive
      obtain ⟨hmem, -⟩ := (htransfers.inUse block).mpr
        (.inr ⟨⟨hblock, hused⟩, fun hold => hnotOld block hold hpayload⟩)
      exact ⟨block, hmem, hused, hpayload, hsize⟩
  known block hblock hused := by
    rcases (htransfers.inUse block).mp ⟨hblock, hused⟩ with hnew | ⟨⟨hold, -⟩, hkept⟩
    · obtain ⟨size, hlive, -⟩ := hfollows.present block hnew
      rw [hlive]
      rfl
    · rw [h.live_eq htransfers hfollows hreleased hold hused hkept]
      exact h.known block hold hused

/-- The block behind a live payload. -/
theorem Accounted.exists_block (h : Accounted heap live blocks) (hlive : (live pointer).isSome) :
    ∃ block ∈ blocks, block.free = false ∧ block.payload = pointer := by
  obtain ⟨size, hsize⟩ := Option.isSome_iff_exists.mp hlive
  obtain ⟨block, hblock, hused, hpayload, -⟩ := h.owned pointer size hsize
  exact ⟨block, hblock, hused, hpayload⟩

/-! ## A single request -/

/-- What serving a request leads to: the live payloads follow the blocks, and no block is given up
but the one that the request was given. A guarded heap stays guarded, unless clients write. -/
def Served (heap : Heap) (live : Live) (blocks : List Block) (request : Request) (pointer : Nat)
    (heap' : Heap) : Prop :=
  ∃ released obtained blocks', Transfers heap blocks released obtained heap' blocks' ∧
    live.Follows (live.after pointer request) released obtained ∧
      (∀ old ∈ released, old ∈ blocks ∧ request.given? = some old.payload) ∧
      (request.isWrite = false → Guarded heap blocks → Guarded heap' blocks')

/-- A payload that is new becomes alive. -/
theorem Live.follows_insert (live : Live) {new : Block} (hsize : size + headerSize ≤ new.size) :
    live.Follows (live.insert new.payload size) [] [new] where
  present := by
    intro other hother
    rw [List.mem_singleton.mp hother]
    exact ⟨size, if_pos rfl, hsize⟩
  gone := by simp
  kept query hquery := if_neg (hquery new List.mem_cons_self).symm

/-- A payload that was given back is not alive any more. -/
theorem Live.follows_erase (live : Live) (old : Block) :
    live.Follows (live.erase old.payload) [old] [] where
  present := by simp
  gone := by
    intro other hother _
    rw [List.mem_singleton.mp hother]
    exact if_pos rfl
  kept query hquery := if_neg (hquery old List.mem_cons_self).symm

/-- A payload that was moved is alive at its new place. -/
theorem Live.follows_move (live : Live) (old : Block) {new : Block}
    (hsize : size + headerSize ≤ new.size) :
    live.Follows ((live.erase old.payload).insert new.payload size) [old] [new] where
  present := ((live.erase old.payload).follows_insert hsize).present
  gone := by
    intro other hother hne
    rw [List.mem_singleton.mp hother] at hne ⊢
    rw [((live.erase old.payload).follows_insert hsize).kept _ (by simpa using hne)]
    exact if_pos rfl
  kept query hquery := by
    rw [((live.erase old.payload).follows_insert hsize).kept query
      fun block hblock => hquery block (List.mem_append_right _ hblock)]
    exact if_neg (hquery old List.mem_cons_self).symm

theorem served_of_obtained (h : Obtained heap blocks size pointer heap')
    (hafter : live.after pointer request = live.insert pointer size) :
    Served heap live blocks request pointer heap' := by
  obtain ⟨new, blocks', rfl, -, hsize, htransfers, hguarded⟩ := h
  exact ⟨[], [new], blocks', htransfers, hafter ▸ live.follows_insert hsize, by simp,
    fun _ => hguarded⟩

/-- Bytes written into a payload in use concern that payload alone. -/
theorem transfers_writing (h : Holds heap blocks) (hblock : block ∈ blocks)
    (hused : block.free = false) (harena : heap'.arena = heap.arena)
    (hread : ∀ query, ¬block.Contains query →
      heap'.memory.read query = heap.memory.read query) :
    Transfers heap blocks [block] [block] heap' blocks where
  arena_eq := harena
  holds := h.writing hblock harena hread
  inUse other := by
    by_cases heq : other = block
    · simp [heq, hblock, hused]
    · simp [heq]
  apart := by
    intro new hnew other hother _ hkept haddress
    rw [List.mem_singleton.mp hnew] at haddress
    exact hkept (List.mem_singleton.mpr (h.tiles.eq_of_address hblock hother haddress))
  payload := by
    intro other hother _ hkept query hquery
    exact hread query (h.not_contains hblock hother (fun heq => hkept (by simp [heq])) hquery)

/-- The heap names the capacity of every payload in use. -/
theorem Session.capacity?_eq (h : Holds session.heap blocks) (hblock : block ∈ blocks)
    (hused : block.free = false) :
    session.capacity? block.payload = some (block.size - headerSize) := by
  obtain ⟨found, heap', journal', hout, -, rfl⟩ :=
    (settles_capacity h hblock hused).exists_done session.journal
  unfold Session.capacity?
  rw [hout]

/-- Every permitted request returns. If it is refused, the heap is as it was. -/
theorem settles_run (h : Accounted session.heap session.live blocks)
    (hpermits : session.Permits request) :
    request.run.Settles session.heap
      (fun pointer heap' => Served session.heap session.live blocks request pointer heap')
      fun _ heap' => heap' = session.heap := by
  cases request with
  | allocate size =>
    exact (settles_allocate_obtained h.holds size).mono_done
      fun _ _ hdone => served_of_obtained hdone rfl
  | allocateZeroed count size =>
    exact (settles_allocateZeroed h.holds count size).mono_done
      fun _ _ hdone => served_of_obtained hdone.1 rfl
  | resize pointer size =>
    obtain ⟨block, hblock, hused, rfl⟩ := h.exists_block hpermits
    have hholds := h.holds
    obtain ⟨before, after, rfl⟩ := List.append_of_mem hblock
    refine (settles_resize hholds hused size).mono ?_ fun _ _ hrefused => hrefused.1
    rintro _ heap' ⟨⟨new, blocks', rfl, -, hsize, htransfers, -, hguarded⟩, -⟩
    refine ⟨[block], [new], blocks', htransfers, session.live.follows_move block hsize, ?_,
      fun _ => hguarded⟩
    intro old hold
    rw [List.mem_singleton.mp hold]
    exact ⟨hblock, rfl⟩
  | free pointer =>
    obtain ⟨block, hblock, hused, rfl⟩ := h.exists_block hpermits
    have hholds := h.holds
    obtain ⟨before, after, rfl⟩ := List.append_of_mem hblock
    refine (settles_free hholds hused).bind fun _ heap' hchanges => ?_
    refine Action.settles_pure ⟨[block], [], _, transfers_free hholds hchanges,
      session.live.follows_erase block, fun old hold => ?_, fun _ => hchanges.guarded⟩
    rw [List.mem_singleton.mp hold]
    exact ⟨hblock, rfl⟩
  | write pointer offset byte =>
    obtain ⟨hlive, capacity, hcapacity, hoffset⟩ := hpermits
    obtain ⟨requested, hrequested⟩ := Option.isSome_iff_exists.mp hlive
    obtain ⟨block, hblock, hused, rfl, hsize⟩ := h.owned pointer requested hrequested
    obtain rfl : block.size - headerSize = capacity :=
      Option.some.inj ((Session.capacity?_eq h.holds hblock hused).symm.trans hcapacity)
    -- The block is given up and obtained again with other bytes in it.
    refine Action.settles_bind (Action.settles_modify (Action.settles_pure
      ⟨[block], [block], blocks, transfers_writing h.holds hblock hused rfl ?_, ⟨?_, ?_, ?_⟩, ?_,
        nofun⟩))
    · intro query hquery
      show Store.read (Store.write _ _ _) _ = _
      rw [Store.read_write, if_neg]
      simp only [Block.Contains, Block.payload, Block.limit, headerSize] at *
      omega
    · intro new hnew
      rw [List.mem_singleton.mp hnew]
      exact ⟨requested, hrequested, hsize⟩
    · intro old hold hne
      exact absurd rfl (hne old hold)
    · intro query _
      rfl
    · intro old hold
      rw [List.mem_singleton.mp hold]
      exact ⟨hblock, rfl⟩

/-- A permitted request is served, or refused and nothing changes. -/
theorem exists_served (h : Accounted session.heap session.live blocks)
    (hpermits : session.Permits request) :
    ∃ session', session.step request = some session' ∧
      ((∃ pointer, session'.live = session.live.after pointer request ∧
          Served session.heap session.live blocks request pointer session'.heap) ∨
        session'.live = session.live ∧ session'.heap = session.heap) := by
  have hrun := settles_run h hpermits session.journal
  unfold Session.step
  cases hout : request.run session.heap session.journal with
  | done pointer heap' journal' =>
    rw [hout] at hrun
    exact ⟨_, rfl, .inl ⟨pointer, rfl, hrun.2⟩⟩
  | refused error heap' journal' =>
    rw [hout] at hrun
    exact ⟨_, rfl, .inr ⟨rfl, hrun.2⟩⟩
  | halted cause journal' =>
    rw [hout] at hrun
    exact hrun.elim

/-- A permitted request leaves the books right and concerns no live payload but the one it was
given. -/
theorem exists_step (h : Accounted session.heap session.live blocks)
    (hpermits : session.Permits request) :
    ∃ session', session.step request = some session' ∧
      session'.heap.arena = session.heap.arena ∧
      ∃ released blocks' : List Block, Accounted session'.heap session'.live blocks' ∧
        (∀ old ∈ released, request.given? = some old.payload) ∧
        ∀ block ∈ blocks, block.free = false → block ∉ released →
          block ∈ blocks' ∧ session'.live block.payload = session.live block.payload ∧
            ∀ query, block.Contains query → session'.byteAt query = session.byteAt query := by
  obtain ⟨session', hstep, ⟨pointer, hlive, released, obtained, blocks', htransfers, hfollows,
    hreleased, -⟩ | ⟨hlive, hheap⟩⟩ := exists_served h hpermits
  · have hmem (old : Block) (hold : old ∈ released) : old ∈ blocks := (hreleased old hold).1
    rw [← hlive] at hfollows
    refine ⟨session', hstep, htransfers.arena_eq, released, blocks',
      h.transfers htransfers hfollows hmem, fun old hold => (hreleased old hold).2, ?_⟩
    intro block hblock hused hkept
    exact ⟨((htransfers.inUse block).mpr (.inr ⟨⟨hblock, hused⟩, hkept⟩)).1,
      h.live_eq htransfers hfollows hmem hblock hused hkept,
      htransfers.payload block hblock hused hkept⟩
  -- A refused request leaves the heap as it was.
  · refine ⟨session', hstep, congrArg Heap.arena hheap, [], blocks, ?_, by simp, ?_⟩
    · rw [hheap, hlive]
      exact h
    · intro block hblock _ _
      exact ⟨hblock, congrFun hlive _, fun _ _ => by rw [Session.byteAt, hheap]; rfl⟩

/-! ## Runs -/

section Runs

variable {start : Nat} {memory : ByteMemory} {journal : Journal}

/-- After any run, the blocks in use are the live payloads. -/
theorem accounted_of_reachable (hlimit : start + size < bitRange 64)
    (h : Session.Reachable start size memory journal session) :
    start ≤ session.heap.arena.start ∧
      session.heap.arena.start + session.heap.arena.size ≤ start + size ∧
        ∃ blocks, Accounted session.heap session.live blocks := by
  induction h with
  | install hinstall =>
    obtain ⟨-, -, -, -, hstart, hend, -⟩ := install_eq_done hinstall
    -- At first nothing is alive, and nothing is in use.
    exact ⟨hstart, hend, _, holds_install hinstall hlimit, by simp, by simp⟩
  | step _ hpermits hstep ih =>
    obtain ⟨hstart, hend, blocks, haccounted⟩ := ih
    obtain ⟨next, hnext, harena, -, blocks', haccounted', -⟩ := exists_step haccounted hpermits
    obtain rfl := Option.some.inj (hnext.symm.trans hstep)
    rw [harena]
    exact ⟨hstart, hend, blocks', haccounted'⟩

/-- What the client of a live payload may rely on, when `requested` bytes were asked for last and
the heap names `capacity`. -/
structure Session.Safe (session : Session) (pointer requested capacity : Nat) : Prop where
  /-- There is room for what was asked for. -/
  requested_le : requested ≤ capacity
  /-- Payloads are aligned. -/
  aligned : pointer % 16 = 0
  /-- The payload does not begin before the arena. -/
  start_le : session.heap.arena.start ≤ pointer
  /-- The payload does not reach beyond the arena. -/
  le_limit : pointer + capacity ≤ session.heap.arena.start + session.heap.arena.size
  /-- No header is in the payload. -/
  no_header : ∀ address, Linked session.heap address →
    address + headerSize ≤ pointer ∨ pointer + capacity ≤ address
  /-- No byte of the payload is in another live one. -/
  apart : ∀ other capacity', (session.live other).isSome →
    session.capacity? other = some capacity' → other ≠ pointer →
      pointer + capacity ≤ other ∨ other + capacity' ≤ pointer

/-- The links lead to blocks. -/
theorem Holds.exists_of_linked (h : Holds heap blocks) {address : Nat}
    (hlinked : Linked heap address) : ∃ block ∈ blocks, block.address = address := by
  induction hlinked with
  | start => exact exists_of_firstLink h.firstLink_eq
  | next _ hnext ih =>
    obtain ⟨block, hblock, rfl⟩ := ih
    obtain ⟨before, after, rfl⟩ := List.append_of_mem hblock
    rw [h.chain_around.2.1] at hnext
    obtain ⟨next, hmem, haddress⟩ := exists_of_firstLink hnext
    exact ⟨next, List.mem_append_right _ (List.mem_cons_of_mem _ hmem), haddress⟩

/-- A block in use, seen from its client, is safe. -/
theorem Accounted.safe (h : Accounted session.heap session.live blocks) (hblock : block ∈ blocks)
    {requested : Nat} (hsize : requested + headerSize ≤ block.size) :
    session.Safe block.payload requested (block.size - headerSize) := by
  obtain ⟨hstart, hlimit, -, -⟩ := h.holds.address_bounds hblock
  have haligned := h.holds.tiles.aligned h.holds.start_aligned hblock
  -- Every block has room for its header, which keeps headers and payloads apart.
  have hmin (other : Block) (hother : other ∈ blocks) : minBlockSize ≤ other.size :=
    (h.holds.tiles.bounds hother).2.2.1
  have hblockMin := hmin block hblock
  constructor
  case requested_le => omega
  case aligned =>
    simp only [Block.payload, headerSize, granule] at *
    omega
  case start_le => exact Nat.le_trans hstart (Nat.le_add_right _ _)
  case le_limit =>
    simp only [Block.payload, Block.limit, headerSize, minBlockSize] at *
    omega
  case no_header =>
    intro address hlinked
    obtain ⟨other, hother, rfl⟩ := h.holds.exists_of_linked hlinked
    -- The header of the block itself ends where the payload begins.
    by_cases heq : other = block
    · exact .inl (Nat.le_of_eq (congrArg Block.payload heq))
    · have hapart := h.holds.tiles.apart hblock hother heq
      have hotherMin := hmin other hother
      simp only [Block.payload, Block.limit, headerSize, minBlockSize] at *
      omega
  case apart =>
    intro pointer capacity hlive hcapacity hne
    obtain ⟨other, hother, hused, rfl⟩ := h.exists_block hlive
    rw [Session.capacity?_eq h.holds hother hused] at hcapacity
    obtain rfl := Option.some.inj hcapacity
    have hapart := h.holds.tiles.apart hblock hother fun heq => hne (congrArg _ heq)
    have hotherMin := hmin other hother
    simp only [Block.payload, Block.limit, headerSize, minBlockSize] at *
    omega

/-- Memory safety for clients of a heap. After any run on an arena whose end has 64 bits, every
live payload is safe. Every request that clients may make returns, and concerns no live payload but
the one it was given: the others stay alive with their capacity and all their bytes. Live payloads
can be given back. Payloads that were asked for with zeros begin with zeros. -/
theorem safety_of_reachable (hlimit : start + size < bitRange 64)
    (h : Session.Reachable start size memory journal session) :
    (start ≤ session.heap.arena.start ∧
      session.heap.arena.start + session.heap.arena.size ≤ start + size) ∧
    (∀ pointer requested, session.live pointer = some requested → ∃ capacity,
      session.capacity? pointer = some capacity ∧ session.Safe pointer requested capacity) ∧
    (∀ request, session.Permits request → ∃ session', session.step request = some session' ∧
      ∀ pointer capacity, (session.live pointer).isSome →
        session.capacity? pointer = some capacity → request.given? ≠ some pointer →
          session'.live pointer = session.live pointer ∧
          session'.capacity? pointer = some capacity ∧
          ∀ offset < capacity,
            session'.byteAt (pointer + offset) = session.byteAt (pointer + offset)) ∧
    (∀ pointer, (session.live pointer).isSome → ∃ heap' journal',
      free pointer session.heap session.journal = .done () heap' journal') ∧
    ∀ count size pointer heap' journal',
      allocateZeroed count size session.heap session.journal = .done pointer heap' journal' →
        ∀ offset < count * size, heap'.memory.read (pointer + offset) = 0 := by
  obtain ⟨hstart, hend, blocks, haccounted⟩ := accounted_of_reachable hlimit h
  refine ⟨⟨hstart, hend⟩, ?_, ?_, ?_, ?_⟩
  · intro pointer requested hlive
    obtain ⟨block, hblock, hused, rfl, hsize⟩ := haccounted.owned pointer requested hlive
    exact ⟨_, Session.capacity?_eq haccounted.holds hblock hused, haccounted.safe hblock hsize⟩
  · intro request hpermits
    obtain ⟨session', hstep, -, released, blocks', haccounted', hreleased, hkept⟩ :=
      exists_step haccounted hpermits
    refine ⟨session', hstep, fun pointer capacity hlive hcapacity hgiven => ?_⟩
    obtain ⟨block, hblock, hused, rfl⟩ := haccounted.exists_block hlive
    rw [Session.capacity?_eq haccounted.holds hblock hused] at hcapacity
    obtain rfl := Option.some.inj hcapacity
    obtain ⟨hblock', hlive', hbytes⟩ :=
      hkept block hblock hused fun hold => hgiven (hreleased block hold)
    refine ⟨hlive', Session.capacity?_eq haccounted'.holds hblock' hused, fun offset hoffset => ?_⟩
    -- The capacity reaches to the end of the block.
    refine hbytes _ ?_
    simp only [Block.Contains, Block.payload, Block.limit, headerSize] at *
    omega
  · intro pointer hlive
    obtain ⟨block, hblock, hused, rfl⟩ := haccounted.exists_block hlive
    have hholds := haccounted.holds
    obtain ⟨before, after, rfl⟩ := List.append_of_mem hblock
    obtain ⟨⟨⟩, heap', journal', hout, -⟩ := (settles_free hholds hused).exists_done session.journal
    exact ⟨heap', journal', hout⟩
  · intro count size pointer heap' journal' hout
    exact ((settles_allocateZeroed haccounted.holds count size).of_done hout).2

/-- In an arena of 256 bytes a client asks for three clean numbers, another one for 20 bytes, and
the first one writes into its payload. -/
theorem safety_of_smallArena :
    ∃ session, Session.Reachable 16 256 .empty #[] session ∧ session.live 48 = some 24 ∧
      ∃ capacity, session.capacity? 48 = some capacity ∧ session.Safe 48 24 capacity := by
  have hrun : (match install 16 256 .empty #[] with
      | .done arena memory journal =>
        match Session.step (.allocateZeroed 3 8) ⟨⟨arena, memory⟩, journal, fun _ => none⟩ with
        | some first =>
          match first.step (.allocate 20) with
          | some second =>
            match second.step (.write 48 5 7) with
            | some third => decide (second.live 48 = some 24 ∧ second.capacity? 48 = some 32 ∧
                third.live 48 = some 24)
            | none => false
          | none => false
        | none => false
      | _ => false) = true := by decide +kernel
  split at hrun
  case h_1 arena memory journal hinstall =>
    split at hrun
    case h_1 first hfirst =>
      split at hrun
      case h_1 second hsecond =>
        split at hrun
        case h_1 third hthird =>
          obtain ⟨hlive, hcapacity, hlive'⟩ := of_decide_eq_true hrun
          have hsecondReachable : Session.Reachable 16 256 .empty #[] second :=
            .step (.step (.install hinstall) (by trivial) hfirst) (by trivial) hsecond
          have hpermits : second.Permits (.write 48 5 7) :=
            ⟨by rw [hlive]; rfl, 32, hcapacity, by decide⟩
          have hreachable := hsecondReachable.step hpermits hthird
          obtain ⟨capacity, hcapacity, hsafe⟩ :=
            (safety_of_reachable (by decide) hreachable).2.1 48 24 hlive'
          exact ⟨third, hreachable, hlive', capacity, hcapacity, hsafe⟩
        case h_2 => cases hrun
      case h_2 => cases hrun
    case h_2 => cases hrun
  case h_2 => cases hrun

end Runs

end Heap

end KernelResources
