import KernelResources.Proofs.Heap.Clients

/-!
# Pointers that are no payloads

Clients may pass any pointer to a heap: one that they gave back already, one into the middle of a
payload, or one to a block that was merged with another since. The heap tells them from its payloads
by the guard word and the free flag in front of them, so all depends on guard words standing in
front of blocks only.

* `settles_ownerOf_of_foreign`: in a guarded heap, a pointer that is not the payload of a block in
  use is refused, and nothing changes.
* `Session.Exposed` are the runs in which clients pass any pointers they like. They also write what
  they like into their payloads, but leave no guard word where a header could have it.
* `verdicts_of_exposed`: after any such run, exactly the live payloads are accepted.
-/

namespace KernelResources.Heap

variable {heap : Heap} {live : Live} {blocks : List Block} {session session' : Session}
  {request : Request} {pointer : Nat}

/-! ## Refused pointers -/

/-- Whether a pointer is not the payload of any block in use. -/
def Foreign (blocks : List Block) (pointer : Nat) : Prop :=
  ∀ block ∈ blocks, block.free = false → block.payload ≠ pointer

/-- Only payloads of blocks in use have an owner in a guarded heap. -/
theorem settles_ownerOf_of_foreign {done : Nat → Heap → Prop} (h : Holds heap blocks)
    (hguarded : Guarded heap blocks) (hforeign : Foreign blocks pointer) :
    (ownerOf pointer).Settles heap done fun error heap' =>
      error = .corruptionDetected ∧ heap' = heap := by
  have hlimit := h.limit_lt
  -- The range that is checked does not wrap around.
  have hsize : headerSize ≤ heap.arena.size := by
    obtain ⟨block, hblock, -⟩ := exists_of_firstLink h.firstLink_eq
    have hbounds := h.tiles.bounds hblock
    simp only [Block.limit, minBlockSize, headerSize, granule] at *
    omega
  have hlowest : heap.arena.start + headerSize < bitRange 64 := by omega
  have howns : (canOwn pointer : Action MemoryError Heap Bool).Settles heap
      (fun owns heap' => heap' = heap ∧ (owns = true → heap.arena.start + headerSize ≤ pointer ∧
        pointer < heap.arena.start + heap.arena.size ∧ (pointer - heap.arena.start) % granule = 0))
      fun error heap' => error = .corruptionDetected ∧ heap' = heap := by
    refine Action.settles_get ?_
    simp only [Action.add_eq_pure hlowest, Action.add_eq_pure hlimit, pure_bind]
    split
    · exact Action.settles_pure ⟨rfl, fun howns => absurd howns Bool.false_ne_true⟩
    · exact Action.settles_pure ⟨rfl, fun howns =>
        ⟨Nat.le_of_not_lt ‹_›, (of_decide_eq_true howns).1, (of_decide_eq_true howns).2⟩⟩
  refine howns.bind ?_
  rintro owns heap ⟨rfl, howns⟩
  cases owns with
  | false => exact Action.settles_bind (Action.settles_note rfl (Action.settles_throw ⟨rfl, rfl⟩))
  | true =>
    obtain ⟨hlow, hhigh, haligned⟩ := howns rfl
    simp only [if_true]
    refine Action.settles_bind (settles_header ?_)
    by_cases hguard : (Header.load heap.memory (pointer - headerSize)).guardWord = guardWord
    · -- Where a guard word stands there is a block, and it can only be free.
      obtain ⟨block, hblock, haddress⟩ :
          ∃ block ∈ blocks, block.address = pointer - headerSize := by
        have hstart := h.start_aligned
        refine Decidable.byContradiction fun hnone => hguarded (pointer - headerSize) (by omega)
          (by omega) ⟨?_, hguard, fun block hblock heq => hnone ⟨block, hblock, heq⟩⟩
        simp only [headerSize, granule] at *
        omega
      obtain ⟨before, after, rfl⟩ := List.append_of_mem hblock
      have hload := h.chain_around.2.1
      rw [haddress] at hload
      have hfree : block.free = true := by
        refine Decidable.byContradiction fun hused => hforeign block hblock
          (Bool.eq_false_iff.mpr hused) ?_
        rw [Block.payload, haddress]
        omega
      rw [if_neg (not_not_intro hguard), hload]
      simp only [Block.header, hfree, if_true]
      exact Action.settles_bind (Action.settles_note rfl (Action.settles_throw ⟨rfl, rfl⟩))
    · rw [if_pos hguard]
      exact Action.settles_bind (Action.settles_note rfl (Action.settles_throw ⟨rfl, rfl⟩))

section Foreign

variable (h : Holds heap blocks) (hguarded : Guarded heap blocks)
  (hforeign : Foreign blocks pointer)
include h hguarded hforeign

theorem settles_free_of_foreign {done : Unit → Heap → Prop} :
    (free pointer).Settles heap done fun error heap' =>
      error = .corruptionDetected ∧ heap' = heap :=
  (settles_ownerOf_of_foreign h hguarded hforeign).bind fun _ _ hnever => False.elim hnever

theorem settles_resize_of_foreign {done : Nat → Heap → Prop} (size : Nat) :
    (resize pointer size).Settles heap done fun error heap' =>
      error = .corruptionDetected ∧ heap' = heap :=
  (settles_ownerOf_of_foreign h hguarded hforeign).bind fun _ _ hnever => False.elim hnever

theorem settles_capacity_of_foreign {done : Nat → Heap → Prop} :
    (capacity pointer).Settles heap done fun error heap' =>
      error = .corruptionDetected ∧ heap' = heap :=
  (settles_ownerOf_of_foreign h hguarded hforeign).bind fun _ _ hnever => False.elim hnever

end Foreign

theorem Accounted.foreign (h : Accounted heap live blocks) (hdead : live pointer = none) :
    Foreign blocks pointer := by
  rintro block hblock hused rfl
  have hlive := h.known block hblock hused
  rw [hdead] at hlive
  cases hlive

/-! ## Runs -/

/-- Whether an address is in a live payload. -/
def Session.InPayload (session : Session) (address : Nat) : Prop :=
  ∃ pointer capacity, (session.live pointer).isSome ∧ session.capacity? pointer = some capacity ∧
    pointer ≤ address ∧ address < pointer + capacity

/-- Clients have written into live payloads what they like, and have left no guard word where a
header could have it. -/
structure Session.Scribbles (session : Session) (memory : ByteMemory) : Prop where
  /-- Nothing else is written to. -/
  outside : ∀ address, ¬session.InPayload address →
    memory.read address = session.heap.memory.read address
  /-- Headers begin at multiples of 16, and have the guard word 24 bytes further on. -/
  unforged : ∀ offset, offset % 16 = 8 → session.InPayload (session.heap.arena.start + offset) →
    memory.readNumber (session.heap.arena.start + offset) 4 ≠ guardWord

/-- A session is exposed if a run leads to it that begins with a new arena and in which clients pass
any pointers they like. -/
inductive Session.Exposed (start size : Nat) (memory : ByteMemory) (journal : Journal) :
    Session → Prop where
  | install {arena : Arena} {memory' : ByteMemory} {journal' : Journal} :
      Heap.install start size memory journal = .done arena memory' journal' →
        Exposed start size memory journal ⟨⟨arena, memory'⟩, journal', fun _ => none⟩
  | call {session session' : Session} {request : Request} :
      Exposed start size memory journal session → request.isWrite = false →
        session.step request = some session' → Exposed start size memory journal session'
  | scribble {session : Session} {memory' : ByteMemory} :
      Exposed start size memory journal session → session.Scribbles memory' →
        Exposed start size memory journal { session with heap.memory := memory' }

/-- A call that is given nothing but a live payload is permitted. -/
theorem Session.permits_of_given (hcall : request.isWrite = false)
    (hgiven : ∀ pointer, request.given? = some pointer → (session.live pointer).isSome) :
    session.Permits request := by
  cases request with
  | allocate size => trivial
  | allocateZeroed count size => trivial
  | resize pointer size => exact hgiven pointer rfl
  | free pointer => exact hgiven pointer rfl
  | write pointer offset byte => cases hcall

/-- Otherwise it is given a pointer that is not alive. -/
theorem Session.exists_dead_of_not
    (h : ¬∀ pointer, request.given? = some pointer → (session.live pointer).isSome) :
    ∃ pointer, request.given? = some pointer ∧ session.live pointer = none := by
  obtain ⟨pointer, hpointer⟩ := Classical.not_forall.mp h
  obtain ⟨hgiven, hdead⟩ := Classical.not_imp.mp hpointer
  exact ⟨pointer, hgiven, Option.not_isSome_iff_eq_none.mp hdead⟩

/-- The heap tells live payloads from all other pointers. -/
structure Session.Discerns (session : Session) (blocks : List Block) : Prop where
  /-- The blocks in use are the live payloads. -/
  accounted : Accounted session.heap session.live blocks
  /-- Every guard word in the arena belongs to a block. -/
  guarded : Guarded session.heap blocks

namespace Session.Discerns

theorem of_unchanged (h : session.Discerns blocks) (hlive : session'.live = session.live)
    (hheap : session'.heap = session.heap) : session'.Discerns blocks := by
  constructor <;> rw [hheap]
  · exact hlive ▸ h.accounted
  · exact h.guarded

theorem step_of_permits (h : session.Discerns blocks) (hpermits : session.Permits request)
    (hcall : request.isWrite = false) (hstep : session.step request = some session') :
    ∃ blocks', session'.Discerns blocks' := by
  obtain ⟨next, hnext, hserved⟩ := exists_served h.accounted hpermits
  obtain rfl := Option.some.inj (hnext.symm.trans hstep)
  rcases hserved with ⟨pointer, hlive, released, obtained, blocks', htransfers, hfollows, hreleased,
    hguarded⟩ | ⟨hlive, hheap⟩
  · exact ⟨blocks', h.accounted.transfers htransfers (hlive ▸ hfollows)
      fun old hold => (hreleased old hold).1, hguarded hcall h.guarded⟩
  · exact ⟨blocks, h.of_unchanged hlive hheap⟩

/-- A request that is given anything else than a live payload is refused. -/
theorem settles_run_of_dead (h : session.Discerns blocks) (hcall : request.isWrite = false)
    (hgiven : request.given? = some pointer) (hdead : session.live pointer = none) :
    request.run.Settles session.heap (fun _ _ => False) fun error heap' =>
      error = .corruptionDetected ∧ heap' = session.heap := by
  have hforeign := h.accounted.foreign hdead
  cases request with
  | allocate size => cases hgiven
  | allocateZeroed count size => cases hgiven
  | resize given size =>
    obtain rfl := Option.some.inj hgiven
    exact settles_resize_of_foreign h.accounted.holds h.guarded hforeign size
  | free given =>
    obtain rfl := Option.some.inj hgiven
    exact (settles_free_of_foreign h.accounted.holds h.guarded hforeign).bind
      fun _ _ hnever => False.elim hnever
  | write given offset byte => cases hcall

theorem step_of_dead (h : session.Discerns blocks) (hcall : request.isWrite = false)
    (hgiven : request.given? = some pointer) (hdead : session.live pointer = none)
    (hstep : session.step request = some session') : session'.Discerns blocks := by
  -- A refusal leaves everything as it is, and the call ends in no other way.
  have hrun := h.settles_run_of_dead hcall hgiven hdead session.journal
  unfold Session.step at hstep
  cases hout : request.run session.heap session.journal with
  | done value heap' journal' =>
    rw [hout] at hrun
    exact hrun.2.elim
  | refused error heap' journal' =>
    rw [hout] at hrun hstep
    cases hstep
    exact h.of_unchanged rfl hrun.2.2
  | halted cause journal' =>
    rw [hout] at hrun
    exact hrun.elim

/-- Every call keeps the heap discerning, whatever pointer it is given. -/
theorem step (h : session.Discerns blocks) (hcall : request.isWrite = false)
    (hstep : session.step request = some session') : ∃ blocks', session'.Discerns blocks' := by
  by_cases hgiven : ∀ pointer, request.given? = some pointer → (session.live pointer).isSome
  · exact h.step_of_permits (permits_of_given hcall hgiven) hcall hstep
  · obtain ⟨pointer, hpointer, hdead⟩ := exists_dead_of_not hgiven
    exact ⟨blocks, h.step_of_dead hcall hpointer hdead hstep⟩

/-- What clients write into their payloads is in payloads of blocks in use. -/
theorem inPayload_iff (h : session.Discerns blocks) {address : Nat} :
    session.InPayload address ↔ ∃ block ∈ blocks, block.free = false ∧ block.Contains address := by
  constructor
  · rintro ⟨pointer, capacity, hlive, hcapacity, hle, hlt⟩
    obtain ⟨block, hblock, hused, rfl⟩ := h.accounted.exists_block hlive
    rw [Session.capacity?_eq h.accounted.holds hblock hused] at hcapacity
    obtain rfl := Option.some.inj hcapacity
    refine ⟨block, hblock, hused, hle, ?_⟩
    simp only [Block.payload, Block.limit, headerSize] at *
    omega
  · rintro ⟨block, hblock, hused, hle, hlt⟩
    refine ⟨_, _, h.accounted.known block hblock hused,
      Session.capacity?_eq h.accounted.holds hblock hused, hle, ?_⟩
    simp only [Block.payload, Block.limit, headerSize] at *
    omega

/-- What clients write brings up no guard word. -/
theorem guardsWithin_scribble {memory : ByteMemory} (h : session.Discerns blocks)
    (hscribbles : session.Scribbles memory) : GuardsWithin [] session.heap.memory memory := by
  intro address haligned hguard
  have hholds := h.accounted.holds
  have hstart := hholds.start_aligned
  by_cases hin : session.InPayload (address + 24)
  · obtain ⟨block, hblock, -, hle, -⟩ := h.inPayload_iff.mp hin
    have hfirst := (hholds.address_bounds hblock).1
    have hge : session.heap.arena.start ≤ address + 24 := by
      simp only [Block.payload, headerSize] at hle
      omega
    -- The place is one where clients leave no guard word.
    have hnumber : memory.readNumber (address + 24) 4 = guardWord := hguard
    obtain ⟨offset, hoffset⟩ := Nat.exists_eq_add_of_le hge
    rw [hoffset] at hin hnumber
    refine absurd hnumber (hscribbles.unforged offset ?_ hin)
    simp only [granule] at *
    omega
  · -- A payload is made of granules, so none of the four bytes is in one.
    refine .inr (hguard.congr fun offset hge hlt => (hscribbles.outside _ fun hin' => hin ?_).symm)
    obtain ⟨block, hblock, hused, hle', hlt'⟩ := h.inPayload_iff.mp hin'
    refine h.inPayload_iff.mpr ⟨block, hblock, hused, ?_⟩
    have hsize := (hholds.tiles.bounds hblock).2.2.2
    have hblockAligned := hholds.tiles.aligned hstart hblock
    simp only [Block.Contains, Block.payload, Block.limit, headerSize, granule] at *
    omega

theorem scribble {memory : ByteMemory} (h : session.Discerns blocks)
    (hscribbles : session.Scribbles memory) :
    Session.Discerns { session with heap.memory := memory } blocks where
  accounted :=
    { holds := h.accounted.holds.of_payloads rfl fun query hnone => hscribbles.outside query
        fun hin => by
          obtain ⟨block, hblock, -, hin⟩ := h.inPayload_iff.mp hin
          exact hnone block hblock hin
      owned := h.accounted.owned
      known := h.accounted.known }
  guarded := h.guarded.of_guardsWithin rfl (h.guardsWithin_scribble hscribbles)

end Session.Discerns

section Runs

variable {start size : Nat} {memory : ByteMemory} {journal : Journal}

/-- In a new heap the only guard word is that of the one block. -/
theorem guarded_install {memory' : ByteMemory} {arena : Arena} {journal' : Journal}
    (h : install start size memory journal = .done arena memory' journal')
    (hclean : ∀ address, start ≤ address → address + 4 ≤ start + size → address % 16 = 8 →
      memory.readNumber address 4 ≠ guardWord) :
    Guarded ⟨arena, memory'⟩ [{ address := arena.start, size := arena.size, free := true }] := by
  obtain ⟨-, haligned, -, -, hstart, hlimit, rfl⟩ := install_eq_done h
  intro address hfirst hlast horphan
  rcases guardsWithin_store _ memory haligned (by simp) address horphan.aligned horphan.guard
    with hmem | hguard
  · exact horphan.no_block _ List.mem_cons_self (List.mem_singleton.mp hmem).symm
  · have hplace := horphan.aligned
    simp only [headerSize, granule] at *
    exact hclean (address + 24) (by omega) (by omega) (by omega) hguard

/-- After any run, whatever pointers were passed, the heap tells live payloads from all others. -/
theorem discerns_of_exposed (hlimit : start + size < bitRange 64)
    (hclean : ∀ address, start ≤ address → address + 4 ≤ start + size → address % 16 = 8 →
      memory.readNumber address 4 ≠ guardWord)
    (h : Session.Exposed start size memory journal session) :
    ∃ blocks, session.Discerns blocks := by
  induction h with
  | install hinstall =>
    exact ⟨_, ⟨holds_install hinstall hlimit, by simp, by simp⟩, guarded_install hinstall hclean⟩
  | call _ hcall hstep ih =>
    obtain ⟨blocks, hdiscerns⟩ := ih
    exact hdiscerns.step hcall hstep
  | scribble _ hscribbles ih =>
    obtain ⟨blocks, hdiscerns⟩ := ih
    exact ⟨blocks, hdiscerns.scribble hscribbles⟩

/-- The heap refuses a pointer, whatever it is asked to do with it, and changes nothing. -/
structure Session.Rejects (session : Session) (pointer : Nat) : Prop where
  free : ∃ journal', free pointer session.heap session.journal =
    .refused .corruptionDetected session.heap journal'
  resize : ∀ size, ∃ journal', resize pointer size session.heap session.journal =
    .refused .corruptionDetected session.heap journal'
  capacity : ∃ journal', capacity pointer session.heap session.journal =
    .refused .corruptionDetected session.heap journal'

/-- The heap accepts a pointer. It may still have no room for a larger payload. -/
structure Session.Accepts (session : Session) (pointer : Nat) : Prop where
  free : ∃ heap' journal', free pointer session.heap session.journal = .done () heap' journal'
  resize : ∀ size, (∃ fresh heap' journal',
      resize pointer size session.heap session.journal = .done fresh heap' journal') ∨
    ∃ error journal', resize pointer size session.heap session.journal =
      .refused error session.heap journal' ∧ error ≠ .corruptionDetected
  capacity : ∃ found journal', capacity pointer session.heap session.journal =
    .done found session.heap journal'

/-- What must be refused is refused. -/
theorem exists_refused {α : Type} {action : Action MemoryError Heap α}
    (h : action.Settles heap (fun _ _ => False) fun error heap' =>
      error = .corruptionDetected ∧ heap' = heap) (journal : Journal) :
    ∃ journal', action heap journal = .refused .corruptionDetected heap journal' := by
  have hrun := h journal
  cases hout : action heap journal with
  | done value heap' journal' =>
    rw [hout] at hrun
    exact hrun.2.elim
  | refused error heap' journal' =>
    rw [hout] at hrun
    obtain ⟨-, rfl, rfl⟩ := hrun
    exact ⟨journal', rfl⟩
  | halted cause journal' =>
    rw [hout] at hrun
    exact hrun.elim

theorem Session.Discerns.rejects (h : session.Discerns blocks)
    (hdead : session.live pointer = none) : session.Rejects pointer := by
  have hholds := h.accounted.holds
  have hforeign := h.accounted.foreign hdead
  exact ⟨exists_refused (settles_free_of_foreign hholds h.guarded hforeign) _,
    fun size => exists_refused (settles_resize_of_foreign hholds h.guarded hforeign size) _,
    exists_refused (settles_capacity_of_foreign hholds h.guarded hforeign) _⟩

theorem Session.Discerns.accepts (h : session.Discerns blocks)
    (hlive : (session.live pointer).isSome) : session.Accepts pointer := by
  obtain ⟨block, hblock, hused, rfl⟩ := h.accounted.exists_block hlive
  have hholds := h.accounted.holds
  constructor
  case capacity =>
    obtain ⟨found, heap', journal', hout, rfl, -⟩ :=
      (settles_capacity hholds hblock hused).exists_done session.journal
    exact ⟨found, journal', hout⟩
  case free =>
    obtain ⟨before, after, rfl⟩ := List.append_of_mem hblock
    obtain ⟨⟨⟩, heap', journal', hout, -⟩ := (settles_free hholds hused).exists_done session.journal
    exact ⟨heap', journal', hout⟩
  case resize =>
    intro size
    obtain ⟨before, after, rfl⟩ := List.append_of_mem hblock
    -- The owner is found, so only a size can be refused.
    have hrun := settles_resize hholds hused size session.journal
    cases hout : Heap.resize block.payload size session.heap session.journal with
    | done fresh heap' journal' => exact .inl ⟨fresh, heap', journal', rfl⟩
    | refused error heap' journal' =>
      rw [hout] at hrun
      obtain ⟨-, rfl, ⟨rfl, -⟩ | ⟨rfl, -⟩⟩ := hrun
      · exact .inr ⟨_, journal', rfl, nofun⟩
      · exact .inr ⟨_, journal', rfl, nofun⟩
    | halted cause journal' =>
      rw [hout] at hrun
      exact hrun.elim

/-- Which pointers a heap accepts. After any run on an arena that held no guard word at first, in
which clients passed any pointers and wrote what they liked into their payloads, short of a guard
word where a header could have it, the heap accepts the live payloads and rejects everything else
without any change. -/
theorem verdicts_of_exposed (hlimit : start + size < bitRange 64)
    (hclean : ∀ address, start ≤ address → address + 4 ≤ start + size → address % 16 = 8 →
      memory.readNumber address 4 ≠ guardWord)
    (h : Session.Exposed start size memory journal session) (pointer : Nat) :
    (session.live pointer = none → session.Rejects pointer) ∧
      ((session.live pointer).isSome → session.Accepts pointer) := by
  obtain ⟨blocks, hdiscerns⟩ := discerns_of_exposed hlimit hclean h
  exact ⟨hdiscerns.rejects, hdiscerns.accepts⟩

/-- In an arena of 256 bytes the first of two payloads is given back twice, and something inside it
once. -/
theorem verdicts_of_smallArena :
    ∃ session, Session.Exposed 16 256 .empty #[] session ∧ session.live 48 = none ∧
      session.Rejects 48 ∧ (session.live 112).isSome ∧ session.Accepts 112 := by
  have hrun : (Session.ofRun? (fun _ request => !request.isWrite) 16 256
      [.allocate 20, .allocate 8, .free 64, .free 48, .free 48]).any
        (fun session => session.live 48 = none ∧ (session.live 112).isSome) = true := by
    decide +kernel
  obtain ⟨session, hsession, hfacts⟩ := (Option.any_eq_true _ _).mp hrun
  obtain ⟨hdead, hlive⟩ := of_decide_eq_true hfacts
  have hexposed : Session.Exposed 16 256 .empty #[] session :=
    Session.of_ofRun? (Session.Exposed 16 256 .empty #[]) (fun _ _ _ => .install)
      (fun _ _ _ h hcall => h.call (by simpa using hcall)) hsession
  have hclean (address : Nat) : ByteMemory.readNumber .empty address 4 ≠ guardWord := by
    simp [ByteMemory.readNumber_eq, ByteMemory.numberFrom, guardWord]
  have hverdicts := verdicts_of_exposed (by decide) (fun address _ _ _ => hclean address) hexposed
  exact ⟨session, hexposed, hdead, (hverdicts 48).1 hdead, hlive, (hverdicts 112).2 hlive⟩

end Runs

end KernelResources.Heap
