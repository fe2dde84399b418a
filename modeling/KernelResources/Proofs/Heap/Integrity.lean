import KernelResources.Proofs.Heap.Rejection
import KernelResources.Proofs.Heap.Verification

/-!
# Integrity of the block list

Verification walks along the whole list and stops at the first header that contradicts the one
before it. On a heap whose headers describe a coalesced list it finds nothing to object to, so it
never raises a false alarm; and clients who keep to their payloads never leave any other heap.

* `Holds.next_eq_iff` and `Holds.load_eq`: links in both directions are inverse to each other, and
  headers say what their blocks are like.
* `integrity_of_reachable`: after any run the list covers the arena, free blocks do not lie side by
  side, the blocks in use are the live payloads, and verification succeeds.
* `Session.Attained` are the sessions that either kind of run leads to, and `coalesced_of_attained`
  is what later files need to know of them.
-/

namespace KernelResources.Heap

variable {heap : Heap} {blocks : List Block} {block : Block} {journal : Journal}

/-! ## Links -/

/-- The block behind a block is the one that has it as its predecessor. -/
theorem Holds.next_eq_iff (h : Holds heap blocks) {other : Block} (hblock : block ∈ blocks)
    (hother : other ∈ blocks) :
    (Header.load heap.memory block.address).next = some other.address ↔
      (Header.load heap.memory other.address).prev = some block.address := by
  constructor
  · intro hnext
    obtain ⟨before, after, rfl⟩ := List.append_of_mem hblock
    obtain ⟨-, hload, hbehind⟩ := h.chain_around
    rw [hload] at hnext
    cases after with
    | nil => cases hnext
    | cons behind rest =>
      have heq := h.tiles.eq_of_address hother
        (List.mem_append_right _ (List.mem_cons_of_mem _ List.mem_cons_self))
        (Option.some.inj hnext)
      rw [← heq, hbehind.1]
      rfl
  · intro hprev
    obtain ⟨before, after, rfl⟩ := List.append_of_mem hother
    rw [h.chain_around.2.1] at hprev
    rcases List.eq_nil_or_concat before with rfl | ⟨front, ahead, rfl⟩
    · cases hprev
    · rw [List.concat_eq_append] at *
      have hlast : ahead.address = block.address := by
        rw [Block.header, lastLink_append] at hprev
        exact Option.some.inj hprev
      have heq := h.tiles.eq_of_address hblock
        (List.mem_append_left _ (List.mem_append_right _ List.mem_cons_self)) hlast
      rw [List.append_assoc] at h
      rw [← heq, h.chain_around.2.1]
      rfl

/-- The header of a block has an intact guard and says what the block is like. -/
theorem Holds.load_eq (h : Holds heap blocks) (hblock : block ∈ blocks) :
    (Header.load heap.memory block.address).guardWord = guardWord ∧
      (Header.load heap.memory block.address).size = block.size ∧
        (Header.load heap.memory block.address).free = block.free := by
  obtain ⟨before, after, rfl⟩ := List.append_of_mem hblock
  rw [h.chain_around.2.1]
  exact ⟨rfl, rfl, rfl⟩

/-! ## Runs -/

section Runs

variable {start size : Nat} {memory : ByteMemory} {session session' : Session} {request : Request}

/-- A permitted request leaves a tidy heap, also if it is refused. -/
theorem tidy_of_step (h : Accounted session.heap session.live blocks)
    (hcoalesced : Coalesced blocks) (hpermits : session.Permits request)
    (hstep : session.step request = some session') : Tidy session'.heap := by
  have hrun := (settles_run h hpermits).also (ensures_tidy_run h hcoalesced hpermits)
    session.journal
  unfold Session.step at hstep
  cases hout : request.run session.heap session.journal with
  | done pointer heap' journal' =>
    rw [hout] at hrun hstep
    cases hstep
    exact hrun.2.2
  | refused error heap' journal' =>
    rw [hout] at hrun hstep
    cases hstep
    obtain ⟨-, rfl⟩ := hrun
    exact ⟨blocks, h.holds, hcoalesced⟩
  | halted cause journal' =>
    rw [hout] at hrun
    exact hrun.elim

/-- After any run the blocks in use are the live payloads, and free blocks are merged. -/
theorem coalesced_of_reachable (hlimit : start + size < bitRange 64)
    (h : Session.Reachable start size memory journal session) :
    ∃ blocks, Accounted session.heap session.live blocks ∧ Coalesced blocks := by
  induction h with
  | install hinstall =>
    exact ⟨_, ⟨holds_install hinstall hlimit, by simp, by simp⟩, coalesced_singleton _⟩
  | step hreachable hpermits hstep ih =>
    obtain ⟨blocks, haccounted, hcoalesced⟩ := ih
    obtain ⟨next, hnext, -, -, blocks', haccounted', -⟩ := exists_step haccounted hpermits
    obtain rfl := Option.some.inj (hnext.symm.trans hstep)
    -- The headers describe one list only, so both halves speak of the same blocks.
    exact ⟨blocks', haccounted',
      (tidy_of_step haccounted hcoalesced hpermits hstep).coalesced haccounted'.holds⟩

/-- The same of runs in which clients pass any pointers. -/
theorem coalesced_of_exposed (hlimit : start + size < bitRange 64)
    (hclean : ∀ address, start ≤ address → address + 4 ≤ start + size → address % 16 = 8 →
      memory.readNumber address 4 ≠ guardWord)
    (h : Session.Exposed start size memory journal session) :
    ∃ blocks, session.Discerns blocks ∧ Coalesced blocks := by
  induction h with
  | install hinstall =>
    exact ⟨_, ⟨⟨holds_install hinstall hlimit, by simp, by simp⟩, guarded_install hinstall hclean⟩,
      coalesced_singleton _⟩
  | @call before after request _ hcall hstep ih =>
    obtain ⟨blocks, hdiscerns, hcoalesced⟩ := ih
    by_cases hgiven : ∀ pointer, request.given? = some pointer → (before.live pointer).isSome
    · have hpermits := Session.permits_of_given hcall hgiven
      obtain ⟨blocks', hdiscerns'⟩ := hdiscerns.step_of_permits hpermits hcall hstep
      exact ⟨blocks', hdiscerns', (tidy_of_step hdiscerns.accounted hcoalesced hpermits
        hstep).coalesced hdiscerns'.accounted.holds⟩
    -- A refused call leaves the blocks as they are.
    · obtain ⟨pointer, hpointer, hdead⟩ := Session.exists_dead_of_not hgiven
      exact ⟨blocks, hdiscerns.step_of_dead hcall hpointer hdead hstep, hcoalesced⟩
  | scribble _ hscribbles ih =>
    obtain ⟨blocks, hdiscerns, hcoalesced⟩ := ih
    exact ⟨blocks, hdiscerns.scribble hscribbles, hcoalesced⟩

/-- A session that a run from a new arena leads to, in which clients keep to one of two rules. They
pass live payloads only, and write what they like into them; or they pass any pointers, in an arena
that held no guard word at first, and write none where a header could have it. -/
def Session.Attained (start size : Nat) (memory : ByteMemory) (journal : Journal)
    (session : Session) : Prop :=
  Session.Reachable start size memory journal session ∨
    (∀ address, start ≤ address → address + 4 ≤ start + size → address % 16 = 8 →
      memory.readNumber address 4 ≠ guardWord) ∧
      Session.Exposed start size memory journal session

theorem coalesced_of_attained (hlimit : start + size < bitRange 64)
    (h : Session.Attained start size memory journal session) :
    ∃ blocks, Accounted session.heap session.live blocks ∧ Coalesced blocks := by
  rcases h with hreachable | ⟨hclean, hexposed⟩
  · exact coalesced_of_reachable hlimit hreachable
  · obtain ⟨blocks, hdiscerns, hcoalesced⟩ := coalesced_of_exposed hlimit hclean hexposed
    exact ⟨blocks, hdiscerns.accounted, hcoalesced⟩

/-- What is right about the block list of a session. -/
structure Session.Intact (session : Session) (blocks : List Block) : Prop where
  /-- The blocks cover the arena, and their headers are linked. -/
  holds : Holds session.heap blocks
  /-- Every block is large enough and made of granules, and its guard is intact. -/
  sound : ∀ block ∈ blocks, minBlockSize ≤ block.size ∧ block.size % granule = 0 ∧
    (Header.load session.heap.memory block.address).guardWord = guardWord
  /-- Forward and backward links are inverse to each other. -/
  links : ∀ block ∈ blocks, ∀ other ∈ blocks,
    ((Header.load session.heap.memory block.address).next = some other.address ↔
      (Header.load session.heap.memory other.address).prev = some block.address)
  /-- Of two blocks side by side, at least one is in use. -/
  coalesced : Coalesced blocks
  /-- The blocks in use are the live payloads, and have the room that was asked for. -/
  live_iff : ∀ pointer, (session.live pointer).isSome ↔
    ∃ block ∈ blocks, block.free = false ∧ block.payload = pointer
  /-- Verification succeeds and changes nothing. -/
  verified : ∀ journal, ∃ stats, verify session.heap journal = .done stats session.heap journal
  /-- If nothing is alive, one free block spans the arena. -/
  whole : (∀ pointer, session.live pointer = none) → blocks =
    [{ address := session.heap.arena.start, size := session.heap.arena.size, free := true }]

theorem Accounted.intact (h : Accounted session.heap session.live blocks)
    (hcoalesced : Coalesced blocks) : session.Intact blocks where
  holds := h.holds
  sound block hblock := by
    obtain ⟨-, -, hmin, haligned⟩ := h.holds.tiles.bounds hblock
    exact ⟨hmin, haligned, (h.holds.load_eq hblock).1⟩
  links _ hblock _ hother := h.holds.next_eq_iff hblock hother
  coalesced := hcoalesced
  live_iff pointer := by
    refine ⟨h.exists_block, ?_⟩
    rintro ⟨block, hblock, hused, rfl⟩
    exact h.known block hblock hused
  verified journal := ⟨_, (h.holds.wellFormed hcoalesced).verify_eq h.holds.limit_lt⟩
  whole hnone := by
    refine hcoalesced.eq_singleton h.holds fun block hblock => ?_
    -- A block in use would be a live payload.
    refine Decidable.byContradiction fun hused => ?_
    have hlive := h.known block hblock (Bool.eq_false_iff.mpr hused)
    rw [hnone] at hlive
    cases hlive

/-- Integrity of a heap. After any run on an arena whose end has 64 bits, the block list is intact,
and every request that clients may make returns and leaves it intact. -/
theorem integrity_of_reachable (hlimit : start + size < bitRange 64)
    (h : Session.Reachable start size memory journal session) :
    (∃ blocks, session.Intact blocks) ∧
      ∀ request, session.Permits request → ∃ session', session.step request = some session' ∧
        session'.heap.arena = session.heap.arena ∧ ∃ blocks, session'.Intact blocks := by
  obtain ⟨blocks, haccounted, hcoalesced⟩ := coalesced_of_reachable hlimit h
  refine ⟨⟨blocks, haccounted.intact hcoalesced⟩, fun request hpermits => ?_⟩
  obtain ⟨session', hstep, harena, -, -, -⟩ := exists_step haccounted hpermits
  obtain ⟨blocks', haccounted', hcoalesced'⟩ :=
    coalesced_of_reachable hlimit (h.step hpermits hstep)
  exact ⟨session', hstep, harena, blocks', haccounted'.intact hcoalesced'⟩

/-- In an arena of 256 bytes two clients take payloads, and the first one gives its own back. -/
theorem integrity_of_smallArena :
    ∃ session, Session.Reachable 16 256 .empty #[] session ∧ session.live 48 = none ∧
      session.live 112 = some 24 ∧ ∃ blocks, session.Intact blocks := by
  have hrun : (match install 16 256 .empty #[] with
      | .done arena memory journal =>
        match Session.step (.allocate 20) ⟨⟨arena, memory⟩, journal, fun _ => none⟩ with
        | some first =>
          match first.step (.allocateZeroed 3 8) with
          | some second =>
            match second.step (.free 48) with
            | some third => decide (second.live 48 = some 20 ∧ third.live 48 = none ∧
                third.live 112 = some 24)
            | none => false
          | none => false
        | none => false
      | _ => false) = true := by decide +kernel
  split at hrun
  case h_1 arena memory journal hinstall =>
    split at hrun
    case h_1 first hfirst =>
      split at hrun
      case h_1 second hsecond =>
        split at hrun
        case h_1 third hthird =>
          obtain ⟨hlive, hgone, hkept⟩ := of_decide_eq_true hrun
          have hsecondReachable : Session.Reachable 16 256 .empty #[] second :=
            .step (.step (.install hinstall) (by trivial) hfirst) (by trivial) hsecond
          have hpermits : second.Permits (.free 48) := Option.isSome_of_eq_some hlive
          have hreachable := hsecondReachable.step hpermits hthird
          exact ⟨third, hreachable, hgone, hkept, (integrity_of_reachable (by decide) hreachable).1⟩
        case h_2 => cases hrun
      case h_2 => cases hrun
    case h_2 => cases hrun
  case h_2 => cases hrun

end Runs

end KernelResources.Heap
