import KernelResources.Proofs.Heap.Integrity

/-!
# Resizing, as a client sees it

There are three ways of resizing a payload: the block is cut down, it takes in the free block behind
it, or the payload is copied to another block. The first two write headers into bytes that belong
to the payload before or afterwards, the third copies more than was asked for. A client sees none
of that.

* `Session.FitsInPlace` and `Session.HasRoom` tell, from the headers alone, which way is taken and
  whether there is one.
* `Session.Resizes` is what the client finds afterwards.
* `resize_of_reachable`: after any run, resizing a live payload does what it promises, or changes
  nothing. No other payload is concerned either way.
-/

namespace KernelResources.Heap

variable {heap heap' : Heap} {blocks blocks' before after : List Block} {block : Block}
  {session : Session} {pointer capacity size : Nat}

/-! ## Which way is taken -/

/-- Whether a payload of `capacity` bytes can be resized where it is: it is large enough, or it is
together with the free block behind it. -/
def Session.FitsInPlace (session : Session) (pointer capacity size : Nat) : Prop :=
  size ≤ capacity ∨ ∃ next,
    (Header.load session.heap.memory (pointer - headerSize)).next = some next ∧
      (Header.load session.heap.memory next).free = true ∧
        size ≤ capacity + (Header.load session.heap.memory next).size

/-- Whether the list has a free block with room for `size` bytes. -/
def Session.HasRoom (session : Session) (size : Nat) : Prop :=
  ∃ address, Linked session.heap address ∧
    (Header.load session.heap.memory address).free = true ∧
      size + headerSize ≤ (Header.load session.heap.memory address).size

/-- Whether the list has a block in use with this payload. -/
def Session.Owns (session : Session) (pointer : Nat) : Prop :=
  ∃ address, Linked session.heap address ∧ address + headerSize = pointer ∧
    (Header.load session.heap.memory address).free = false

/-- The links lead to every block. -/
theorem Holds.linked (h : Holds heap blocks) (hblock : block ∈ blocks) :
    Linked heap block.address := by
  obtain ⟨before, after, rfl⟩ := List.append_of_mem hblock
  clear hblock
  -- Induction on the blocks in front, from the last one on.
  induction before using List.reverseRecOn generalizing block after with
  | nil =>
    have hfirst : some block.address = some heap.arena.start := h.firstLink_eq
    exact Option.some.inj hfirst ▸ .start
  | append_singleton front prev ih =>
    rw [List.append_assoc] at h
    have hprev : Linked heap prev.address := ih (block :: after) h
    exact hprev.next (by rw [h.chain_around.2.1]; rfl)

/-- The links lead to a block with a certain header if the blocks include one. -/
theorem Holds.exists_linked_iff (h : Holds heap blocks) (property : Nat → Header → Prop) :
    (∃ address, Linked heap address ∧ property address (Header.load heap.memory address)) ↔
      ∃ block ∈ blocks, property block.address (Header.load heap.memory block.address) := by
  constructor
  · rintro ⟨address, hlinked, hproperty⟩
    obtain ⟨block, hblock, rfl⟩ := h.exists_of_linked hlinked
    exact ⟨block, hblock, hproperty⟩
  · rintro ⟨block, hblock, hproperty⟩
    exact ⟨block.address, h.linked hblock, hproperty⟩

theorem Session.hasRoom_iff (h : Holds session.heap blocks) :
    session.HasRoom size ↔ ∃ hole ∈ blocks, hole.HasRoom size := by
  refine (h.exists_linked_iff fun _ header =>
    header.free = true ∧ size + headerSize ≤ header.size).trans (exists_congr fun hole =>
      and_congr_right fun hhole => ?_)
  rw [(h.load_eq hhole).2.1, (h.load_eq hhole).2.2]
  rfl

theorem Session.owns_iff (h : Holds session.heap blocks) :
    session.Owns pointer ↔ ∃ block ∈ blocks, block.free = false ∧ block.payload = pointer := by
  refine (h.exists_linked_iff fun address header =>
    address + headerSize = pointer ∧ header.free = false).trans (exists_congr fun block =>
      and_congr_right fun hblock => ?_)
  rw [(h.load_eq hblock).2.2, and_comm]
  rfl

/-- The headers tell whether a block reaches a size. -/
theorem Session.fitsInPlace_iff (h : Holds session.heap (before ++ block :: after)) :
    session.FitsInPlace block.payload (block.size - headerSize) size ↔
      block.Reaches after size := by
  have hmin := h.bounds_block.2.2
  have hheader : headerSize ≤ block.size := by
    simp only [minBlockSize, headerSize, granule] at *
    omega
  have haddress : block.payload - headerSize = block.address := Nat.add_sub_cancel _ _
  rw [Session.FitsInPlace, Block.Reaches, haddress, h.chain_around.2.1, Block.header]
  refine or_congr (by omega) ?_
  cases after with
  | nil => simp [firstLink]
  | cons next rest =>
    have hnext : next ∈ before ++ block :: next :: rest :=
      List.mem_append_right _ (List.mem_cons_of_mem block List.mem_cons_self)
    obtain ⟨-, hsize, hfree⟩ := h.load_eq hnext
    have hsum : size ≤ block.size - headerSize + next.size ↔
        size + headerSize ≤ block.size + next.size := by omega
    simp only [firstLink, Option.some.injEq, exists_eq_left', hsize, hfree, hsum,
      List.cons.injEq, and_assoc, exists_and_left]

/-! ## What the client finds -/

/-- A payload of `capacity` bytes was resized to `size` bytes and is now at `fresh`. -/
structure Session.Resizes (session session' : Session) (pointer capacity size fresh : Nat) :
    Prop where
  /-- The payload is alive at its new place, and there is a block in use for it. -/
  alive : session'.live fresh = some size ∧ session'.Owns fresh
  /-- There is room for what was asked for. -/
  room : ∃ capacity', session'.capacity? fresh = some capacity' ∧ size ≤ capacity'
  /-- It holds what it held before, as far as both payloads reach. -/
  bytes : ∀ offset < min capacity size,
    session'.byteAt (fresh + offset) = session.byteAt (pointer + offset)
  /-- If it has moved, the old place is given up. -/
  gone : fresh ≠ pointer → session'.live pointer = none ∧ ¬session'.Owns pointer

/-- A payload stays alive with its capacity and all its bytes. -/
structure Session.Retains (session session' : Session) (pointer : Nat) : Prop where
  /-- It is alive if it was, and the same size was asked for. -/
  live_eq : session'.live pointer = session.live pointer
  /-- The heap names the same capacity. -/
  capacity_eq : session'.capacity? pointer = session.capacity? pointer
  /-- No byte has changed. -/
  bytes : ∀ capacity, session.capacity? pointer = some capacity → ∀ offset < capacity,
    session'.byteAt (pointer + offset) = session.byteAt (pointer + offset)

/-- The payloads that are alive are those that the headers call in use. -/
theorem Accounted.live_iff_owns (h : Accounted session.heap session.live blocks) :
    (session.live pointer).isSome ↔ session.Owns pointer := by
  rw [Session.owns_iff h.holds]
  refine ⟨h.exists_block, ?_⟩
  rintro ⟨block, hblock, hused, rfl⟩
  exact h.known block hblock hused

/-- What stays in use through a change is retained by its client. -/
theorem Accounted.retains {session' : Session} {released obtained : List Block}
    (h : Accounted session.heap session.live blocks)
    (htransfers : Transfers session.heap blocks released obtained session'.heap blocks')
    (hfollows : session.live.Follows session'.live released obtained)
    (hreleased : ∀ old ∈ released, old ∈ blocks) {other : Nat}
    (hlive : (session.live other).isSome) (hother : ∀ old ∈ released, old.payload ≠ other) :
    session.Retains session' other := by
  obtain ⟨block, hblock, hused, rfl⟩ := h.exists_block hlive
  have hkept : block ∉ released := fun hold => hother block hold rfl
  have hblock' := ((htransfers.inUse block).mpr (.inr ⟨⟨hblock, hused⟩, hkept⟩)).1
  have hcapacity := Session.capacity?_eq h.holds hblock hused
  refine ⟨h.live_eq htransfers hfollows hreleased hblock hused hkept,
    (Session.capacity?_eq htransfers.holds hblock' hused).trans hcapacity.symm, ?_⟩
  rintro capacity hfound offset hoffset
  obtain rfl := Option.some.inj (hcapacity.symm.trans hfound)
  refine htransfers.payload block hblock hused hkept _ ?_
  simp only [Block.Contains, Block.payload, Block.limit, headerSize] at *
  omega

/-- What `Resized` says about blocks is what the client finds. -/
theorem Accounted.resizes {session' : Session} {new : Block}
    (h : Accounted session.heap session.live blocks) (hblock : block ∈ blocks)
    (hsize : size + headerSize ≤ new.size)
    (htransfers : Transfers session.heap blocks [block] [new] session'.heap blocks')
    (hlive : session'.live = (session.live.erase block.payload).insert new.payload size)
    (hbytes : ∀ offset < size, offset + headerSize < block.size →
      session'.byteAt (new.payload + offset) = session.byteAt (block.payload + offset)) :
    session.Resizes session' block.payload (block.size - headerSize) size new.payload := by
  have hfollows : session.live.Follows session'.live [block] [new] :=
    hlive ▸ session.live.follows_move block hsize
  -- The heap and the client still agree after the exchange of the two blocks.
  have haccounted := h.transfers htransfers hfollows (by simpa using hblock)
  obtain ⟨hnew, hused⟩ := (htransfers.inUse new).mpr (.inl List.mem_cons_self)
  have halive : session'.live new.payload = some size := by simp [hlive, Live.insert]
  refine ⟨⟨halive, haccounted.live_iff_owns.mp (by simp [halive])⟩,
    ⟨_, Session.capacity?_eq haccounted.holds hnew hused, by omega⟩, fun offset hoffset => ?_,
    fun hmoved => ?_⟩
  · have hmin := Nat.lt_min.mp hoffset
    exact hbytes offset hmin.2 (by omega)
  · have hgone : session'.live block.payload = none :=
      hfollows.gone block List.mem_cons_self (by simpa using hmoved)
    exact ⟨hgone, fun howns => by simpa [hgone] using haccounted.live_iff_owns.mpr howns⟩

/-! ## Runs -/

/-- Resizing a live payload. It either returns, with the first bytes kept and the requested room,
or it changes nothing; it is done in place if and only if the block allows it. Only a request for
no bytes, or for more than there is room for anywhere, is refused. No other live payload is
concerned. -/
theorem resize_of_reachable {start bytes : Nat} {memory : ByteMemory} {journal : Journal}
    (hlimit : start + bytes < bitRange 64)
    (h : Session.Reachable start bytes memory journal session)
    (hlive : (session.live pointer).isSome) (size : Nat) :
    ∃ capacity session', session.capacity? pointer = some capacity ∧
      session.step (.resize pointer size) = some session' ∧
      (∀ other, other ≠ pointer → (session.live other).isSome → session.Retains session' other) ∧
      match resize pointer size session.heap session.journal with
      | .done fresh _ _ => size ≠ 0 ∧ session.Resizes session' pointer capacity size fresh ∧
        (fresh = pointer ↔ session.FitsInPlace pointer capacity size) ∧
          (fresh ≠ pointer → session.HasRoom size)
      | .refused error _ _ => session'.heap = session.heap ∧ session'.live = session.live ∧
        (error = .invalidOperation ∧ size = 0 ∨ error = .outOfMemory ∧ size ≠ 0 ∧
          ¬session.FitsInPlace pointer capacity size ∧ ¬session.HasRoom size)
      | .halted _ _ => False := by
  obtain ⟨-, -, blocks, haccounted⟩ := accounted_of_reachable hlimit h
  obtain ⟨block, hblock, hused, rfl⟩ := haccounted.exists_block hlive
  have hcapacity := Session.capacity?_eq haccounted.holds hblock hused
  have hholds := haccounted.holds
  obtain ⟨before, after, rfl⟩ := List.append_of_mem hblock
  have hrun := settles_resize hholds hused size session.journal
  cases hout : resize block.payload size session.heap session.journal with
  | done fresh heap' journal' =>
    rw [hout] at hrun
    obtain ⟨-, ⟨new, blocks', rfl, -, hsize, htransfers, hbytes, -⟩, hzero, hplace⟩ := hrun
    let session' : Session := ⟨heap', journal', session.live.after new.payload
      (.resize block.payload size)⟩
    have hstep : session.step (.resize block.payload size) = some session' := by
      simp only [Session.step, Request.run, hout, session']
    refine ⟨_, session', hcapacity, hstep, fun other hother hlive => ?_, hzero,
      haccounted.resizes hblock hsize htransfers rfl hbytes, ?_, fun hmoved => ?_⟩
    · refine haccounted.retains htransfers (session.live.follows_move block hsize)
        (by simp) hlive ?_
      simpa using hother.symm
    -- The address is the same exactly if the block could be resized where it is.
    · rw [Session.fitsInPlace_iff hholds]
      rcases hplace with ⟨hreaches, heq⟩ | ⟨hshort, hne, -⟩
      · exact iff_of_true heq hreaches
      · exact iff_of_false hne hshort
    · rw [Session.hasRoom_iff hholds]
      exact (hplace.resolve_left fun hstayed => hmoved hstayed.2).2.2
  | refused error heap' journal' =>
    rw [hout] at hrun
    obtain ⟨-, rfl, herror⟩ := hrun
    have hstep : session.step (.resize block.payload size) =
        some { session with journal := journal' } := by
      simp only [Session.step, Request.run, hout]
    refine ⟨_, _, hcapacity, hstep, fun other _ hlive => ?_, rfl, rfl, ?_⟩
    · obtain ⟨kept, hkept, hkeptUsed, rfl⟩ := haccounted.exists_block hlive
      have hcapacity' : Session.capacity? { session with journal := journal' } kept.payload =
          some (kept.size - headerSize) := Session.capacity?_eq hholds hkept hkeptUsed
      exact ⟨rfl, hcapacity'.trans (Session.capacity?_eq hholds hkept hkeptUsed).symm,
        fun _ _ _ _ => rfl⟩
    · rw [Session.fitsInPlace_iff hholds, Session.hasRoom_iff hholds]
      simpa using herror
  | halted cause journal' =>
    rw [hout] at hrun
    exact hrun.elim

/-- In an arena of 256 bytes a payload of 20 bytes has another one behind it. Resized to 40 bytes,
it moves behind that one. -/
theorem resize_of_smallArena :
    ∃ session session', Session.Reachable 16 256 .empty #[] session ∧
      (session.live 48).isSome ∧ session.step (.resize 48 40) = some session' ∧
        session.Resizes session' 48 32 40 160 ∧ session.Retains session' 112 := by
  have hrun : (Session.ofRun? (fun session request => session.Permits request) 16 256
      [.allocate 20, .write 48 19 7, .allocate 8]).any (fun session => match
          resize 48 40 session.heap session.journal with
        | .done fresh _ _ => decide (fresh = 160 ∧ (session.live 48).isSome ∧
            (session.live 112).isSome ∧ session.capacity? 48 = some 32)
        | .refused _ _ _ | .halted _ _ => false) = true := by decide +kernel
  obtain ⟨session, hsession, hfacts⟩ := (Option.any_eq_true _ _).mp hrun
  split at hfacts
  case h_1 fresh _ _ hout =>
    obtain ⟨rfl, hlive, hother, hcapacity⟩ := of_decide_eq_true hfacts
    have hreachable := Session.reachable_of_ofRun? hsession
    obtain ⟨capacity, session', hcapacity', hstep, hretains, hdone⟩ :=
      resize_of_reachable (by decide) hreachable hlive 40
    rw [hout] at hdone
    obtain rfl : 32 = capacity := Option.some.inj (hcapacity.symm.trans hcapacity')
    exact ⟨session, session', hreachable, hlive, hstep, hdone.2.1, hretains 112 (by decide) hother⟩
  case h_2 => cases hfacts
  case h_3 => cases hfacts

end KernelResources.Heap
