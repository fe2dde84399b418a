import KernelResources.Proofs.Heap.Blocks

/-!
# Guard words

A pointer is taken for a payload if the guard word stands in the header in front of it. So the heap
recognizes its own payloads only as long as no guard word stands where a header could be and is
not.

* `HasGuard` says that the guard word stands where the header at an address has it, and
  `GuardsWithin` that guard words have come up at certain addresses only. The link to the block
  behind is the one field that shares its place with the guard word of another header; links are
  even and the guard word is odd, so `guardsWithin_write` holds of every field.
* `Orphan` is a guard word without a block, and `Guarded` says that the arena has none.
-/

namespace KernelResources.Heap

variable {memory middle memory' : ByteMemory} {addresses addresses' : List Nat}
  {address number : Nat}

/-! ## Where guard words come up -/

/-- Whether the guard word stands where a header at `address` has it. -/
def HasGuard (memory : ByteMemory) (address : Nat) : Prop :=
  Header.Field.guardWord.read memory address = guardWord

/-- The guard word is made of these four bytes. -/
theorem hasGuard_iff : HasGuard memory address ↔
    memory.read (address + 24) = 0xEF ∧ memory.read (address + 25) = 0xBE ∧
      memory.read (address + 26) = 0xAD ∧ memory.read (address + 27) = 0xDE := by
  have hnumber : Header.Field.guardWord.read memory address =
      (memory.read (address + 24)).toNat + 256 * ((memory.read (address + 25)).toNat +
        256 * ((memory.read (address + 26)).toNat + 256 * (memory.read (address + 27)).toNat)) := by
    rw [Header.Field.read, ByteMemory.readNumber_eq]
    simp only [Header.Field.offset, Header.Field.length, ByteMemory.numberFrom]
    rfl
  have hlt := (memory.read (address + 24)).toNat_lt
  have hlt' := (memory.read (address + 25)).toNat_lt
  have hlt'' := (memory.read (address + 26)).toNat_lt
  rw [HasGuard, hnumber, guardWord]
  simp only [← UInt8.toNat_inj, UInt8.reduceToNat]
  omega

/-- The guard word is wherever its four bytes are. -/
theorem HasGuard.congr {address' : Nat} (h : HasGuard memory address)
    (hsame : ∀ offset, 24 ≤ offset → offset < 28 →
      memory'.read (address' + offset) = memory.read (address + offset)) :
    HasGuard memory' address' := by
  rw [hasGuard_iff] at h ⊢
  rw [hsame _ (by decide) (by decide), hsame _ (by decide) (by decide),
    hsame _ (by decide) (by decide), hsame _ (by decide) (by decide)]
  exact h

/-- From one memory to another, guard words come up at these addresses at most. -/
def GuardsWithin (addresses : List Nat) (memory memory' : ByteMemory) : Prop :=
  ∀ address, address % granule = 0 → HasGuard memory' address →
    address ∈ addresses ∨ HasGuard memory address

/-- Writing a field brings up no guard word in another header. -/
theorem guardsWithin_write (field : Header.Field) (memory : ByteMemory)
    (haligned : address % granule = 0) (hnumber : field = .next → number % granule = 0) :
    GuardsWithin [address] memory (field.write memory address number) := by
  intro other hother hguard
  by_cases heq : other = address
  · exact .inl (List.mem_singleton.mpr heq)
  refine .inr ?_
  by_cases hnext : field = .next
  · subst hnext
    by_cases hahead : other + granule = address
    -- The link begins where the guard word would: its first byte is even.
    · have hplace : other + 24 = address + Header.Field.next.offset := by
        simp only [granule, Header.Field.offset] at *
        omega
      have hbyte := (hasGuard_iff.mp hguard).1
      rw [hplace, Header.Field.write, Header.Field.length, ByteMemory.read_writeNumber_succ,
        ← UInt8.toNat_inj] at hbyte
      have hlink := hnumber rfl
      simp only [UInt8.toNat_ofNat', UInt8.reduceToNat, granule] at hbyte hlink
      omega
    · refine hguard.congr fun offset hle hlt =>
        (ByteMemory.read_writeNumber_of_outside _ _ _ _ _ ?_).symm
      simp only [granule, Header.Field.offset, Header.Field.length] at *
      omega
  -- The other fields are in places where no guard word is, or in this header.
  · refine hguard.congr fun offset hle hlt =>
      (ByteMemory.read_writeNumber_of_outside _ _ _ _ _ ?_).symm
    cases field <;> simp only [granule, Header.Field.offset, Header.Field.length,
      reduceCtorEq, not_true_eq_false] at * <;> omega

theorem GuardsWithin.trans (h : GuardsWithin addresses memory middle)
    (h' : GuardsWithin addresses' middle memory') :
    GuardsWithin (addresses ++ addresses') memory memory' := by
  intro address haligned hguard
  rcases h' address haligned hguard with hmem | hmiddle
  · exact .inl (List.mem_append_right _ hmem)
  · exact (h address haligned hmiddle).imp_left (List.mem_append_left _)

theorem guardsWithin_store (header : Header) (memory : ByteMemory)
    (haligned : address % granule = 0)
    (hnext : ∀ next, header.next = some next → next % granule = 0) :
    GuardsWithin [address] memory (header.store memory address) := by
  have hnumber (field : Header.Field) (hfield : field = .next) :
      header.number field % granule = 0 := by
    subst hfield
    cases hlink : header.next with
    | none => simp [Header.number, hlink, numberOf]
    | some next => simpa [Header.number, hlink, numberOf] using hnext next hlink
  -- Induction on the fields that are written.
  unfold Header.store
  generalize [Header.Field.size, .next, .prev, .guardWord, .free] = fields
  induction fields generalizing memory with
  | nil => exact fun _ _ hguard => .inr hguard
  | cons field rest ih =>
    have htrans := (guardsWithin_write field memory haligned (hnumber field)).trans (ih _)
    intro other hother hguard
    exact (htrans other hother hguard).imp_left fun hmem => by simpa using hmem

theorem guardsWithin_relink {link : Option Nat} (memory : ByteMemory)
    (haligned : ∀ next, link = some next → next % granule = 0) :
    GuardsWithin link.toList memory (relink memory link address) := by
  cases link with
  | none => exact fun _ _ hguard => .inr hguard
  | some next => exact guardsWithin_write .prev memory (haligned next rfl) (by simp)

/-! ## Guard words without a block -/

/-- Whether the guard word stands where a header at `address` has it, although no block is there. -/
structure Orphan (memory : ByteMemory) (blocks : List Block) (address : Nat) : Prop where
  aligned : address % granule = 0
  guard : HasGuard memory address
  no_block : ∀ block ∈ blocks, block.address ≠ address

/-- Every guard word in the arena belongs to a block. -/
def Guarded (heap : Heap) (blocks : List Block) : Prop :=
  ∀ address, heap.arena.start ≤ address →
    address + headerSize ≤ heap.arena.start + heap.arena.size →
      ¬Orphan heap.memory blocks address

variable {heap heap' : Heap} {blocks : List Block} {block : Block}

/-- No payload of a guarded heap has a guard word where a header could be. -/
theorem Guarded.not_hasGuard (h : Guarded heap blocks) (hholds : Holds heap blocks)
    (hblock : block ∈ blocks) (haligned : address % granule = 0)
    (hin : block.Contains (address + 24)) : ¬HasGuard heap.memory address := by
  intro hguard
  obtain ⟨hstart, hlimit, -, -⟩ := hholds.address_bounds hblock
  have hsize := (hholds.tiles.bounds hblock).2.2.2
  have hblockAligned := hholds.tiles.aligned hholds.start_aligned hblock
  simp only [Block.Contains, Block.payload, Block.limit, headerSize, granule] at *
  refine h address (by omega) (by simp only [headerSize]; omega)
    ⟨by simpa [granule] using haligned, hguard, fun other hother heq => ?_⟩
  -- A block would begin inside this one.
  have hne : other ≠ block := by
    rintro rfl
    omega
  have hapart := hholds.tiles.apart hblock hother hne
  have hmin := (hholds.tiles.bounds hother).2.2.1
  simp only [Block.limit, minBlockSize, headerSize, granule] at hapart hmin
  omega

/-- A heap stays guarded if no guard word comes up. -/
theorem Guarded.of_guardsWithin (h : Guarded heap blocks) (harena : heap'.arena = heap.arena)
    (hguards : GuardsWithin [] heap.memory heap'.memory) : Guarded heap' blocks := by
  intro address hstart hlimit horphan
  rw [harena] at hstart hlimit
  refine h address hstart hlimit ⟨horphan.aligned, ?_, horphan.no_block⟩
  exact (hguards address horphan.aligned horphan.guard).resolve_left List.not_mem_nil

/-- Zeros bring up no guard word. -/
theorem guardsWithin_fill {first : Nat} (memory : ByteMemory) (last : Nat)
    (haligned : first % granule = 0) : GuardsWithin [] memory (memory.fill first last 0) := by
  intro address haddress hguard
  have hread (query : Nat) : (memory.fill first last 0).read query =
      if first ≤ query ∧ query < last then 0 else memory.read query := Store.read_fill _ _ _ _ _
  by_cases hzero : first ≤ address + 24 ∧ address + 24 < last
  · have hbyte := (hasGuard_iff.mp hguard).1
    rw [hread, if_pos hzero] at hbyte
    cases hbyte
  · refine .inr (hguard.congr fun offset hle hlt => ?_)
    rw [hread, if_neg]
    simp only [granule] at *
    omega

/-- A payload that is copied into another one brings no guard word along. -/
theorem Guarded.guardsWithin_copy (h : Guarded heap blocks) (hholds : Holds heap blocks)
    (hblock : block ∈ blocks) {target : Nat} (haligned : target % granule = 0) :
    GuardsWithin [] heap.memory
      (heap.memory.copy block.payload target (block.size - headerSize)) := by
  intro address haddress hguard
  have hread (query : Nat) :
      (heap.memory.copy block.payload target (block.size - headerSize)).read query =
        if target ≤ query ∧ query < target + (block.size - headerSize) then
          heap.memory.read (block.payload + (query - target))
        else heap.memory.read query := Store.read_copy _ _ _ _ _
  have hblockAligned := hholds.tiles.aligned hholds.start_aligned hblock
  have hsize := (hholds.tiles.bounds hblock).2.2.2
  by_cases hcopied : target ≤ address + 24 ∧ address + 24 < target + (block.size - headerSize)
  -- What was copied stood in the payload at a place of the same kind, where no guard word is.
  · obtain ⟨source, hsource⟩ : ∃ source, source + target = address + block.payload := by
      refine ⟨address + block.payload - target, ?_⟩
      simp only [Block.payload, headerSize, granule] at *
      omega
    refine absurd ?_ (h.not_hasGuard hholds hblock (?_ : source % granule = 0) ?_)
    · refine hguard.congr fun offset hle hlt => ?_
      rw [hread, if_pos]
      · exact congrArg heap.memory.read (by omega)
      · simp only [headerSize, granule] at *
        omega
    · simp only [Block.payload, headerSize, granule] at *
      omega
    · simp only [Block.Contains, Block.payload, Block.limit, headerSize] at *
      omega
  · refine .inr (hguard.congr fun offset hle hlt => ?_)
    rw [hread, if_neg]
    simp only [headerSize, granule] at *
    omega

end KernelResources.Heap
