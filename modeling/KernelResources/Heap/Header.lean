import KernelResources.Store.Bytes

/-!
# Block headers

Every heap block begins with a header of 32 bytes, of which 29 are in use: the size of the block
(8 bytes), the links to the blocks after and before it (8 bytes each, zero for none), a guard word
(4 bytes) and the free flag (1 byte). The payload follows the header.

A header is written field by field, so what a damaged header holds in its other fields stays.
`load_write` says what writing a field does to the header, `load_store` that a header reads back as
it was stored, and `load_write_of_disjoint` and `load_store_of_disjoint` that neither touches other
headers.
-/

namespace KernelResources.Heap

/-- Bytes in front of a payload. -/
def headerSize : Nat := 32

/-- Block sizes and payload addresses are multiples of this. -/
def granule : Nat := 16

/-- The smallest block worth splitting off: a header and one granule. -/
def minBlockSize : Nat := headerSize + granule

/-- The guard word of an intact header. -/
def guardWord : Nat := 0xDEADBEEF

/-- What is known about a block. -/
structure Header where
  /-- Bytes in the whole block, header included. -/
  size : Nat
  /-- The block after this one. -/
  next : Option Nat
  /-- The block before this one. -/
  prev : Option Nat
  /-- A fixed number, while the header is intact. -/
  guardWord : Nat
  /-- Whether the block is free. -/
  free : Bool
deriving DecidableEq, Repr, Inhabited

/-- The link a number stands for. -/
def linkOf (number : Nat) : Option Nat := if number = 0 then none else some number

/-- The number that stands for a link. -/
def numberOf (link : Option Nat) : Nat := link.getD 0

/-- The flag a number stands for: its lowest bit. -/
def flagOf (number : Nat) : Bool := number % 2 = 1

namespace Header

/-- Bytes of a header that are in use. -/
def usedBytes : Nat := 29

/-- The fields of a header, each of which holds a number. -/
inductive Field where
  /-- Bytes in the whole block. -/
  | size
  /-- Link to the block after this one. -/
  | next
  /-- Link to the block before this one. -/
  | prev
  /-- The guard word. -/
  | guardWord
  /-- The free flag. -/
  | free
deriving DecidableEq, Repr, Inhabited

namespace Field

/-- Where the field begins in its header. -/
def offset : Field → Nat
  | size => 0
  | next => 8
  | prev => 16
  | guardWord => 24
  | free => 28

/-- Bytes in the field. -/
def length : Field → Nat
  | size | next | prev => 8
  | guardWord => 4
  | free => 1

/-- Bits in the field. -/
def width : Field → Nat
  | size | next | prev => 64
  | guardWord => 32
  | free => 8

theorem eight_mul_length (field : Field) : 8 * field.length = field.width := by
  cases field <;> rfl

/-- The number in a field of the header at `block`. -/
def read (field : Field) (memory : ByteMemory) (block : Nat) : Nat :=
  memory.readNumber (block + field.offset) field.length

/-- Puts a number into a field of the header at `block`. -/
def write (field : Field) (memory : ByteMemory) (block number : Nat) : ByteMemory :=
  memory.writeNumber (block + field.offset) field.length number

/-- No field reaches beyond the header. -/
theorem offset_add_length_le (field : Field) : field.offset + field.length ≤ usedBytes := by
  cases field <;> decide

/-- Two different fields of a header have no byte in common. -/
theorem disjoint {field field' : Field} (h : field' ≠ field) :
    field'.offset + field'.length ≤ field.offset ∨ field.offset + field.length ≤ field'.offset := by
  revert h
  cases field <;> cases field' <;> decide

/-- A field reads back as it was written, and no other field of the header changes with it. -/
theorem read_write (field field' : Field) (memory : ByteMemory) (block number : Nat) :
    field'.read (field.write memory block number) block =
      if field' = field then number % bitRange field.width else field'.read memory block := by
  unfold read write
  by_cases h : field' = field
  · subst h
    rw [if_pos rfl, ByteMemory.readNumber_writeNumber, eight_mul_length]
  · rw [if_neg h]
    have := disjoint h
    exact ByteMemory.readNumber_writeNumber_of_disjoint _ _ _ _ _ _ (by omega)

/-- Writing a field changes no byte outside the header. -/
theorem read_write_of_outside (field : Field) (memory : ByteMemory) (block number query : Nat)
    (h : query < block ∨ block + usedBytes ≤ query) :
    (field.write memory block number).read query = memory.read query := by
  have := field.offset_add_length_le
  exact ByteMemory.read_writeNumber_of_outside _ _ _ _ _ (by omega)

theorem read_lt (field : Field) (memory : ByteMemory) (block : Nat) :
    field.read memory block < bitRange field.width := by
  rw [← eight_mul_length]
  exact ByteMemory.readNumber_lt _ _ _

/-- Two memories that agree on the bytes of a header agree on its fields. -/
theorem read_congr (field : Field) {memory memory' : ByteMemory} {block : Nat}
    (h : ∀ query, block ≤ query → query < block + usedBytes →
      memory'.read query = memory.read query) :
    field.read memory' block = field.read memory block := by
  have := field.offset_add_length_le
  exact ByteMemory.readNumber_congr memory fun query _ _ => h query (by omega) (by omega)

end Field

/-- Reads the header at `block`. -/
@[inline]
def load (memory : ByteMemory) (block : Nat) : Header where
  size := Field.size.read memory block
  next := linkOf (Field.next.read memory block)
  prev := linkOf (Field.prev.read memory block)
  guardWord := Field.guardWord.read memory block
  free := flagOf (Field.free.read memory block)

/-- The header with a number put into one of its fields. -/
def update (header : Header) (number : Nat) : Field → Header
  | .size => { header with size := number }
  | .next => { header with next := linkOf number }
  | .prev => { header with prev := linkOf number }
  | .guardWord => { header with guardWord := number }
  | .free => { header with free := flagOf number }

/-- The number that a field of a header holds. -/
def number (header : Header) : Field → Nat
  | .size => header.size
  | .next => numberOf header.next
  | .prev => numberOf header.prev
  | .guardWord => header.guardWord
  | .free => header.free.toNat

/-- Puts a header at `block`. -/
def store (memory : ByteMemory) (block : Nat) (header : Header) : ByteMemory :=
  [Field.size, .next, .prev, .guardWord, .free].foldl
    (fun memory field => field.write memory block (header.number field)) memory

/-- The numbers of a header fit into its fields, and no link is zero. -/
structure Fits (header : Header) : Prop where
  size_lt : header.size < bitRange 64
  next_lt : ∀ block, header.next = some block → block < bitRange 64 ∧ block ≠ 0
  prev_lt : ∀ block, header.prev = some block → block < bitRange 64 ∧ block ≠ 0
  guardWord_lt : header.guardWord < bitRange 32

end Header

theorem linkOf_numberOf {link : Option Nat} (h : ∀ block, link = some block → block ≠ 0) :
    linkOf (numberOf link) = link := by
  cases link with
  | none => rfl
  | some block => exact if_neg (h block rfl)

theorem numberOf_lt {link : Option Nat} {limit : Nat} (hlimit : 0 < limit)
    (h : ∀ block, link = some block → block < limit) : numberOf link < limit := by
  cases link with
  | none => exact hlimit
  | some block => exact h block rfl

theorem flagOf_toNat (flag : Bool) : flagOf flag.toNat = flag := by
  cases flag <;> rfl

private theorem linkOf_fits {number : Nat} (h : number < bitRange 64) (block : Nat)
    (hlink : linkOf number = some block) : block < bitRange 64 ∧ block ≠ 0 := by
  unfold linkOf at hlink
  split at hlink
  · cases hlink
  · cases hlink
    exact ⟨h, ‹_›⟩

namespace Header

/-- Whatever the memory holds, the header read from it fits. -/
theorem fits_load (memory : ByteMemory) (block : Nat) : (load memory block).Fits := by
  constructor <;> simp only [load]
  · exact Field.size.read_lt memory block
  · exact linkOf_fits (Field.next.read_lt memory block)
  · exact linkOf_fits (Field.prev.read_lt memory block)
  · exact Field.guardWord.read_lt memory block

/-- The numbers of a header that fits fit into their fields. -/
theorem Fits.number_lt {header : Header} (h : header.Fits) (field : Field) :
    header.number field < bitRange field.width := by
  cases field with
  | size => exact h.size_lt
  | next => exact numberOf_lt (bitRange_pos _) fun block hblock => (h.next_lt block hblock).1
  | prev => exact numberOf_lt (bitRange_pos _) fun block hblock => (h.prev_lt block hblock).1
  | guardWord => exact h.guardWord_lt
  | free => exact Nat.lt_of_le_of_lt (Bool.toNat_le _) (by decide)

/-- Writing a field changes the header in that field and nowhere else. -/
theorem load_write (field : Field) (memory : ByteMemory) (block : Nat) {number : Nat}
    (h : number < bitRange field.width) :
    load (field.write memory block number) block = (load memory block).update number field := by
  cases field <;> simp [load, update, Field.read_write, Nat.mod_eq_of_lt h]

/-- Storing a header changes no byte outside it. -/
theorem read_store_of_outside (memory : ByteMemory) (block : Nat) (header : Header) (query : Nat)
    (h : query < block ∨ block + usedBytes ≤ query) :
    (store memory block header).read query = memory.read query := by
  simp only [store, List.foldl_cons, List.foldl_nil, Field.read_write_of_outside _ _ _ _ _ h]

/-- Two memories that agree on the bytes of a header hold the same header. -/
theorem load_congr {memory memory' : ByteMemory} {block : Nat}
    (h : ∀ query, block ≤ query → query < block + usedBytes →
      memory'.read query = memory.read query) :
    load memory' block = load memory block := by
  simp only [load, Field.read_congr _ h]

/-- Writing a field leaves the headers that do not overlap its header alone. -/
theorem load_write_of_disjoint (field : Field) (memory : ByteMemory) (block number block' : Nat)
    (h : block' + usedBytes ≤ block ∨ block + usedBytes ≤ block') :
    load (field.write memory block number) block' = load memory block' :=
  load_congr fun query _ _ => field.read_write_of_outside _ _ _ _ (by omega)

/-- Storing a header leaves the headers that do not overlap it alone. -/
theorem load_store_of_disjoint (memory : ByteMemory) (block : Nat) (header : Header) (block' : Nat)
    (h : block' + usedBytes ≤ block ∨ block + usedBytes ≤ block') :
    load (store memory block header) block' = load memory block' :=
  load_congr fun query _ _ => read_store_of_outside _ _ _ _ (by omega)

/-- Writing several fields of a header changes it in all of them. -/
theorem load_foldl_write (fields : List Field) (memory : ByteMemory) (block : Nat)
    {header : Header} (h : header.Fits) :
    load (fields.foldl (fun memory field => field.write memory block (header.number field)) memory)
        block =
      fields.foldl (fun found field => found.update (header.number field) field)
        (load memory block) := by
  induction fields generalizing memory with
  | nil => rfl
  | cons field fields ih =>
    rw [List.foldl_cons, List.foldl_cons, ih, load_write _ _ _ (h.number_lt field)]

/-- A header reads back as it was stored. -/
theorem load_store (memory : ByteMemory) (block : Nat) {header : Header} (h : header.Fits) :
    load (store memory block header) block = header := by
  rw [store, load_foldl_write _ _ _ h]
  simp only [List.foldl_cons, List.foldl_nil, update, number, flagOf_toNat,
    linkOf_numberOf fun next hnext => (h.next_lt next hnext).2,
    linkOf_numberOf fun prev hprev => (h.prev_lt prev hprev).2]

end Header

end KernelResources.Heap
