/-!
# Faults of a block list

The ways in which the header of one heap block can contradict its neighbours or its arena.
-/

namespace KernelResources.Heap

/-- What the verification of a block header can find wrong. -/
inductive Fault where
  /-- The block does not start where the block before it ends. -/
  | notContiguous
  /-- The guard word is damaged. -/
  | badGuard
  /-- The link to the block before it names another block. -/
  | brokenBackLink
  /-- The size is too small, unaligned, or reaches past the end of the arena. -/
  | badSize
  /-- The block and the one before it are both free. -/
  | adjacentFree
deriving DecidableEq, Repr, Inhabited

/-- The wording of a fault. -/
def Fault.message : Fault → String
  | notContiguous => "block is not contiguous with its predecessor"
  | badGuard => "bad guard"
  | brokenBackLink => "broken back link"
  | badSize => "bad block size"
  | adjacentFree => "adjacent free blocks"

end KernelResources.Heap
