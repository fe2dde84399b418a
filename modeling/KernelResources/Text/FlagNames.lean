import KernelResources.Text.Hex

/-!
# Names of flag sets

A set of flags is written as the names of its members in ascending bit order, joined by bars. The
empty set is written `0x0`.
-/

namespace KernelResources.Text

/-- One named flag: the number of its bit and its name. -/
structure FlagName where
  /-- Position of the flag in its word, counted from the least significant bit. -/
  bit : Nat
  /-- How the flag is written. -/
  name : String
deriving Repr

/-- The names of the bits of `word` that `table` names, in the order of `table`. -/
def flagNames (table : List FlagName) (word : Nat) : String :=
  match table.filter fun flag => word.testBit flag.bit with
  | [] => hex 0
  | flags => String.intercalate " | " (flags.map FlagName.name)

end KernelResources.Text
