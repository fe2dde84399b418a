import KernelResources.Paging.AddressSpace

/-!
# Looking at page tables

Lists what a directory leads to: its used slots, and for each of them the used entries of the
table, gathered into runs of consecutive entries that map consecutive frames with equal flags.
-/

namespace KernelResources

/-- Consecutive entries of a table that lead to consecutive frames with equal flags. -/
structure LeafRun where
  /-- The first slot. -/
  first : Nat
  /-- Number of entries. -/
  count : Nat
  /-- Physical address that the first entry leads to. -/
  address : Nat
  /-- The flags of the entries. -/
  flags : Flags
deriving DecidableEq, Repr, Inhabited

/-- A used slot of a directory. -/
structure DirectorySlot where
  /-- Number of the slot. -/
  slot : Nat
  /-- The entry in it. -/
  entry : Entry
  /-- What the table behind it maps, if the entry takes part in translation. -/
  leaves : Option (List LeafRun)
deriving DecidableEq, Repr, Inhabited

namespace WordMemory

/-- Whether the entry of a slot continues a run. -/
private def continues (run : LeafRun) (slot : Nat) (entry : Entry) : Bool :=
  slot = run.first + run.count ∧ entry.address = run.address + run.count * pageSize ∧
    entry.flags = run.flags

/-- Adds the entry of a slot to the runs found so far, the latest first. -/
private def addLeaf (memory : WordMemory) (table : Nat) (runs : List LeafRun) (slot : Nat) :
    List LeafRun :=
  let entry := memory.entry table slot
  if entry.isUnused then runs
  else
    let fresh : LeafRun :=
      { first := slot, count := 1, address := entry.address, flags := entry.flags }
    match runs with
    | run :: rest =>
      if continues run slot entry then { run with count := run.count + 1 } :: rest
      else fresh :: runs
    | [] => [fresh]

/-- The runs of a table, in ascending order. -/
def leafRuns (memory : WordMemory) (table : Nat) : List LeafRun :=
  ((List.range entryCount).foldl (addLeaf memory table) []).reverse

/-- Number of entries of a table that take part in translation. -/
def presentCount (memory : WordMemory) (table : Nat) : Nat :=
  (Table.entries memory table).countP Entry.isPresent

/-- The slots of a table that are used. -/
def usedSlots (memory : WordMemory) (table : Nat) : List Nat :=
  (List.range entryCount).filter fun slot => !(memory.entry table slot).isUnused

end WordMemory

namespace Table

variable {ε : Type}

/-- The used slots among `count` slots of a directory from `slot` on, in ascending order. All of
them must be slots that a directory has. -/
def usedFrom (directory : Nat) : (count slot : Nat) →
    Action ε WordMemory (List DirectorySlot)
  | 0, _ => return []
  | count + 1, slot => do
    let entry ← get directory slot
    let memory ← MonadState.get
    let rest ← usedFrom directory count (slot + 1)
    if entry.isUnused then return rest
    else return { slot, entry, leaves := entry.frame?.map memory.leafRuns } :: rest

/-- The used slots of a directory among those in `[first, last)`, in ascending order. -/
def directorySlots (directory first last : Nat) : Action ε WordMemory (List DirectorySlot) :=
  usedFrom directory (last - first) first

end Table

end KernelResources
