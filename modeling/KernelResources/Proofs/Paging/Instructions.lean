import KernelResources.Proofs.Ensures
import KernelResources.Proofs.Paging.Ledger

/-!
# Requests as instructions

The memory management unit does not wait for a request to be over: it may look at the tables
between any two changes of memory. To speak of what it sees then, this file takes the requests
apart into instructions of the machine, each of which is one access to memory, one action on the
frame pool, or one order to the memory management unit.

* `Instruction` lists the instructions and says what each of them does.
* `Routine` is a sequence of instructions that depends on what they return. `Routine.run` executes
  it without a break.
* `Request.routine` is the routine of a request; `Request.run_routine` says that executing it is
  carrying the request out.
* `Routine.Consists` says that a routine has instructions of a certain kind only.
-/

namespace KernelResources

open Paging

/-- An instruction of the machine, by the type of what it returns. -/
inductive Instruction : Type → Type 1 where
  /-- Looks at the machine, which changes nothing. -/
  | look : Instruction Machine
  /-- Reads an entry of a table. -/
  | entry (frame slot : Nat) : Instruction Entry
  /-- Writes an entry of a table. -/
  | setEntry (frame slot : Nat) (entry : Entry) : Instruction Unit
  /-- Fills a frame with zeros. -/
  | zeroFrame (frame : Nat) : Instruction Unit
  /-- Writes a word. -/
  | setWordAt (address value : Nat) : Instruction Unit
  /-- Acts on the frame pool. -/
  | onFrames {α : Type} (action : Total FramePool α) : Instruction α
  /-- Has another directory loaded. -/
  | load (directory : Nat) : Instruction Unit
  /-- Has the cached translation of the page around an address forgotten. -/
  | invalidate (address : Nat) : Instruction Unit
  /-- Adds a notice to the journal. -/
  | note (notice : Notice) : Instruction Unit

namespace Instruction

variable {ε ε' α : Type}

/-- Executes an instruction. -/
def run : Instruction α → Action ε Machine α
  | look => get
  | entry frame slot => Machine.entry frame slot
  | setEntry frame slot new => Machine.setEntry frame slot new
  | zeroFrame frame => modify fun machine =>
    { machine with memory := machine.memory.zeroFrame frame }
  | setWordAt address value => modify fun machine =>
    { machine with memory := machine.memory.setWordAt address value }
  | onFrames action => Machine.onFrames action.unrefused
  | load directory => Machine.loadDirectory directory
  | invalidate address => Machine.invalidate address
  | note notice => Action.note notice

/-- What the memory management unit is told by an instruction. -/
def calls : Instruction α → List MmuCall
  | load directory => [.load (Frame.address directory)]
  | invalidate address => [.invalidate (roundDown address pageSize)]
  | _ => []

/-- The instruction loads no directory. -/
def KeepsDirectory : Instruction α → Prop
  | load _ => False
  | _ => True

/-- The instruction writes no memory and tells the memory management unit nothing. -/
def Spares : Instruction α → Prop
  | setEntry .. | zeroFrame _ | setWordAt .. | load _ | invalidate _ => False
  | _ => True

section Run

variable {machine : Machine} {journal journal' : Journal} {frame slot : Nat} {new : Entry}

theorem run_entry (hslot : slot < entryCount) :
    ((entry frame slot).run : Action ε Machine Entry) machine journal =
      .done (machine.memory.entry frame slot) machine journal := by
  simp [run, Machine.entry, Machine.onMemory, Table.get, Table.checkSlot, hslot,
    Action.apply_within, Action.apply_map]

theorem run_entry_of_le (hslot : entryCount ≤ slot) :
    ((entry frame slot).run : Action ε Machine Entry) machine journal =
      .halted (.indexOutOfBounds entryCount slot) journal := by
  simp [run, Machine.entry, Machine.onMemory, Table.get, Table.checkSlot, Nat.not_lt.mpr hslot,
    Action.apply_within, Action.apply_bind]

theorem run_setEntry (hslot : slot < entryCount) :
    ((setEntry frame slot new).run : Action ε Machine Unit) machine journal =
      .done () (machine.entering frame slot new) journal := by
  simp [run, Machine.setEntry, Machine.onMemory, Table.set, Table.checkSlot, hslot,
    Action.apply_within, Machine.entering]

theorem run_setEntry_of_le (hslot : entryCount ≤ slot) :
    ((setEntry frame slot new).run : Action ε Machine Unit) machine journal =
      .halted (.indexOutOfBounds entryCount slot) journal := by
  simp [run, Machine.setEntry, Machine.onMemory, Table.set, Table.checkSlot, Nat.not_lt.mpr hslot,
    Action.apply_within, Action.apply_bind]

theorem run_onFrames_of_done {action : Total FramePool α} {value : α} {frames : FramePool}
    (h : action machine.frames journal = .done value frames journal') :
    ((onFrames action).run : Action ε Machine α) machine journal =
      .done value { machine with frames } journal' := by
  rw [run, Machine.onFrames]
  exact Action.within_of_done (Action.unrefused_of_done h)

theorem run_onFrames_of_halted {action : Total FramePool α} {cause : Halt}
    (h : action machine.frames journal = .halted cause journal') :
    ((onFrames action).run : Action ε Machine α) machine journal = .halted cause journal' := by
  rw [run, Machine.onFrames, Action.apply_within, Action.unrefused, Action.apply_mapError, h]

end Run

/-- An instruction is never refused: it returns, or it halts the kernel. -/
theorem run_cases (instruction : Instruction α) (machine : Machine) (journal : Journal) :
    (∃ value machine' journal', ∀ {ε : Type},
      (instruction.run : Action ε Machine α) machine journal = .done value machine' journal') ∨
    ∃ cause journal', ∀ {ε : Type},
      (instruction.run : Action ε Machine α) machine journal = .halted cause journal' := by
  cases instruction with
  | entry frame slot =>
    by_cases hslot : slot < entryCount
    · exact .inl ⟨_, _, _, run_entry hslot⟩
    · exact .inr ⟨_, _, run_entry_of_le (Nat.le_of_not_lt hslot)⟩
  | setEntry frame slot new =>
    by_cases hslot : slot < entryCount
    · exact .inl ⟨_, _, _, run_setEntry hslot⟩
    · exact .inr ⟨_, _, run_setEntry_of_le (Nat.le_of_not_lt hslot)⟩
  | onFrames action =>
    cases hout : action machine.frames journal with
    | done value frames journal' => exact .inl ⟨_, _, _, run_onFrames_of_done hout⟩
    | refused error _ _ => exact error.elim
    | halted cause journal' => exact .inr ⟨_, _, run_onFrames_of_halted hout⟩
  | _ => exact .inl ⟨_, _, _, rfl⟩

theorem ensures_run (instruction : Instruction α) (machine : Machine)
    {refused : ε → Machine → Prop} :
    (instruction.run : Action ε Machine α).Ensures machine (fun _ _ => True) refused := by
  intro journal
  rcases instruction.run_cases machine journal with ⟨_, _, _, hdone⟩ | ⟨_, _, hhalted⟩
  · rw [hdone]
    trivial
  · rw [hhalted]
    trivial

/-- What can be told of an instruction without knowing which one it is. -/
structure Effect (instruction : Instruction α) (machine machine' : Machine) : Prop where
  /-- What the memory management unit is told is written down by the machine. -/
  calls : machine'.calls.toList = machine.calls.toList ++ instruction.calls
  /-- Directories are loaded by instructions for that. -/
  active : instruction.KeepsDirectory → machine'.active = machine.active
  /-- Memory is written by instructions for that. -/
  memory : instruction.Spares → machine'.memory = machine.memory

theorem effect_refl {instruction : Instruction α} (h : instruction.calls = []) (machine : Machine) :
    instruction.Effect machine machine :=
  ⟨by rw [h, List.append_nil], fun _ => rfl, fun _ => rfl⟩

theorem effect_of_run {instruction : Instruction α} {machine machine' : Machine}
    {journal journal' : Journal} {value : α}
    (h : (instruction.run : Action ε Machine α) machine journal = .done value machine' journal') :
    instruction.Effect machine machine' := by
  cases instruction with
  | look | note _ =>
    cases h
    exact effect_refl rfl machine
  | entry frame slot =>
    by_cases hslot : slot < entryCount
    · rw [run_entry hslot] at h
      cases h
      exact effect_refl rfl machine
    · rw [run_entry_of_le (Nat.le_of_not_lt hslot)] at h
      cases h
  | setEntry frame slot new =>
    by_cases hslot : slot < entryCount
    · rw [run_setEntry hslot] at h
      cases h
      exact ⟨(List.append_nil _).symm, fun _ => rfl, False.elim⟩
    · rw [run_setEntry_of_le (Nat.le_of_not_lt hslot)] at h
      cases h
  | zeroFrame _ | setWordAt _ _ =>
    cases h
    exact ⟨(List.append_nil _).symm, fun _ => rfl, False.elim⟩
  | onFrames action =>
    cases hout : action machine.frames journal with
    | done value frames journal'' =>
      rw [run_onFrames_of_done hout] at h
      cases h
      exact ⟨(List.append_nil _).symm, fun _ => rfl, fun _ => rfl⟩
    | refused error _ _ => exact error.elim
    | halted cause journal'' =>
      rw [run_onFrames_of_halted hout] at h
      cases h
  | load directory =>
    cases h
    exact ⟨Array.toList_push, False.elim, False.elim⟩
  | invalidate address =>
    cases h
    exact ⟨Array.toList_push, fun _ => rfl, False.elim⟩

/-- An instruction that spares memory and the memory management unit loads no directory either. -/
theorem Spares.calls_eq_nil {instruction : Instruction α} (h : instruction.Spares) :
    instruction.calls = [] ∧ instruction.KeepsDirectory := by
  cases instruction with
  | setEntry | zeroFrame | setWordAt | load | invalidate => exact h.elim
  | _ => exact ⟨rfl, trivial⟩

end Instruction

/-- Instructions one after the other, each of which may depend on what was returned before. -/
inductive Routine (ε α : Type) : Type 1 where
  /-- The routine is done. -/
  | done (value : α)
  /-- The routine is refused. -/
  | refused (error : ε)
  /-- One instruction, and what follows for each thing that it may return. -/
  | step {β : Type} (instruction : Instruction β) (next : β → Routine ε α)

namespace Routine

variable {ε ε' α β γ : Type}

/-- Executes the instructions of a routine. -/
def run : Routine ε α → Action ε Machine α
  | done value => pure value
  | refused error => throw error
  | step instruction next => instruction.run >>= fun value => (next value).run

/-- Goes on with another routine when this one is done. -/
protected def bind (next : α → Routine ε β) : Routine ε α → Routine ε β
  | done value => next value
  | refused error => refused error
  | step instruction rest => step instruction fun value => (rest value).bind next

instance : Monad (Routine ε) where
  pure := done
  bind first next := first.bind next

/-- The routine of one instruction. -/
def act (instruction : Instruction α) : Routine ε α := step instruction done

/-- Refuses with `error` where `condition` holds. -/
def refuseIf (condition : Prop) [Decidable condition] (error : ε) : Routine ε Unit :=
  if condition then refused error else done ()

/-- Refuses with `error` unless a value is present. -/
def ofOption (error : ε) : Option α → Routine ε α
  | some value => done value
  | none => refused error

/-- Refuses with the error that was handed on. -/
def ofExcept : Except ε α → Routine ε α
  | .ok value => done value
  | .error error => refused error

/-- Hands a refusal to the caller as a value. -/
def attempt : Routine ε α → Routine ε' (Except ε α)
  | done value => done (.ok value)
  | refused error => done (.error error)
  | step instruction next => step instruction fun value => (next value).attempt

/-! ## How routines run -/

section Run

@[simp] theorem run_pure (value : α) : (pure value : Routine ε α).run = pure value := rfl

theorem run_bind (first : Routine ε α) (next : α → Routine ε β) :
    (first >>= next).run = first.run >>= fun value => (next value).run := by
  induction first with
  | done value => rfl
  | refused error => rfl
  | step instruction rest ih =>
    show (instruction.run >>= fun value => (rest value >>= next).run) = _
    simp only [ih]
    exact (bind_assoc _ _ _).symm

@[simp] theorem run_act (instruction : Instruction α) :
    (act instruction : Routine ε α).run = instruction.run := bind_pure _

@[simp] theorem run_refuseIf {condition : Prop} [Decidable condition] (error : ε) :
    (refuseIf condition error).run = Action.refuseIf condition error := by
  by_cases h : condition <;> simp only [refuseIf, Action.refuseIf, h, if_true, if_false] <;> rfl

@[simp] theorem run_ofOption (error : ε) (value? : Option α) :
    (ofOption error value?).run = Action.ofOption error value? := by
  cases value? <;> rfl

theorem run_attempt (routine : Routine ε α) :
    (routine.attempt : Routine ε' (Except ε α)).run = routine.run.attempt := by
  induction routine with
  | done value => rfl
  | refused error => rfl
  | step instruction next ih =>
    funext machine journal
    show (instruction.run >>= fun value => ((next value).attempt).run) machine journal = _
    simp only [ih, run, Action.apply_bind, Action.apply_attempt]
    rcases instruction.run_cases machine journal with
      ⟨value, middle, journalMiddle, hdone⟩ | ⟨cause, journal', hhalted⟩
    · rw [hdone, hdone]
    · rw [hhalted, hhalted]

theorem run_forM (action : α → Routine ε PUnit) (items : List α) :
    (items.forM action).run = items.forM fun item => (action item).run := by
  induction items with
  | nil => rfl
  | cons item rest ih =>
    show (action item >>= fun _ => rest.forM action).run = _
    rw [run_bind, ih]
    rfl

/-- A condition may be looked into before or after. -/
theorem run_ite {condition : Prop} [Decidable condition] (first second : Routine ε α) :
    (if condition then first else second).run =
      if condition then first.run else second.run := by
  split <;> rfl

end Run

/-! ## Kinds of instructions -/

/-- All instructions of a routine are of a kind. -/
def Consists (kind : ∀ {β : Type}, Instruction β → Prop) : Routine ε α → Prop
  | done _ => True
  | refused _ => True
  | step instruction next => kind instruction ∧ ∀ value, (next value).Consists kind

section Consists

variable {kind kind' : ∀ {β : Type}, Instruction β → Prop}

theorem consists_bind {first : Routine ε α} {next : α → Routine ε β} (h : first.Consists kind)
    (hnext : ∀ value, (next value).Consists kind) : (first >>= next).Consists kind := by
  induction first with
  | done value => exact hnext value
  | refused error => trivial
  | step instruction rest ih => exact ⟨h.1, fun value => ih value (h.2 value)⟩

theorem consists_act {instruction : Instruction α} (h : kind instruction) :
    (act instruction : Routine ε α).Consists kind := ⟨h, fun _ => trivial⟩

theorem consists_ofExcept {result : Except ε α} : (ofExcept result).Consists kind := by
  cases result <;> trivial

theorem consists_forM {action : α → Routine ε PUnit} {items : List α}
    (h : ∀ item, (action item).Consists kind) : (items.forM action).Consists kind := by
  induction items with
  | nil => trivial
  | cons item rest ih =>
    exact consists_bind (h item) fun _ => ih

theorem consists_ite {condition : Prop} [Decidable condition] {first second : Routine ε α}
    (h : first.Consists kind) (h' : second.Consists kind) :
    (if condition then first else second).Consists kind := by
  split
  · exact h
  · exact h'

end Consists

end Routine

/-! ## Requests -/

namespace Routine

variable {ε : Type} (paging : Paging)

/-- The routine of `Machine.takeZeroed`. -/
def takeZeroed : Routine MemoryError Nat := do
  let found ← act (.onFrames FramePool.allocate?)
  let frame ← ofOption .outOfMemory found
  act (.zeroFrame frame)
  return frame

/-- An action on the frame pool that may be refused. -/
def onFrames {α : Type} (action : Action MemoryError FramePool α) : Routine MemoryError α := do
  ofExcept (← act (.onFrames action.attempt))

/-- The routine of `Machine.discardFrame`. -/
def discardFrame (frame : Nat) : Routine ε Unit := act (.onFrames (FramePool.discard frame))

/-- The routine of `Paging.refuseShared`. -/
def refuseShared (space : AddressSpace) (address : Nat) : Routine MemoryError Unit :=
  refuseIf (space.directory ≠ paging.kernel.directory ∧ paging.inKernelRegion address)
    .invalidOperation

/-- The routine of `Paging.tableFor`. -/
def tableFor (space : AddressSpace) (address : Nat) (create : Bool) : Routine MemoryError Nat := do
  let slot := slotInDirectory address
  match (← act (.entry space.directory slot)).frame? with
  | some table => return table
  | none =>
    refuseIf (create = false) .notMapped
    let table ← takeZeroed
    act (.setEntry space.directory slot (.leadingTo (Frame.address table) Flags.table))
    return table

/-- The routine of `Paging.copySlot`. -/
def copySlot (source target slot : Nat) : Routine ε Unit := do
  act (.setEntry target slot (← act (.entry source slot)))

/-- The routine of `Paging.createSpace`. -/
def createSpace : Routine MemoryError AddressSpace := do
  let directory ← takeZeroed
  (List.range paging.layout.sharedSlots).forM (copySlot paging.kernel.directory directory)
  return ⟨directory⟩

/-- The routine of `Paging.discardLeaf`. -/
def discardLeaf (leaf : Entry) : Routine ε Unit :=
  match leaf.frame? with
  | some frame => if leaf.isOwned then discardFrame frame else pure ()
  | none => pure ()

/-- The routine of `Paging.discardSlot`. -/
def discardSlot (space : AddressSpace) (slot : Nat) : Routine ε Unit := do
  let upper ← act (.entry space.directory slot)
  match upper.frame? with
  | none => pure ()
  | some table =>
    (Table.entries (← act .look).memory table).forM discardLeaf
    if upper.isOwned then discardFrame table else pure ()

/-- The routine of `Paging.destroySpace`. -/
def destroySpace (space : AddressSpace) : Routine MemoryError Unit := do
  refuseIf
    (space.directory = paging.kernel.directory ∨ space.directory = (← act .look).active)
    .invalidOperation
  ((List.range entryCount).drop paging.layout.sharedSlots).forM (discardSlot space)
  discardFrame space.directory

/-- The routine of `Paging.openToUser`. -/
def openToUser (space : AddressSpace) (address : Nat) (flags : Flags) : Routine ε Unit := do
  if flags.has Flags.user then
    let slot := slotInDirectory address
    let upper ← act (.entry space.directory slot)
    if upper.flags.has Flags.user then pure ()
    else act (.setEntry space.directory slot { upper with flags := upper.flags ||| Flags.user })
  else pure ()

/-- The routine of `Paging.enter`. -/
def enter (space : AddressSpace) (address physical : Nat) (flags : Flags) :
    Routine MemoryError Unit := do
  refuseShared paging space address
  let table ← tableFor space address true
  let slot := slotInTable address
  refuseIf (← act (.entry table slot)).isPresent .alreadyMapped
  act (.setEntry table slot (.leadingTo physical flags))
  openToUser space address flags

/-- The routine of `Paging.forgetCached`. -/
def forgetCached (space : AddressSpace) (address : Nat) (flags : Flags) : Routine ε Unit := do
  if space.directory = (← act .look).active ∨ paging.inKernelRegion address ∨
      flags.has Flags.global then
    act (.invalidate address)
  else pure ()

/-- The routine of `Paging.retire`. -/
def retire (space : AddressSpace) (address : Nat) (previous : Entry) : Routine ε Unit := do
  discardLeaf previous
  forgetCached paging space address previous.flags

/-- The routine of `Paging.remap`. -/
def remap (space : AddressSpace) (address physical : Nat) (flags : Flags) :
    Routine MemoryError (Option Nat) := do
  refuseShared paging space address
  let flags := borrowed flags
  let table ← tableFor space address true
  let slot := slotInTable address
  let previous ← act (.entry table slot)
  act (.setEntry table slot (.leadingTo physical flags))
  openToUser space address flags
  if previous.isPresent then
    retire paging space address previous
    return some previous.address
  else return none

/-- The routine of `Paging.mapFresh`. -/
def mapFresh (space : AddressSpace) (address : Nat) (flags : Flags) : Routine MemoryError Nat := do
  let frame ← takeZeroed
  let flags := flags ||| Flags.present ||| Flags.owned
  match ← (enter paging space address (Frame.address frame) flags).attempt with
  | .ok () => return frame
  | .error error =>
    discardFrame frame
    refused error

/-- The routine of `Paging.unmap`. -/
def unmap (space : AddressSpace) (address : Nat) : Routine ε (Option Nat) := do
  match ← (refuseShared paging space address).attempt with
  | .error _ =>
    act (.note (.sharedUnmapRefused address))
    return none
  | .ok () =>
    match ← (tableFor space address false).attempt with
    | .error _ => return none
    | .ok table =>
      let slot := slotInTable address
      let previous ← act (.entry table slot)
      match previous.frame? with
      | none => return none
      | some frame =>
        act (.setEntry table slot .unused)
        retire paging space address previous
        return some frame

/-! ## Executing the routine of a request -/

@[simp] theorem run_takeZeroed : takeZeroed.run = Machine.takeZeroed := by
  unfold takeZeroed Machine.takeZeroed
  simp only [run_bind, run_act, run_ofOption, run_pure]
  rfl

@[simp] theorem run_onFrames {α : Type} (action : Action MemoryError FramePool α) :
    (onFrames action).run = Machine.onFrames action := by
  unfold onFrames
  rw [run_bind, run_act]
  funext machine journal
  simp only [Instruction.run, Machine.onFrames, Action.apply_bind, Action.apply_within,
    Action.unrefused, Action.apply_mapError, Action.apply_attempt]
  cases action machine.frames journal <;> rfl

@[simp] theorem run_discardFrame (frame : Nat) :
    (discardFrame frame : Routine ε Unit).run = Machine.discardFrame frame := run_act _

@[simp] theorem run_refuseShared (space : AddressSpace) (address : Nat) :
    (refuseShared paging space address).run = paging.refuseShared space address :=
  run_refuseIf _

@[simp] theorem run_tableFor (space : AddressSpace) (address : Nat) (create : Bool) :
    (tableFor space address create).run = Paging.tableFor space address create := by
  unfold tableFor Paging.tableFor
  rw [run_bind, run_act]
  refine bind_congr fun upper => ?_
  cases upper.frame? with
  | some table => rfl
  | none =>
    simp only [run_bind, run_refuseIf, run_takeZeroed, run_act, run_pure]
    rfl

@[simp] theorem run_createSpace : (createSpace paging).run = paging.createSpace := by
  unfold createSpace Paging.createSpace
  simp only [run_bind, run_takeZeroed, run_forM, run_pure, copySlot, run_act]
  rfl

@[simp] theorem run_discardLeaf (leaf : Entry) :
    (discardLeaf leaf : Routine ε Unit).run = Paging.discardLeaf leaf := by
  unfold discardLeaf Paging.discardLeaf
  cases leaf.frame? with
  | none => rfl
  | some frame => simp only [run_ite, run_discardFrame, run_pure]

@[simp] theorem run_discardSlot (space : AddressSpace) (slot : Nat) :
    (discardSlot space slot : Routine ε Unit).run = Paging.discardSlot space slot := by
  unfold discardSlot Paging.discardSlot
  rw [run_bind, run_act]
  refine bind_congr fun upper => ?_
  cases upper.frame? with
  | none => rfl
  | some table =>
    simp only [run_bind, run_act, run_forM, run_discardLeaf, run_ite, run_discardFrame, run_pure]
    rfl

@[simp] theorem run_destroySpace (space : AddressSpace) :
    (destroySpace paging space).run = paging.destroySpace space := by
  unfold destroySpace Paging.destroySpace
  simp only [run_bind, run_act, run_refuseIf, run_forM, run_discardSlot, run_discardFrame]
  rfl

@[simp] theorem run_openToUser (space : AddressSpace) (address : Nat) (flags : Flags) :
    (openToUser space address flags : Routine ε Unit).run =
      Paging.openToUser space address flags := by
  unfold openToUser Paging.openToUser
  simp only [run_ite, run_bind, run_act, run_pure]
  rfl

@[simp] theorem run_enter (space : AddressSpace) (address physical : Nat) (flags : Flags) :
    (enter paging space address physical flags).run =
      paging.enter space address physical flags := by
  unfold enter Paging.enter
  simp only [run_bind, run_refuseShared, run_tableFor, run_act, run_refuseIf, run_openToUser]
  rfl

@[simp] theorem run_retire (space : AddressSpace) (address : Nat) (previous : Entry) :
    (retire paging space address previous : Routine ε Unit).run =
      paging.retire space address previous := by
  unfold retire Paging.retire forgetCached Paging.forgetCached
  simp only [run_bind, run_discardLeaf, run_act, run_ite, run_pure]
  rfl

@[simp] theorem run_remap (space : AddressSpace) (address physical : Nat) (flags : Flags) :
    (remap paging space address physical flags).run =
      paging.remap space address physical flags := by
  unfold remap Paging.remap
  simp only [run_bind, run_refuseShared, run_tableFor, run_act, run_openToUser, run_ite, run_retire,
    run_pure]
  rfl

@[simp] theorem run_mapFresh (space : AddressSpace) (address : Nat) (flags : Flags) :
    (mapFresh paging space address flags).run = paging.mapFresh space address flags := by
  unfold mapFresh Paging.mapFresh
  simp only [run_bind, run_takeZeroed, run_attempt, run_enter]
  refine bind_congr fun frame => bind_congr fun result => ?_
  cases result with
  | ok value => rfl
  | error error =>
    simp only [run_bind, run_discardFrame]
    rfl

@[simp] theorem run_unmap (space : AddressSpace) (address : Nat) :
    (unmap paging space address : Routine ε (Option Nat)).run = paging.unmap space address := by
  unfold unmap Paging.unmap
  simp only [run_bind, run_attempt, run_refuseShared]
  refine bind_congr fun result => ?_
  cases result with
  | error error =>
    simp only [run_bind, run_act, run_pure]
    rfl
  | ok value =>
    simp only [run_bind, run_attempt, run_tableFor]
    refine bind_congr fun found => ?_
    cases found with
    | error error => rfl
    | ok table =>
      simp only [run_bind, run_act]
      refine bind_congr fun previous => ?_
      cases previous.frame? with
      | none => rfl
      | some frame =>
        simp only [run_bind, run_act, run_retire, run_pure]
        rfl

end Routine

/-- The routine of a request. -/
def Paging.Request.routine (paging : Paging) : Request → Routine MemoryError Grant
  | createSpace => do return .space (← Routine.createSpace paging)
  | destroySpace space => do
    Routine.destroySpace paging space
    return .nothing
  | map space address physical flags => do
    Routine.enter paging space address physical (borrowed flags)
    return .nothing
  | remap space address physical flags => do
    let _ ← Routine.remap paging space address physical flags
    return .nothing
  | mapFresh space address flags => do
    let _ ← Routine.mapFresh paging space address flags
    return .nothing
  | unmap space address => do
    let _ ← Routine.unmap paging space address
    return .nothing
  | tableFor space address create => do
    let _ ← Routine.tableFor space address create
    return .nothing
  | activate space => do
    Routine.act (.load space.directory)
    return .nothing
  | activateKernel => do
    Routine.act (.load paging.kernel.directory)
    return .nothing
  | allocate => do return .frames (← Routine.onFrames FramePool.allocate) 1
  | allocateRun count => do return .frames (← Routine.onFrames (FramePool.allocateRun count)) count
  | free frame => do
    Routine.onFrames (FramePool.free frame)
    return .nothing
  | write address value => do
    Routine.act (.setWordAt address value)
    return .nothing

/-- Executing the routine of a request is carrying the request out. -/
theorem Paging.Request.run_routine (paging : Paging) (request : Request) :
    (request.routine paging).run = request.run paging := by
  cases request with
  | map | activate | activateKernel | write =>
    simp only [Request.routine, Request.run, Routine.run_bind, Routine.run_pure, Routine.run_act,
      Routine.run_enter]
    rfl
  | _ =>
    simp only [Request.routine, Request.run, Routine.run_bind, Routine.run_pure,
      Routine.run_createSpace, Routine.run_destroySpace, Routine.run_remap, Routine.run_mapFresh,
      Routine.run_unmap, Routine.run_tableFor, Routine.run_onFrames]

end KernelResources
