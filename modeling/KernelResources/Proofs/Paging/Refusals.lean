import KernelResources.Proofs.Paging.Instructions
import KernelResources.Proofs.Paging.Lasting
import KernelResources.Proofs.Paging.Refinement
import KernelResources.Proofs.Paging.Takings

/-!
# Refused requests to address spaces

A page may need two frames, one for itself and one for the table that leads to it. Whether there are
two is found out only when the first of them is taken already, and so it may be given back. A table
is made before it is known whether the page is mapped; but if it had to be made, then the page is
not. So a refusal leaves nothing behind, unless the new table is the directory itself: that of a
space which was destroyed before.

* `Machine.Unchanged`: what is free, what is in use and what the memory management unit was told are
  the same as before.
* `Request.needs`: how many frames have to be free for a request.
* `Paging.Recoils`: an action that takes nothing if it is refused. There is one lemma for each
  operation.
* `Reached`: runs of any requests whatsoever.
* `unchanged_of_reached`: after any run, a request that is refused has changed nothing.
* `changed_of_staleMap`: so it would not be if a page were mapped in a space that was destroyed.
-/

namespace KernelResources

/-- What is in use is the same in both machines, and so is what is free. -/
structure Machine.Unchanged (machine machine' : Machine) : Prop where
  /-- The same frames are free. -/
  freeFrames_eq : machine'.frames.freeFrames = machine.frames.freeFrames
  /-- Every directory and every table in use has the same entries. -/
  entry_eq : ∀ frame ∈ machine.frames.takenFrames, ∀ slot < entryCount,
    machine'.memory.entry frame slot = machine.memory.entry frame slot
  /-- All spaces that stand translate as before. -/
  addressMap_eq : ∀ space : AddressSpace, space.Stands machine →
    machine'.memory.addressMap space = machine.memory.addressMap space
  /-- The same directory is loaded. -/
  active_eq : machine'.active = machine.active
  /-- The memory management unit has been told nothing. -/
  calls_eq : machine'.calls = machine.calls

theorem Machine.Takes.unchanged {machine machine' : Machine} (h : Takes machine [] machine') :
    Unchanged machine machine' where
  freeFrames_eq := by rw [h.freeFrames_eq, List.toFinset_nil, Finset.sdiff_empty]
  entry_eq := h.entry_eq
  addressMap_eq _ hstands := h.addressMap_eq hstands
  active_eq := h.active_eq
  calls_eq := h.calls_eq

/-- How many tables are missing for an address: none or one. -/
def WordMemory.missingTables (memory : WordMemory) (space : AddressSpace) (address : Nat) : Nat :=
  if (memory.entry space.directory (slotInDirectory address)).frame? = none then 1 else 0

theorem WordMemory.missingTables_of_none {memory : WordMemory} {space : AddressSpace}
    {address : Nat} (h : (memory.entry space.directory (slotInDirectory address)).frame? = none) :
    memory.missingTables space address = 1 := if_pos h

namespace Paging

open Machine

/-- How many frames have to be free for a request. -/
def Request.needs (memory : WordMemory) : Request → Nat
  | createSpace | allocate => 1
  | map space address _ _ | remap space address _ _ | tableFor space address true =>
    memory.missingTables space address
  | mapFresh space address _ => memory.missingTables space address + 1
  | _ => 0

/-- A page is entered in spaces only whose directory is taken. -/
def Request.Grounded (machine : Machine) : Request → Prop
  | map space _ _ _ | mapFresh space _ _ => space.directory ∈ machine.frames.takenFrames
  | _ => True

/-- If the action is refused, then it has taken nothing, and if that is for lack of memory, fewer
frames were free than it needs. -/
def Recoils {α : Type} (action : Action MemoryError Machine α) (machine : Machine)
    (needs : Nat) : Prop :=
  action.Ensures machine (fun _ _ => True) fun error machine' =>
    Takes machine [] machine' ∧ (error = .outOfMemory → machine.frames.freeFrames.card < needs)

variable {ε α β : Type} {paging : Paging} {machine : Machine} {space : AddressSpace}
  {address physical : Nat} {flags : Flags}

/-- It makes no difference what is made of the value. -/
theorem Recoils.returning {action : Action MemoryError Machine α} {needs : Nat}
    (h : Recoils action machine needs) (result : α → β) :
    Recoils (action >>= fun value => pure (result value)) machine needs :=
  h.bind fun _ _ _ => Action.ensures_pure trivial

/-- A refusal for another reason than lack of memory. -/
theorem untaken_of_ne {error : MemoryError} {needs : Nat} (hpool : machine.frames.Consistent)
    (herror : error ≠ .outOfMemory) :
    Takes machine [] machine ∧
      (error = .outOfMemory → machine.frames.freeFrames.card < needs) :=
  ⟨Takes.refl hpool, fun hmemory => absurd hmemory herror⟩

/-- A refusal because no frame is free. -/
theorem untaken_of_full {error : MemoryError} {needs : Nat} (hpool : machine.frames.Consistent)
    (hfull : machine.frames.lowestFree 0 = none) (hneeds : 0 < needs) :
    Takes machine [] machine ∧
      (error = .outOfMemory → machine.frames.freeFrames.card < needs) := by
  refine ⟨Takes.refl hpool, fun _ => ?_⟩
  rwa [FramePool.freeFrames_eq_empty hfull, Finset.card_empty]

/-! ## What is never refused

Frames are given back and entries changed without a check that could fail. Only a slot that no table
has would stop the kernel.
-/

section Unrefused

variable {refused : ε → Machine → Prop}

theorem ensures_entry (frame slot : Nat) (machine : Machine) :
    (entry frame slot : Action ε Machine Entry).Ensures machine (fun _ _ => True) refused :=
  (Instruction.entry frame slot).ensures_run machine

theorem ensures_setEntry (frame slot : Nat) (new : Entry) (machine : Machine) :
    (setEntry frame slot new : Action ε Machine Unit).Ensures machine (fun _ _ => True) refused :=
  (Instruction.setEntry frame slot new).ensures_run machine

theorem ensures_discardFrame (frame : Nat) (machine : Machine) :
    (discardFrame frame : Action ε Machine Unit).Ensures machine (fun _ _ => True) refused :=
  (Instruction.onFrames (FramePool.discard frame)).ensures_run machine

theorem ensures_discardLeaf (leaf : Entry) (machine : Machine) :
    (discardLeaf leaf : Action ε Machine Unit).Ensures machine (fun _ _ => True) refused := by
  unfold discardLeaf
  split
  · split
    · exact ensures_discardFrame _ machine
    · exact Action.ensures_pure trivial
  · exact Action.ensures_pure trivial

theorem ensures_discardSlot (space : AddressSpace) (slot : Nat) (machine : Machine) :
    (discardSlot space slot : Action ε Machine Unit).Ensures machine (fun _ _ => True)
      refused := by
  refine (ensures_entry space.directory slot machine).bind fun upper middle _ => ?_
  cases upper.frame? with
  | none => exact Action.ensures_pure trivial
  | some table =>
    refine Action.ensures_get ?_
    -- That there are 1024 leaves is better kept out of sight.
    generalize Table.entries middle.memory table = leaves
    refine (Action.ensures_forM (fun _ => True)
      (fun leaf _ machine' _ => ensures_discardLeaf leaf machine') trivial).bind
        fun _ machine' _ => ?_
    split
    · exact ensures_discardFrame table machine'
    · exact Action.ensures_pure trivial

theorem ensures_openToUser (space : AddressSpace) (address : Nat) (flags : Flags)
    (machine : Machine) :
    (openToUser space address flags : Action ε Machine Unit).Ensures machine (fun _ _ => True)
      refused := by
  unfold openToUser
  split
  · refine (ensures_entry space.directory _ machine).bind fun upper middle _ => ?_
    split
    · exact Action.ensures_pure trivial
    · exact ensures_setEntry _ _ _ middle
  · exact Action.ensures_pure trivial

theorem ensures_retire (space : AddressSpace) (address : Nat) (previous : Entry)
    (machine : Machine) :
    (paging.retire space address previous : Action ε Machine Unit).Ensures machine
      (fun _ _ => True) refused := by
  refine (ensures_discardLeaf previous machine).bind fun _ middle _ => Action.ensures_get ?_
  split
  · exact Action.ensures_modify trivial
  · exact Action.ensures_pure trivial

end Unrefused

/-! ## Operations -/

section Operations

variable (hpool : machine.frames.Consistent)
include hpool

/-- Only the directory may be missing, and it comes first. -/
theorem recoils_createSpace : Recoils paging.createSpace machine 1 := by
  refine Action.ensures_bind (settles_takeZeroed_or hpool (fun directory _ => ?_)
    fun hfull => untaken_of_full hpool hfull Nat.one_pos).ensures
  refine (Action.ensures_forM (fun _ => True) (fun slot _ machine' _ => ?_) trivial).bind
    fun _ _ _ => Action.ensures_pure trivial
  exact (ensures_entry paging.kernel.directory slot machine').bind
    fun upper middle _ => ensures_setEntry directory slot upper middle

/-- Nothing is given back before it is clear that everything will be. -/
theorem recoils_destroySpace (space : AddressSpace) :
    Recoils (paging.destroySpace space) machine 0 := by
  refine Action.ensures_get (Action.ensures_bind (Action.ensures_refuseIf
    (fun _ => untaken_of_ne hpool (by decide)) fun _ => ?_))
  refine (Action.ensures_forM (fun _ => True)
    (fun slot _ machine' _ => ensures_discardSlot space slot machine') trivial).bind ?_
  exact fun _ machine' _ => ensures_discardFrame space.directory machine'

theorem recoils_tableFor (space : AddressSpace) (address : Nat) (create : Bool) :
    Recoils (tableFor space address create) machine
      (if create then machine.memory.missingTables space address else 0) := by
  refine (settles_tableFor_exact hpool space address create).ensures.mono
    (fun _ _ _ => trivial) ?_
  rintro error machine' ⟨rfl, hnone, ⟨-, rfl⟩ | ⟨rfl, rfl, hfull⟩⟩
  · exact untaken_of_ne hpool (by decide)
  · refine untaken_of_full hpool hfull ?_
    rw [if_pos rfl, WordMemory.missingTables_of_none hnone]
    exact Nat.one_pos

/-- A page is found to be mapped only if the table was there before. -/
theorem ensures_enter (hdirectory : space.directory ∈ machine.frames.takenFrames) :
    (paging.enter space address physical flags).Ensures machine (fun _ _ => True)
      fun error machine' => machine' = machine ∧ (error = .outOfMemory →
        (machine.memory.entry space.directory (slotInDirectory address)).frame? = none ∧
          machine.frames.lowestFree 0 = none) := by
  have hslot := slotInDirectory_lt address
  have hleaf := slotInTable_lt address
  refine Action.ensures_bind (Action.ensures_refuseIf (fun _ => ⟨rfl, nofun⟩) fun _ => ?_)
  refine Action.ensures_bind ((settles_tableFor_exact hpool space address true).ensures.mono ?_ ?_)
  · intro table middle htable
    refine Action.ensures_bind (settles_entry hleaf ?_).ensures
    refine Action.ensures_bind (Action.ensures_refuseIf (fun hpresent => ?_) fun _ => ?_)
    · rcases htable with ⟨-, rfl⟩ | ⟨-, hfree, rfl⟩
      · exact ⟨rfl, nofun⟩
      -- The new table was free, so it is not the directory, and it holds nothing yet.
      · have hne : table ≠ space.directory := by
          rintro rfl
          exact ((Takes.refl hpool).takingZeroed hfree).not_mem_taken List.mem_cons_self hdirectory
        rw [entry_newTable hne hslot hleaf] at hpresent
        cases hpresent
    · exact (ensures_setEntry table _ _ middle).bind
        fun _ machine' _ => ensures_openToUser space address flags machine'
  · rintro error middle ⟨rfl, hnone, ⟨⟨⟩, -⟩ | ⟨-, -, hfull⟩⟩
    exact ⟨rfl, fun _ => ⟨hnone, hfull⟩⟩

theorem recoils_map (hdirectory : space.directory ∈ machine.frames.takenFrames) :
    Recoils (paging.map space address physical flags) machine
      (machine.memory.missingTables space address) := by
  refine (ensures_enter hpool hdirectory).mono (fun _ _ hdone => hdone) ?_
  rintro error machine' ⟨rfl, hreason⟩
  refine ⟨Takes.refl hpool, fun hmemory => ?_⟩
  obtain ⟨hnone, hfull⟩ := hreason hmemory
  rw [FramePool.freeFrames_eq_empty hfull, WordMemory.missingTables_of_none hnone]
  exact Nat.one_pos

theorem recoils_remap (space : AddressSpace) (address physical : Nat) (flags : Flags) :
    Recoils (paging.remap space address physical flags) machine
      (machine.memory.missingTables space address) := by
  refine Action.ensures_bind (Action.ensures_refuseIf
    (fun _ => untaken_of_ne hpool (by decide)) fun _ => ?_)
  have htable : Recoils (tableFor space address true) machine
      (machine.memory.missingTables space address) := recoils_tableFor hpool space address true
  refine htable.bind fun table middle _ => ?_
  -- Once there is a table, nothing is refused any more.
  refine (ensures_entry table _ middle).bind fun previous middle _ =>
    (ensures_setEntry table _ _ middle).bind fun _ middle _ =>
      (ensures_openToUser space address _ middle).bind fun _ middle _ => ?_
  split
  · exact (ensures_retire space address previous middle).bind
      fun _ _ _ => Action.ensures_pure trivial
  · exact Action.ensures_pure trivial

/-- The frame of the page is taken first, and given back if the page cannot be entered. -/
theorem recoils_mapFresh (hdirectory : space.directory ∈ machine.frames.takenFrames) :
    Recoils (paging.mapFresh space address flags) machine
      (machine.memory.missingTables space address + 1) := by
  refine Action.ensures_bind (settles_takeZeroed_or hpool (fun page hfree => ?_)
    fun hfull => untaken_of_full hpool hfull (Nat.succ_pos _)).ensures
  have htaken := (Takes.refl hpool).takingZeroed hfree
  have hmem : space.directory ∈ (machine.takingZeroed page).frames.takenFrames :=
    htaken.taken.mem_iff.mpr (List.mem_cons_of_mem _ hdirectory)
  refine Action.ensures_bind (Action.ensures_attempt ((ensures_enter htaken.pool hmem).mono
    (fun _ _ _ => Action.ensures_pure trivial) ?_))
  rintro error middle ⟨rfl, hreason⟩
  refine Action.ensures_bind (settles_discardFrame htaken.pool
    (htaken.mem_taken List.mem_cons_self) ?_).ensures
  refine Action.ensures_throw ⟨htaken.releasing, fun hmemory => ?_⟩
  -- Apart from the page, there was no free frame for a table.
  obtain ⟨hnone, hfull⟩ := hreason hmemory
  rw [htaken.entry_eq _ hdirectory _ (slotInDirectory_lt address)] at hnone
  rw [htaken.card_freeFrames, FramePool.freeFrames_eq_empty hfull,
    WordMemory.missingTables_of_none hnone]
  simp

end Operations

/-- A page for which nothing is returned has been left alone, and there is no refusal. -/
theorem ensures_unmap (space : AddressSpace) (address : Nat) (machine : Machine) :
    (paging.unmap space address : Action ε Machine (Option Nat)).Ensures machine
      (fun found machine' => found = none → machine' = machine) fun _ _ => False := by
  refine Action.ensures_bind (Action.ensures_attempt (Action.ensures_refuseIf (fun _ => ?_)
    fun _ => ?_))
  · exact Action.ensures_bind (Action.ensures_note (Action.ensures_pure fun _ => rfl))
  refine Action.ensures_bind (Action.ensures_attempt
    ((settles_tableFor_existing space address).ensures.mono ?_ ?_))
  · rintro table middle ⟨rfl, -⟩
    refine Action.ensures_bind (settles_entry (slotInTable_lt address) ?_).ensures
    cases (middle.memory.entry table (slotInTable address)).frame? with
    | none => exact Action.ensures_pure fun _ => rfl
    | some frame =>
      refine (ensures_setEntry table _ _ middle).bind fun _ machine' _ =>
        (ensures_retire space address _ machine').bind fun _ _ _ => Action.ensures_pure ?_
      exact nofun
  · rintro error middle rfl
    exact Action.ensures_pure fun _ => rfl

/-! ## Requests -/

section Requests

variable (hpool : machine.frames.Consistent)
include hpool

theorem recoils_allocate : Recoils (onFrames FramePool.allocate) machine 1 := by
  cases hfree : machine.frames.lowestFree 0 with
  | none =>
    exact (Action.settles_of_refused (fun journal => Action.within_of_refused
      (FramePool.allocate_of_none journal hfree))
        (untaken_of_full hpool hfree Nat.one_pos)).ensures
  | some frame =>
    exact (Action.settles_of_done (fun journal =>
      Action.within_of_done (FramePool.allocate_of_some hpool journal hfree)) trivial).ensures

theorem recoils_free (frame : Nat) : Recoils (onFrames (FramePool.free frame)) machine 0 := by
  by_cases htaken : frame ∈ machine.frames.takenFrames
  · exact (Action.settles_of_done (fun journal =>
      Action.within_of_done (FramePool.free_eq hpool journal htaken)) trivial).ensures
  · intro journal
    rw [onFrames, Action.within_of_refused (FramePool.free_of_not_mem journal htaken)]
    exact untaken_of_ne hpool (by decide)

/-- Of all requests, only one for a run of frames may be refused although there are enough of them,
for they may not be consecutive. -/
theorem recoils_run {request : Request} (hgrounded : request.Grounded machine)
    (hrun : ∀ count, request ≠ .allocateRun count) :
    Recoils (request.run paging) machine (request.needs machine.memory) := by
  cases request with
  | createSpace => exact (recoils_createSpace hpool).returning _
  | destroySpace space => exact (recoils_destroySpace hpool space).returning _
  | map space address physical flags => exact (recoils_map hpool hgrounded).returning _
  | remap space address physical flags =>
    exact (recoils_remap hpool space address physical flags).returning _
  | mapFresh space address flags => exact (recoils_mapFresh hpool hgrounded).returning _
  | unmap space address =>
    exact ((ensures_unmap space address machine).mono (fun _ _ _ => Action.ensures_pure trivial)
      fun _ _ => False.elim).bind fun _ _ hdone => hdone
  | tableFor space address create =>
    cases create with
    | false => exact (recoils_tableFor hpool space address false).returning _
    | true => exact (recoils_tableFor hpool space address true).returning _
  | activate space =>
    exact Action.ensures_bind (Action.ensures_modify (Action.ensures_pure trivial))
  | activateKernel =>
    exact Action.ensures_bind (Action.ensures_modify (Action.ensures_pure trivial))
  | allocate => exact (recoils_allocate hpool).returning _
  | allocateRun count => exact absurd rfl (hrun count)
  | free frame => exact (recoils_free hpool frame).returning _
  | write address value =>
    exact Action.ensures_bind (Action.ensures_modify (Action.ensures_pure trivial))

end Requests

/-! ## The count of free frames -/

section Pool

open FramePool

theorem keeps_consistent_allocate : allocate.Keeps fun pool _ => pool.Consistent := by
  intro pool journal hpool
  refine Action.Ensures.yields ?_ journal
  cases hfree : pool.lowestFree 0 with
  | none =>
    exact (Action.settles_of_refused (fun journal => allocate_of_none journal hfree) hpool).ensures
  | some frame =>
    exact (Action.settles_of_done (fun journal => allocate_of_some hpool journal hfree)
      (consistent_taking hpool (lowestFree_eq_some_iff.mp hfree).2.1)).ensures

theorem keeps_consistent_allocateRun (count : Nat) :
    (allocateRun count).Keeps fun pool _ => pool.Consistent := by
  intro pool journal hpool
  refine Action.Ensures.yields (fun journal => ?_) journal
  rcases allocateRun_cases hpool journal count with ⟨first, hlast, -, heq⟩ | ⟨error, heq⟩ | heq
  · rw [heq]
    exact consistent_taking hpool hlast
  · rw [heq]
    exact hpool
  · rw [heq]
    trivial

theorem keeps_consistent_free (frame : Nat) :
    (free frame).Keeps fun pool _ => pool.Consistent := by
  intro pool journal hpool
  refine Action.Ensures.yields (fun journal => ?_) journal
  by_cases htaken : frame ∈ pool.takenFrames
  · rw [free_eq hpool journal htaken]
    exact consistent_releasing hpool (mem_takenFrames.mp htaken).1
  · rw [free_of_not_mem journal htaken]
    exact hpool

/-- Whatever is requested, the count of free frames stays right. -/
theorem lasting_consistent : Lasting fun machine _ => machine.frames.Consistent where
  allocate := keeps_onFrames keeps_consistent_allocate
  allocateRun count := keeps_onFrames (keeps_consistent_allocateRun count)
  free frame := keeps_onFrames (keeps_consistent_free frame)
  memory _ hpool := hpool
  invalidate _ hpool := hpool
  note _ hpool := hpool

end Pool

/-! ## Runs -/

/-- A machine is reached by building the kernel space and then carrying out requests, whichever
these are: a space may be used after it was destroyed, a frame given back by somebody who does not
hold it, and a table written to. -/
inductive Reached (layout : Layout) (start : Machine) (paging : Paging) : Machine → Prop where
  | create {machine : Machine} {journal journal' : Journal} :
      Paging.create layout start journal = .done paging machine journal' →
        Reached layout start paging machine
  | step {machine machine' : Machine} {request : Request} {journal : Journal} :
      Reached layout start paging machine →
        (request.run paging machine journal).state? = some machine' →
          Reached layout start paging machine'

section Runs

variable {layout : Layout} {start : Machine}

theorem Reached.consistent (hpool : start.frames.Reachable)
    (h : Reached layout start paging machine) : machine.frames.Consistent := by
  induction h with
  | @create machine journal journal' hcreate =>
    exact (lasting_consistent.create (fun _ _ _ hkept => hkept) (fun _ _ hkept => hkept) layout
      start journal (FramePool.consistent_of_reachable hpool)).of_state?
        (congrArg Outcome.state? hcreate)
  | @step machine machine' request journal _ hrun ih =>
    exact (lasting_consistent.run (fun _ _ _ _ hkept => hkept) machine journal ih).of_state? hrun

/-- Runs in which all requests are permitted are among these. -/
theorem Ledger.Reachable.reached {journal : Journal} {ledger : Ledger}
    (h : Ledger.Reachable layout start journal paging ledger) :
    Reached layout start paging ledger.machine := by
  induction h with
  | create hcreate => exact .create hcreate
  | step _ _ hstep ih => exact ih.step (Ledger.state?_of_step hstep)

/-- After any run of requests, whichever they are, a request that is refused has changed nothing,
and if it is refused for lack of memory, then fewer frames are free than it needs. The same holds if
nothing is returned for a page that was to be unmapped. The frames that are free are the same,
whatever is in use holds what it held, and the memory management unit has been told nothing. This
takes for granted that a page is entered in a space whose directory is taken. If only live spaces
were used and nobody's frames were given back by others, then all live spaces are of this kind, and
so are their tables. -/
theorem unchanged_of_reached (hpool : start.frames.Reachable) :
    (∀ machine, Reached layout start paging machine →
      (∀ request : Request, request.Grounded machine → (∀ count, request ≠ .allocateRun count) →
        (request.run paging).Ensures machine (fun _ _ => True) fun error machine' =>
          machine.Unchanged machine' ∧ (error = .outOfMemory →
            machine.frames.freeFrames.card < request.needs machine.memory)) ∧
      ∀ space address, (paging.unmap space address : Action MemoryError Machine _).Ensures machine
        (fun found machine' => found = none → machine.Unchanged machine') fun _ _ => False) ∧
    (start.frames.total ≤ bitRange 20 → ∀ journal ledger,
      Ledger.Reachable layout start journal paging ledger →
        Reached layout start paging ledger.machine ∧
          ∀ space ∈ ledger.spaces, space.Stands ledger.machine) := by
  refine ⟨fun machine h => ?_, fun htotal journal ledger h => ⟨h.reached, fun space hspace => ?_⟩⟩
  · have hconsistent := h.consistent hpool
    refine ⟨fun request hgrounded hrun => ?_, fun space address => ?_⟩
    · exact (recoils_run hconsistent hgrounded hrun).mono (fun _ _ hdone => hdone)
        fun _ _ hrefused => ⟨hrefused.1.unchanged, hrefused.2⟩
    · refine (ensures_unmap space address machine).mono_done fun found machine' hfound hnone => ?_
      rw [hfound hnone]
      exact (Takes.refl hconsistent).unchanged
  · exact (consistent_of_reachable hpool htotal h).1.stands hspace

end Runs

/-- If one frame is left of eight, a page that needs a table besides is refused, and the frame that
was taken for it is free again. -/
theorem unchanged_of_lastFrame :
    ∃ paging ledger, Ledger.Reachable smallLayout smallMachine #[] paging ledger ∧
      ∃ machine' journal', (Request.mapFresh ⟨2⟩ userSpaceStart Flags.user).run paging
          ledger.machine ledger.journal = .refused .outOfMemory machine' journal' ∧
        ledger.machine.Unchanged machine' ∧ 7 ∈ machine'.frames.freeFrames ∧
        ledger.machine.frames.freeFrames.card < 2 := by
  have hrun : (Ledger.ofRun? smallLayout smallMachine
      [.createSpace, .allocate, .allocate, .allocate, .allocate]).any (fun run =>
        decide (⟨2⟩ ∈ run.2.spaces ∧ run.2.machine.frames.isTaken 7 = false ∧
          run.2.machine.memory.missingTables ⟨2⟩ userSpaceStart = 1) &&
        ((Request.mapFresh ⟨2⟩ userSpaceStart Flags.user).run run.1 run.2.machine
          run.2.journal).failsWith fun error _ _ => decide (error = .outOfMemory)) = true := by
    decide +kernel
  obtain ⟨⟨paging, ledger⟩, hledger, hrun⟩ := (Option.any_eq_true _ _).mp hrun
  obtain ⟨hfacts, hfails⟩ := Bool.and_eq_true_iff.mp hrun
  obtain ⟨hspace, hfree, hmissing⟩ := of_decide_eq_true hfacts
  obtain ⟨_, machine', journal', hout, herror⟩ := Outcome.failsWith_iff.mp hfails
  obtain rfl := of_decide_eq_true herror
  have hreachable := Ledger.reachable_of_ofRun? hledger
  have hpool : smallMachine.frames.Reachable := .allFree (by decide)
  obtain ⟨hreached, hstands⟩ := (unchanged_of_reached hpool).2 (by decide) #[] ledger hreachable
  have hrefusal := ((unchanged_of_reached hpool).1 _ hreached).1
    (.mapFresh ⟨2⟩ userSpaceStart Flags.user) (hstands ⟨2⟩ hspace).directory nofun ledger.journal
  rw [hout] at hrefusal
  obtain ⟨hunchanged, hcard⟩ := hrefusal
  refine ⟨paging, ledger, hreachable, machine', journal', hout, hunchanged, ?_, ?_⟩
  · rw [hunchanged.freeFrames_eq]
    exact FramePool.mem_freeFrames.mpr hfree
  · have hneeds := hcard rfl
    rwa [Request.needs, hmissing] at hneeds

/-- A page is mapped in a space that was destroyed. The least free frame is the one of its
directory, which becomes a table that leads to itself. So the page seems to be mapped, and the frame
is not free any more. -/
theorem changed_of_staleMap :
    ∃ paging ledger, Ledger.Reachable smallLayout smallMachine #[] paging ledger ∧
      ∃ machine' journal', (Request.map ⟨2⟩ 0x40501000 0x1000 Flags.writable).run paging
          ledger.machine ledger.journal = .refused .alreadyMapped machine' journal' ∧
        2 ∈ ledger.machine.frames.freeFrames ∧ 2 ∉ machine'.frames.freeFrames := by
  have hrun : (Ledger.ofRun? smallLayout smallMachine [.createSpace, .destroySpace ⟨2⟩]).any
      (fun run => decide (run.2.machine.frames.isTaken 2 = false) &&
        ((Request.map ⟨2⟩ 0x40501000 0x1000 Flags.writable).run run.1 run.2.machine
          run.2.journal).failsWith fun error machine' _ =>
            decide (error = .alreadyMapped ∧ machine'.frames.isTaken 2 = true)) = true := by
    decide +kernel
  obtain ⟨⟨paging, ledger⟩, hledger, hrun⟩ := (Option.any_eq_true _ _).mp hrun
  obtain ⟨hfree, hfails⟩ := Bool.and_eq_true_iff.mp hrun
  obtain ⟨_, machine', journal', hout, hmachine⟩ := Outcome.failsWith_iff.mp hfails
  obtain ⟨rfl, htaken⟩ := of_decide_eq_true hmachine
  refine ⟨paging, ledger, Ledger.reachable_of_ofRun? hledger, machine', journal', hout, ?_, ?_⟩
  · exact FramePool.mem_freeFrames.mpr (of_decide_eq_true hfree)
  · rw [FramePool.mem_freeFrames, htaken]
    exact Bool.true_eq_false_eq_False.elim

end Paging

end KernelResources
