import KernelResources.Proofs.Paging.Operations

/-!
# Runs of requests

A ledger follows a run of requests to the address spaces and to the frame pool. Besides the
machine it records which spaces are alive and which frames callers hold, as far as the answers to
the requests tell.

* `Ledger.Permits` says which requests make sense: a destroyed space is not used again, only a
  frame that is held may be given back, and nobody writes into a table.
* `ownership_of_reachable`: after any run, the taken frames are the ones taken at first, the held
  ones and the owned ones, and none of them twice.
-/

namespace KernelResources

namespace Paging

open Machine

/-- A request to the address spaces or to the frame pool, or a write to physical memory. -/
inductive Request where
  | createSpace
  | destroySpace (space : AddressSpace)
  | map (space : AddressSpace) (address physical : Nat) (flags : Flags)
  | remap (space : AddressSpace) (address physical : Nat) (flags : Flags)
  | mapFresh (space : AddressSpace) (address : Nat) (flags : Flags)
  | unmap (space : AddressSpace) (address : Nat)
  | tableFor (space : AddressSpace) (address : Nat) (create : Bool)
  | activate (space : AddressSpace)
  | activateKernel
  | allocate
  | allocateRun (count : Nat)
  | free (frame : Nat)
  | write (address value : Nat)
deriving DecidableEq, Repr

/-- What a caller gets to hold by a request. -/
inductive Grant where
  /-- A new space. -/
  | space (space : AddressSpace)
  /-- A run of frames. -/
  | frames (first count : Nat)
  /-- Nothing that has to be given back. -/
  | nothing
deriving DecidableEq, Repr

/-- Carries a request out. -/
def Request.run (paging : Paging) : Request → Action MemoryError Machine Grant
  | createSpace => do return .space (← paging.createSpace)
  | destroySpace space => do
    paging.destroySpace space
    return .nothing
  | map space address physical flags => do
    paging.map space address physical flags
    return .nothing
  | remap space address physical flags => do
    let _ ← paging.remap space address physical flags
    return .nothing
  | mapFresh space address flags => do
    let _ ← paging.mapFresh space address flags
    return .nothing
  | unmap space address => do
    let _ ← paging.unmap space address
    return .nothing
  | tableFor space address create => do
    let _ ← Paging.tableFor space address create
    return .nothing
  | activate space => do
    Paging.activate space
    return .nothing
  | activateKernel => do
    paging.activateKernel
    return .nothing
  | allocate => do return .frames (← onFrames FramePool.allocate) 1
  | allocateRun count => do return .frames (← onFrames (FramePool.allocateRun count)) count
  | free frame => do
    onFrames (FramePool.free frame)
    return .nothing
  | write address value => do
    modify fun machine => { machine with memory := machine.memory.setWordAt address value }
    return .nothing

/-- The state of a run. -/
structure Ledger where
  /-- The machine. -/
  machine : Machine
  /-- The notices so far. -/
  journal : Journal
  /-- The spaces that are alive, the kernel space among them. -/
  spaces : List AddressSpace
  /-- The frames that callers hold. -/
  held : List Nat

namespace Ledger

/-- The live spaces after a request was done. -/
def spacesAfter (spaces : List AddressSpace) : Request → Grant → List AddressSpace
  | _, .space space => space :: spaces
  | .destroySpace space, _ => spaces.erase space
  | _, _ => spaces

/-- The held frames after a request was done. -/
def heldAfter (held : List Nat) : Request → Grant → List Nat
  | _, .frames first count => List.range' first count ++ held
  | .free frame, _ => held.erase frame
  | _, _ => held

/-- The ledger after a request, unless the request halts the kernel. -/
def step (paging : Paging) (request : Request) (ledger : Ledger) : Option Ledger :=
  match request.run paging ledger.machine ledger.journal with
  | .done grant machine journal => some
    { machine, journal
      spaces := spacesAfter ledger.spaces request grant
      held := heldAfter ledger.held request grant }
  | .refused _ machine journal => some { ledger with machine, journal }
  | .halted _ _ => none

/-- Only live spaces are used, only frames that are held are given back, and nobody writes into a
directory or a table. -/
def Permits (paging : Paging) (ledger : Ledger) : Request → Prop
  | .destroySpace space | .map space _ _ _ | .remap space _ _ _ | .mapFresh space _ _
  | .unmap space _ | .tableFor space _ _ | .activate space => space ∈ ledger.spaces
  | .free frame => frame ∈ ledger.held
  | .write address _ =>
    ¬paging.IsTable ledger.machine.memory ledger.spaces (Frame.containing address)
  | .createSpace | .activateKernel | .allocate | .allocateRun _ => True

/-- A ledger is reachable if a run leads to it that begins with building the kernel space. -/
inductive Reachable (layout : Layout) (start : Machine) (journal : Journal) (paging : Paging) :
    Ledger → Prop where
  | create {machine : Machine} {journal' : Journal} :
      Paging.create layout start journal = .done paging machine journal' →
        Reachable layout start journal paging ⟨machine, journal', [paging.kernel], []⟩
  | step {ledger ledger' : Ledger} {request : Request} :
      Reachable layout start journal paging ledger → ledger.Permits paging request →
        ledger.step paging request = some ledger' → Reachable layout start journal paging ledger'

instance (paging : Paging) (ledger : Ledger) :
    (request : Request) → Decidable (ledger.Permits paging request)
  | .destroySpace space | .map space _ _ _ | .remap space _ _ _ | .mapFresh space _ _
  | .unmap space _ | .tableFor space _ _ | .activate space =>
    inferInstanceAs (Decidable (space ∈ ledger.spaces))
  | .free frame => inferInstanceAs (Decidable (frame ∈ ledger.held))
  | .write address _ => inferInstanceAs (Decidable
    ¬paging.IsTable ledger.machine.memory ledger.spaces (Frame.containing address))
  | .createSpace | .activateKernel | .allocate | .allocateRun _ => inferInstanceAs (Decidable True)

/-- The ledger after a request, if that is permitted. -/
def after? (paging : Paging) (ledger : Ledger) (request : Request) : Option Ledger :=
  if ledger.Permits paging request then ledger.step paging request else none

/-- The ledger after these requests on a kernel space that was built just now, if all of them are
permitted. -/
def ofRun? (layout : Layout) (start : Machine) (requests : List Request) :
    Option (Paging × Ledger) :=
  match create layout start #[] with
  | .done paging machine journal =>
    (requests.foldlM (after? paging) ⟨machine, journal, [paging.kernel], []⟩).map (paging, ·)
  | .refused _ _ _ | .halted _ _ => none

theorem reachable_of_ofRun? {layout : Layout} {start : Machine} {requests : List Request}
    {paging : Paging} {ledger : Ledger}
    (h : ofRun? layout start requests = some (paging, ledger)) :
    Reachable layout start #[] paging ledger := by
  unfold ofRun? at h
  split at h
  case h_1 paging' machine journal hcreate =>
    obtain ⟨last, hfold, heq⟩ := Option.map_eq_some_iff.mp h
    cases heq
    refine of_foldlM (Reachable layout start #[] paging) (.create hcreate) ?_ hfold
    intro request _ ledger ledger' hreachable hafter
    unfold after? at hafter
    split at hafter
    case isTrue hpermits => exact hreachable.step hpermits hafter
    case isFalse => cases hafter
  case h_2 => cases h
  case h_3 => cases h

end Ledger

/-! ## A single request -/

variable {paging : Paging} {machine : Machine} {spaces : List AddressSpace}
  {initial held : List Nat} {ledger : Ledger} {request : Request}

theorem setWordAt_eq (memory : WordMemory) (address value : Nat) :
    memory.setWordAt address value =
      memory.setEntry (Frame.containing address) (address / WordMemory.wordSize % entryCount)
        (Entry.ofWord (BitVec.ofNat 32 value)) := by
  have hindex : WordMemory.slotIndex (Frame.containing address)
      (address / WordMemory.wordSize % entryCount) = address / WordMemory.wordSize := by
    simp only [WordMemory.slotIndex, Frame.containing, Frame.size, WordMemory.wordSize, entryCount]
    omega
  rw [WordMemory.setWordAt, WordMemory.setEntry, hindex, Entry.toWord_ofWord]

/-- Frames that were free and are taken by a caller are among the others then. -/
theorem Consistent.takingRun {others : List Nat} {first count : Nat}
    (h : Consistent paging machine spaces others)
    (hlast : first + count ≤ machine.frames.total)
    (hfree : ∀ frame, first ≤ frame → frame < first + count →
      machine.frames.isTaken frame = false) :
    Consistent paging { machine with frames := machine.frames.taking first (first + count) } spaces
      (List.range' first count ++ others) := by
  refine ⟨⟨FramePool.consistent_taking h.pool hlast, h.total_le, ?_, h.marked⟩, h.toShared⟩
  refine (FramePool.takenFrames_taking hlast hfree).trans ?_
  rw [Nat.add_sub_cancel_left, List.append_assoc]
  exact h.taken.append_left _

/-- Every permitted request returns and keeps the books right, except that a request for a run of
frames may be for more of them than can be counted. -/
theorem settles_request
    (h : Consistent paging ledger.machine ledger.spaces (initial ++ ledger.held))
    (hpermits : ledger.Permits paging request) (hrun : ∀ count, request ≠ .allocateRun count) :
    (request.run paging).Settles ledger.machine
      (fun grant machine => Consistent paging machine
        (Ledger.spacesAfter ledger.spaces request grant)
        (initial ++ Ledger.heldAfter ledger.held request grant))
      fun _ machine => Consistent paging machine ledger.spaces (initial ++ ledger.held) := by
  cases request with
  | createSpace =>
    exact (settles_createSpace h).bind fun _ _ hdone => Action.settles_pure hdone
  | destroySpace space =>
    refine Action.settles_bind ((settles_destroySpace h hpermits).mono
      (fun _ _ hdone => Action.settles_pure hdone.1) ?_)
    -- A space that cannot be destroyed is left as it is.
    rintro _ _ ⟨rfl, -⟩
    exact h
  | map space address physical flags =>
    exact (settles_map h hpermits).bind fun _ _ hdone => Action.settles_pure hdone
  | remap space address physical flags =>
    exact (settles_remap h hpermits).bind fun _ _ hdone => Action.settles_pure hdone
  | mapFresh space address flags =>
    exact (settles_mapFresh h hpermits).bind fun _ _ hdone => Action.settles_pure hdone
  | unmap space address =>
    exact (settles_unmap h hpermits).bind fun _ _ hdone => Action.settles_pure hdone
  | tableFor space address create =>
    exact (settles_tableFor h hpermits address create).bind
      fun _ _ hdone => Action.settles_pure hdone.1
  | activate space =>
    exact Action.settles_bind (Action.settles_modify (Action.settles_pure (h.congr rfl rfl)))
  | activateKernel =>
    exact Action.settles_bind (Action.settles_modify (Action.settles_pure (h.congr rfl rfl)))
  | allocate =>
    cases hfree : ledger.machine.frames.lowestFree 0 with
    | none =>
      exact Action.settles_bind (Action.settles_of_refused (fun journal =>
        Action.within_of_refused (FramePool.allocate_of_none journal hfree)) h)
    | some frame =>
      obtain ⟨-, hlt, hmark, -⟩ := FramePool.lowestFree_eq_some_iff.mp hfree
      refine Action.settles_bind (Action.settles_of_done (fun journal =>
        Action.within_of_done (FramePool.allocate_of_some h.pool journal hfree))
          (Action.settles_pure ?_))
      -- One frame is a run of length one.
      refine (h.takingRun hlt fun other hle hother => ?_).perm (List.perm_append_comm_assoc _ _ _)
      rw [show other = frame by omega]
      exact hmark
  | allocateRun count => exact absurd rfl (hrun count)
  | free frame =>
    -- Once it is set apart from the others, the frame can be given back.
    have hsplit : (initial ++ ledger.held).Perm (frame :: (initial ++ ledger.held.erase frame)) :=
      ((List.perm_cons_erase hpermits).append_left initial).trans List.perm_middle
    have hgiven := h.perm hsplit
    exact Action.settles_bind (Action.settles_of_done (fun journal =>
      Action.within_of_done (FramePool.free_eq h.pool journal
        (hgiven.mem_taken_of_other List.mem_cons_self)))
        (Action.settles_pure (Consistent.releasing hgiven)))
  | write address value =>
    refine Action.settles_bind (Action.settles_modify (Action.settles_pure ?_))
    -- Writing a word is entering a translation into a frame that is no table.
    rw [setWordAt_eq]
    exact h.enteringOutside hpermits (Nat.mod_lt _ (by decide))

/-- No permitted request but one for a run of frames halts the kernel. -/
theorem step_isSome (h : Consistent paging ledger.machine ledger.spaces (initial ++ ledger.held))
    (hpermits : ledger.Permits paging request) (hrun : ∀ count, request ≠ .allocateRun count) :
    (ledger.step paging request).isSome := by
  have hsettles := settles_request h hpermits hrun ledger.journal
  unfold Ledger.step
  cases hout : request.run paging ledger.machine ledger.journal with
  | done grant machine journal => rfl
  | refused error machine journal => rfl
  | halted cause journal =>
    rw [hout] at hsettles
    exact hsettles.elim

/-- A request that returns keeps the books right and reports no stray frame. -/
theorem consistent_of_step {ledger' : Ledger}
    (h : Consistent paging ledger.machine ledger.spaces (initial ++ ledger.held))
    (hpermits : ledger.Permits paging request) (hstep : ledger.step paging request = some ledger') :
    Consistent paging ledger'.machine ledger'.spaces (initial ++ ledger'.held) ∧
      Journal.strays ledger'.journal = Journal.strays ledger.journal := by
  unfold Ledger.step at hstep
  -- A run of frames is the one request that can halt, so it comes first.
  by_cases hrun : ∃ count, request = .allocateRun count
  · obtain ⟨count, rfl⟩ := hrun
    rcases FramePool.allocateRun_cases h.pool ledger.journal count with
      ⟨first, hlast, hfree, hdone⟩ | ⟨error, hrefused⟩ | hhalted
    · have hout : (Request.allocateRun count).run paging ledger.machine ledger.journal =
          .done (.frames first count) { ledger.machine with
            frames := ledger.machine.frames.taking first (first + count) } ledger.journal := by
        rw [Request.run, onFrames, Action.bind_of_done (Action.within_of_done hdone)]
        rfl
      rw [hout] at hstep
      cases hstep
      exact ⟨(h.takingRun hlast hfree).perm (List.perm_append_comm_assoc _ _ _), rfl⟩
    · have hout : (Request.allocateRun count).run paging ledger.machine ledger.journal =
          .refused error ledger.machine ledger.journal :=
        Action.bind_of_refused (Action.within_of_refused hrefused)
      rw [hout] at hstep
      cases hstep
      exact ⟨h, rfl⟩
    · have hout : (Request.allocateRun count).run paging ledger.machine ledger.journal =
          .halted .addOverflow ledger.journal := by
        rw [Request.run, Action.apply_bind, onFrames, Action.apply_within, hhalted]
      rw [hout] at hstep
      cases hstep
  · have hsettles := settles_request h hpermits (fun count heq => hrun ⟨count, heq⟩) ledger.journal
    cases hout : request.run paging ledger.machine ledger.journal with
    | done grant machine journal =>
      rw [hout] at hstep hsettles
      cases hstep
      exact hsettles.symm
    | refused error machine journal =>
      rw [hout] at hstep hsettles
      cases hstep
      exact hsettles.symm
    | halted cause journal =>
      rw [hout] at hstep
      cases hstep

/-! ## Runs -/

section Runs

variable {layout : Layout} {start : Machine} {journal : Journal}

/-- After any run the books are right, and no frame was given back that was not taken. -/
theorem consistent_of_reachable (hpool : start.frames.Reachable)
    (htotal : start.frames.total ≤ bitRange 20)
    (h : Ledger.Reachable layout start journal paging ledger) :
    Consistent paging ledger.machine ledger.spaces (start.frames.takenFrames ++ ledger.held) ∧
      Journal.strays ledger.journal = Journal.strays journal := by
  induction h with
  | create hcreate =>
    rw [List.append_nil]
    exact consistent_of_create (FramePool.consistent_of_reachable hpool) htotal hcreate
  | step _ hpermits hstep ih =>
    obtain ⟨hconsistent, hstrays⟩ := consistent_of_step ih.1 hpermits hstep
    exact ⟨hconsistent, hstrays.trans ih.2⟩

/-- After any run that begins with building the kernel space, the directories of all live spaces,
the tables behind their own slots and the frames that their leaves own are pairwise distinct and
taken. Together with the frames taken at first and those that callers hold they are all taken
frames. No request has given back a frame that was not taken. No permitted request halts the
kernel, but for one for too long a run of frames. A space that is neither the kernel's nor loaded
can be destroyed, and that gives back exactly the frames the space owns. -/
theorem ownership_of_reachable (hpool : start.frames.Reachable)
    (htotal : start.frames.total ≤ bitRange 20)
    (h : Ledger.Reachable layout start journal paging ledger) :
    (paging.ownedFrames ledger.machine.memory ledger.spaces).Nodup ∧
      (∀ frame ∈ paging.ownedFrames ledger.machine.memory ledger.spaces,
        ledger.machine.frames.isTaken frame) ∧
      ledger.machine.frames.takenFrames.Perm (start.frames.takenFrames ++ ledger.held ++
        paging.ownedFrames ledger.machine.memory ledger.spaces) ∧
      Journal.strays ledger.journal = Journal.strays journal ∧
      (∀ request, ledger.Permits paging request → (∀ count, request ≠ .allocateRun count) →
        (ledger.step paging request).isSome) ∧
      ∀ space ∈ ledger.spaces, space.directory ≠ paging.kernel.directory →
        space.directory ≠ ledger.machine.active →
          ∃ ledger', ledger.step paging (.destroySpace space) = some ledger' ∧
            ledger'.spaces = ledger.spaces.erase space ∧
            ledger.machine.frames.takenFrames.Perm
              (paging.spaceFrames ledger.machine.memory space ++
                ledger'.machine.frames.takenFrames) := by
  obtain ⟨hconsistent, hstrays⟩ := consistent_of_reachable hpool htotal h
  refine ⟨hconsistent.nodup, fun frame hframe => ?_, hconsistent.taken, hstrays,
    fun request hpermits hrun => step_isSome hconsistent hpermits hrun,
    fun space hspace hkernel hactive => ?_⟩
  · exact (FramePool.mem_takenFrames.mp (hconsistent.mem_taken_of_owned hframe)).2
  · have hdestroy := settles_destroySpace hconsistent hspace ledger.journal
    cases hout : paging.destroySpace space ledger.machine ledger.journal with
    | done value machine journal' =>
      rw [hout] at hdestroy
      have hrun : (Request.destroySpace space).run paging ledger.machine ledger.journal =
          .done .nothing machine journal' := Action.bind_of_done hout
      refine ⟨_, by rw [Ledger.step, hrun], rfl, hdestroy.2.2⟩
    | refused error machine journal' =>
      rw [hout] at hdestroy
      exact (hdestroy.2.2.elim hkernel hactive).elim
    | halted cause journal' =>
      rw [hout] at hdestroy
      exact hdestroy.elim

end Runs

/-- A machine with eight frames. -/
def smallMachine : Machine := { frames := .allFree 8, memory := .empty, active := 0, calls := #[] }

/-- A layout whose kernel region is one page. -/
def smallLayout : Layout where
  kernelStart := 0x1000
  heapStart := 0x1000
  heapSize := 0x1000
  userStackTop := 0x80000000

/-- In eight frames there is room for a kernel space and for another one with a page of its own,
which can be destroyed again. -/
theorem ownership_of_smallMachine :
    ∃ paging ledger, Ledger.Reachable smallLayout smallMachine #[] paging ledger ∧
      ledger.spaces = [⟨2⟩, paging.kernel] ∧
        ∃ ledger', ledger.step paging (.destroySpace ⟨2⟩) = some ledger' ∧
          ledger.machine.frames.takenFrames.Perm
            (paging.spaceFrames ledger.machine.memory ⟨2⟩ ++
              ledger'.machine.frames.takenFrames) := by
  have hpool : smallMachine.frames.Reachable := .allFree (by decide)
  have hrun : (match create smallLayout smallMachine #[] with
      | .done paging machine journal =>
        match Ledger.step paging .createSpace ⟨machine, journal, [paging.kernel], []⟩ with
        | some built =>
          match built.step paging (.mapFresh ⟨2⟩ userSpaceStart Flags.user) with
          | some mapped => decide (built.spaces = [⟨2⟩, paging.kernel] ∧
              mapped.spaces = [⟨2⟩, paging.kernel] ∧ paging.kernel.directory = 0 ∧
              mapped.machine.active = 0)
          | none => false
        | none => false
      | _ => false) = true := by decide +kernel
  split at hrun
  case h_1 paging machine journal hcreate =>
    split at hrun
    case h_1 built hbuilt =>
      split at hrun
      case h_1 mapped hmapped =>
        obtain ⟨hspaces, hspaces', hkernel, hactive⟩ := of_decide_eq_true hrun
        have hreachable := Ledger.Reachable.step (.step (.create hcreate) (by trivial) hbuilt)
          (by rw [Ledger.Permits, hspaces]; exact List.mem_cons_self) hmapped
        have howned := ownership_of_reachable hpool (by decide) hreachable
        obtain ⟨ledger', hstep, -, hperm⟩ := howned.2.2.2.2.2 ⟨2⟩
          (by rw [hspaces']; exact List.mem_cons_self) (by rw [hkernel]; decide)
          (by rw [hactive]; decide)
        exact ⟨paging, mapped, hreachable, hspaces', ledger', hstep, hperm⟩
      case h_2 => cases hrun
    case h_2 => cases hrun
  case h_2 => cases hrun

end Paging

end KernelResources
