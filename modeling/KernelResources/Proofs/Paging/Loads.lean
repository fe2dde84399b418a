import KernelResources.Proofs.Paging.Lasting

/-!
# Operations that load no directory

Of the operations on address spaces, only `activate` has a directory loaded. All others leave the
loaded directory as it is, and they report nothing that the scheduler reports. None of them changes
how many frames there are.

* `Machine.loads` are the directories that were loaded so far.
* `Journal.switches` are the switches from one process to another that were reported so far.
* `Paging.Quiet` says that nothing was loaded in between, nothing reported by the scheduler, and no
  frame added to the pool or taken out of it; `lasting_quiet` that no operation makes a difference.
-/

namespace KernelResources

/-- The address of the directory that a request has loaded. -/
def MmuCall.load? : MmuCall → Option Nat
  | load directory => some directory
  | invalidate _ => none

/-- The addresses of the directories that were loaded, oldest first. -/
def Machine.loads (machine : Machine) : List Nat := machine.calls.toList.filterMap MmuCall.load?

theorem Machine.loads_push (machine : Machine) (directory : Nat) :
    Machine.loads { machine with
      active := directory, calls := machine.calls.push (.load (Frame.address directory)) } =
        machine.loads ++ [Frame.address directory] := by
  simp [loads, MmuCall.load?]

/-- The processes between which the processor went, if a notice reports that. -/
def Notice.switch? : Notice → Option (Nat × Nat)
  | .switched outgoing incoming => some (outgoing, incoming)
  | _ => none

/-- Whether a notice reports that a terminated process could not be removed. -/
def Notice.isReapFailure : Notice → Bool
  | .reapFailed .. => true
  | _ => false

namespace Journal

/-- The switches that were reported, oldest first. -/
def switches (journal : Journal) : List (Nat × Nat) := journal.toList.filterMap Notice.switch?

/-- How many terminated processes could not be removed. -/
def reapFailures (journal : Journal) : Nat := journal.countP Notice.isReapFailure

/-- The scheduler has reported nothing in between. -/
structure Quiet (journal journal' : Journal) : Prop where
  /-- No switch was reported. -/
  switches_eq : journal'.switches = journal.switches
  /-- No failure to remove a process was reported. -/
  reapFailures_eq : journal'.reapFailures = journal.reapFailures

variable {journal journal' : Journal} {notice : Notice}

theorem switches_push (journal : Journal) (notice : Notice) :
    Journal.switches (journal.push notice) = journal.switches ++ notice.switch?.toList := by
  unfold switches
  rw [Array.toList_push, List.filterMap_append, List.filterMap_cons]
  cases notice.switch? <;> rfl

theorem reapFailures_push (h : notice.isReapFailure = false) :
    Journal.reapFailures (journal.push notice) = journal.reapFailures := by
  simp [reapFailures, h]

/-- A notice that is none of the scheduler's. -/
theorem Quiet.push (h : journal.Quiet journal') (hswitch : notice.switch? = none)
    (hfailure : notice.isReapFailure = false) : journal.Quiet (journal'.push notice) where
  switches_eq := by
    rw [switches_push, hswitch, Option.toList_none, List.append_nil]
    exact h.switches_eq
  reapFailures_eq := (reapFailures_push hfailure).trans h.reapFailures_eq

end Journal

/-! ## Frames -/

namespace FramePool

/-- The pool has as many frames as before, and the scheduler has reported nothing. -/
structure Quiet (pool : FramePool) (journal : Journal) (pool' : FramePool)
    (journal' : Journal) : Prop extends toReports : Journal.Quiet journal journal' where
  /-- Whether they are free or taken makes no difference. -/
  total_eq : pool'.total = pool.total

variable {ε : Type} {pool : FramePool} {journal : Journal}

theorem quiet_take (first last : Nat) :
    (take first last : Action ε FramePool Unit).Keeps (Quiet pool journal) := by
  intro pool' journal' hquiet
  refine Action.yields_bind (Action.yields_get (Action.yields_ite_halt fun _ => ?_))
  refine Action.yields_get (Action.yields_bind (Action.yields_ite_halt fun _ => ?_))
  exact Action.yields_set { hquiet with total_eq := hquiet.total_eq }

theorem quiet_release (first last : Nat) :
    (release first last : Action ε FramePool Unit).Keeps (Quiet pool journal) := by
  intro pool' journal' hquiet
  refine Action.yields_bind (Action.yields_get (Action.yields_ite_halt fun _ => ?_))
  refine Action.yields_get (Action.yields_bind (Action.yields_ite_halt fun _ => ?_))
  exact Action.yields_set { hquiet with total_eq := hquiet.total_eq }

theorem quiet_ofIndex (index : Nat) :
    (Frame.ofIndex index : Action ε FramePool Nat).Keeps (Quiet pool journal) :=
  Action.Keeps.bind (Action.keeps_ite_halt _ _ _) fun _ =>
    Action.Keeps.bind (Action.keeps_ite_halt _ _ _) fun _ => Action.keeps_pure _

theorem quiet_allocate : allocate.Keeps (Quiet pool journal) :=
  Action.keeps_get fun _ => (Action.keeps_ofOption _ _).bind fun index =>
    (quiet_take index _).bind fun _ => quiet_ofIndex index

theorem quiet_allocateRunFrom (count rounds start : Nat) :
    (allocateRunFrom count rounds start).Keeps (Quiet pool journal) := by
  induction rounds generalizing start with
  | zero => exact Action.keeps_throw _
  | succ rounds ih =>
    refine Action.keeps_get fun pool' => (Action.keeps_ofOption _ _).bind fun first => ?_
    refine Action.Keeps.bind (Action.keeps_ite_halt _ _ _) fun last => ?_
    refine (Action.keeps_refuseIf _ _).bind fun _ => ?_
    split
    · exact ih _
    · exact (quiet_take first last).bind fun _ => quiet_ofIndex first

theorem quiet_allocateRun (count : Nat) : (allocateRun count).Keeps (Quiet pool journal) :=
  (Action.keeps_refuseIf _ _).bind fun _ => Action.keeps_get fun _ => quiet_allocateRunFrom _ _ _

/-- A frame that cannot be given back is reported, but not by the scheduler. -/
theorem quiet_free (frame : Nat) : (free frame).Keeps (Quiet pool journal) := by
  refine Action.keeps_get fun pool₁ => Action.keeps_get fun pool₂ => ?_
  split
  · exact quiet_release frame _
  · intro pool' journal' hquiet
    refine Action.yields_bind (Action.yields_note (Action.yields_throw ?_))
    exact { hquiet with toReports := hquiet.toReports.push rfl rfl }

end FramePool

/-! ## Address spaces -/

namespace Paging

open Machine

variable {ε α : Type}

/-- No directory was loaded in between, the frame pool has as many frames as before, and the
scheduler has reported nothing. -/
structure Quiet (machine : Machine) (journal : Journal) (machine' : Machine)
    (journal' : Journal) : Prop
    extends toPool : FramePool.Quiet machine.frames journal machine'.frames journal' where
  /-- The same directory is loaded. -/
  active_eq : machine'.active = machine.active
  /-- None was loaded meanwhile. -/
  loads_eq : machine'.loads = machine.loads

variable {machine : Machine} {journal : Journal}

theorem Quiet.refl (machine : Machine) (journal : Journal) :
    Quiet machine journal machine journal := ⟨⟨⟨rfl, rfl⟩, rfl⟩, rfl, rfl⟩

theorem Quiet.trans {machine' machine'' : Machine} {journal' journal'' : Journal}
    (h : Quiet machine journal machine' journal')
    (h' : Quiet machine' journal' machine'' journal'') :
    Quiet machine journal machine'' journal'' where
  switches_eq := h'.switches_eq.trans h.switches_eq
  reapFailures_eq := h'.reapFailures_eq.trans h.reapFailures_eq
  total_eq := h'.total_eq.trans h.total_eq
  active_eq := h'.active_eq.trans h.active_eq
  loads_eq := h'.loads_eq.trans h.loads_eq

/-- A notice that is none of the scheduler's. -/
theorem Quiet.push {machine' : Machine} {journal' : Journal} {notice : Notice}
    (h : Quiet machine journal machine' journal') (hswitch : notice.switch? = none)
    (hfailure : notice.isReapFailure = false) :
    Quiet machine journal machine' (journal'.push notice) :=
  { h with toReports := h.toReports.push hswitch hfailure }

theorem quiet_onFrames {action : Action ε FramePool α}
    (h : ∀ pool journal, action.Keeps (FramePool.Quiet pool journal)) :
    (onFrames action).Keeps (Quiet machine journal) := by
  intro machine' journal' hquiet
  refine Action.yields_within ((h machine'.frames journal' _ _ ⟨⟨rfl, rfl⟩, rfl⟩).mono ?_ ?_)
  · exact fun _ _ _ hpool => hquiet.trans ⟨hpool, rfl, rfl⟩
  · exact fun _ _ _ hpool => hquiet.trans ⟨hpool, rfl, rfl⟩

/-- None of the accesses that an operation is made of loads a directory. -/
theorem lasting_quiet : Lasting (Quiet machine journal) where
  allocate := quiet_onFrames fun _ _ => FramePool.quiet_allocate
  allocateRun count := quiet_onFrames fun _ _ => FramePool.quiet_allocateRun count
  free frame := quiet_onFrames fun _ _ => FramePool.quiet_free frame
  memory _ hquiet := hquiet.trans ⟨⟨⟨rfl, rfl⟩, rfl⟩, rfl, rfl⟩
  invalidate _ hquiet :=
    hquiet.trans ⟨⟨⟨rfl, rfl⟩, rfl⟩, rfl, by simp [loads, MmuCall.load?]⟩
  note _ hquiet := hquiet.push rfl rfl

/-! ## Building the kernel space -/

theorem keeps_total_of_quiet {action : Action ε Machine α}
    (h : ∀ machine journal, action.Keeps (Quiet machine journal)) (total : Nat) :
    action.Keeps fun machine _ => machine.frames.total = total :=
  fun machine journal htotal => (h machine journal _ _ (.refl _ _)).mono
    (fun _ _ _ hquiet => hquiet.total_eq.trans htotal)
    fun _ _ _ hquiet => hquiet.total_eq.trans htotal

/-- Building the kernel space has its directory loaded, but adds no frames. -/
theorem keeps_total_create (layout : Layout) (total : Nat) :
    (create layout).Keeps fun machine _ => machine.frames.total = total := by
  have hlasting : Lasting fun machine _ => machine.frames.total = total := {
    allocate := keeps_total_of_quiet (fun _ _ => lasting_quiet.allocate) total
    allocateRun := fun count =>
      keeps_total_of_quiet (fun _ _ => lasting_quiet.allocateRun count) total
    free := fun frame => keeps_total_of_quiet (fun _ _ => lasting_quiet.free frame) total
    memory := fun _ htotal => htotal
    invalidate := fun _ htotal => htotal
    note := fun _ htotal => htotal }
  exact hlasting.create (fun _ _ _ htotal => htotal) (fun _ _ htotal => htotal) layout

end Paging

end KernelResources
