import KernelResources.Proofs.Paging.Freshness
import KernelResources.Proofs.Process.Runs
import KernelResources.Proofs.Process.Tracking

/-!
# The loaded directory

A run begins with building the kernel space and with the process that boots the kernel. It goes on
with operations on processes, which find the loaded directory named by the registers on the
processor, and with changes of pages in live spaces.

* `Operation.yields_switches`: every operation keeps `System.Loaded`, and the directories that it
  has loaded are the ones that its switches call for.
* `loaded_of_reachable`: after any run, the directory of the current process is loaded, and every
  other process has its own one saved. No removal and no end of a process is refused because the
  space of the process is loaded.
-/

namespace KernelResources

open Paging

/-- A request that changes a page of one of these spaces. -/
def Paging.Request.Edits (spaces : List AddressSpace) : Request → Prop
  | .map space _ _ _ | .remap space _ _ _ | .mapFresh space _ _ | .unmap space _ => space ∈ spaces
  | _ => False

/-- An operation is entered with the machine and the table as they were left, and with registers
that name the loaded directory. Anything may wait to be handed over. -/
structure System.Enters (system : System) (whole : WithEvents System) : Prop where
  machine_eq : whole.state.machine = system.machine
  table_eq : whole.state.table = system.table
  cr3_eq : whole.state.cpu.cr3 = (⟨system.machine.active⟩ : AddressSpace).cr3

/-- A system is reachable if a run leads to it that begins with building the kernel space. -/
inductive System.Reachable (layout : Layout) (start : Machine) (paging : Paging) :
    System → Prop where
  | boot {system : System} {stack : Option KernelStack}
      {journal journal' bootJournal bootJournal' : Journal} :
      Paging.create layout start journal = .done paging system.machine journal' →
        ProcessTable.bootstrap paging stack () bootJournal = .done system.table () bootJournal' →
          system.cpu.cr3 = (⟨system.machine.active⟩ : AddressSpace).cr3 →
            Reachable layout start paging system
  | operate {system : System} {operation : Operation} {whole whole' : WithEvents System}
      {journal : Journal} : Reachable layout start paging system → system.Enters whole →
        (operation.run paging whole journal).state? = some whole' →
          Reachable layout start paging whole'.state
  | request {system : System} {request : Request} {machine : Machine} {journal : Journal} :
      Reachable layout start paging system → request.Edits (system.table.spaces paging) →
        (request.run paging system.machine journal).state? = some machine →
          Reachable layout start paging { system with machine }

variable {layout : Layout} {start : Machine} {paging : Paging} {others : List Nat}
  {system : System} {whole : WithEvents System} {journal journal' : Journal}

/-! ## Single steps -/

/-- The process that boots the kernel runs in the kernel space. -/
theorem System.loaded_of_boot {stack : Option KernelStack} {bootJournal bootJournal' : Journal}
    (hpool : start.frames.Consistent) (htotal : start.frames.total ≤ bitRange 20)
    (hcreate : Paging.create layout start journal = .done paging system.machine journal')
    (hboot : ProcessTable.bootstrap paging stack () bootJournal =
      .done system.table () bootJournal')
    (hcpu : system.cpu.cr3 = (⟨system.machine.active⟩ : AddressSpace).cr3) :
    Loaded paging start.frames.takenFrames system := by
  have hconsistent := (consistent_of_create hpool htotal hcreate).1
  have hactive := (loaded_of_create hpool htotal hcreate).1
  obtain ⟨machine, table, cpu⟩ := system
  cases stack with
  | none => cases hboot
  | some stack =>
    cases hboot
    refine ⟨hconsistent, List.nodup_singleton _, ?_, List.mem_cons_self, ?_, ?_, ?_, hcpu⟩
    · rintro pid hpid
      rw [List.mem_singleton.mp hpid]
      exact Nat.lt_succ_self _
    · exact List.forall_mem_singleton.mpr fun _ => nofun
    · exact List.forall_mem_singleton.mpr fun hcurrent => absurd rfl hcurrent
    · exact List.forall_mem_singleton.mpr fun _ => hactive

/-- Whatever waits, an operation finds the directory of the current process loaded. -/
theorem System.Loaded.enter (h : system.Loaded paging others) (henters : system.Enters whole) :
    whole.state.Loaded paging others := by
  obtain ⟨events, machine, table, cpu⟩ := whole
  obtain ⟨rfl, rfl, hcr3⟩ := henters
  exact h.withCpu (hcr3.trans h.cpu.symm)

/-- Every operation has directories loaded for its switches, and for nothing else. -/
theorem Operation.yields_follows (h : whole.state.Loaded paging others) (operation : Operation)
    (journal : Journal) :
    (operation.run paging).Yields whole journal
      (fun _ whole' => System.Follows paging others whole.state journal whole'.state)
      fun _ whole' => System.Follows paging others whole.state journal whole'.state := by
  cases operation with
  | launch name entry kernelMode stack =>
    exact (Action.yields_within (h.yields_launch name entry kernelMode stack journal)).bind
      fun _ _ _ h' => Action.yields_pure h'
  -- All other operations keep the invariant that begins here.
  | _ =>
    exact (System.stable_tracked.keeps_run id whole journal (h.tracked journal)).mono
      (fun _ _ _ h' => h'.toFollows) fun _ _ _ h' => h'.toFollows

/-- Changes of pages keep frames and tables in order and load nothing. -/
theorem Paging.Request.keeps_of_edits {machine : Machine} {spaces : List AddressSpace}
    {request : Request} (hedits : request.Edits spaces) (journal : Journal) :
    (request.run paging).Keeps fun machine' journal' =>
      Consistent paging machine' spaces others ∧ Quiet machine journal machine' journal' := by
  have hkeeps {α : Type} {action : Action MemoryError Machine α}
      (hsettles : ∀ {machine' : Machine}, Consistent paging machine' spaces others →
        action.Settles machine' (fun _ machine'' => Consistent paging machine'' spaces others)
          fun _ machine'' => Consistent paging machine'' spaces others)
      (hquiet : action.Keeps (Quiet machine journal)) :
      (do
        let _ ← action
        return Grant.nothing : Action MemoryError Machine Grant).Keeps fun machine' journal' =>
          Consistent paging machine' spaces others ∧ Quiet machine journal machine' journal' :=
    Action.Keeps.bind (fun machine' journal' h =>
      ((hsettles h.1).ensures.yields journal').and (hquiet machine' journal' h.2))
        fun _ => Action.keeps_pure _
  cases request with
  | map space address physical flags =>
    exact hkeeps (fun h => settles_map h hedits) lasting_quiet.map
  | remap space address physical flags =>
    exact hkeeps (fun h => settles_remap h hedits) lasting_quiet.remap
  | mapFresh space address flags =>
    exact hkeeps (fun h => settles_mapFresh h hedits) lasting_quiet.mapFresh
  | unmap space address => exact hkeeps (fun h => settles_unmap h hedits) lasting_quiet.unmap
  | _ => exact hedits.elim

/-! ## Refusals -/

/-- A removal is refused only if there is no such process, or if it is current or idle. -/
theorem Operation.yields_remove (h : whole.state.Loaded paging others)
    (hsound : whole.state.table.Sound) (pid : Nat) (journal : Journal) :
    ((Operation.remove pid).run paging).Yields whole journal (fun _ _ _ => True)
      fun _ _ _ => whole.state.table.find? pid = none ∨ pid = whole.state.table.current ∨
        pid = whole.state.table.idle := by
  refine Action.yields_within (((h.tracked journal).yields_remove pid).mono
    (fun _ _ _ _ => trivial) ?_)
  rintro _ _ _ ⟨-, -, hstays⟩
  cases hfind : whole.state.table.find? pid with
  | none => exact .inl rfl
  | some process =>
    -- Only the current process runs.
    have hrunning (hstate : process.state = .running) : pid = whole.state.table.current :=
      (ProcessTable.pid_of_find? hfind).symm.trans
        ((hsound.each process (ProcessTable.mem_of_find? hfind)).running hstate)
    rcases hstays process hfind with hcurrent | hidle | hstate
    · exact .inr (.inl hcurrent)
    · exact .inr (.inr hidle)
    · exact .inr (.inl (hrunning hstate))

/-- The end of a process is refused only if there is no such process, or if it is idle. -/
theorem Operation.yields_kill (h : whole.state.Loaded paging others) (pid : Nat)
    (journal : Journal) :
    ((Operation.kill pid).run paging).Yields whole journal (fun _ _ _ => True)
      fun _ _ _ => whole.state.table.find? pid = none ∨ pid = whole.state.table.idle :=
  Action.yields_within (((h.tracked journal).yields_kill pid).mono (fun _ _ _ _ => trivial)
    fun _ _ _ hkill => hkill.2.symm)

/-- The current process may exit unless it is idle. -/
theorem Operation.yields_exit (h : whole.state.Loaded paging others) (code : Int32)
    (journal : Journal) :
    ((Operation.exit code).run paging).Yields whole journal (fun _ _ _ => True)
      fun _ _ _ => whole.state.table.current = whole.state.table.idle :=
  Action.yields_bind (Action.yields_within (((h.tracked journal).yields_exit code).mono
    (fun _ _ _ _ => Action.yields_pure trivial) fun _ _ _ hexit => hexit.2))

/-! ## Runs -/

namespace System

theorem Reachable.table (h : Reachable layout start paging system) : system.table.Reachable := by
  induction h with
  | boot _ hboot _ => exact .bootstrap hboot
  | operate _ henters hrun ih => exact .step (henters.table_eq ▸ ih) hrun
  | request _ _ _ ih => exact ih

theorem Reachable.loaded (hpool : start.frames.Reachable)
    (htotal : start.frames.total ≤ bitRange 20) (h : Reachable layout start paging system) :
    Loaded paging start.frames.takenFrames system := by
  induction h with
  | boot hcreate hboot hcpu =>
    exact loaded_of_boot (FramePool.consistent_of_reachable hpool) htotal hcreate hboot hcpu
  | operate _ henters hrun ih =>
    exact ((Operation.yields_follows (ih.enter henters) _ _).of_state? hrun).toLoaded
  | request _ hedits hrun ih =>
    obtain ⟨hconsistent, hquiet⟩ := (Request.keeps_of_edits hedits _ _ _
      ⟨ih.consistent, .refl _ _⟩).of_state? hrun
    exact ih.withMachine hconsistent hquiet.active_eq

end System

/-- After any run that begins with building the kernel space, the directory of the current process
is loaded, which is the kernel's for a kernel process; the registers on the processor name it; and
every other process has the directory of its own space saved. No two live spaces have the same
directory, and the frame of the loaded one is taken. If an operation returns, be it refused or not,
then the directories that were loaded meanwhile are the ones that the reported switches call for,
one for each switch between processes with different directories, and no terminated process has
stayed because it could not be removed; requests in between load nothing. A process that is neither
current nor idle can be removed, one that is not idle can be ended, and one that is current exits
unless it is idle. -/
theorem loaded_of_reachable (hpool : start.frames.Reachable)
    (htotal : start.frames.total ≤ bitRange 20) (h : system.Reachable layout start paging) :
    (∃ process, system.table.currentProcess? = some process ∧
      system.machine.active = (process.home paging).directory) ∧
    system.cpu.cr3 = (⟨system.machine.active⟩ : AddressSpace).cr3 ∧
    (∀ process ∈ system.table.processes, process.pid ≠ system.table.current →
      process.context.cr3 = (process.home paging).cr3) ∧
    (system.table.spaces paging).Nodup ∧
    system.machine.frames.isTaken system.machine.active ∧
    (∀ whole, system.Enters whole → ∀ (operation : Operation) journal whole',
      (operation.run paging whole journal).state? = some whole' →
        ∃ switches, system.Switches paging journal whole'.state
          (operation.run paging whole journal).journal switches) ∧
    (∀ request : Request, request.Edits (system.table.spaces paging) → ∀ journal machine,
      (request.run paging system.machine journal).state? = some machine →
        machine.active = system.machine.active ∧ machine.loads = system.machine.loads) ∧
    ∀ whole, system.Enters whole → ∀ journal,
      (∀ pid, ((Operation.remove pid).run paging whole journal).isRefused →
        system.table.find? pid = none ∨ pid = system.table.current ∨ pid = system.table.idle) ∧
      (∀ pid, ((Operation.kill pid).run paging whole journal).isRefused →
        system.table.find? pid = none ∨ pid = system.table.idle) ∧
      ∀ code, ((Operation.exit code).run paging whole journal).isRefused →
        system.table.current = system.table.idle := by
  have hloaded := h.loaded hpool htotal
  have hsound := sound_of_reachable h.table
  refine ⟨?_, hloaded.cpu, hloaded.saved, nodup_spaces hloaded.consistent.nodup, ?_, ?_, ?_, ?_⟩
  · obtain ⟨current, hmem, hpid, hcurrent⟩ :=
      ProcessTable.exists_currentProcess? hloaded.nodup hloaded.current_mem
    exact ⟨current, hcurrent, hloaded.active current hmem hpid⟩
  · exact (FramePool.mem_takenFrames.mp
      (hloaded.consistent.directory_mem_taken hloaded.active_mem_spaces)).2
  · intro whole henters operation journal whole' hrun
    obtain ⟨-, ⟨switches, hswitches⟩, -⟩ :=
      (Operation.yields_follows (hloaded.enter henters) operation journal).of_state? hrun
    -- The registers have nothing to do with switches.
    obtain ⟨events, machine, table, cpu⟩ := whole
    obtain ⟨rfl, rfl, -⟩ := henters
    exact ⟨switches, hswitches.reported, hswitches.leads, hswitches.loads,
      hswitches.reapFailures_eq⟩
  · intro request hedits journal machine hrun
    have hquiet := ((Request.keeps_of_edits hedits journal system.machine journal
      ⟨hloaded.consistent, .refl _ _⟩).of_state? hrun).2
    exact ⟨hquiet.active_eq, hquiet.loads_eq⟩
  · intro whole henters journal
    have hentered := hloaded.enter henters
    have htable := henters.table_eq
    refine ⟨fun pid hrefused => ?_, fun pid hrefused => ?_, fun code hrefused => ?_⟩
    · rw [← htable]
      exact (Operation.yields_remove hentered (htable ▸ hsound) pid journal).of_isRefused hrefused
    · rw [← htable]
      exact (Operation.yields_kill hentered pid journal).of_isRefused hrefused
    · rw [← htable]
      exact (Operation.yields_exit hentered code journal).of_isRefused hrefused

/-! ## Computed runs -/

namespace System

/-- The system at the start, with registers that name the loaded directory. -/
def booted? (layout : Layout) (start : Machine) : Option (Paging × System) :=
  match Paging.create layout start #[] with
  | .done paging machine _ =>
    match ProcessTable.bootstrap paging (some ⟨0⟩) () #[] with
    | .done table _ _ =>
      some (paging, { machine, table, cpu := { cr3 := (⟨machine.active⟩ : AddressSpace).cr3 } })
    | _ => none
  | _ => none

/-- The system after an operation. -/
def after? (paging : Paging) (system : System) (operation : Operation) : Option System :=
  (operation.run paging ⟨.ofCapacity 1, system⟩ #[]).state?.map WithEvents.state

/-- The system after these operations from the start. -/
def ofRun? (layout : Layout) (start : Machine) (operations : List Operation) :
    Option (Paging × System) := do
  let (paging, system) ← booted? layout start
  return (paging, ← operations.foldlM (after? paging) system)

/-- A start is made of building the kernel space and of setting up the table. -/
theorem exists_of_booted? (h : booted? layout start = some (paging, system)) :
    ∃ machine journal table journal',
      Paging.create layout start #[] = .done paging machine journal ∧
      ProcessTable.bootstrap paging (some ⟨0⟩) () #[] = .done table () journal' ∧
      system = { machine, table, cpu := { cr3 := (⟨machine.active⟩ : AddressSpace).cr3 } } := by
  unfold booted? at h
  split at h
  · next paging machine journal hcreate =>
    split at h
    · next table _ journal' hboot =>
      cases h
      exact ⟨machine, journal, table, journal', hcreate, hboot, rfl⟩
    · cases h
  · cases h

theorem reachable_of_booted? (h : booted? layout start = some (paging, system)) :
    system.Reachable layout start paging := by
  obtain ⟨machine, journal, table, journal', hcreate, hboot, rfl⟩ := exists_of_booted? h
  exact .boot hcreate hboot rfl

theorem reachable_of_ofRun? (hpool : start.frames.Reachable)
    (htotal : start.frames.total ≤ bitRange 20) {operations : List Operation}
    (h : ofRun? layout start operations = some (paging, system)) :
    system.Reachable layout start paging := by
  obtain ⟨⟨paging, first⟩, hbooted, hrest⟩ := Option.bind_eq_some_iff.mp h
  obtain ⟨last, hfold, heq⟩ := Option.bind_eq_some_iff.mp hrest
  cases heq
  refine of_foldlM (Reachable layout start paging) (reachable_of_booted? hbooted) ?_ hfold
  intro operation _ middle _ hmiddle hafter
  obtain ⟨whole, hrun, rfl⟩ := Option.map_eq_some_iff.mp hafter
  exact .operate hmiddle ⟨rfl, rfl, (hmiddle.loaded hpool htotal).cpu⟩ hrun

end System

/-- In eight frames there is room for a user process. When it gets the processor, its directory is
loaded, and when it exits, that of the idle process. -/
theorem loaded_of_smallMachine :
    ∃ paging system whole', system.Reachable smallLayout smallMachine paging ∧
      system.table.current = 2 ∧ system.machine.active = 2 ∧ system.cpu.cr3 = 0x2000 ∧
      system.machine.frames.isTaken 2 ∧
      ((Operation.exit 0).run paging ⟨.ofCapacity 1, system⟩ #[]).state? = some whole' ∧
      whole'.state.table.current = 1 ∧
      whole'.state.machine.loads = system.machine.loads ++ [0] := by
  have hpool : smallMachine.frames.Reachable := .allFree (by decide)
  have hrun : (match System.ofRun? smallLayout smallMachine
        [.launch "init" userSpaceStart false (some ⟨0⟩), .schedule] with
      | some (paging, system) =>
        match ((Operation.exit 0).run paging ⟨.ofCapacity 1, system⟩ #[]).state? with
        | some whole' => decide (system.table.current = 2 ∧ system.machine.active = 2 ∧
            whole'.state.table.current = 1 ∧
            ((Operation.exit 0).run paging ⟨.ofCapacity 1, system⟩ #[]).journal.switches =
              [(2, 1)] ∧ system.table.load? paging (2, 1) = some 0)
        | none => false
      | none => false) = true := by decide +kernel
  split at hrun
  case h_1 paging system hsystem =>
    split at hrun
    case h_1 whole' hexit =>
      obtain ⟨hcurrent, hactive, hcurrent', hreported, hload⟩ := of_decide_eq_true hrun
      have hreachable := System.reachable_of_ofRun? hpool (by decide) hsystem
      obtain ⟨-, hcpu, -, -, htaken, hfollows, -⟩ :=
        loaded_of_reachable hpool (by decide) hreachable
      obtain ⟨switches, hswitches⟩ := hfollows ⟨.ofCapacity 1, system⟩ ⟨rfl, rfl, hcpu⟩
        (.exit 0) #[] whole' hexit
      -- The only switch is the one from the user process to the idle one.
      obtain rfl : switches = [(2, 1)] := hswitches.reported.symm.trans hreported
      have hloads := hswitches.loads
      rw [List.filterMap_cons, hload] at hloads
      rw [hactive] at hcpu htaken
      exact ⟨paging, system, whole', hreachable, hcurrent, hactive, hcpu, htaken, hexit, hcurrent',
        hloads⟩
    case h_2 => cases hrun
  case h_2 => cases hrun

end KernelResources
