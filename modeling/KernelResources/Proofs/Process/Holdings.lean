import KernelResources.Proofs.Frame.FreeSet
import KernelResources.Proofs.Process.Reaping
import KernelResources.Proofs.Process.Turns

/-!
# What processes hold

A user process holds the frames of its space: the directory, the tables and the pages that it owns.
It gives all of them back when it is removed, and so does a process that could not be created. The
kernel space never gives back what it was built with, so the frames that are taken can be told from
the processes that are there.

* `System.Ran.anchored`: the kernel space keeps the tables that it was built with.
* `System.Ran.taken`: the taken frames are those that were taken at the start, those that the kernel
  space has taken since, and those that user processes hold.
* `frames_of_ran`: so no frame is lost, however processes come and go.
-/

namespace KernelResources

open Paging Processor

/-- The spaces of the user processes. -/
def ProcessTable.userSpaces (table : ProcessTable) : List AddressSpace :=
  table.processes.filterMap fun process => process.space.user?

/-- The frames that the kernel space holds. -/
def System.kernelFrames (paging : Paging) (system : System) : List Nat :=
  paging.spaceFrames system.machine.memory paging.kernel

/-- The frames that user processes hold: their directories, tables and pages. -/
def System.userFrames (paging : Paging) (system : System) : List Nat :=
  paging.ownedFrames system.machine.memory system.table.userSpaces

/-- The idle process runs in the kernel space. -/
def ProcessTable.KernelIdle (table : ProcessTable) : Prop :=
  ∀ process ∈ table.processes, process.pid = table.idle → process.space = .kernel

variable {layout : Layout} {start : Machine} {paging : Paging} {booted system : System}
  {passes : List Handover} {task : Task} {stage : Stage} {table table' : ProcessTable} {due : Bool}
  {processor processor' : Processor} {deed : Deed} {journal journal' : Journal}

/-! ## The idle process -/

/-- No process moves to another space. -/
theorem Process.enduring_home (idle : Nat) :
    Process.Enduring fun process => process.pid = idle → process.space = .kernel :=
  ⟨fun _ _ _ => id, fun _ => id, fun _ _ => id, fun _ _ => id⟩

theorem ProcessTable.kernelIdle_of_bootstrap {stack : Option KernelStack}
    (h : ProcessTable.bootstrap paging stack () journal = .done table () journal') :
    table.KernelIdle := by
  cases stack with
  | none => cases h
  | some stack =>
    cases h
    exact List.forall_mem_singleton.mpr fun _ => rfl

namespace Processor

open ProcessTable

theorem Does.kernelIdle (h : Does deed processor processor') (hquiet : deed.Quiet)
    (hsound : processor.table.Sound) (hidle : processor.table.KernelIdle) :
    processor'.table.KernelIdle := by
  unfold KernelIdle
  rw [(h.unmoved hquiet).idle_eq]
  cases h with
  | launch name context space stack =>
    -- The pid of a new process is not that of the idle one.
    have hnew := Nat.ne_of_gt (hsound.below _ hsound.idle_mem)
    exact forall_launching (Process.enduring_home _) name context space stack
      (fun hpid => absurd hpid hnew) hidle
  | remove hremoval => exact hremoval.forall (fun _ _ _ => id) hidle
  | wake | kill =>
    refine Takes.forall (takes_update ?_ ?_) hidle
    · exact fun _ _ _ => id
    · exact fun _ _ _ => id
  | tick | pass => exact hquiet.elim

theorem Pass.kernelIdle (h : Pass processor processor') (hschedulable : processor.table.Schedulable)
    (hidle : processor.table.KernelIdle) : processor'.table.KernelIdle := by
  unfold KernelIdle
  rw [(h.moves hschedulable).2.1]
  exact h.forall (Process.enduring_home _) hschedulable hidle

end Processor

namespace Task

open ProcessTable

theorem Prepares.kernelIdle (h : task.Prepares table due table') (hsound : table.Sound)
    (hidle : table.KernelIdle) : table'.KernelIdle := by
  have hsame := h.unmoved.idle_eq
  cases h with
  | tick =>
    unfold KernelIdle
    rw [hsame]
    exact (takes_ticking (fun _ _ => id) (fun _ _ => id) fun _ _ _ => id).forall hidle
  | leave =>
    unfold KernelIdle
    rw [hsame]
    exact (takes_leaving _ fun _ _ _ _ => id).forall hidle
  | quiet _ hquiet hcourse =>
    -- The induction is on the deeds. Only in a sound table is the pid of a new process really new.
    refine (hcourse.keeps (fun processor => processor.table.Sound ∧ processor.table.KernelIdle) ?_
      ⟨hsound, hidle⟩).2
    rintro deed hmem _ _ hdoes ⟨hsound, hidle⟩
    exact ⟨hdoes.sound hsound, hdoes.kernelIdle (hquiet deed hmem) hsound hidle⟩

theorem kernelIdle_of_stage? (hsound : system.table.Sound)
    (hstage : task.stage? paging system journal = some (stage, journal'))
    (hidle : system.table.KernelIdle) : stage.after.table.KernelIdle := by
  rcases stage?_cases hsound hstage with ⟨-, hprepares⟩ | ⟨found, -, hprepares, hpass⟩
  · exact hprepares.kernelIdle hsound hidle
  · exact hpass.kernelIdle (hprepares.schedulable hsound) (hprepares.kernelIdle hsound hidle)

end Task

/-! ## The kernel space -/

/-- Requests that change pages move no table of the kernel region, and add no frames. -/
theorem Paging.Request.yields_anchored {others : List Nat} {machine : Machine}
    {spaces : List AddressSpace} {request : Request}
    (h : Consistent paging machine spaces others) (hedits : request.Edits spaces)
    (journal : Journal) :
    (request.run paging).Yields machine journal
      (fun _ machine' _ => paging.Anchored machine.memory machine'.memory ∧
        machine'.frames.total = machine.frames.total)
      fun _ machine' _ => paging.Anchored machine.memory machine'.memory ∧
        machine'.frames.total = machine.frames.total := by
  -- To change a page needs no more than a live space.
  have hpermits : Ledger.Permits paging ⟨machine, #[], spaces, []⟩ request := by
    cases request with
    | map | remap | mapFresh | unmap => exact hedits
    | _ => exact hedits.elim
  have hanchored := (ensures_anchored h request hpermits).yields journal
  apply (hanchored.and (keeps_of_edits hedits journal machine journal ⟨h, .refl _ _⟩)).mono
  · intro grant machine' journal' hdone
    exact ⟨hdone.1, hdone.2.2.total_eq⟩
  · intro error machine' journal' hrefused
    exact ⟨hrefused.1, hrefused.2.2.total_eq⟩

namespace System.Ran

/-- The run begins with a kernel space that was just built. -/
theorem building (hpool : start.frames.Reachable) (htotal : start.frames.total ≤ bitRange 20)
    (h : Ran layout start paging booted passes system) :
    Building paging booted.machine start.frames.takenFrames ∧
      ∀ slot < entryCount,
        (booted.machine.memory.entry paging.kernel.directory slot).frame?.isSome =
          decide (slot < paging.layout.sharedSlots) := by
  induction h with
  | boot hcreate _ _ =>
    obtain ⟨rfl, hbuilding, hpresent⟩ := (settles_create_building
      (FramePool.consistent_of_reachable hpool) htotal (heapLimit_lt_of_create hcreate)).of_done
        hcreate
    exact ⟨hbuilding, hpresent⟩
  | operate _ _ _ _ ih => exact ih
  | request _ _ _ ih => exact ih

/-- Throughout a run, the tables of the kernel region stay where they are, and no frames are added.
-/
theorem anchored (hpool : start.frames.Reachable) (htotal : start.frames.total ≤ bitRange 20)
    (h : Ran layout start paging booted passes system) :
    paging.Anchored booted.machine.memory system.machine.memory ∧
      system.machine.frames.total = booted.machine.frames.total := by
  induction h with
  | boot => exact ⟨.refl paging _, rfl⟩
  | operate hran henters hrun _ ih =>
    -- The operation begins with the machine as the run has left it.
    have hfollows := (Operation.yields_follows
      ((hran.reachable.loaded hpool htotal).enter henters) _ _).of_state? hrun
    rw [← henters.machine_eq] at ih
    exact ⟨ih.1.trans hfollows.anchored, hfollows.total_eq.trans ih.2⟩
  | request hran hedits hrun ih =>
    obtain ⟨hanchored, htotal_eq⟩ := (Request.yields_anchored
      (hran.reachable.loaded hpool htotal).consistent hedits _).of_state? hrun
    exact ⟨ih.1.trans hanchored, htotal_eq.trans ih.2⟩

theorem kernelIdle (h : Ran layout start paging booted passes system) :
    system.table.KernelIdle := by
  induction h with
  | boot _ hboot _ => exact ProcessTable.kernelIdle_of_bootstrap hboot
  | request _ _ _ ih => exact ih
  | operate hran henters hrun hstages ih =>
    rw [(Operation.eq_of_stages? hrun hstages).1]
    rw [← henters.table_eq] at ih
    exact Task.of_stages? (fun _ _ system _ => system.table.KernelIdle)
      (fun _ _ _ _ _ _ _ hsound hstage hidle => Task.kernelIdle_of_stage? hsound hstage hidle)
      (henters.table_eq ▸ hran.sound) hstages ih

/-- The frames that are taken after a run: those that were taken at its start, those that the kernel
space has taken since, and those that user processes hold. -/
theorem taken (hpool : start.frames.Reachable) (htotal : start.frames.total ≤ bitRange 20)
    (h : Ran layout start paging booted passes system) :
    ∃ since, (system.kernelFrames paging).Perm (booted.kernelFrames paging ++ since) ∧
      system.machine.frames.takenFrames.Perm
        (booted.machine.frames.takenFrames ++ (since ++ system.userFrames paging)) := by
  obtain ⟨hbuilding, hpresent⟩ := h.building hpool htotal
  obtain ⟨since, hsince⟩ := hbuilding.exists_since hpresent (h.anchored hpool htotal).1
  -- At the start, the kernel space was the only one.
  have hbooted : booted.machine.frames.takenFrames.Perm
      (start.frames.takenFrames ++ booted.kernelFrames paging) := by
    have htaken := hbuilding.taken
    rwa [ownedFrames, List.flatMap_singleton] at htaken
  refine ⟨since, hsince, ?_⟩
  calc system.machine.frames.takenFrames.Perm
        (start.frames.takenFrames ++ (system.kernelFrames paging ++ system.userFrames paging)) :=
      (h.reachable.loaded hpool htotal).consistent.taken
    List.Perm _ (start.frames.takenFrames ++
        ((booted.kernelFrames paging ++ since) ++ system.userFrames paging)) :=
      (hsince.append_right _).append_left _
    List.Perm _ ((start.frames.takenFrames ++ booted.kernelFrames paging) ++
        (since ++ system.userFrames paging)) := by
      rw [List.append_assoc, List.append_assoc]
    List.Perm _ (booted.machine.frames.takenFrames ++ (since ++ system.userFrames paging)) :=
      (hbooted.append_right _).symm

/-- While no user process is there and the kernel space has what it had at the start, the same
frames are free as at the start. -/
theorem freeFrames_eq (hpool : start.frames.Reachable) (htotal : start.frames.total ≤ bitRange 20)
    (h : Ran layout start paging booted passes system)
    (hkernel : (system.kernelFrames paging).Perm (booted.kernelFrames paging))
    (husers : system.table.userSpaces = []) :
    system.machine.frames.freeFrames = booted.machine.frames.freeFrames := by
  obtain ⟨since, hsince, htaken⟩ := h.taken hpool htotal
  -- The kernel space holds as many frames as at the start, so it has taken none since.
  have hnone : since = [] := by
    have hlength := (hkernel.symm.trans hsince).length_eq
    rw [List.length_append] at hlength
    exact List.eq_nil_of_length_eq_zero (by omega)
  have hfree : system.userFrames paging = [] := by
    rw [userFrames, husers]
    rfl
  rw [hnone, hfree, List.append_nil, List.append_nil] at htaken
  exact FramePool.freeFrames_congr (h.anchored hpool htotal).2 htaken

end System.Ran

/-! ## The last pass -/

theorem ProcessTable.userSpaces_eq_nil
    (h : ∀ process ∈ table.processes, process.space = .kernel) : table.userSpaces = [] := by
  refine List.filterMap_eq_nil_iff.mpr fun process hmem => ?_
  rw [h process hmem]
  rfl

/-- If all user processes have ended and the one that a pass takes the processor from is not among
them, then none is left after the pass. -/
theorem Processor.Pass.kernel_of_ended (h : Pass processor processor')
    (hsound : processor.table.Sound)
    (hended : ∀ process ∈ processor.table.processes,
      process.space = .kernel ∨ process.state = .terminated)
    (hreaped : ∀ pid, processor'.table.Ended pid →
      pid = processor'.table.current ∨ pid = processor.table.current) :
    ∀ process ∈ processor'.table.processes, process.space = .kernel := by
  -- The current process runs, so if it has a space of its own, it has not ended.
  have henduring : Process.Enduring fun process => process.space = .kernel ∨
      process.state = .terminated ∧ process.pid ≠ processor.table.current := by
    refine ⟨fun _ _ _ => id, fun _ => id, ?_, ?_⟩
    · intro process hready hprocess
      refine hprocess.imp_right fun hend => ?_
      cases hready.symm.trans hend.1
    · intro cpu process hprocess
      refine hprocess.imp_right fun hend => ⟨?_, hend.2⟩
      unfold System.suspend
      dsimp only
      rw [if_neg (by rw [hend.1]; decide), hend.1]
  have hall := h.forall henduring hsound.toSchedulable fun process hmem => by
    refine (hended process hmem).imp_right fun hstate => ⟨hstate, fun hcurrent => ?_⟩
    cases hstate.symm.trans (hsound.current_running process hmem hcurrent)
  intro process hmem
  refine (hall process hmem).resolve_right fun ⟨hstate, hcurrent⟩ => ?_
  -- One that is left is neither the process that runs now nor the one that ran before.
  rcases hreaped process.pid (ProcessTable.ended_of_mem hmem hstate) with hnext | hprevious
  · have hrunning := (h.sound hsound.toSchedulable).current_running process hmem hnext
    cases hstate.symm.trans hrunning
  · exact hcurrent hprevious

/-- A pass after which no user process is left, if all of them had ended. -/
theorem Operation.yields_schedule {others : List Nat} {whole : WithEvents System}
    (h : whole.state.Loaded paging others) (hsound : whole.state.table.Sound)
    (hended : ∀ process ∈ whole.state.table.processes,
      process.space = .kernel ∨ process.state = .terminated) (journal : Journal) :
    (Operation.schedule.run paging).Yields whole journal
      (fun _ whole' _ => whole'.state.table.userSpaces = [])
      fun _ whole' _ => whole'.state.table.userSpaces = [] := by
  have hpass : (System.schedule paging : Action ProcessError System Nat).Yields whole.state journal
      (fun _ system' _ => system'.table.userSpaces = [])
      fun _ system' _ => system'.table.userSpaces = [] := by
    apply ((h.tracked journal).yields_schedule.and (System.ensures_schedule.yields journal)).mono
    · intro next system' journal' hdone
      apply ProcessTable.userSpaces_eq_nil
      exact hdone.2.kernel_of_ended hsound hended hdone.1.2
    · exact fun _ _ _ hrefused => hrefused.2.elim
  exact (Action.yields_within hpass).bind fun _ _ _ hdone => Action.yields_pure hdone

/-- After any run that begins with building the kernel space, at most one process has ended and is
still in the table, and it is the one that the last pass took the processor from. An operation that
returns, be it refused or not, has removed the others without failure. The frames that are taken are
those that were taken when the kernel space had been built, those that the kernel space has taken
since, and those that the spaces of the user processes in the table hold, each of them once. So if
the kernel space has what it was built with, and no process but the idle one has a space of its own,
then the same frames are free as at the start; and if all those that have one have ended, then the
same frames are free after the next pass. -/
theorem frames_of_ran (hpool : start.frames.Reachable) (htotal : start.frames.total ≤ bitRange 20)
    (h : System.Ran layout start paging booted passes system) :
    (system.table.processes.filter (·.state = .terminated)).length ≤ 1 ∧
    (∀ process ∈ system.table.processes, process.state = .terminated →
      ∃ handover, passes.getLast? = some handover ∧ handover.before.current = process.pid ∧
        handover.after.current ≠ process.pid) ∧
    (∀ whole, system.Enters whole → ∀ (operation : Operation) journal whole',
      (operation.run paging whole journal).state? = some whole' →
        (operation.run paging whole journal).journal.reapFailures = journal.reapFailures) ∧
    (∃ since, (system.kernelFrames paging).Perm (booted.kernelFrames paging ++ since) ∧
      system.machine.frames.takenFrames.Perm
        (booted.machine.frames.takenFrames ++ (since ++ system.userFrames paging))) ∧
    ((system.kernelFrames paging).Perm (booted.kernelFrames paging) →
      (∀ process ∈ system.table.processes,
        process.pid = system.table.idle ∨ process.space = .kernel) →
          system.machine.frames.freeFrames = booted.machine.frames.freeFrames) ∧
    ∀ whole, system.Enters whole → ∀ journal whole',
      (Operation.schedule.run paging whole journal).state? = some whole' →
        (whole'.state.kernelFrames paging).Perm (booted.kernelFrames paging) →
          (∀ process ∈ system.table.processes, process.pid = system.table.idle ∨
            process.space = .kernel ∨ process.state = .terminated) →
              whole'.state.machine.frames.freeFrames = booted.machine.frames.freeFrames := by
  have hloaded := h.reachable.loaded hpool htotal
  have hreaped := h.reaped hpool htotal
  refine ⟨hreaped.length_le hloaded.nodup, fun process hmem hstate => ?_, ?_,
    h.taken hpool htotal, fun hkernel hgone => ?_, ?_⟩
  · exact hreaped process.pid (ProcessTable.ended_of_mem hmem hstate)
  · intro whole henters operation journal whole' hrun
    obtain ⟨-, ⟨switches, hswitches⟩, -⟩ :=
      (Operation.yields_follows (hloaded.enter henters) operation journal).of_state? hrun
    exact hswitches.reapFailures_eq
  · apply h.freeFrames_eq hpool htotal hkernel
    apply ProcessTable.userSpaces_eq_nil
    exact fun process hmem => (hgone process hmem).elim (h.kernelIdle process hmem) id
  · intro whole henters journal whole' hrun hkernel hended
    -- The pass makes the run longer by one operation, after which no user process is left.
    obtain ⟨stages, hstages⟩ := Operation.exists_stages hrun
    have htable := henters.table_eq
    refine (h.operate henters hrun hstages).freeFrames_eq hpool htotal hkernel ?_
    refine (Operation.yields_schedule (hloaded.enter henters) (htable ▸ h.sound) ?_
      journal).of_state? hrun
    rw [htable]
    exact fun process hmem => (hended process hmem).elim
      (fun hidle => .inl (h.kernelIdle process hmem hidle)) id

/-! ## Computed runs -/

namespace System

theorem ran_of_booted? (h : booted? layout start = some (paging, booted)) :
    Ran layout start paging booted [] booted := by
  obtain ⟨machine, journal, table, journal', hcreate, hboot, rfl⟩ := exists_of_booted? h
  exact .boot hcreate hboot rfl

/-- The passes and the system after an operation. -/
def Ran.after? (paging : Paging) (run : List Handover × System) (operation : Operation) :
    Option (List Handover × System) := do
  let whole : WithEvents System := ⟨.ofCapacity 1, run.2⟩
  let whole' ← (operation.run paging whole #[]).state?
  let (stages, _) ← operation.stages? paging whole #[]
  return (run.1 ++ stages.filterMap Stage.handover?, whole'.state)

theorem Ran.of_after? (hpool : start.frames.Reachable) (htotal : start.frames.total ≤ bitRange 20)
    {operations : List Operation} {run run' : List Handover × System}
    (h : Ran layout start paging booted run.1 run.2)
    (hafter : operations.foldlM (after? paging) run = some run') :
    Ran layout start paging booted run'.1 run'.2 := by
  refine of_foldlM (fun run => Ran layout start paging booted run.1 run.2) h ?_ hafter
  intro operation _ middle _ hmiddle hstep
  obtain ⟨whole, hrun, hstaged⟩ := Option.bind_eq_some_iff.mp hstep
  obtain ⟨⟨stages, journal⟩, hstages, heq⟩ := Option.bind_eq_some_iff.mp hstaged
  cases heq
  exact hmiddle.operate ⟨rfl, rfl, (hmiddle.reachable.loaded hpool htotal).cpu⟩ hrun hstages

end System

/-- A user process exits. Until the next pass it is still there and holds its frames, and then the
same frames are free as at the start. -/
theorem frames_of_smallMachine :
    ∃ paging booted passes system whole',
      System.Ran smallLayout smallMachine paging booted passes system ∧
      system.table.Ended 2 ∧ system.machine.frames.freeFrames.card + 3 =
        booted.machine.frames.freeFrames.card ∧
      (system.table.processes.filter (·.state = .terminated)).length ≤ 1 ∧
      (Operation.schedule.run paging ⟨.ofCapacity 1, system⟩ #[]).state? = some whole' ∧
      whole'.state.machine.frames.freeFrames = booted.machine.frames.freeFrames := by
  have hpool : smallMachine.frames.Reachable := .allFree (by decide)
  have hrun : (match System.booted? smallLayout smallMachine with
      | some (paging, booted) =>
        match [Operation.launch "init" userSpaceStart false (some ⟨0⟩), .schedule,
            .exit 0].foldlM (System.Ran.after? paging) ([], booted) with
        | some (_, system) =>
          match (Operation.schedule.run paging ⟨.ofCapacity 1, system⟩ #[]).state? with
          | some whole' => decide (
              (∃ process ∈ system.table.processes,
                process.pid = 2 ∧ process.state = .terminated) ∧
              system.machine.frames.freeFrames.card + 3 =
                booted.machine.frames.freeFrames.card ∧
              (∀ process ∈ system.table.processes, process.pid = system.table.idle ∨
                process.space = .kernel ∨ process.state = .terminated) ∧
              whole'.state.machine.frames.takenFrames.length =
                booted.machine.frames.takenFrames.length)
          | none => false
        | none => false
      | none => false) = true := by decide +kernel
  split at hrun
  case h_1 paging booted hbooted =>
    split at hrun
    case h_1 passes system hsystem =>
      split at hrun
      case h_1 whole' hschedule =>
        obtain ⟨hended, hheld, hall, htaken⟩ := of_decide_eq_true hrun
        have hran := (System.ran_of_booted? hbooted).of_after? hpool (by decide) hsystem
        have henters : system.Enters ⟨.ofCapacity 1, system⟩ :=
          ⟨rfl, rfl, (hran.reachable.loaded hpool (by decide)).cpu⟩
        obtain ⟨hlength, -, -, -, -, hfree⟩ := frames_of_ran hpool (by decide) hran
        -- As many frames are taken as at the start, so the kernel space has taken none since.
        obtain ⟨stages, hstages⟩ := Operation.exists_stages hschedule
        obtain ⟨-, -, -, ⟨since, hkernel, hframes⟩, -⟩ :=
          frames_of_ran hpool (by decide) (hran.operate henters hschedule hstages)
        have hnone : since = [] := by
          have hadded := hframes.length_eq
          rw [List.length_append, List.length_append] at hadded
          exact List.eq_nil_of_length_eq_zero (by omega)
        rw [hnone, List.append_nil] at hkernel
        exact ⟨paging, booted, passes, system, whole', hran, hended, hheld, hlength, hschedule,
          hfree _ henters #[] whole' hschedule hkernel hall⟩
      case h_2 => cases hrun
    case h_2 => cases hrun
  case h_2 => cases hrun

end KernelResources
