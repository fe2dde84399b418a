import KernelResources.Proofs.Process.Loading
import KernelResources.Proofs.Process.Tasks

/-!
# Removing processes that have ended

A process that exits cannot be removed at once, for the processor is still on its stack and its
directory is loaded. It stays in the table until a pass takes the processor from another process.

* `System.Ran` is a run from the start, with the passes made so far.
* `Task.yields_prepare`: a process is left behind by a task only if the task goes on with a pass.
* `System.Ran.reaped`: so, after any run, no process has ended and is still there, except perhaps
  the one that the last pass took the processor from.
-/

namespace KernelResources

/-- A run that begins with building the kernel space, which leads to the system `booted`, with the
passes made since then, oldest first. -/
inductive System.Ran (layout : Layout) (start : Machine) (paging : Paging) (booted : System) :
    List Handover → System → Prop where
  | boot {stack : Option KernelStack} {journal journal' bootJournal bootJournal' : Journal} :
      Paging.create layout start journal = .done paging booted.machine journal' →
        ProcessTable.bootstrap paging stack () bootJournal =
          .done booted.table () bootJournal' →
            booted.cpu.cr3 = (⟨booted.machine.active⟩ : AddressSpace).cr3 →
              Ran layout start paging booted [] booted
  | operate {passes : List Handover} {system : System} {operation : Operation}
      {whole whole' : WithEvents System} {stages : List Stage} {journal journal' : Journal} :
      Ran layout start paging booted passes system → system.Enters whole →
        (operation.run paging whole journal).state? = some whole' →
          operation.stages? paging whole journal = some (stages, journal') →
            Ran layout start paging booted (passes ++ stages.filterMap Stage.handover?) whole'.state
  | request {passes : List Handover} {system : System} {request : Paging.Request}
      {machine : Machine} {journal : Journal} :
      Ran layout start paging booted passes system →
        request.Edits (system.table.spaces paging) →
          (request.run paging system.machine journal).state? = some machine →
            Ran layout start paging booted passes { system with machine }

/-- A process that has ended and is still in the table is the one that the last of the passes took
the processor from. -/
def Reaped (passes : List Handover) (table : ProcessTable) : Prop :=
  ∀ pid, table.Ended pid → ∃ handover, passes.getLast? = some handover ∧
    handover.before.current = pid ∧ handover.after.current ≠ pid

variable {layout : Layout} {start : Machine} {paging : Paging} {others : List Nat}
  {booted system : System} {passes : List Handover} {task : Task} {stage : Stage}
  {table table' : ProcessTable} {journal journal' : Journal}

/-! ## Single stages -/

/-- What a task leaves behind, or what its pass finds if one is due: the loaded directory and the
spaces are in order, and if there is no pass, then no process has ended. -/
structure System.Prepared (paging : Paging) (others : List Nat) (start : System) (due : Bool)
    (system : System) : Prop extends Loaded paging others system where
  noneEnds : due = false → start.table.NoneEnds system.table

theorem System.Loaded.prepared (h : system.Loaded paging others) (due : Bool) :
    Prepared paging others system due system :=
  ⟨h, fun _ => .refl _⟩

namespace Task

variable {α : Type}

/-- A part of a task that ends no process and is not followed by a pass. -/
theorem yields_quiet {action : Action ProcessError System α} (deed : Deed) (hdeed : deed.Sparing)
    (hloaded : action.Yields system journal (fun _ system' _ => system'.Loaded paging others)
      fun _ system' _ => system'.Loaded paging others)
    (halong : System.Along [deed] system.processor action system) :
    (do
      let _ ← action
      return false : Action ProcessError System Bool).Yields system journal
      (fun due system' _ => System.Prepared paging others system due system')
      fun _ system' _ => System.Prepared paging others system false system' := by
  have hnone {system' : System}
      (hcourse : Processor.Course [deed] system.processor system'.processor) :
      system.table.NoneEnds system'.table :=
    hcourse.noneEnds (List.forall_mem_singleton.mpr hdeed)
  refine ((hloaded.and (halong.yields journal)).mono (fun _ _ _ hdone => hdone) ?_).bind ?_
  · intro error system' journal' hrefused
    exact ⟨hrefused.1, fun _ => hnone hrefused.2⟩
  · intro value system' journal' hdone
    apply Action.yields_pure
    exact ⟨hdone.1, fun _ => hnone hdone.2⟩

/-- The current process is about to leave the processor, unless that is refused. -/
theorem yields_leaving (h : system.Loaded paging others) {action : Action ProcessError System Unit}
    (hkeeps : action.Keeps (System.Tracked paging others system journal))
    (hrefused : action.Ensures system (fun _ _ => True) fun _ system' => system' = system) :
    (do
      action
      return true : Action ProcessError System Bool).Yields system journal
      (fun due system' _ => System.Prepared paging others system due system')
      fun _ system' _ => System.Prepared paging others system false system' := by
  have hkept := hkeeps _ _ (h.tracked journal)
  refine ((hkept.and (hrefused.yields journal)).mono (fun _ _ _ hdone => hdone) ?_).bind ?_
  · rintro error system' journal' ⟨-, rfl⟩
    exact h.prepared false
  -- From here on, a process may have ended, and its pass is due.
  · intro value system' journal' hdone
    apply Action.yields_pure
    exact ⟨hdone.1.toLoaded, nofun⟩

/-- A task that leaves behind a process that has ended goes on with a pass. -/
theorem yields_prepare (h : system.Loaded paging others) (task : Task) (journal : Journal) :
    (task.prepare paging).Yields system journal
      (fun due system' _ => System.Prepared paging others system due system')
      fun _ system' _ => System.Prepared paging others system false system' := by
  have htracked := h.tracked journal
  cases task with
  | launch name entry kernelMode stack =>
    apply yields_quiet .launch trivial
    · exact (h.yields_launch name entry kernelMode stack journal).mono
        (fun _ _ _ hdone => hdone.toLoaded) fun _ _ _ hrefused => hrefused.toLoaded
    · exact System.along_launch name entry kernelMode stack
  | remove pid =>
    apply yields_quiet (.remove pid) trivial
    · refine (htracked.yields_remove pid).mono (fun _ _ _ hdone => hdone.toLoaded) ?_
      rintro error system' journal' ⟨rfl, -, -⟩
      exact h
    · exact System.along_remove pid
  | pass => exact Action.yields_pure (h.prepared true)
  | block =>
    apply yields_leaving h System.stable_tracked.keeps_beginBlock
    exact System.ensures_beginBlock.mono (fun _ _ _ => trivial) fun _ _ hrefused => hrefused.1
  | wake pid =>
    apply yields_quiet (.wake pid) trivial
    · exact (System.stable_tracked.keeps_wake pid _ _ htracked).mono
        (fun _ _ _ hdone => hdone.toLoaded) fun _ _ _ hrefused => hrefused.toLoaded
    · exact System.along_wake pid
  | sleep ticks =>
    apply yields_leaving h (System.stable_tracked.keeps_beginSleep ticks)
    exact (System.ensures_beginSleep ticks).mono (fun _ _ _ => trivial)
      fun _ _ hrefused => hrefused.1
  | exit code =>
    apply yields_leaving h (System.stable_tracked.keeps_beginExit code)
    exact (System.ensures_beginExit code).mono (fun _ _ _ => trivial) fun _ _ hrefused => hrefused.1
  | kill pid =>
    apply (htracked.yields_beginKill pid).mono
    · intro due system' journal' hdone
      exact ⟨hdone.1.toLoaded, hdone.2⟩
    · intro error system' journal' hrefused
      exact ⟨hrefused.1.1.toLoaded, fun _ => hrefused.1.2⟩
  | serve request =>
    obtain ⟨_, -, -, hcurrent⟩ := ProcessTable.exists_currentProcess? h.nodup h.current_mem
    have hserve := (Syscall.ensures_beginServe (Option.ne_none_iff_exists'.mpr ⟨_, hcurrent⟩)
      request).yields journal
    apply Action.yields_mapError
    apply ((System.stable_tracked.keeps_beginServe request _ _ htracked).and hserve).mono
    · intro due system' journal' hdone
      refine ⟨hdone.1.toLoaded, ?_⟩
      -- If no pass is due, then nothing but registers has changed.
      rintro rfl
      have hsame : system'.table = system.table := congrArg Processor.table hdone.2
      rw [hsame]
      exact .refl _
    · exact fun _ _ _ hrefused => hrefused.2.elim
  | event event =>
    cases event with
    | tick =>
      have htick : (System.beginTick : Action ProcessError System Bool).Ensures system
          (fun _ system' => system.table.NoneEnds system'.table) fun _ _ => False := by
        apply System.ensures_beginTick.mono_done
        intro due system' hdone
        have hticked : system'.table = system.table.ticking := congrArg Processor.table hdone.1
        rw [hticked]
        exact ProcessTable.noneEnds_ticking
      apply ((System.stable_tracked.keeps_beginTick _ _ htracked).and (htick.yields journal)).mono
      · intro due system' journal' hdone
        exact ⟨hdone.1.toLoaded, fun _ => hdone.2⟩
      · exact fun _ _ _ hrefused => hrefused.2.elim
    | wake pid =>
      apply yields_quiet (.wake pid) trivial
      · apply Action.yields_mapError
        exact (System.stable_tracked.keeps_actOn (.wake pid) _ _ htracked).mono
          (fun _ _ _ hdone => hdone.toLoaded) fun error _ _ _ => error.elim
      · exact Action.ensures_unrefused (System.along_actOn (.wake pid))

/-- Whatever a task does, the only process that has ended and is left behind is the one that its
pass has taken the processor from; without a pass, none has been added to those that had ended. -/
theorem reaped_of_stage? (h : system.Loaded paging others) (hsound : system.table.Sound)
    (hstage : task.stage? paging system journal = some (stage, journal'))
    (hreaped : Reaped passes system.table) :
    stage.after.Loaded paging others ∧
      Reaped (passes ++ stage.handover?.toList) stage.after.table := by
  have hsound' := sound_of_stage? hsound hstage
  have hpass (found : System) (journal : Journal)
      (hfound : System.Prepared paging others system true found) :
      (System.schedule paging : Action Empty System Nat).Yields found journal
        (fun _ system' _ => system'.Loaded paging others ∧ ∀ pid, system'.table.Ended pid →
          pid = system'.table.current ∨ pid = found.table.current) fun _ _ _ => True :=
    ((hfound.toLoaded.tracked journal).yields_schedule).mono
      (fun _ _ _ hdone => ⟨hdone.1.toLoaded, hdone.2⟩) fun _ _ _ _ => trivial
  rcases of_stage? (yields_prepare h task journal) hpass hstage with
    ⟨hnone, hprepared⟩ | ⟨found, hfound, -, hloaded, hended⟩
  -- Without a pass, the last one so far is still the last.
  · have hafter := hprepared.elim id id
    rw [Stage.handover?, hnone, Option.map_none, Option.toList_none, List.append_nil]
    exact ⟨hafter.toLoaded, fun pid hend => hreaped pid (hafter.noneEnds rfl pid hend)⟩
  · rw [Stage.handover?, hfound, Option.map_some, Option.toList_some]
    refine ⟨hloaded, fun pid hend => ⟨_, List.getLast?_concat, ?_⟩⟩
    -- The process that runs has not ended.
    have hne : pid ≠ stage.after.table.current := by
      obtain ⟨process, hmem, rfl, hstate⟩ := hend
      intro hcurrent
      cases hstate.symm.trans (hsound'.current_running process hmem hcurrent)
    exact ⟨((hended pid hend).resolve_left hne).symm, hne.symm⟩

end Task

/-! ## Runs -/

theorem Reaped.length_le (h : Reaped passes table) (hnodup : table.pids.Nodup) :
    (table.processes.filter (·.state = .terminated)).length ≤ 1 := by
  have hpids : ((table.processes.filter (·.state = .terminated)).map Process.pid).Nodup :=
    hnodup.sublist (List.filter_sublist.map _)
  have hlast : (table.processes.filter (·.state = .terminated)).map Process.pid ⊆
      (passes.getLast?.map (·.before.current)).toList := by
    refine List.forall_mem_map.mpr fun process hmem => ?_
    obtain ⟨hmem, hstate⟩ := List.mem_filter.mp hmem
    obtain ⟨handover, hlast, hpid, -⟩ :=
      h process.pid (ProcessTable.ended_of_mem hmem (of_decide_eq_true hstate))
    rw [hlast, Option.map_some, Option.toList_some, hpid]
    exact List.mem_singleton_self _
  -- Pids occur once, so there are no more of them than last passes.
  have hle := (List.subperm_of_subset hpids hlast).length_le
  rw [List.length_map] at hle
  exact hle.trans Option.length_toList_le

theorem reaped_of_bootstrap {stack : Option KernelStack}
    (h : ProcessTable.bootstrap paging stack () journal = .done table () journal') :
    Reaped [] table := by
  rintro pid ⟨process, hmem, -, hstate⟩
  cases stack with
  | none => cases h
  | some stack =>
    cases h
    obtain rfl := List.mem_singleton.mp hmem
    cases hstate

namespace System.Ran

theorem reachable (h : Ran layout start paging booted passes system) :
    system.Reachable layout start paging := by
  induction h with
  | boot hcreate hboot hcpu => exact .boot hcreate hboot hcpu
  | operate _ henters hrun _ ih => exact .operate ih henters hrun
  | request _ hedits hrun ih => exact .request ih hedits hrun

theorem sound (h : Ran layout start paging booted passes system) : system.table.Sound :=
  sound_of_reachable h.reachable.table

/-- After any run, the process that the last pass took the processor from is the only one that may
have ended and still be there. -/
theorem reaped (hpool : start.frames.Reachable) (htotal : start.frames.total ≤ bitRange 20)
    (h : Ran layout start paging booted passes system) : Reaped passes system.table := by
  induction h with
  | boot _ hboot _ => exact reaped_of_bootstrap hboot
  | request _ _ _ ih => exact ih
  | @operate passes system operation whole whole' stages journal journal' hran henters hrun hstages
      ih =>
    have hloaded := (hran.reachable.loaded hpool htotal).enter henters
    have hsound : whole.state.table.Sound := henters.table_eq ▸ hran.sound
    rw [← henters.table_eq] at ih
    rw [(Operation.eq_of_stages? hrun hstages).1]
    -- The induction is on the stages: the passes so far are those before the operation and those of
    -- the stages behind.
    refine (Task.of_stages? (fun _ before system _ =>
      system.Loaded paging start.frames.takenFrames ∧
        Reaped (passes ++ before.filterMap Stage.handover?) system.table)
      (fun task rest before system journal stage journal' hsound hstage hinv => ?_)
      hsound hstages ⟨hloaded, ?_⟩).2
    · rw [Stage.handovers_concat, ← List.append_assoc]
      exact Task.reaped_of_stage? hinv.1 hsound hstage hinv.2
    · rwa [List.filterMap_nil, List.append_nil]

end System.Ran

end KernelResources
