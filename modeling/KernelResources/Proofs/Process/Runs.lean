import KernelResources.Proofs.Process.Invariant
import KernelResources.Proofs.Process.Operations

/-!
# Runs of the scheduler

A run begins with the table that stands for the code that boots the kernel, and goes on with any
operations on processes. Between two of them the machine, the registers on the processor and the
events that wait may change in any way.

* `running_of_reachable`: the current process is the only one that runs, the idle process can always
  run, a process has an exit code when it has ended, and none that has ended comes back.
* `registers_of_reachable`: a process that survives an operation keeps its registers, however often
  the processor changes hands. Only a system call changes the registers of its caller, by leaving
  the answer there.
-/

namespace KernelResources

open Processor

/-- An operation on processes. -/
inductive Operation where
  | launch (name : String) (entry : Nat) (kernelMode : Bool) (stack : Option KernelStack)
  | remove (pid : Nat)
  | schedule
  | tick
  | block
  | wake (pid : Nat)
  | sleep (ticks : Nat)
  | exit (code : Int32)
  | kill (pid : Nat)
  | actOnEvents
  | serve (request : Syscall.Request)
  | timer
  | systemCall
deriving DecidableEq, Repr

namespace Operation

/-- Carries an operation out. -/
def run (paging : Paging) : Operation → Action ProcessError (WithEvents System) Unit
  | launch name entry kernelMode stack => do
    let _ ← WithEvents.onState (System.launch paging name entry kernelMode stack)
  | remove pid => WithEvents.onState (System.remove paging pid)
  | schedule => do
    let _ ← WithEvents.onState (System.schedule paging)
  | tick => do
    let _ ← WithEvents.onState (System.clockTick paging)
  | block => do
    let _ ← WithEvents.onState (System.block paging)
  | wake pid => WithEvents.onState (System.wake pid)
  | sleep ticks => do
    let _ ← WithEvents.onState (System.sleep paging ticks)
  | exit code => do
    let _ ← WithEvents.onState (System.exit paging code)
  | kill pid => WithEvents.onState (System.kill paging pid)
  | actOnEvents => do
    let _ ← (System.actOnEvents paging).unrefused
  | serve request => do
    let _ ← (WithEvents.onState (Syscall.serve paging request)).unrefused
  | timer => do
    let _ ← (Trap.timer paging).unrefused
  | systemCall => do
    let _ ← (Trap.systemCall paging).unrefused

/-- The registers of the current process with which an operation goes on: those on the processor,
after a system call with its answer. -/
def registers (table : ProcessTable) (cpu : Registers) : Operation → Registers
  | serve request => Syscall.answered cpu (Syscall.answer? table request.number)
  | systemCall => Syscall.answered cpu (Syscall.answer? table cpu.eax)
  | _ => cpu

/-- What an operation sets out to do. -/
def deeds (whole : WithEvents System) : Operation → List Deed
  | launch .. => [.launch]
  | remove pid => [.remove pid]
  | schedule => [.pass .stay]
  | tick => [.tick]
  | block => [.pass .block]
  | wake pid => [.wake pid]
  | sleep ticks => [.pass (System.sleeping whole.state.table.clock ticks)]
  | exit code => [.pass (.exit code)]
  | kill pid => System.killing whole.state.table pid
  | actOnEvents => whole.events.waiting.map Event.deed
  | serve request => request.deeds
  | timer => whole.events.addTick.waiting.map Event.deed
  | systemCall =>
    (Syscall.Request.ofRegisters whole.state.cpu).deeds ++ whole.events.waiting.map Event.deed

end Operation

/-- A table is reachable if a run leads to it. -/
inductive ProcessTable.Reachable : ProcessTable → Prop where
  | bootstrap {paging : Paging} {stack : Option KernelStack} {table : ProcessTable}
      {journal journal' : Journal} :
      ProcessTable.bootstrap paging stack () journal = .done table () journal' → Reachable table
  | step {paging : Paging} {operation : Operation} {whole whole' : WithEvents System}
      {journal : Journal} : Reachable whole.state.table →
        (operation.run paging whole journal).state? = some whole' → Reachable whole'.state.table

/-! ## Single operations -/

variable {paging : Paging} {table : ProcessTable} {operation : Operation}
  {whole whole' : WithEvents System} {journal : Journal}

/-- The current process of a sound table is there. -/
theorem ProcessTable.Sound.currentProcess? (h : table.Sound) : table.currentProcess? ≠ none := by
  obtain ⟨process, -, -, hcurrent⟩ :=
    ProcessTable.exists_currentProcess? h.nodup h.current_mem
  rw [hcurrent]
  exact Option.some_ne_none process

/-- Every operation that returns has done some of what it set out to do, after the answer to a
system call was left. -/
theorem Operation.ensures_course (h : whole.state.table.Sound) :
    (operation.run paging).Ensures whole
      (fun _ whole' => Course (operation.deeds whole) ⟨whole.state.table,
        operation.registers whole.state.table whole.state.cpu⟩ whole'.state.processor)
      fun _ whole' => Course (operation.deeds whole) ⟨whole.state.table,
        operation.registers whole.state.table whole.state.cpu⟩ whole'.state.processor := by
  cases operation with
  | launch name entry kernelMode stack =>
    exact (WithEvents.ensures_onState whole (System.along_launch name entry kernelMode stack)).bind
      fun _ _ hcourse => Action.ensures_pure hcourse
  | remove pid => exact WithEvents.ensures_onState whole (System.along_remove pid)
  | schedule =>
    exact (WithEvents.ensures_onState whole System.along_schedule).bind
      fun _ _ hcourse => Action.ensures_pure hcourse
  | tick =>
    exact (WithEvents.ensures_onState whole System.along_clockTick).bind
      fun _ _ hcourse => Action.ensures_pure hcourse
  | block =>
    exact (WithEvents.ensures_onState whole System.along_block).bind
      fun _ _ hcourse => Action.ensures_pure hcourse
  | wake pid => exact WithEvents.ensures_onState whole (System.along_wake pid)
  | sleep ticks =>
    exact (WithEvents.ensures_onState whole (System.along_sleep ticks)).bind
      fun _ _ hcourse => Action.ensures_pure hcourse
  | exit code =>
    exact (WithEvents.ensures_onState whole (System.along_exit code)).bind
      fun _ _ hcourse => Action.ensures_pure hcourse
  | kill pid => exact WithEvents.ensures_onState whole (System.along_kill pid)
  | actOnEvents =>
    exact (Action.ensures_unrefused System.along_actOnEvents).bind
      fun _ _ hcourse => Action.ensures_pure hcourse
  | serve request =>
    exact (Action.ensures_unrefused (WithEvents.ensures_onState whole
      (Syscall.ensures_serve h.currentProcess? request))).bind
        fun _ _ hcourse => Action.ensures_pure hcourse
  | timer =>
    exact (Action.ensures_unrefused Trap.along_timer).bind
      fun _ _ hcourse => Action.ensures_pure hcourse
  | systemCall =>
    exact (Action.ensures_unrefused (Trap.ensures_systemCall h.currentProcess?)).bind
      fun _ _ hcourse => Action.ensures_pure hcourse

theorem Operation.course_of_run (h : whole.state.table.Sound)
    (hrun : (operation.run paging whole journal).state? = some whole') :
    Course (operation.deeds whole) ⟨whole.state.table,
      operation.registers whole.state.table whole.state.cpu⟩ whole'.state.processor :=
  (Operation.ensures_course h).of_state? hrun

/-- An operation on a sound table leaves a sound one, and carries the processes that survive it. -/
theorem Operation.sound_carries (h : whole.state.table.Sound)
    (hrun : (operation.run paging whole journal).state? = some whole') :
    whole'.state.table.Sound ∧
      Carries ⟨whole.state.table, operation.registers whole.state.table whole.state.cpu⟩
        whole'.state.processor :=
  (Operation.course_of_run h hrun).path.sound_carries h

/-! ## Runs -/

theorem sound_of_bootstrap {stack : Option KernelStack} {journal' : Journal}
    (h : ProcessTable.bootstrap paging stack () journal = .done table () journal') :
    table.Sound := by
  cases stack with
  | none => cases h
  | some stack =>
    cases h
    have hpids (pid : Nat) (hpid : pid ∈ [ProcessTable.bootstrapPid]) :
        pid = ProcessTable.bootstrapPid := List.mem_singleton.mp hpid
    refine ⟨⟨List.pairwise_singleton _ _, fun pid hpid => ?_, List.mem_cons_self,
      List.mem_cons_self, fun process hmem => ?_⟩, fun process hmem _ => ?_⟩
    · rw [hpids pid hpid]
      exact Nat.lt_succ_self _
    · rw [List.mem_singleton.mp hmem]
      exact ⟨fun _ => rfl, fun _ => .inr rfl, fun _ => nofun, by simp [Process.create]⟩
    · rw [List.mem_singleton.mp hmem]
      rfl

/-- Every reachable table is sound. -/
theorem sound_of_reachable (h : table.Reachable) : table.Sound := by
  induction h with
  | bootstrap hboot => exact sound_of_bootstrap hboot
  | step _ hrun ih => exact (Operation.sound_carries ih hrun).1

/-- In a sound table, the current process is the only one that runs. -/
theorem ProcessTable.Sound.filter_running (h : table.Sound) :
    (table.processes.filter (·.state = .running)).map Process.pid = [table.current] := by
  obtain ⟨process, hmem, hpid⟩ := ProcessTable.mem_pids.mp h.current_mem
  have hstate := h.current_running process hmem hpid
  have hnodup : (table.processes.map Process.pid).Nodup := h.nodup
  obtain ⟨before, after, hsplit⟩ := List.append_of_mem hmem
  rw [hsplit, List.map_append, List.map_cons, List.nodup_middle] at hnodup
  have hothers := (List.nodup_cons.mp hnodup).1
  -- All that run have the pid of the current process, and pids occur once.
  have hnone (other : Process) (hother : other ∈ before ++ after) :
      ¬decide (other.state = .running) = true := by
    intro hrunning
    have hmem' : other ∈ table.processes := by
      rw [hsplit]
      exact (List.mem_append.mp hother).elim (List.mem_append_left _)
        fun hafter => List.mem_append_right _ (List.mem_cons_of_mem _ hafter)
    have hpid' := (h.each other hmem').running (of_decide_eq_true hrunning)
    refine hothers ?_
    rw [← List.map_append, hpid, ← hpid']
    exact List.mem_map_of_mem hother
  rw [hsplit, List.filter_append, List.filter_cons, if_pos (decide_eq_true hstate),
    List.filter_eq_nil_iff.mpr fun other hother => hnone other (List.mem_append_left _ hother),
    List.filter_eq_nil_iff.mpr fun other hother => hnone other (List.mem_append_right _ hother)]
  exact congrArg (fun pid => [pid]) hpid

/-- After any run, the current process is the only one that runs; the idle process is there, and it
is ready unless it is current; and the processes that have an exit code are the ones that have
ended. Any operation that returns, be it refused or not, changes the states of the processes that
survive it only by steps, so a process that has ended does not come back. -/
theorem running_of_reachable (h : table.Reachable) :
    (table.processes.filter (·.state = .running)).map Process.pid = [table.current] ∧
    (∃ process, table.find? table.idle = some process ∧
      process.state = if table.current = table.idle then .running else .ready) ∧
    (∀ process ∈ table.processes, process.exitCode.isSome ↔ process.state = .terminated) ∧
    ∀ paging (operation : Operation) whole whole' journal, whole.state.table = table →
      (operation.run paging whole journal).state? = some whole' →
        ∀ pid before after, table.state? pid = some before →
          whole'.state.table.state? pid = some after →
            before.Steps after ∧ (before = .terminated → after = .terminated) := by
  have hsound := sound_of_reachable h
  refine ⟨hsound.filter_running, ?_, fun process hmem => (hsound.each process hmem).exitCode, ?_⟩
  · obtain ⟨idle, hmem, hpid⟩ := ProcessTable.mem_pids.mp hsound.idle_mem
    refine ⟨idle, hpid ▸ hsound.find?_pid hmem, ?_⟩
    -- An idle process that runs is current, since no other process runs.
    by_cases hidle : table.current = table.idle
    · rw [if_pos hidle]
      exact hsound.current_running idle hmem (hpid.trans hidle.symm)
    · rw [if_neg hidle]
      refine ((hsound.each idle hmem).idle hpid).resolve_right fun hrunning => hidle ?_
      exact ((hsound.each idle hmem).running hrunning).symm.trans hpid
  · rintro paging operation whole whole' journal rfl hrun pid before after hbefore hafter
    obtain ⟨hsound', hcarries⟩ := Operation.sound_carries hsound hrun
    obtain ⟨process, hfind, rfl⟩ := Option.map_eq_some_iff.mp hbefore
    obtain ⟨process', hfind', rfl⟩ := Option.map_eq_some_iff.mp hafter
    have hpid := ProcessTable.pid_of_find? hfind
    have hpid' := ProcessTable.pid_of_find? hfind'
    have hmem := ProcessTable.mem_of_find? hfind
    obtain ⟨origin, horigin, hsame, hsteps, -⟩ := hcarries.each process'
      (ProcessTable.mem_of_find? hfind')
      (hpid'.trans hpid.symm ▸ hsound.below _ (List.mem_map_of_mem hmem))
    -- Pids are not given out twice, so the process it comes from is the one that was found.
    obtain rfl := hsound.eq_of_pid hmem horigin (hsame.trans (hpid'.trans hpid.symm))
    exact ⟨hsteps, fun hended => (hended ▸ hsteps).eq_of_terminated⟩

/-- A system that runs kernel processes only: there are no frames, and no events wait. -/
def kernelOnly (table : ProcessTable) (cpu : Registers) : WithEvents System where
  events := .ofCapacity 1
  state.machine := { frames := .allTaken 0, memory := .empty, active := 0, calls := #[] }
  state.table := table
  state.cpu := cpu

/-- The table after an operation while only kernel processes run. -/
def ProcessTable.after? (table : ProcessTable) (operation : Operation) : Option ProcessTable :=
  (operation.run default (kernelOnly table default) #[]).state?.map (·.state.table)

/-- The table after these operations from the start, while only kernel processes run. -/
def ProcessTable.ofRun? (operations : List Operation) : Option ProcessTable :=
  match ProcessTable.bootstrap default (some ⟨0⟩) () #[] with
  | .done table _ _ => operations.foldlM ProcessTable.after? table
  | _ => none

/-- What holds at the start and is kept by the operations holds after them. -/
theorem ProcessTable.of_ofRun? {operations : List Operation} (inv : ProcessTable → Prop)
    (hbootstrap : ∀ table journal,
      ProcessTable.bootstrap default (some ⟨0⟩) () #[] = .done table () journal → inv table)
    (hafter : ∀ operation ∈ operations, ∀ table whole', inv table →
      (operation.run default (kernelOnly table default) #[]).state? = some whole' →
        inv whole'.state.table)
    (h : ofRun? operations = some table) : inv table := by
  unfold ofRun? at h
  split at h
  · next first _ journal hboot =>
    refine of_foldlM inv (hbootstrap first journal hboot) ?_ h
    intro operation hmem table _ hinv hstep
    obtain ⟨whole, hrun, rfl⟩ := Option.map_eq_some_iff.mp hstep
    exact hafter operation hmem table whole hinv hrun
  · cases h

theorem ProcessTable.reachable_of_ofRun? {operations : List Operation}
    (h : ofRun? operations = some table) : table.Reachable := by
  refine of_ofRun? Reachable (fun _ _ => .bootstrap) (fun _ _ start _ hstart hrun => ?_) h
  have hreachable : (kernelOnly start default).state.table.Reachable := hstart
  exact .step hreachable hrun

/-- A process that was created runs when its turn comes. -/
theorem running_of_secondProcess :
    ∃ table, ProcessTable.Reachable table ∧ table.idle = 1 ∧
      (table.processes.filter (·.state = .running)).map Process.pid = [2] := by
  have hrun : (match ProcessTable.bootstrap default (some ⟨0⟩) () #[] with
      | .done table _ _ =>
        match ((Operation.launch "init" 0 true (some ⟨0⟩)).run default
            (kernelOnly table default) #[]).state? with
        | some launched =>
          match (Operation.schedule.run default launched #[]).state? with
          | some final => decide (final.state.table.idle = 1 ∧ final.state.table.current = 2)
          | none => false
        | none => false
      | _ => false) = true := by decide +kernel
  split at hrun
  case h_1 table _ journal hboot =>
    split at hrun
    case h_1 launched hlaunch =>
      split at hrun
      case h_1 final hschedule =>
        obtain ⟨hidle, hcurrent⟩ := of_decide_eq_true hrun
        have hbooted : (kernelOnly table default).state.table.Reachable := .bootstrap hboot
        have hlaunched : launched.state.table.Reachable := .step hbooted hlaunch
        have hreachable : final.state.table.Reachable := .step hlaunched hschedule
        exact ⟨_, hreachable, hidle, hcurrent ▸ (running_of_reachable hreachable).1⟩
      case h_2 => cases hrun
    case h_2 => cases hrun
  case h_2 => cases hrun

/-- A process that survives an operation on a reachable table, which is one whose pid was given out
before, keeps its registers, however often the processor changes hands. The current process goes on
with the registers on the processor, after a system call with its answer in `eax`; a program that
exits finds no answer. If the process is current before and afterwards, these registers are on the
processor then; if it is so only before, they are saved; if it is so only afterwards, its saved
registers are on the processor; and otherwise they stay as they are. -/
theorem registers_of_reachable (h : whole.state.table.Reachable)
    (hrun : (operation.run paging whole journal).state? = some whole') (pid : Nat)
    (hpid : pid < whole.state.table.nextPid) (process' : Process)
    (hfind' : whole'.state.table.find? pid = some process') :
    ∃ process, whole.state.table.find? pid = some process ∧
      (pid = whole.state.table.current → pid = whole'.state.table.current →
        whole'.state.cpu = operation.registers whole.state.table whole.state.cpu) ∧
      (pid = whole.state.table.current → pid ≠ whole'.state.table.current →
        process'.context = operation.registers whole.state.table whole.state.cpu) ∧
      (pid ≠ whole.state.table.current → pid = whole'.state.table.current →
        whole'.state.cpu = process.context) ∧
      (pid ≠ whole.state.table.current → pid ≠ whole'.state.table.current →
        process'.context = process.context) := by
  have hsound := sound_of_reachable h
  obtain ⟨-, hcarries⟩ := Operation.sound_carries hsound hrun
  have hpid' := ProcessTable.pid_of_find? hfind'
  obtain ⟨process, hmem, hsame, -, hregisters⟩ := hcarries.each process'
    (ProcessTable.mem_of_find? hfind') (hpid' ▸ hpid)
  have hsame' : process.pid = pid := hsame.trans hpid'
  -- What the process carries is on the processor exactly while it is current.
  simp only [registersOf, hpid', hsame'] at hregisters
  change (if pid = whole'.state.table.current then whole'.state.cpu else process'.context) =
    if pid = whole.state.table.current then operation.registers whole.state.table whole.state.cpu
      else process.context at hregisters
  refine ⟨process, hsame' ▸ hsound.find?_pid hmem, ?_, ?_, ?_, ?_⟩
  · intro hbefore hafter
    rwa [if_pos hbefore, if_pos hafter] at hregisters
  · intro hbefore hafter
    rwa [if_pos hbefore, if_neg hafter] at hregisters
  · intro hbefore hafter
    rwa [if_neg hbefore, if_pos hafter] at hregisters
  · intro hbefore hafter
    rwa [if_neg hbefore, if_neg hafter] at hregisters

/-- The registers of a program that ends its turn. -/
def yielding : Registers := { eax := Syscall.yield, ebx := 7 }

/-- A program that ends its turn finds zero in `eax` when it goes on, and everything else as it
was. -/
theorem registers_of_yielding :
    ∃ whole whole' process, whole.state.table.Reachable ∧ whole.state.cpu = yielding ∧
      (Operation.systemCall.run default whole #[]).state? = some whole' ∧
        whole'.state.table.current = 2 ∧ whole'.state.table.find? 1 = some process ∧
          process.context = { yielding with eax := 0 } := by
  have hrun : (match ProcessTable.bootstrap default (some ⟨0⟩) () #[] with
      | .done table _ _ =>
        match ((Operation.launch "init" 0 true (some ⟨0⟩)).run default
            (kernelOnly table default) #[]).state? with
        | some launched =>
          match (Operation.systemCall.run default (kernelOnly launched.state.table yielding)
              #[]).state? with
          | some final =>
            match final.state.table.find? 1 with
            | some _ => decide (launched.state.table.current = 1 ∧
                1 < launched.state.table.nextPid ∧ final.state.table.current = 2)
            | none => false
          | none => false
        | none => false
      | _ => false) = true := by decide +kernel
  split at hrun
  case h_1 table _ journal hboot =>
    split at hrun
    case h_1 launched hlaunch =>
      split at hrun
      case h_1 final hcall =>
        split at hrun
        case h_1 process hprocess =>
          obtain ⟨hbefore, hpid, hafter⟩ := of_decide_eq_true hrun
          have hbooted : (kernelOnly table default).state.table.Reachable := .bootstrap hboot
          have hlaunched : launched.state.table.Reachable := .step hbooted hlaunch
          have hcalling : (kernelOnly launched.state.table yielding).state.table.Reachable :=
            hlaunched
          obtain ⟨-, -, -, hsaved, -⟩ :=
            registers_of_reachable hcalling hcall 1 hpid process hprocess
          refine ⟨_, final, process, hcalling, rfl, hcall, hafter, hprocess, ?_⟩
          exact hsaved hbefore.symm (by rw [hafter]; decide)
        case h_2 => cases hrun
      case h_2 => cases hrun
    case h_2 => cases hrun
  case h_2 => cases hrun

end KernelResources
