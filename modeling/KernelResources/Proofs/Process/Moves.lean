import Mathlib.Data.List.Nodup
import Mathlib.Logic.Relation
import KernelResources.Process.Schedule

/-!
# Moves of the scheduler

Whatever an operation on processes does to the process table and to the registers on the processor
is a sequence of a few moves: a process is created, removed, woken or ended from outside, a tick
passes, or the current process gives the processor away. This file lists them.

* `Processor.Move` is one of them.
* `ProcessTable.Sound` is the invariant that every move keeps: the current process is the only one
  that runs, the idle process can always run, and a process has an exit code when it has ended.
* `Processor.Carries` says what becomes of the processes that survive: their states change along
  `ProcessState.Step`, and their registers stay.
-/

namespace KernelResources

/-- The processes, and the registers of the one that has the processor. -/
structure Processor where
  /-- The processes. -/
  table : ProcessTable
  /-- The registers on the processor. -/
  cpu : Registers

/-- What the scheduler sees of a system. -/
def System.processor (system : System) : Processor := ⟨system.table, system.cpu⟩

/-! ## Giving the processor away -/

/-- What becomes of the current process when another one gets its turn. -/
inductive Leave where
  /-- It could go on. -/
  | stay
  /-- It waits until something wakes it. -/
  | block
  /-- It waits for a tick. -/
  | sleep (wakeAt : Nat)
  /-- It ends. -/
  | exit (code : Int32)
deriving DecidableEq, Repr

namespace ProcessTable

/-- The table when the current process waits. -/
def blocking (table : ProcessTable) : ProcessTable :=
  table.update table.current ({ · with state := .blocked })

/-- The table when the current process is about to leave the processor. -/
def leaving (table : ProcessTable) : Leave → ProcessTable
  | .stay => table
  | .block => table.blocking
  | .sleep wakeAt => (table.update table.current ({ · with wakeAt := some wakeAt })).blocking
  | .exit code =>
    let ended :=
      table.update table.current ({ · with state := .terminated, exitCode := some code })
    match table.currentProcess?.bind Process.parent with
    | some parent => ended.update parent System.wakeParent
    | none => ended

/-- The table after a process was created. -/
def launching (table : ProcessTable) (name : String) (context : Registers) (space : ProcessSpace)
    (stack : KernelStack) : ProcessTable :=
  let pid := table.nextPid
  let process := Process.create pid name .ready context space stack (some table.current)
  ({ table with nextPid := pid + 1 }.add process).update table.current fun parent =>
    { parent with children := parent.children ++ [pid] }

/-- The table after a tick was charged to the current process. -/
def charging (table : ProcessTable) : ProcessTable :=
  match table.currentProcess? with
  | none => table
  | some process => table.update process.pid fun other =>
    { other with ticksUsed := process.ticksUsed + 1, remaining := process.remaining - 1 }

/-- The table after a tick. -/
def ticking (table : ProcessTable) : ProcessTable :=
  let clock := table.clock + 1
  ({ table with clock }.updateAll (System.wakeIfDue clock)).charging

end ProcessTable

/-- A process whose turn goes on starts afresh if its time slice is used up. -/
def Process.refill (process : Process) : Process :=
  { process with
    remaining := if process.remaining = 0 then process.timeSlice else process.remaining }

namespace Processor

/-- Another process gets the processor. -/
def dispatch (processor : Processor) (next : Nat) : Processor :=
  let table := processor.table.update processor.table.current (System.suspend processor.cpu)
  match table.find? next with
  | none => { processor with table }
  | some incoming =>
    { table := { table.update next System.resume with
        current := next
        cursor := if next = table.idle then table.cursor else next }
      cpu := incoming.context }

/-- The process whose turn it is gets the processor. -/
def turn (processor : Processor) : Processor :=
  let next := processor.table.nextTurn
  if next ≠ processor.table.current then processor.dispatch next
  else { processor with table := processor.table.update next Process.refill }

theorem turn_of_ne {processor : Processor}
    (h : processor.table.nextTurn ≠ processor.table.current) :
    processor.turn = processor.dispatch processor.table.nextTurn := if_pos h

theorem turn_of_eq {processor : Processor}
    (h : processor.table.nextTurn = processor.table.current) :
    processor.turn = { processor with
      table := processor.table.update processor.table.nextTurn Process.refill } :=
  if_neg (not_not_intro h)

/-- A move of the scheduler. -/
inductive Move (processor : Processor) : Processor → Prop where
  /-- A process is created. -/
  | launch (name : String) (context : Registers) (space : ProcessSpace) (stack : KernelStack) :
      Move processor
        { processor with table := processor.table.launching name context space stack }
  /-- A process that does not have the processor is removed. -/
  | remove {process : Process} : processor.table.find? process.pid = some process →
      process.pid ≠ processor.table.current → process.pid ≠ processor.table.idle →
        Move processor { processor with
          table := System.unlink process (processor.table.remove process.pid) }
  /-- A process that waits is woken. -/
  | wake {process : Process} : processor.table.find? process.pid = some process →
      process.state = .blocked →
        Move processor { processor with
          table := processor.table.update process.pid
            ({ · with state := .ready, wakeAt := none }) }
  /-- A process that does not have the processor is ended. -/
  | kill {pid : Nat} : pid ≠ processor.table.current → pid ≠ processor.table.idle →
      Move processor { processor with
        table := processor.table.update pid
          ({ · with state := .terminated, exitCode := some System.killedCode }) }
  /-- A tick passes. -/
  | tick : Move processor { processor with table := processor.table.ticking }
  /-- The current process gives the processor away. Only a process that is not idle can wait or
  end. -/
  | turn (leave : Leave) : leave = .stay ∨ processor.table.current ≠ processor.table.idle →
      Move processor { processor with table := processor.table.leaving leave }.turn

/-- Any number of moves. -/
abbrev Path : Processor → Processor → Prop := Relation.ReflTransGen Move

end Processor

/-! ## The invariant -/

/-- What holds of each process when the current one has the number `current` and may have stopped
running, while the idle one has the number `idle`. -/
structure Process.Orderly (current idle : Nat) (process : Process) : Prop where
  /-- No process runs but the current one. -/
  running : process.state = .running → process.pid = current
  /-- The idle process can run. -/
  idle : process.pid = idle → process.state = .ready ∨ process.state = .running
  /-- The current process does not wait for its turn. -/
  current : process.pid = current → process.state ≠ .ready
  /-- A process has an exit code when it has ended. -/
  exitCode : process.exitCode.isSome ↔ process.state = .terminated

namespace Process.Orderly

variable {process : Process} {current idle : Nat}

/-- A ready process is in order unless it is the current one. -/
theorem of_ready (hstate : process.state = .ready) (hcurrent : process.pid ≠ current)
    (hexitCode : process.exitCode = none) : process.Orderly current idle := by
  refine ⟨?_, fun _ => .inl hstate, fun heq => absurd heq hcurrent, ?_⟩ <;>
    simp [hstate, hexitCode]

/-- A process that waits or has ended is in order unless it is the idle one. -/
theorem of_stopped (hrunning : process.state ≠ .running) (hready : process.state ≠ .ready)
    (hidle : process.pid ≠ idle)
    (hexitCode : process.exitCode.isSome ↔ process.state = .terminated) :
    process.Orderly current idle :=
  ⟨fun heq => absurd heq hrunning, fun heq => absurd heq hidle, fun _ => hready, hexitCode⟩

theorem exitCode_eq_none (h : process.Orderly current idle) (hstate : process.state ≠ .terminated) :
    process.exitCode = none :=
  Option.not_isSome_iff_eq_none.mp (mt h.exitCode.mp hstate)

end Process.Orderly

/-- The current process may have stopped running; everything else is in order. -/
structure ProcessTable.Schedulable (table : ProcessTable) : Prop where
  /-- Pids ascend. -/
  sorted : table.pids.Pairwise (· < ·)
  /-- The next pid is a fresh one. -/
  below : ∀ pid ∈ table.pids, pid < table.nextPid
  /-- The current process is in the table. -/
  current_mem : table.current ∈ table.pids
  /-- The idle process is in the table. -/
  idle_mem : table.idle ∈ table.pids
  /-- The processes are as they should be. -/
  each : ∀ process ∈ table.processes, process.Orderly table.current table.idle

/-- The current process runs, and everything is in order. -/
structure ProcessTable.Sound (table : ProcessTable) : Prop extends table.Schedulable where
  /-- The current process runs. -/
  current_running : ∀ process ∈ table.processes, process.pid = table.current →
    process.state = .running

/-- How a process can change its state. -/
inductive ProcessState.Step : ProcessState → ProcessState → Prop where
  | dispatch : Step .ready .running
  | preempt : Step .running .ready
  | block : Step .running .blocked
  | wake : Step .blocked .ready
  | terminate (state : ProcessState) : Step state .terminated

/-- How a process can change its state in several steps. -/
abbrev ProcessState.Steps : ProcessState → ProcessState → Prop := Relation.ReflTransGen Step

/-- A process that has ended does not come back. -/
theorem ProcessState.Steps.eq_of_terminated {state : ProcessState}
    (h : ProcessState.Steps .terminated state) : state = .terminated := by
  induction h with
  | refl => rfl
  | tail _ hstep ih =>
    subst ih
    cases hstep
    rfl

/-! ## Changes of single processes -/

namespace ProcessTable

variable {table : ProcessTable} {pid current : Nat} {change : Process → Process}

theorem pids_updateAll (hpid : ∀ process, (change process).pid = process.pid) :
    (table.updateAll change).pids = table.pids := by
  simp [pids, updateAll, hpid]

theorem pids_remove : (table.remove pid).pids = table.pids.filter (· ≠ pid) := by
  rw [pids, pids, List.filter_map]
  rfl

/-- Pids that occur once name processes. -/
theorem eq_of_nodup (hnodup : table.pids.Nodup) {process other : Process}
    (hprocess : process ∈ table.processes) (hother : other ∈ table.processes)
    (hpid : other.pid = process.pid) : other = process :=
  List.inj_on_of_nodup_map hnodup hother hprocess hpid

/-- A process is found by a pid that occurs once. -/
theorem find?_of_nodup (hnodup : table.pids.Nodup) {process : Process}
    (hprocess : process ∈ table.processes) : table.find? process.pid = some process := by
  cases hfind : table.find? process.pid with
  | none =>
    have hnone := List.find?_eq_none.mp hfind process hprocess
    simp at hnone
  | some found => rw [eq_of_nodup hnodup hprocess (mem_of_find? hfind) (pid_of_find? hfind)]

theorem Schedulable.nodup (h : table.Schedulable) : table.pids.Nodup := h.sorted.imp Nat.ne_of_lt

theorem Schedulable.eq_of_pid (h : table.Schedulable) {process other : Process}
    (hprocess : process ∈ table.processes) (hother : other ∈ table.processes)
    (hpid : other.pid = process.pid) : other = process :=
  eq_of_nodup h.nodup hprocess hother hpid

theorem mem_pids : pid ∈ table.pids ↔ ∃ process ∈ table.processes, process.pid = pid :=
  List.mem_map

theorem exists_currentProcess? (hnodup : table.pids.Nodup) (hcurrent : table.current ∈ table.pids) :
    ∃ process ∈ table.processes, process.pid = table.current ∧
      table.currentProcess? = some process := by
  obtain ⟨process, hprocess, hpid⟩ := mem_pids.mp hcurrent
  refine ⟨process, hprocess, hpid, ?_⟩
  rw [currentProcess?, ← hpid, find?_of_nodup hnodup hprocess]

/-- Changes that keep every process orderly keep the table schedulable. -/
theorem Schedulable.updateAll (h : table.Schedulable)
    (hpid : ∀ process, (change process).pid = process.pid)
    (heach : ∀ process ∈ table.processes, process.Orderly table.current table.idle →
      (change process).Orderly table.current table.idle) :
    (table.updateAll change).Schedulable where
  sorted := (pids_updateAll hpid).symm ▸ h.sorted
  below := (pids_updateAll hpid).symm ▸ h.below
  current_mem := (pids_updateAll hpid).symm ▸ h.current_mem
  idle_mem := (pids_updateAll hpid).symm ▸ h.idle_mem
  each := List.forall_mem_map.mpr fun process hprocess =>
    heach process hprocess (h.each process hprocess)

theorem Sound.updateAll (h : table.Sound)
    (hpid : ∀ process, (change process).pid = process.pid)
    (heach : ∀ process ∈ table.processes, process.Orderly table.current table.idle →
      (change process).Orderly table.current table.idle)
    (hrunning : ∀ process ∈ table.processes, process.pid = table.current →
      process.state = .running → (change process).state = .running) :
    (table.updateAll change).Sound where
  toSchedulable := h.toSchedulable.updateAll hpid heach
  current_running := List.forall_mem_map.mpr fun process hprocess hcurrent =>
    hrunning process hprocess (hpid process ▸ hcurrent)
      (h.current_running process hprocess (hpid process ▸ hcurrent))

/-- A change of a single process that keeps it orderly keeps the table schedulable. -/
theorem Schedulable.update (h : table.Schedulable)
    (hpid : ∀ process, (change process).pid = process.pid)
    (heach : ∀ process ∈ table.processes, process.pid = pid →
      process.Orderly table.current table.idle →
        (change process).Orderly table.current table.idle) :
    (table.update pid change).Schedulable := by
  refine h.updateAll (fun process => ?_) fun process hmem hprocess => ?_
  · split
    · exact hpid process
    · rfl
  · split
    · next heq => exact heach process hmem heq hprocess
    · exact hprocess

theorem Sound.update (h : table.Sound) (hpid : ∀ process, (change process).pid = process.pid)
    (heach : ∀ process ∈ table.processes, process.pid = pid →
      process.Orderly table.current table.idle →
        (change process).Orderly table.current table.idle)
    (hcurrent : pid ≠ table.current) : (table.update pid change).Sound := by
  refine ⟨h.toSchedulable.update hpid heach, List.forall_mem_map.mpr fun process hmem => ?_⟩
  split
  · next heq =>
    exact fun hsame => absurd (heq.symm.trans ((hpid process).symm.trans hsame)) hcurrent
  · exact h.current_running process hmem

/-- A process that does not run is not the current one. -/
theorem Sound.pid_ne_current (h : table.Sound) {process : Process}
    (hprocess : process ∈ table.processes) (hstate : process.state ≠ .running) :
    process.pid ≠ table.current := mt (h.current_running process hprocess) hstate

theorem Schedulable.find?_pid (h : table.Schedulable) {process : Process}
    (hprocess : process ∈ table.processes) : table.find? process.pid = some process :=
  find?_of_nodup h.nodup hprocess

end ProcessTable

namespace Processor

/-- The registers of a process: on the processor while it is current, else where they were saved. -/
def registersOf (processor : Processor) (process : Process) : Registers :=
  if process.pid = processor.table.current then processor.cpu else process.context

/-- The processes that survive have taken steps and kept their registers. -/
structure Carries (before after : Processor) : Prop where
  /-- Pids are not given twice. -/
  nextPid_le : before.table.nextPid ≤ after.table.nextPid
  /-- A process with an old pid is an old process. -/
  each : ∀ process' ∈ after.table.processes, process'.pid < before.table.nextPid →
    ∃ process ∈ before.table.processes, process.pid = process'.pid ∧
      process.state.Steps process'.state ∧
        after.registersOf process' = before.registersOf process

variable {processor processor' : Processor}

theorem Carries.refl (processor : Processor) : Carries processor processor where
  nextPid_le := Nat.le_refl _
  each process hprocess _ := ⟨process, hprocess, rfl, .refl, rfl⟩

theorem Carries.trans {middle : Processor} (h : Carries processor middle)
    (h' : Carries middle processor') : Carries processor processor' where
  nextPid_le := Nat.le_trans h.nextPid_le h'.nextPid_le
  each process' hprocess' hpid := by
    obtain ⟨between, hbetween, hsame, hsteps, hregisters⟩ :=
      h'.each process' hprocess' (Nat.lt_of_lt_of_le hpid h.nextPid_le)
    obtain ⟨process, hprocess, hsame', hsteps', hregisters'⟩ :=
      h.each between hbetween (hsame ▸ hpid)
    exact ⟨process, hprocess, hsame'.trans hsame, hsteps'.trans hsteps,
      hregisters.trans hregisters'⟩

/-- Changes of single processes that keep their contexts. -/
theorem carries_updateAll {change : Process → Process}
    (hpid : ∀ process, (change process).pid = process.pid)
    (hcontext : ∀ process, (change process).context = process.context)
    (hsteps : ∀ process ∈ processor.table.processes, process.state.Steps (change process).state) :
    Carries processor { processor with table := processor.table.updateAll change } where
  nextPid_le := Nat.le_refl _
  each := by
    refine List.forall_mem_map.mpr fun process hprocess _ => ?_
    refine ⟨process, hprocess, (hpid process).symm, hsteps process hprocess, ?_⟩
    unfold registersOf
    rw [hpid, hcontext]
    rfl

/-- A change of a single process that keeps its context. -/
theorem carries_update {pid : Nat} {change : Process → Process}
    (hpid : ∀ process, (change process).pid = process.pid)
    (hcontext : ∀ process, (change process).context = process.context)
    (hsteps : ∀ process ∈ processor.table.processes, process.pid = pid →
      process.state.Steps (change process).state) :
    Carries processor { processor with table := processor.table.update pid change } := by
  refine carries_updateAll (fun process => ?_) (fun process => ?_) fun process hmem => ?_
  · split
    · exact hpid process
    · rfl
  · split
    · exact hcontext process
    · rfl
  · split
    · next heq => exact hsteps process hmem heq
    · exact .refl

end Processor

end KernelResources
