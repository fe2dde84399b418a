import Mathlib.Algebra.BigOperators.Intervals
import KernelResources.Proofs.Process.Changes
import KernelResources.Proofs.Process.Tasks

/-!
# Charges

A timer interrupt is counted when it is recorded. It waits in the line or in the count of those that
found the line full, and when it is handed over, it is charged to the process that is current then.
The scheduler may remove other processes in the same breath, and with them what was charged to them.
So accounts are kept beside the table: `ProcessTable.settle` brings them up to date with every table
that can be seen in a run, and the account of a process that is gone stays as it was.

* `Charged` is a run in which ticks pass only when they were recorded, with the accounts.
* `Billed` says that the accounts add up to the clock; `Billed.stage` is what a task does to them.
* `EventQueue.Paced` says that the interrupts counted are those on the clock and those that wait.
* `clock_of_charged` puts the two together.
-/

namespace KernelResources

open Processor

/-- The accounts, brought up to date with a table. -/
def ProcessTable.settle (account : Nat → Nat) (table : ProcessTable) (pid : Nat) : Nat :=
  match table.find? pid with
  | some process => process.ticksUsed
  | none => account pid

/-- A run from the start: the events that wait, the processes, and the ticks charged to each process
so far, or until it was removed. Interrupt handlers record events, and operations are carried out;
none of them lets a tick pass that was not recorded. No tick is lost: one that finds the line full
can be counted. Between two operations the machine and the registers on the processor may change in
any way. -/
inductive Charged : EventQueue → ProcessTable → (Nat → Nat) → Prop where
  | boot {paging : Paging} {stack : Option KernelStack} {table : ProcessTable}
      {journal journal' : Journal} (capacity : Nat) :
      ProcessTable.bootstrap paging stack () journal = .done table () journal' →
        Charged (.ofCapacity capacity) table fun _ => 0
  | record {events events' : EventQueue} {table : ProcessTable} {account : Nat → Nat}
      {event : Event} {accepted : Bool} {journal journal' : Journal} :
      Charged events table account → (event = .tick → events.CanCount) →
        EventQueue.record event events journal = .done accepted events' journal' →
          Charged events' table account
  | operate {paging : Paging} {operation : Operation} {whole whole' : WithEvents System}
      {account : Nat → Nat} {stages : List Stage} {journal journal' : Journal} :
      Charged whole.events whole.state.table account → operation ≠ .tick →
        (operation = .timer → whole.events.CanCount) →
          (operation.run paging whole journal).state? = some whole' →
            operation.stages? paging whole journal = some (stages, journal') →
              Charged whole'.events whole'.state.table
                ((stages.flatMap Stage.tables).foldl ProcessTable.settle account)

/-! ## Accounts -/

/-- A process has been charged what its account says. -/
def Process.Billed (account : Nat → Nat) (process : Process) : Prop :=
  ProcessTable.bootstrapPid ≤ process.pid ∧ process.ticksUsed = account process.pid

theorem Process.enduring_billed (account : Nat → Nat) : Process.Enduring (Billed account) :=
  ⟨fun _ _ _ => id, fun _ => id, fun _ _ => id, fun _ _ => id⟩

/-- The accounts fit the processes, and they add up to the clock. -/
structure Billed (account : Nat → Nat) (clock : Nat) (table : ProcessTable) : Prop where
  /-- The clock has come this far. -/
  clock_eq : table.clock = clock
  /-- The accounts are up to date. -/
  each : ∀ process ∈ table.processes, process.Billed account
  /-- Nothing has been charged to a process that is still to be created. -/
  fresh : ∀ pid, table.nextPid ≤ pid → account pid = 0
  /-- All that has been charged to the processes that were ever created is the clock. -/
  sum_eq : ∑ pid ∈ Finset.Ico ProcessTable.bootstrapPid table.nextPid, account pid = clock

namespace Billed

variable {account account' : Nat → Nat} {clock : Nat} {table table' : ProcessTable}

/-- Accounts that fit the processes are what is settled, unless those of others differ. -/
theorem settle_eq_of (h : Billed account' clock table)
    (hothers : ∀ pid, pid ∉ table.pids → account pid = account' pid) :
    table.settle account = account' := by
  funext pid
  unfold ProcessTable.settle
  cases hfind : table.find? pid with
  | none =>
    refine hothers pid fun hmem => ?_
    obtain ⟨process, hprocess, hpid⟩ := ProcessTable.mem_pids.mp hmem
    exact List.find?_eq_none.mp hfind process hprocess (decide_eq_true hpid)
  | some process =>
    exact (h.each process (ProcessTable.mem_of_find? hfind)).2.trans
      (congrArg account' (ProcessTable.pid_of_find? hfind))

theorem settle_eq (h : Billed account clock table) : table.settle account = account :=
  h.settle_eq_of fun _ _ => rfl

/-- Nothing is charged, and none is created. -/
theorem of_forall (h : Billed account clock table)
    (hprocesses : ∀ process ∈ table'.processes, process.Billed account)
    (hnextPid : table'.nextPid = table.nextPid) (hclock : table'.clock = table.clock) :
    Billed account clock table' :=
  ⟨hclock.trans h.clock_eq, hprocesses, hnextPid ▸ h.fresh, hnextPid ▸ h.sum_eq⟩

/-- The current process has one of the pids that have been given out. -/
theorem current_mem (h : Billed account clock table) (hsound : table.Sound) :
    table.current ∈ Finset.Ico ProcessTable.bootstrapPid table.nextPid := by
  obtain ⟨process, hmem, hpid⟩ := ProcessTable.mem_pids.mp hsound.current_mem
  exact Finset.mem_Ico.mpr ⟨hpid ▸ (h.each process hmem).1, hsound.below _ hsound.current_mem⟩

theorem leaving (h : Billed account clock table) (leave : Leave) :
    Billed account clock (table.leaving leave) :=
  h.of_forall ((ProcessTable.takes_leaving leave fun _ _ _ _ => id).forall h.each)
    (ProcessTable.nextPid_leaving leave) (ProcessTable.clock_leaving leave)

/-- A process that is created has an empty account. -/
theorem launching (h : Billed account clock table) (hsound : table.Sound) (name : String)
    (context : Registers) (space : ProcessSpace) (stack : KernelStack) :
    Billed account clock (table.launching name context space stack) := by
  have hempty := h.fresh _ (Nat.le_refl table.nextPid)
  have hfirst : ProcessTable.bootstrapPid ≤ table.nextPid := by
    obtain ⟨hle, hlt⟩ := Finset.mem_Ico.mp (h.current_mem hsound)
    exact Nat.le_of_lt (Nat.lt_of_le_of_lt hle hlt)
  refine ⟨h.clock_eq, ?_, fun pid hpid => h.fresh pid (Nat.le_of_succ_le hpid), ?_⟩
  · exact ProcessTable.forall_launching (Process.enduring_billed account) name context space stack
      ⟨hfirst, hempty.symm⟩ h.each
  · show ∑ pid ∈ Finset.Ico ProcessTable.bootstrapPid (table.nextPid + 1), account pid = clock
    rw [Finset.sum_Ico_succ_top hfirst, hempty, Nat.add_zero, h.sum_eq]

/-- A tick is charged to the current process. -/
theorem ticking (h : Billed account clock table) (hsound : table.Sound) :
    Billed (Function.update account table.current (account table.current + 1)) (clock + 1)
      table.ticking := by
  let woken : ProcessTable :=
    { table with clock := table.clock + 1 }.updateAll (System.wakeIfDue (table.clock + 1))
  have hwoken : ∀ process ∈ woken.processes, process.Billed account := by
    refine List.forall_mem_map.mpr fun process hmem => ?_
    unfold System.wakeIfDue
    split <;> exact h.each process hmem
  have hpids : woken.pids = table.pids :=
    ProcessTable.pids_updateAll (ProcessTable.pid_wakeIfDue _)
  obtain ⟨process, hmem, hpid, hcurrent⟩ : ∃ process ∈ woken.processes,
      process.pid = table.current ∧ woken.currentProcess? = some process :=
    ProcessTable.exists_currentProcess? (hpids ▸ hsound.nodup) (hpids ▸ hsound.current_mem)
  have hticking : table.ticking = woken.update process.pid fun other => { other with
      ticksUsed := process.ticksUsed + 1, remaining := process.remaining - 1 } := by
    show woken.charging = _
    rw [ProcessTable.charging, hcurrent]
  have hrange := h.current_mem hsound
  refine ⟨?_, ?_, fun pid hle => ?_, ?_⟩
  · rw [ProcessTable.clock_ticking, h.clock_eq]
  · rw [hticking]
    refine (ProcessTable.takes_update (P := Process.Billed account) (fun other _ heq hbilled => ?_)
      fun other _ hne hbilled => ?_).forall hwoken
    · refine ⟨hbilled.1, ?_⟩
      show process.ticksUsed + 1 = Function.update account _ _ other.pid
      rw [heq, hpid, Function.update_self, (hwoken process hmem).2, hpid]
    · refine ⟨hbilled.1, ?_⟩
      rw [Function.update_of_ne (hpid ▸ hne)]
      exact hbilled.2
  · rw [ProcessTable.nextPid_ticking] at hle
    have hlt := (Finset.mem_Ico.mp hrange).2
    rw [Function.update_of_ne (by omega), h.fresh pid hle]
  · have hsum := h.sum_eq
    rw [← Finset.sum_sdiff (Finset.singleton_subset_iff.mpr hrange), Finset.sum_singleton] at hsum
    rw [ProcessTable.nextPid_ticking, Finset.sum_update_of_mem hrange]
    omega

end Billed

namespace Processor

variable {processor processor' : Processor} {account : Nat → Nat} {clock : Nat}

theorem Removal.billed {pid : Nat} (h : Removal pid processor processor')
    (hbilled : Billed account clock processor.table) : Billed account clock processor'.table := by
  refine hbilled.of_forall (h.forall (fun _ _ _ => id) hbilled.each) ?_ ?_ <;> rw [h.table_eq]

/-- Nothing is charged in a pass. -/
theorem Pass.billed (h : Pass processor processor') (hschedulable : processor.table.Schedulable)
    (hbilled : Billed account clock processor.table) : Billed account clock processor'.table :=
  Clearing.keeps (fun processor => Billed account clock processor.table)
    (fun _ _ _ _ hremoval => hremoval.billed) h
    (hbilled.of_forall
      ((takes_turn (Process.enduring_billed account) hschedulable).forall hbilled.each)
      (nextPid_turn processor) (clock_turn processor))

/-- Nothing is charged as long as no tick passes. -/
theorem Does.billed {deed : Deed} (h : Does deed processor processor') (hquiet : deed.Quiet)
    (hsound : processor.table.Sound) (hbilled : Billed account clock processor.table) :
    Billed account clock processor'.table := by
  have hupdate (pid : Nat) (change : Process → Process)
      (hchange : ∀ process, process.Billed account → (change process).Billed account) :
      Billed account clock (processor.table.update pid change) := by
    have htakes : ProcessTable.Takes (Process.Billed account) (Process.Billed account)
        processor.table (processor.table.update pid change) :=
      ProcessTable.takes_update (fun process _ _ => hchange process) fun _ _ _ => id
    exact hbilled.of_forall (htakes.forall hbilled.each) rfl rfl
  cases h with
  | launch name context space stack => exact hbilled.launching hsound name context space stack
  | remove hremoval => exact hremoval.billed hbilled
  | wake | kill => exact hupdate _ _ fun _ hbilled => hbilled
  | tick | pass => exact hquiet.elim

end Processor

/-! ## What a stage adds to the accounts -/

section Stages

variable {paging : Paging} {task : Task} {system : System} {journal journal' : Journal}
  {account : Nat → Nat} {clock : Nat} {table table' : ProcessTable} {due : Bool}

/-- Before its pass, a task settles a tick if it hands one over. -/
theorem Task.Prepares.billed (h : task.Prepares table due table') (hsound : table.Sound)
    (hbilled : Billed account clock table) :
    Billed (table'.settle account) (clock + [task].count (.event .tick)) table' := by
  -- Without a tick, the accounts stay as they are.
  have hquiet (htask : task ≠ .event .tick) (hbilled' : Billed account clock table') :
      Billed (table'.settle account) (clock + [task].count (.event .tick)) table' := by
    rw [hbilled'.settle_eq, List.count_eq_zero_of_not_mem (by simpa using htask.symm), Nat.add_zero]
    exact hbilled'
  cases h with
  | tick =>
    have hbilled' := hbilled.ticking hsound
    rw [hbilled'.settle_eq_of fun pid hpid => ?_]
    · exact hbilled'
    · refine (Function.update_of_ne (fun heq => hpid ?_) _ _).symm
      rw [heq, ← ProcessTable.current_ticking]
      exact hsound.ticking.current_mem
  | leave htask => exact hquiet htask (hbilled.leaving _)
  | quiet htask hdeeds hcourse =>
    refine hquiet htask (hcourse.keeps
      (fun processor => processor.table.Sound ∧ Billed account clock processor.table) ?_
        ⟨hsound, hbilled⟩).2
    rintro deed hmem _ _ hdoes ⟨hsound, hbilled⟩
    exact ⟨hdoes.sound hsound, hdoes.billed (hdeeds deed hmem) hsound hbilled⟩

/-- A stage charges a tick if it hands one over, and otherwise nothing. -/
theorem Billed.stage {stage : Stage} (h : Billed account clock system.table)
    (hsound : system.table.Sound)
    (hstage : task.stage? paging system journal = some (stage, journal')) :
    Billed (stage.tables.foldl ProcessTable.settle account)
      (clock + [task].count (.event .tick)) stage.after.table := by
  rcases Task.stage?_cases hsound hstage with ⟨hnone, hprepares⟩ | ⟨found, hfound, hprepares, hpass⟩
  · rw [Stage.tables, hnone]
    exact hprepares.billed hsound h
  · have hbilled : Billed (found.table.settle account) (clock + [task].count (.event .tick))
        stage.after.table :=
      hpass.billed (hprepares.schedulable hsound) (hprepares.billed hsound h)
    rw [Stage.tables, hfound]
    show Billed (stage.after.table.settle (found.table.settle account)) _ _
    rw [hbilled.settle_eq]
    exact hbilled

/-- An operation charges the ticks it hands over. -/
theorem Billed.operate {operation : Operation} {whole whole' : WithEvents System}
    {stages : List Stage} (h : Billed account clock whole.state.table)
    (hsound : whole.state.table.Sound)
    (hrun : (operation.run paging whole journal).state? = some whole')
    (hstages : operation.stages? paging whole journal = some (stages, journal')) :
    Billed ((stages.flatMap Stage.tables).foldl ProcessTable.settle account)
      (clock + (operation.tasks whole).count (.event .tick)) whole'.state.table := by
  rw [(Operation.eq_of_stages? hrun hstages).1]
  -- The clock and the ticks still to come stay the same together.
  have hlast := Task.of_stages?
    (fun rest before system _ => ∃ clock',
      Billed ((before.flatMap Stage.tables).foldl ProcessTable.settle account) clock' system.table ∧
        clock' + rest.count (.event .tick) =
          clock + (operation.tasks whole).count (.event .tick))
    (fun task rest before system journal stage journal' hsound hstage hinv => ?_)
    hsound hstages ⟨clock, h, rfl⟩
  · obtain ⟨clock', hbilled, hclock⟩ := hlast
    exact hclock ▸ hbilled
  · obtain ⟨clock', hbilled, hclock⟩ := hinv
    refine ⟨clock' + [task].count (.event .tick), ?_, ?_⟩
    · rw [List.flatMap_append, List.foldl_append, List.flatMap_singleton]
      exact hbilled.stage hsound hstage
    · rw [Nat.add_assoc, ← List.count_append, List.singleton_append]
      exact hclock

end Stages

/-! ## What the interrupts add to the clock -/

/-- The interrupts counted are those on the clock and those that wait, as far as they can be
counted. -/
def EventQueue.Paced (clock : Nat) (events : EventQueue) : Prop :=
  events.ticks = (clock + events.waiting.count .tick) % bitRange 64

namespace EventQueue.Paced

variable {events events' : EventQueue} {clock : Nat}

theorem ofCapacity (capacity : Nat) : (EventQueue.ofCapacity capacity).Paced 0 :=
  (Nat.mod_eq_of_lt (bitRange_pos 64)).symm

/-- A tick that is recorded waits from then on. -/
theorem record (h : events.Paced clock) {event : Event} {accepted : Bool}
    {journal journal' : Journal} (hcount : event = .tick → events.CanCount)
    (hrecord : EventQueue.record event events journal = .done accepted events' journal') :
    events'.Paced clock := by
  have hticks : events.ticksAfter event =
      (clock + (events.waiting.count .tick + [event].count .tick)) % bitRange 64 := by
    cases event with
    | tick => rw [ticksAfter, h, Nat.mod_add_mod, Nat.add_assoc]; rfl
    | wake pid => exact h
  rcases record_cases hcount hrecord with ⟨-, -, rfl⟩ | ⟨-, rfl, -, rfl⟩ | ⟨-, -, -, rfl⟩
  · refine hticks.trans (congrArg (fun count => (clock + count) % bitRange 64) ?_)
    simp only [waiting, List.count_append]
    omega
  · refine hticks.trans (congrArg (fun count => (clock + count) % bitRange 64) ?_)
    simp only [waiting, List.count_append, List.count_replicate_self, List.count_singleton_self]
    omega
  · exact h

/-- The ticks that waited are on the clock when they have been handed over. -/
theorem emptied (h : events.Paced clock) :
    events.emptied.Paced (clock + (events.waiting.map Task.event).count (.event .tick)) := by
  rw [List.count_map_of_injective _ _ (fun _ _ => Task.event.inj)]
  exact h

/-- An operation puts on the clock what it takes from the line. -/
theorem operate {operation : Operation} {whole : WithEvents System} (h : whole.events.Paced clock)
    (hticks : operation ≠ .tick) (hcount : operation = .timer → whole.events.CanCount) :
    (operation.eventsAfter whole.events).Paced
      (clock + (operation.tasks whole).count (.event .tick)) := by
  cases operation with
  | tick => exact absurd rfl hticks
  | actOnEvents => exact h.emptied
  | systemCall =>
    rw [Operation.tasks, List.count_cons_of_ne (by simp)]
    exact h.emptied
  | timer =>
    have hrecord (journal : Journal) : EventQueue.record .tick whole.events journal =
        .done true whole.events.addTick journal := rfl
    exact (h.record (fun _ => hcount rfl) (hrecord #[])).emptied
  | launch | remove | schedule | block | wake | sleep | exit | kill | serve => exact h

end EventQueue.Paced

/-! ## Whole runs -/

section Runs

variable {events : EventQueue} {table : ProcessTable} {account : Nat → Nat}

theorem billed_of_bootstrap {paging : Paging} {stack : Option KernelStack}
    {journal journal' : Journal}
    (h : ProcessTable.bootstrap paging stack () journal = .done table () journal') :
    Billed (fun _ => 0) 0 table := by
  cases stack with
  | none => cases h
  | some stack =>
    cases h
    refine ⟨rfl, fun process hmem => ?_, fun _ _ => rfl, Finset.sum_const_zero⟩
    rw [List.mem_singleton.mp hmem]
    exact ⟨Nat.le_refl _, rfl⟩

/-- Every step of a run keeps the accounts and the count of the interrupts in order. -/
theorem Charged.billed_paced (h : Charged events table account) :
    table.Sound ∧ Billed account table.clock table ∧ events.Paced table.clock := by
  induction h with
  | boot capacity hboot =>
    have hbilled := billed_of_bootstrap hboot
    rw [hbilled.clock_eq]
    exact ⟨sound_of_bootstrap hboot, hbilled, .ofCapacity capacity⟩
  | record _ hcount hrecord ih =>
    obtain ⟨hsound, hbilled, hpaced⟩ := ih
    exact ⟨hsound, hbilled, hpaced.record hcount hrecord⟩
  | operate _ hticks hcount hrun hstages ih =>
    obtain ⟨hsound, hbilled, hpaced⟩ := ih
    have hbilled' := hbilled.operate hsound hrun hstages
    rw [hbilled'.clock_eq]
    refine ⟨(Operation.sound_carries hsound hrun).1, hbilled', ?_⟩
    rw [(Operation.eq_of_stages? hrun hstages).1]
    exact hpaced.operate hticks hcount

/-- After any run in which ticks pass only when interrupt handlers recorded them, the interrupts
counted are those on the clock and the ticks that wait, modulo `bitRange 64`, which is how far they
are counted. The clock is the sum of the ticks charged to all processes that were ever created;
their pids go up to the next one. The ticks charged to a process are the ones that its record shows,
and for a process that is gone, the ones that its record showed last. -/
theorem clock_of_charged (h : Charged events table account) :
    events.ticks = (table.clock + events.waiting.count .tick) % bitRange 64 ∧
    (table.clock + events.waiting.count .tick < bitRange 64 →
      events.ticks = table.clock + events.waiting.count .tick) ∧
    table.clock = ∑ pid ∈ Finset.Ico ProcessTable.bootstrapPid table.nextPid, account pid ∧
    ∀ process ∈ table.processes, account process.pid = process.ticksUsed := by
  obtain ⟨-, hbilled, hpaced⟩ := h.billed_paced
  refine ⟨hpaced, fun hlt => hpaced.trans (Nat.mod_eq_of_lt hlt), hbilled.sum_eq.symm, ?_⟩
  exact fun process hmem => (hbilled.each process hmem).2.symm

/-! ## A run in which a process is removed -/

theorem Charged.addTick (h : Charged events table account) (hcount : events.CanCount) :
    Charged events.addTick table account := by
  have hrecord (journal : Journal) : EventQueue.record .tick events journal =
      .done true events.addTick journal := rfl
  exact .record h (fun _ => hcount) (hrecord #[])

/-- The system at the start. -/
def Charged.booted? : Option (WithEvents System) :=
  match ProcessTable.bootstrap default (some ⟨0⟩) () #[] with
  | .done table _ _ => some (kernelOnly table default)
  | _ => none

theorem charged_of_booted? {whole : WithEvents System} (h : Charged.booted? = some whole) :
    Charged whole.events whole.state.table fun _ => 0 := by
  unfold Charged.booted? at h
  split at h
  · next table _ journal hboot =>
    cases h
    exact .boot 1 hboot
  · cases h

/-- The system and the accounts after these operations, while only kernel processes run. -/
def Charged.after? (operations : List Operation) (start : WithEvents System × (Nat → Nat)) :
    Option (WithEvents System × (Nat → Nat)) :=
  operations.foldlM (fun (whole, account) operation => do
    let whole' ← (operation.run default whole #[]).state?
    let (stages, _) ← operation.stages? default whole #[]
    return (whole', (stages.flatMap Stage.tables).foldl ProcessTable.settle account)) start

theorem Charged.of_after? {operations : List Operation} {whole whole' : WithEvents System}
    {account' : Nat → Nat} (h : Charged whole.events whole.state.table account)
    (hticks : .tick ∉ operations) (htimer : .timer ∉ operations)
    (hafter : after? operations (whole, account) = some (whole', account')) :
    Charged whole'.events whole'.state.table account' := by
  refine of_foldlM (fun run => Charged run.1.events run.1.state.table run.2) h ?_ hafter
  intro operation hmem run _ hcharged hstep
  obtain ⟨whole'', hrun, hsettled⟩ := Option.bind_eq_some_iff.mp hstep
  obtain ⟨⟨stages, journal⟩, hstages, heq⟩ := Option.bind_eq_some_iff.mp hsettled
  cases heq
  exact hcharged.operate (ne_of_mem_of_not_mem hmem hticks)
    (fun heq => absurd (heq ▸ hmem) htimer) hrun hstages

/-- Two ticks are charged to two processes, although the second one found the line full. One of the
processes is gone when a third tick is recorded. -/
theorem clock_of_removedProcess :
    ∃ events table account, Charged events table account ∧ table.find? 2 = none ∧
      table.clock + events.waiting.count .tick = 3 ∧ account 1 = 1 ∧ account 2 = 1 ∧
        events.ticks = 3 ∧ 2 = ∑ pid ∈ Finset.Ico 1 3, account pid := by
  have hrun : (match Charged.booted? with
      | some booted =>
        match Charged.after? [.launch "init" 0 true (some ⟨0⟩)] (booted, fun _ => 0) with
        | some (launched, account) =>
          match Charged.after? [.actOnEvents, .exit 0, .schedule]
              ({ launched with events := launched.events.addTick.addTick }, account) with
          | some (final, account) => decide (launched.events.CanCount ∧
              launched.events.addTick.CanCount ∧ final.events.CanCount ∧
              final.state.table.find? 2 = none ∧ final.state.table.clock = 2 ∧
              final.state.table.nextPid = 3 ∧ final.events.addTick.waiting.count .tick = 1 ∧
              account 1 = 1 ∧ account 2 = 1)
          | none => false
        | none => false
      | none => false) = true := by decide +kernel
  split at hrun
  case h_1 booted hboot =>
    split at hrun
    case h_1 launched account hlaunch =>
      split at hrun
      case h_1 final account' hfinal =>
        obtain ⟨hfirst, hsecond, hthird, hgone, hclock, hnextPid, hwaiting, haccounts⟩ :=
          of_decide_eq_true hrun
        have hlaunched := (charged_of_booted? hboot).of_after? (by decide) (by decide) hlaunch
        have hrecorded : Charged { launched with
            events := launched.events.addTick.addTick }.events launched.state.table account :=
          (hlaunched.addTick hfirst).addTick hsecond
        have hcharged :=
          (hrecorded.of_after? (by decide) (by decide) hfinal).addTick hthird
        obtain ⟨-, hticks, hsum, -⟩ := clock_of_charged hcharged
        rw [hclock, hwaiting] at hticks
        rw [hclock, hnextPid] at hsum
        exact ⟨_, _, account', hcharged, hgone, by rw [hclock, hwaiting], haccounts.1, haccounts.2,
          hticks (by decide), hsum⟩
      case h_2 => cases hrun
    case h_2 => cases hrun
  case h_2 => cases hrun

end Runs

end KernelResources
