import KernelResources.Proofs.Process.Steps
import KernelResources.Proofs.Process.Turns

/-!
# Preemption

A process may run for as many ticks as its time slice has, and the tick that uses up the slice ends
its turn. The slice is renewed whenever a turn begins or goes on, so whoever has the processor has
at least one tick left, and no more than the slice.

* `ProcessTable.Sliced`: the current process has ticks left, and nobody has more than a slice.
* `Pass.switches`: while a process other than the idle one is ready, every pass takes the processor
  away from the current process.
* `Process.Spent`: what a process has been charged, and what is left of its turn.
* `preemption_of_reachable`: so nobody keeps the processor for a whole slice while others wait.
-/

namespace KernelResources

open Processor ProcessTable

/-! ## Slices -/

theorem one_le_defaultTimeSlice : 1 ≤ defaultTimeSlice := by decide

namespace Process

/-- The time slice of the process has the usual length, and no more than that is left of its turn.
-/
def Rationed (process : Process) : Prop :=
  process.timeSlice = defaultTimeSlice ∧ process.remaining ≤ process.timeSlice

variable {process : Process}

theorem Rationed.refill (h : process.Rationed) :
    process.refill.Rationed ∧ 1 ≤ process.refill.remaining := by
  obtain ⟨hslice, hle⟩ := h
  simp only [Rationed, Process.refill]
  split <;> simp only [defaultTimeSlice] at * <;> omega

theorem Rationed.resume (h : process.Rationed) :
    (System.resume process).Rationed ∧ 1 ≤ (System.resume process).remaining := by
  obtain ⟨hslice, -⟩ := h
  simp [Rationed, System.resume, hslice, defaultTimeSlice]

theorem enduring_rationed : Enduring Rationed where
  kin _ _ _ h := h
  refill _ h := h.refill.1
  resume _ _ h := h.resume.1
  suspend _ _ h := h

end Process

/-- The current process has ticks left of its turn, and nobody has more than a time slice. -/
structure ProcessTable.Sliced (table : ProcessTable) : Prop where
  /-- Nobody has more than a time slice. -/
  each : ∀ process ∈ table.processes, process.Rationed
  /-- The turn of the current process is not over. -/
  lasts : ∀ process ∈ table.processes, process.pid = table.current → 1 ≤ process.remaining

namespace ProcessTable

variable {table : ProcessTable}

theorem rationed_charging (h : ∀ process ∈ table.processes, process.Rationed) :
    ∀ process ∈ table.charging.processes, process.Rationed := by
  unfold charging
  split
  · exact h
  · next process hcurrent =>
    have hcharged := h process (mem_of_find? hcurrent)
    refine (takes_update (fun other _ _ hother => ⟨hother.1, ?_⟩) fun _ _ _ => id).forall h
    have hslice : process.remaining ≤ other.timeSlice := by
      rw [hother.1, ← hcharged.1]
      exact hcharged.2
    exact Nat.le_trans (Nat.sub_le _ _) hslice

theorem rationed_ticking (h : ∀ process ∈ table.processes, process.Rationed) :
    ∀ process ∈ table.ticking.processes, process.Rationed := by
  refine rationed_charging (List.forall_mem_map.mpr fun process hmem => ?_)
  unfold System.wakeIfDue
  split <;> exact h process hmem

/-- A tick that does not end the turn leaves the current process ticks. -/
theorem Sliced.ticking (h : table.Sliced) (hsound : table.Sound)
    (hover : ¬table.ticking.TurnOver) : table.ticking.Sliced := by
  refine ⟨rationed_ticking h.each, fun process hmem hpid => ?_⟩
  refine Nat.pos_of_ne_zero fun hnone => hover (.inr fun other hother hpid' => ?_)
  rw [← hnone, hsound.ticking.eq_of_pid hmem hother (hpid'.trans hpid.symm)]

end ProcessTable

namespace Processor

variable {processor processor' : Processor} {deed : Deed}

/-- Whoever gets the processor, or keeps it, has ticks left. -/
theorem lasts_turn (h : processor.table.Schedulable)
    (heach : ∀ process ∈ processor.table.processes, process.Rationed) :
    ∀ process ∈ processor.turn.table.processes, process.pid = processor.turn.table.current →
      1 ≤ process.remaining := by
  rcases h.nextTurn_cases with ⟨hnext, -⟩ | ⟨incoming, hmem, hpid, hne, -⟩
  -- The current process goes on; its slice is renewed if nothing is left of it.
  · rw [turn_of_eq hnext]
    refine List.forall_mem_map.mpr fun process hprocess hpid => ?_
    split
    · exact (heach process hprocess).refill.2
    · next hother =>
      rw [if_neg hother] at hpid
      exact absurd (hpid.trans hnext.symm) hother
  · rw [turn_of_ne hne, ← hpid]
    rw [← hpid] at hne
    rw [dispatch_eq h hmem hne]
    refine List.forall_mem_map.mpr fun process hprocess hpid' => ?_
    rw [Process.pid_switched] at hpid'
    rw [Process.switched, if_pos hpid']
    exact (heach process hprocess).resume.2

theorem Removal.sliced {pid : Nat} (h : Removal pid processor processor')
    (hsliced : processor.table.Sliced) : processor'.table.Sliced := by
  have hlasts := h.forall (P := fun process =>
    process.pid = processor.table.current → 1 ≤ process.remaining) (fun _ _ _ => id) hsliced.lasts
  refine ⟨h.forall (fun _ _ _ => id) hsliced.each, ?_⟩
  rw [h.table_eq]
  exact hlasts

theorem Pass.sliced (h : Pass processor processor') (hschedulable : processor.table.Schedulable)
    (heach : ∀ process ∈ processor.table.processes, process.Rationed) : processor'.table.Sliced :=
  Clearing.keeps (fun processor => processor.table.Sliced) (fun _ _ _ _ => Removal.sliced) h
    ⟨(takes_turn Process.enduring_rationed hschedulable).forall heach,
      lasts_turn hschedulable heach⟩

/-- A deed that makes no pass concerns relatives, states, deadlines and exit codes only, apart from
a process that it creates. -/
theorem Does.forall_of_quiet {P : Process → Prop} (h : Does deed processor processor')
    (hquiet : deed.Quiet)
    (hkin : ∀ process parent children, P process → P { process with parent, children })
    (hstate : ∀ process state wakeAt exitCode, P process →
      P { process with state, wakeAt, exitCode })
    (hnew : ∀ name context space stack, P (Process.create processor.table.nextPid name .ready
      context space stack (some processor.table.current)))
    (hall : ∀ process ∈ processor.table.processes, P process) :
    ∀ process ∈ processor'.table.processes, P process := by
  cases h with
  | launch name context space stack =>
    refine (takes_update (fun parent _ _ => hkin parent parent.parent _) fun _ _ _ => id).forall
      (List.forall_mem_append.mpr ⟨hall, List.forall_mem_singleton.mpr ?_⟩)
    exact hnew name context space stack
  | remove hremoval => exact hremoval.forall hkin hall
  | wake =>
    exact (takes_update (fun process _ _ => hstate process _ _ process.exitCode)
      fun _ _ _ => id).forall hall
  | kill =>
    exact (takes_update (fun process _ _ => hstate process _ process.wakeAt _)
      fun _ _ _ => id).forall hall
  | tick | pass => exact hquiet.elim

theorem Does.sliced (h : Does deed processor processor') (hdeed : deed ≠ .tick)
    (hsound : processor.table.Sound) (hsliced : processor.table.Sliced) :
    processor'.table.Sliced := by
  by_cases hquiet : deed.Quiet
  · -- The same process is current, and a process that is created has a whole slice.
    have hunmoved := h.unmoved hquiet
    have hall := h.forall_of_quiet (P := fun process => process.Rationed ∧
      (process.pid = processor.table.current → 1 ≤ process.remaining)) hquiet
      (fun _ _ _ => id) (fun _ _ _ _ => id)
      (fun _ _ _ _ => ⟨⟨rfl, Nat.le_refl _⟩, fun _ => one_le_defaultTimeSlice⟩)
      fun process hmem => ⟨hsliced.each process hmem, hsliced.lasts process hmem⟩
    refine ⟨fun process hmem => (hall process hmem).1, fun process hmem hpid => ?_⟩
    exact (hall process hmem).2 (hpid.trans hunmoved.current_eq)
  · cases h with
    | tick => exact absurd rfl hdeed
    | pass hidle _ hpass =>
      exact hpass.sliced (hsound.leaving hidle)
        ((takes_leaving _ fun _ _ _ _ => id).forall hsliced.each)
    | launch | remove | wake | kill => exact absurd trivial hquiet

end Processor

namespace Task.Brings

variable {task : Task} {table table' : ProcessTable}

/-- Every step leaves the current process ticks. -/
theorem sliced (h : task.Brings table table') (hsound : table.Sound) (hsliced : table.Sliced) :
    table'.Sliced := by
  rcases eq_or_ne task (.event .tick) with rfl | htask
  · rcases brings_tick h with ⟨rfl, hover⟩ | ⟨-, processor, processor', hbefore, rfl, hpass⟩
    · exact hsliced.ticking hsound hover
    · exact hpass.sliced (hbefore ▸ hsound.ticking.toSchedulable)
        (hbefore ▸ rationed_ticking hsliced.each)
  · obtain ⟨processor, processor', rfl, rfl, hcourse⟩ := h.course hsound
    refine (hcourse.keeps (fun processor => processor.table.Sound ∧ processor.table.Sliced) ?_
      ⟨hsound, hsliced⟩).2
    rintro deed hmem _ _ hdoes ⟨hsound, hsliced⟩
    have hdeed : deed ≠ .tick := fun htick => tick_not_mem_deeds htask (htick ▸ hmem)
    exact ⟨hdoes.sound hsound, hdoes.sliced hdeed hsound hsliced⟩

end Task.Brings

theorem sliced_of_bootstrap {paging : Paging} {stack : Option KernelStack} {table : ProcessTable}
    {journal journal' : Journal}
    (h : ProcessTable.bootstrap paging stack () journal = .done table () journal') :
    table.Sliced := by
  cases stack with
  | none => cases h
  | some stack =>
    cases h
    exact ⟨List.forall_mem_singleton.mpr ⟨rfl, Nat.le_refl _⟩,
      List.forall_mem_singleton.mpr fun _ => one_le_defaultTimeSlice⟩

/-- After any run, the current process has ticks left, and at most as many as its slice. -/
theorem sliced_of_reachable {table : ProcessTable} (h : table.Reachable) : table.Sliced := by
  induction h with
  | bootstrap hboot => exact sliced_of_bootstrap hboot
  | @step paging operation whole whole' journal hreachable hrun ih =>
    have hsteps : ProcessTable.Steps (fun _ _ => True) whole.state.table whole'.state.table :=
      Operation.steps_of_run hrun fun _ _ _ => trivial
    refine (hsteps.keeps (fun table => table.Sound ∧ table.Sliced) ?_
      ⟨sound_of_reachable hreachable, ih⟩).2
    rintro task _ _ - hbrings ⟨hsound, hsliced⟩
    exact ⟨hbrings.sound hsound, hbrings.sliced hsound hsliced⟩

/-! ## Others wait for the processor -/

/-- A process other than the idle one is ready. -/
def ProcessTable.Contended (table : ProcessTable) : Prop :=
  ∃ process ∈ table.processes, process.pid ≠ table.idle ∧ process.state = .ready

namespace ProcessTable.Contended

variable {table : ProcessTable}

theorem ticking (h : table.Contended) : table.ticking.Contended := by
  unfold Contended
  rw [idle_ticking]
  exact (takes_ticking (fun _ _ hwaits => ⟨hwaits.1, rfl⟩) (fun _ _ => id) fun _ _ _ => id).exists h

theorem leaving (h : table.Contended) (hsound : table.Sound) (leave : Leave) :
    (table.leaving leave).Contended := by
  unfold Contended
  rw [(unmoved_leaving leave).idle_eq]
  exact exists_leaving hsound (fun process hwaits => by simp [hwaits.2])
    (fun _ _ _ _ _ hwaits => ⟨hwaits.1, rfl⟩) h

end ProcessTable.Contended

namespace Processor

variable {processor processor' : Processor} {deed : Deed}

/-- While a process other than the idle one is ready, a pass gives the processor to such a process.
-/
theorem Pass.switches (h : Pass processor processor')
    (hschedulable : processor.table.Schedulable) (hcontended : processor.table.Contended) :
    processor'.table.current ≠ processor.table.current ∧
      processor'.table.current ≠ processor.table.idle ∧
        processor.table.state? processor'.table.current = some .ready := by
  obtain ⟨process, hmem, hidle, hready⟩ := hcontended
  obtain ⟨hnextIdle, hnextReady, -⟩ := hschedulable.nextTurn_of_ready hmem hready hidle
  rw [(h.moves hschedulable).1]
  exact ⟨hschedulable.ne_current_of_ready hnextReady, hnextIdle, hnextReady⟩

end Processor

/-- As the clock went from `since` to `now`, the process has been charged all these ticks, and has
used up as much of its turn. -/
def Process.Spent (start : Process) (since now : Nat) (process : Process) : Prop :=
  process.pid = start.pid → process.ticksUsed + since = start.ticksUsed + now ∧
    process.remaining + now = start.remaining + since

/-- What makes no pass is not charged to anybody. -/
theorem Processor.Does.spent {processor processor' : Processor} {deed : Deed} {start : Process}
    {since now : Nat} (h : Does deed processor processor') (hquiet : deed.Quiet)
    (hsound : processor.table.Sound) (hcurrent : processor.table.current = start.pid)
    (hspent : ∀ process ∈ processor.table.processes, start.Spent since now process) :
    ∀ process ∈ processor'.table.processes, start.Spent since now process := by
  refine h.forall_of_quiet hquiet (fun _ _ _ => id) (fun _ _ _ _ => id)
    (fun _ _ _ _ hnew => ?_) hspent
  -- The pid of a process that is created is not the one of the current process.
  have hbelow := hsound.below _ hsound.current_mem
  rw [hcurrent, ← hnew] at hbelow
  exact absurd hbelow (Nat.lt_irrefl _)

namespace Task.Brings

variable {task : Task} {table table' : ProcessTable} {start : Process} {since : Nat}

/-- A tick that leaves the processor with its process although others wait for it is charged to
that process, which is then not the idle one. -/
theorem spent_of_tick (h : (event .tick).Brings table table') (hsound : table.Sound)
    (hsliced : table.Sliced) (hcontended : table.Contended) (hcurrent : table.current = start.pid)
    (hstays : table'.current = start.pid)
    (hspent : ∀ process ∈ table.processes, start.Spent since table.clock process) :
    (∀ process ∈ table'.processes, start.Spent since table'.clock process) ∧
      table'.idle = table.idle ∧ start.pid ≠ table.idle := by
  rcases brings_tick h with ⟨rfl, hover⟩ | ⟨-, processor, processor', hbefore, rfl, hpass⟩
  · refine ⟨fun process hmem hpid => ?_, idle_ticking, fun hidle => hover (.inl ?_)⟩
    · obtain ⟨before, hmem', hpid', hremaining, hticks⟩ :=
        charged_ticking hmem (hpid.trans hcurrent.symm)
      have hleft := hsliced.lasts before hmem' hpid'
      have hbefore := hspent before hmem' (hpid'.trans hcurrent)
      rw [clock_ticking]
      omega
    · rw [current_ticking, idle_ticking, hcurrent, hidle]
  · -- A pass would have taken the processor away.
    have hswitches := hpass.switches (hbefore ▸ hsound.ticking.toSchedulable)
      (hbefore ▸ hcontended.ticking)
    rw [hbefore, current_ticking, hcurrent] at hswitches
    exact absurd hstays hswitches.1

/-- A step other than a tick that leaves the processor with its process although others wait for it
is not charged to that process. -/
theorem spent_of_ne (h : task.Brings table table') (htask : task ≠ .event .tick)
    (hsound : table.Sound) (hcontended : table.Contended) (hcurrent : table.current = start.pid)
    (hstays : table'.current = start.pid)
    (hspent : ∀ process ∈ table.processes, start.Spent since table.clock process) :
    (∀ process ∈ table'.processes, start.Spent since table.clock process) ∧
      table'.idle = table.idle := by
  obtain ⟨processor, processor', rfl, rfl, hcourse⟩ := h.course hsound
  refine hcourse.keeps_after (fun middle => middle.table.current = start.pid →
    (∀ process ∈ middle.table.processes, start.Spent since processor.table.clock process) ∧
      middle.table.idle = processor.table.idle) (fun deed hhead middle hdoes hstays => ?_)
    (fun deed htail first second hdoes hsound hkept hstays => ?_) hsound
    (fun _ => ⟨hspent, rfl⟩) hstays
  · by_cases hquiet : deed.Quiet
    · exact ⟨hdoes.spent hquiet hsound hcurrent hspent, (hdoes.unmoved hquiet).idle_eq⟩
    · cases hdoes with
      | tick => exact absurd (List.mem_of_head? hhead) (tick_not_mem_deeds htask)
      | @pass _ _ leave hidle _ hpass =>
        have hswitches := hpass.switches (hsound.leaving hidle) (hcontended.leaving hsound leave)
        rw [(unmoved_leaving leave).current_eq, hcurrent] at hswitches
        exact absurd hstays hswitches.1
      | launch | remove | wake | kill => exact absurd trivial hquiet
  · -- What comes later is the removal of another process.
    obtain ⟨other, rfl⟩ := eq_remove_of_mem_tail task processor.table deed htail
    have hunmoved := hdoes.unmoved trivial
    rw [hunmoved.current_eq] at hstays
    obtain ⟨hspent, hidle⟩ := hkept hstays
    exact ⟨hdoes.spent trivial hsound hstays hspent, hunmoved.idle_eq.trans hidle⟩

/-- A step that leaves the processor with its process although others wait for it is no pass. The
process is charged for it if it is a tick, and then the process is not the idle one. -/
theorem spent (h : task.Brings table table') (hsound : table.Sound) (hsliced : table.Sliced)
    (hcontended : table.Contended) (hcurrent : table.current = start.pid)
    (hstays : table'.current = start.pid)
    (hspent : ∀ process ∈ table.processes, start.Spent since table.clock process) :
    (∀ process ∈ table'.processes, start.Spent since table'.clock process) ∧
      table'.idle = table.idle ∧ (start.pid = table.idle → table'.clock = table.clock) := by
  rcases eq_or_ne task (.event .tick) with rfl | htask
  · obtain ⟨hspent, hidle, hne⟩ := h.spent_of_tick hsound hsliced hcontended hcurrent hstays hspent
    exact ⟨hspent, hidle, fun heq => absurd heq hne⟩
  · obtain ⟨hspent, hidle⟩ := h.spent_of_ne htask hsound hcontended hcurrent hstays hspent
    have hclock := h.clock_of_ne hsound htask
    exact ⟨hclock.symm ▸ hspent, hidle, fun _ => hclock⟩

end Task.Brings

/-- The tick that uses up the slice of the current process, and any tick while the idle process is
current, gives the processor to a process that is ready, if there is one. -/
theorem Task.Brings.switches {table table' : ProcessTable} (h : (event .tick).Brings table table')
    (hsound : table.Sound) (hcontended : table.Contended)
    (hends : table.current = table.idle ∨
      ∀ process, table.currentProcess? = some process → process.remaining = 1) :
    table'.current ≠ table.current ∧ table'.current ≠ table.idle ∧
      table.ticking.state? table'.current = some .ready := by
  have hover : table.ticking.TurnOver := by
    rcases hends with hidle | hone
    · left
      rw [current_ticking, idle_ticking, hidle]
    · right
      intro process hmem hpid
      rw [current_ticking] at hpid
      obtain ⟨before, hbefore, hcurrent, hremaining, -⟩ := charged_ticking hmem hpid
      have hfind : table.currentProcess? = some before := by
        rw [currentProcess?, ← hcurrent]
        exact hsound.find?_pid hbefore
      rw [hremaining, hone before hfind]
  rcases brings_tick h with ⟨-, hnot⟩ | ⟨-, processor, processor', hbefore, rfl, hpass⟩
  · exact absurd hover hnot
  · have hswitches := hpass.switches (hbefore ▸ hsound.ticking.toSchedulable)
      (hbefore ▸ hcontended.ticking)
    rwa [hbefore, current_ticking, idle_ticking] at hswitches

/-- While a process keeps the processor although others wait for it, every tick is charged to it,
and none passes if it is the idle one. -/
theorem ProcessTable.Steps.spent {start table : ProcessTable} {first : Process}
    (h : Steps (fun _ table => table.current = start.current ∧ table.Contended) start table)
    (hreachable : start.Reachable) (hfirst : first ∈ start.processes)
    (hpid : first.pid = start.current) (hstays : table.current = start.current) :
    (∀ process ∈ table.processes, first.Spent start.clock table.clock process) ∧
      (start.current = start.idle → table.clock = start.clock) := by
  -- That the process is still current after the last step is known only at the next one.
  have hkept := h.keeps (fun table => table.Reachable ∧ (table.current = start.current →
    (∀ process ∈ table.processes, first.Spent start.clock table.clock process) ∧
      table.idle = start.idle ∧ (start.current = start.idle → table.clock = start.clock))) ?_ ?_
  · obtain ⟨hspent, -, hidle⟩ := hkept.2 hstays
    exact ⟨hspent, hidle⟩
  · rintro task table table' ⟨hcurrent, hcontended⟩ hbrings ⟨hreachable, hkept⟩
    refine ⟨hbrings.reachable hreachable, fun hstays => ?_⟩
    obtain ⟨hspent, hidle, hclock⟩ := hkept hcurrent
    obtain ⟨hspent', hidle', hclock'⟩ := hbrings.spent (sound_of_reachable hreachable)
      (sliced_of_reachable hreachable) hcontended (hcurrent.trans hpid.symm)
      (hstays.trans hpid.symm) hspent
    rw [hpid, hidle] at hclock'
    exact ⟨hspent', hidle'.trans hidle, fun hsame => (hclock' hsame).trans (hclock hsame)⟩
  · refine ⟨hreachable, fun _ => ⟨fun process hmem hsame => ?_, rfl, fun _ => rfl⟩⟩
    rw [(sound_of_reachable hreachable).eq_of_pid hfirst hmem hsame]
    exact ⟨rfl, rfl⟩

/-- Preemption is bounded. After any run, the current process has at least one tick left of its turn
and at most as many as its slice. While it keeps the processor from one step to the next although
some process other than the idle one is ready, not necessarily the same one all the time, every tick
is charged to it, but it is charged fewer ticks than a slice has, and none if it is the idle one.
For the tick that uses up its slice, and any tick if it is the idle one, gives the processor to a
process that is ready. -/
theorem preemption_of_reachable {start : ProcessTable} (h : start.Reachable) :
    (∃ process, start.currentProcess? = some process ∧ 1 ≤ process.remaining ∧
      process.remaining ≤ process.timeSlice) ∧
    (∀ table, ProcessTable.Steps
        (fun _ table => table.current = start.current ∧ table.Contended) start table →
      table.current = start.current →
        ∃ process process', start.currentProcess? = some process ∧
          table.currentProcess? = some process' ∧
            process'.ticksUsed + start.clock = process.ticksUsed + table.clock ∧
              process'.ticksUsed < process.ticksUsed + defaultTimeSlice ∧
                (start.current = start.idle → process'.ticksUsed = process.ticksUsed)) ∧
    ∀ table', (Task.event .tick).Brings start table' → start.Contended →
      (start.current = start.idle ∨
        ∀ process, start.currentProcess? = some process → process.remaining = 1) →
          table'.current ≠ start.current ∧ table'.current ≠ start.idle ∧
            start.ticking.state? table'.current = some .ready := by
  have hsound := sound_of_reachable h
  have hsliced := sliced_of_reachable h
  obtain ⟨first, hfirst, hpid, hcurrent⟩ := exists_currentProcess? hsound.nodup hsound.current_mem
  obtain ⟨hslice, hle⟩ := hsliced.each first hfirst
  refine ⟨⟨first, hcurrent, hsliced.lasts first hfirst hpid, hle⟩,
    fun table hsteps hstays => ?_, fun table' hbrings => hbrings.switches hsound⟩
  obtain ⟨hspent, hidle⟩ := hsteps.spent h hfirst hpid hstays
  have hreachable := hsteps.reachable h
  obtain ⟨last, hlast, hpid', hcurrent'⟩ := exists_currentProcess?
    (sound_of_reachable hreachable).nodup (sound_of_reachable hreachable).current_mem
  obtain ⟨hticks, hremaining⟩ := hspent last hlast (hpid'.trans (hstays.trans hpid.symm))
  have hleft := (sliced_of_reachable hreachable).lasts last hlast hpid'
  refine ⟨first, last, hcurrent, hcurrent', hticks, by omega, fun hsame => ?_⟩
  have hclock := hidle hsame
  omega

/-- Two processes are ready, and one of them has had the processor for nine ticks. It has one tick
left, and the next tick gives the processor to the other one. -/
theorem preemption_of_nineTicks :
    ∃ start table', ProcessTable.Reachable start ∧ start.current = 2 ∧ start.clock = 9 ∧
      (Task.event .tick).Brings start table' ∧ table'.current ≠ 2 ∧
        table'.current ≠ start.idle := by
  let launching : Operation := .launch "init" 0 true (some ⟨0⟩)
  have hrun : (ProcessTable.ofRun?
      ([launching, launching, .schedule] ++ List.replicate 9 .tick)).any (fun start =>
        (Operation.tick.run default (kernelOnly start default) #[]).state?.any fun _ =>
          start.current = 2 ∧ start.clock = 9 ∧ start.idle = 1 ∧ start.state? 3 = some .ready ∧
            start.currentProcess?.map Process.remaining = some 1) = true := by decide +kernel
  obtain ⟨start, hstart, hticks⟩ := (Option.any_eq_true _ _).mp hrun
  obtain ⟨whole', htick, hfacts⟩ := (Option.any_eq_true _ _).mp hticks
  obtain ⟨hcurrent, hclock, hidle, hready, hremaining⟩ := of_decide_eq_true hfacts
  have hreachable := ProcessTable.reachable_of_ofRun? hstart
  have hbrings : (Task.event .tick).Brings (kernelOnly start default).state.table
      whole'.state.table := Operation.brings_of_run rfl htick
  have hcontended : start.Contended := by
    obtain ⟨waiting, hfind, hstate⟩ := Option.map_eq_some_iff.mp hready
    refine ⟨waiting, ProcessTable.mem_of_find? hfind, ?_, hstate⟩
    rw [ProcessTable.pid_of_find? hfind, hidle]
    decide
  obtain ⟨-, -, hswitches⟩ := preemption_of_reachable hreachable
  obtain ⟨hne, hneIdle, -⟩ := hswitches whole'.state.table hbrings hcontended <| .inr fun process
    hprocess => by simpa [hprocess] using hremaining
  exact ⟨start, _, hreachable, hcurrent, hclock, hbrings, hcurrent ▸ hne, hneIdle⟩

end KernelResources
