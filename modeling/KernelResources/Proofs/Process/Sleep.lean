import KernelResources.Proofs.Process.Steps
import KernelResources.Proofs.Process.Survival

/-!
# Sleep

A process that sleeps waits for a tick that is named when it falls asleep. Until then nobody makes
it ready but those who wake it by name and its own children when they exit. The tick wakes it before
the processor changes hands, so it may run as soon as that tick is over.

* `Process.Sleeps` and `Process.Risen`: what the process is like before and after its tick.
* `Task.Disturbs`: the tasks that end a sleep early, and those that end the process.
* `Does.sleeps`: nothing else ends a sleep, apart from ticks.
* `sleeps_or_risen_of_tick`: a tick ends it if and only if it is the one that it waits for.
* `sleep_of_reachable`: a sleep lasts exactly its ticks.
-/

namespace KernelResources

open Processor ProcessTable

/-! ## Before and after the tick -/

namespace Process

/-- The process of this pid waits for a tick. -/
def Sleeps (pid wakeAt : Nat) (process : Process) : Prop :=
  process.pid = pid ∧ process.state = .blocked ∧ process.wakeAt = some wakeAt

/-- The process of this pid is awake, and waits for no tick any more. -/
def Risen (pid : Nat) (process : Process) : Prop :=
  process.pid = pid ∧ (process.state = .ready ∨ process.state = .running) ∧ process.wakeAt = none

variable {pid wakeAt : Nat} {process : Process}

theorem Sleeps.not_running (h : process.Sleeps pid wakeAt) : process.state ≠ .running := by
  simp [h.2.1]

theorem enduring_sleeps (pid wakeAt : Nat) : Enduring (Sleeps pid wakeAt) where
  kin _ _ _ hsleeps := hsleeps
  refill _ hsleeps := hsleeps
  resume _ hready hsleeps := ProcessState.noConfusion (hready.symm.trans hsleeps.2.1)
  suspend _ _ hsleeps := by
    simpa only [Sleeps, System.suspend, hsleeps.not_running, if_false] using hsleeps

theorem enduring_risen (pid : Nat) : Enduring (Risen pid) where
  kin _ _ _ hrisen := hrisen
  refill _ hrisen := hrisen
  resume _ _ hrisen := ⟨hrisen.1, .inr rfl, hrisen.2.2⟩
  suspend _ process hrisen := by
    refine ⟨hrisen.1, ?_, hrisen.2.2⟩
    simp only [System.suspend]
    split
    · exact .inl rfl
    · exact hrisen.2.1

end Process

/-! ## What does not end a sleep -/

/-- The parent of the current process, if it has one. -/
def ProcessTable.currentParent? (table : ProcessTable) : Option Nat :=
  table.currentProcess?.bind Process.parent

/-- The task wakes the process of this pid by name or ends it, or a child of it exits. -/
def Task.Disturbs (pid : Nat) (table : ProcessTable) : Task → Prop
  | wake other | event (.wake other) | remove other => other = pid
  | kill other => other = pid ∨ other = table.current ∧ table.currentParent? = some pid
  | exit _ => table.currentParent? = some pid
  | serve request => request.number = Syscall.exit ∧ table.currentParent? = some pid
  | launch .. | pass | block | sleep _ | event .tick => False

/-- The deed does not wake the process of this pid, whose child exits if `childExits`, nor does it
end the process. -/
def Deed.LetsSleep (pid : Nat) (childExits : Prop) : Deed → Prop
  | .wake other | .remove other | .kill other => other ≠ pid
  | .pass (.exit _) => ¬childExits
  | .launch | .tick | .pass _ => True

theorem Task.letsSleep_of_mem_deeds {task : Task} {table : ProcessTable} {pid : Nat}
    (h : ¬task.Disturbs pid table) :
    ∀ deed ∈ task.deeds table, deed.LetsSleep pid (table.currentParent? = some pid) := by
  cases task with
  | launch | pass | block => exact List.forall_mem_singleton.mpr trivial
  | wake other | remove other => exact List.forall_mem_singleton.mpr h
  | exit code => exact List.forall_mem_singleton.mpr h
  | sleep ticks =>
    refine List.forall_mem_singleton.mpr ?_
    unfold System.sleeping
    split <;> trivial
  | kill other =>
    obtain ⟨hother, hchild⟩ := not_or.mp h
    simp only [deeds, System.killing]
    split
    · next hcurrent => exact List.forall_mem_singleton.mpr fun hexits => hchild ⟨hcurrent, hexits⟩
    · exact List.forall_mem_cons.mpr ⟨hother, List.forall_mem_singleton.mpr hother⟩
  | serve request =>
    simp only [deeds, Syscall.Request.deeds]
    split
    · next hexit => exact List.forall_mem_singleton.mpr fun hexits => h ⟨hexit, hexits⟩
    · split
      · exact List.forall_mem_singleton.mpr trivial
      · exact List.forall_mem_nil _
  | event recorded =>
    cases recorded with
    | tick => exact List.forall_mem_singleton.mpr trivial
    | wake other => exact List.forall_mem_singleton.mpr h

namespace ProcessTable

variable {table : ProcessTable} {pid wakeAt : Nat}

/-- When another process leaves the processor, only its parent is woken. -/
theorem sleeps_leaving (hsound : table.Sound) {leave : Leave}
    (hparent : ∀ code, leave = .exit code → table.currentParent? ≠ some pid)
    (hsleeps : ∃ process ∈ table.processes, process.Sleeps pid wakeAt) :
    ∃ process ∈ (table.leaving leave).processes, process.Sleeps pid wakeAt := by
  refine exists_leaving hsound (fun _ hsleeps => hsleeps.not_running)
    (fun code process hleave _ hchild hsleeps => ?_) hsleeps
  exact absurd (hsleeps.1 ▸ hchild) (hparent code hleave)

end ProcessTable

namespace Processor

variable {processor processor' : Processor} {deed : Deed} {pid wakeAt : Nat}

theorem Pass.sleeps (h : Pass processor processor') (hschedulable : processor.table.Schedulable)
    (hsleeps : ∃ process ∈ processor.table.processes, process.Sleeps pid wakeAt) :
    ∃ process ∈ processor'.table.processes, process.Sleeps pid wakeAt :=
  h.exists_of_enduring (Process.enduring_sleeps pid wakeAt) (fun _ hsleeps => hsleeps.1)
    (fun process hsleeps => by simp [hsleeps.2.1]) hschedulable hsleeps

/-- A process that sleeps goes on sleeping, whatever else is done. -/
theorem Does.sleeps (h : Does deed processor processor') (hsound : processor.table.Sound)
    (htick : deed ≠ .tick)
    (hdeed : deed.LetsSleep pid (processor.table.currentParent? = some pid))
    (hsleeps : ∃ process ∈ processor.table.processes, process.Sleeps pid wakeAt) :
    ∃ process ∈ processor'.table.processes, process.Sleeps pid wakeAt := by
  have hother {other : Nat} (hne : other ≠ pid) {change : Process → Process} :
      ∃ process ∈ (processor.table.update other change).processes, process.Sleeps pid wakeAt :=
    (takes_update (fun _ _ hpid hsleeps => absurd (hpid.symm.trans hsleeps.1) hne)
      fun _ _ _ => id).exists hsleeps
  cases h with
  | launch name context space stack =>
    exact exists_launching (Process.enduring_sleeps pid wakeAt) name context space stack hsleeps
  | remove hremoval =>
    obtain ⟨process, hmem, hprocess⟩ := hsleeps
    exact hremoval.exists (Process.enduring_sleeps pid wakeAt).kin
      ⟨process, hmem, fun heq => hdeed (heq.symm.trans hprocess.1), hprocess⟩
  | wake => exact hother hdeed
  | kill => exact hother hdeed
  | tick => exact absurd rfl htick
  | @pass _ _ leave hidle _ hpass =>
    refine hpass.sleeps (hsound.leaving hidle) (sleeps_leaving hsound ?_ hsleeps)
    rintro code rfl
    exact hdeed

end Processor

/-! ## Ticks -/

section Tick

variable {table table' : ProcessTable} {pid wakeAt : Nat}

/-- A tick before the one that a process waits for lets it sleep. -/
theorem ProcessTable.sleeps_ticking (hclock : table.clock + 1 < wakeAt)
    (hsleeps : ∃ process ∈ table.processes, process.Sleeps pid wakeAt) :
    ∃ process ∈ table.ticking.processes, process.Sleeps pid wakeAt := by
  refine (takes_ticking (fun process hdue hsleeps => ?_) (fun _ _ => id) fun _ _ _ => id).exists
    hsleeps
  have hle : wakeAt ≤ table.clock + 1 := by simpa [hsleeps.2.2] using hdue.2
  exact absurd hclock (Nat.not_lt.mpr hle)

/-- The tick that a process waits for wakes it. -/
theorem ProcessTable.risen_ticking (hclock : table.clock + 1 = wakeAt)
    (hsleeps : ∃ process ∈ table.processes, process.Sleeps pid wakeAt) :
    ∃ process ∈ table.ticking.processes, process.Risen pid := by
  refine (takes_ticking (fun process _ hsleeps => ⟨hsleeps.1, .inl rfl, rfl⟩)
    (fun process hdue hsleeps => ?_) fun _ _ _ => id).exists hsleeps
  exact absurd ⟨hsleeps.2.1, by simp [hsleeps.2.2, hclock]⟩ hdue

end Tick

/-! ## Steps -/

namespace Task.Brings

variable {task : Task} {table table' : ProcessTable} {pid wakeAt : Nat}

/-- What becomes of one process at a tick is not undone by the pass that may follow. -/
theorem exists_of_ticking {P : Process → Prop} (h : (event .tick).Brings table table')
    (hsound : table.Sound) (hP : Process.Enduring P)
    (hpid : ∀ process, P process → process.pid = pid)
    (hlives : ∀ process, P process → process.state ≠ .terminated)
    (hsome : ∃ process ∈ table.ticking.processes, P process) :
    ∃ process ∈ table'.processes, P process := by
  rcases brings_tick h with ⟨rfl, -⟩ | ⟨-, processor, processor', hbefore, rfl, hpass⟩
  · exact hsome
  · rw [← hbefore] at hsome
    exact hpass.exists_of_enduring hP hpid hlives (hbefore ▸ hsound.ticking.toSchedulable) hsome

/-- A step that does not disturb a process that sleeps lets it sleep, or is the tick that it waits
for. -/
theorem sleeps_or_risen (h : task.Brings table table') (hsound : table.Sound)
    (hdisturbs : ¬task.Disturbs pid table) (hclock : table.clock < wakeAt)
    (hsleeps : ∃ process ∈ table.processes, process.Sleeps pid wakeAt) :
    (table'.clock < wakeAt ∧ ∃ process ∈ table'.processes, process.Sleeps pid wakeAt) ∨
      (task = .event .tick ∧ table'.clock = wakeAt ∧
        ∃ process ∈ table'.processes, process.Risen pid) := by
  rcases eq_or_ne task (.event .tick) with rfl | htask
  · rw [h.clock_of_tick]
    rcases Nat.lt_or_eq_of_le (Nat.succ_le_of_lt hclock) with hlt | heq
    · refine .inl ⟨hlt, h.exists_of_ticking hsound (Process.enduring_sleeps pid wakeAt)
        (fun _ hsleeps => hsleeps.1) (fun process hsleeps => ?_) (sleeps_ticking hlt hsleeps)⟩
      simp [hsleeps.2.1]
    · refine .inr ⟨rfl, heq, h.exists_of_ticking hsound (Process.enduring_risen pid)
        (fun _ hrisen => hrisen.1) (fun process hrisen => ?_) (risen_ticking heq hsleeps)⟩
      rcases hrisen.2.1 with hstate | hstate <;> simp [hstate]
  · refine .inl ⟨h.clock_of_ne hsound htask ▸ hclock, ?_⟩
    have hsleep := letsSleep_of_mem_deeds hdisturbs
    obtain ⟨processor, processor', rfl, rfl, hcourse⟩ := h.course hsound
    refine hcourse.keeps_after (fun processor => ∃ process ∈ processor.table.processes,
      process.Sleeps pid wakeAt) (fun deed hhead _ hdoes => ?_)
        (fun deed htail _ _ hdoes hsound hsleeps => ?_) hsound hsleeps
    · have hmem := List.mem_of_head? hhead
      exact hdoes.sleeps hsound (fun htick => tick_not_mem_deeds htask (htick ▸ hmem))
        (hsleep deed hmem) hsleeps
    · -- What comes later is the removal of another process.
      obtain ⟨other, rfl⟩ := eq_remove_of_mem_tail task processor.table deed htail
      exact hdoes.sleeps hsound nofun (hsleep _ (List.mem_of_mem_tail htail)) hsleeps

end Task.Brings

/-- As long as the clock has not come so far, a process sleeps through everything that does not
disturb it. -/
theorem ProcessTable.Steps.sleeps {start table : ProcessTable} {pid wakeAt : Nat}
    (h : Steps (fun task table => ¬task.Disturbs pid table) start table) (hsound : start.Sound)
    (hsleeps : ∃ process ∈ start.processes, process.Sleeps pid wakeAt)
    (hclock : table.clock < wakeAt) :
    ∃ process ∈ table.processes, process.Sleeps pid wakeAt := by
  refine (h.keeps (fun table => table.Sound ∧ (table.clock < wakeAt →
    ∃ process ∈ table.processes, process.Sleeps pid wakeAt)) ?_ ⟨hsound, fun _ => hsleeps⟩).2 hclock
  rintro task table table' hdisturbs hbrings ⟨hsound, hsleeps⟩
  refine ⟨hbrings.sound hsound, fun hclock => ?_⟩
  -- The clock does not go back, so the process slept before the step.
  have hbefore := Nat.lt_of_le_of_lt (hbrings.clock_le hsound) hclock
  rcases hbrings.sleeps_or_risen hsound hdisturbs hbefore (hsleeps hbefore) with
    ⟨-, hsleeps⟩ | ⟨-, hwakeAt, -⟩
  · exact hsleeps
  · exact absurd hwakeAt (Nat.ne_of_lt hclock)

/-! ## Falling asleep -/

namespace System

variable {paging : Paging} {system system' : System} {journal : Journal} {ticks : Nat}

/-- The current process can sleep if it is not the idle one. -/
theorem ensures_sleep (hsound : system.table.Sound)
    (hidle : system.table.current ≠ system.table.idle) (hticks : 0 < ticks) :
    (sleep paging ticks).Ensures system
      (fun _ system' => Leaves (.sleep (system.table.clock + ticks)) system system')
      fun _ _ => False := by
  have hleave : sleeping system.table.clock ticks = .sleep (system.table.clock + ticks) :=
    if_neg (Nat.ne_of_gt hticks)
  rw [sleep_eq, ← hleave]
  refine ((ensures_beginSleep ticks).mono (fun _ _ hbegins => hbegins) ?_).bind
    fun _ _ hbegins => hbegins.ensures_schedule
  exact fun _ _ hstuck => hstuck.2.elim hidle hsound.currentProcess?

/-- It sleeps when the pass is over, whoever has the processor then. -/
theorem sleeps_of_sleep (hsound : system.table.Sound)
    (hidle : system.table.current ≠ system.table.idle) (hticks : 0 < ticks)
    (hsleep : (sleep paging ticks system journal).state? = some system') :
    system'.table.Sound ∧ ∃ process ∈ system'.table.processes,
      process.Sleeps system.table.current (system.table.clock + ticks) := by
  have hleaves : Leaves (.sleep (system.table.clock + ticks)) system system' :=
    ((ensures_sleep hsound hidle hticks).mono (fun _ _ hdone => hdone)
      fun _ _ => False.elim).of_state? hsleep
  have hasleep : ∃ process ∈ (system.table.leaving
      (.sleep (system.table.clock + ticks))).processes,
        process.Sleeps system.table.current (system.table.clock + ticks) := by
    rw [leaving_sleep]
    exact (takes_update (fun process _ hpid _ => ⟨hpid, rfl, rfl⟩)
      fun _ _ hne hpid => absurd hpid hne).exists (mem_pids.mp hsound.current_mem)
  have hschedulable : (system.table.leaving
      (.sleep (system.table.clock + ticks))).Schedulable := hsound.leaving (.inr hidle)
  exact ⟨hleaves.2.sound hschedulable, hleaves.2.sleeps hschedulable hasleep⟩

end System

/-- A sleep lasts exactly its ticks. Whatever is done after a process has called for it, if nobody
wakes the process by name or ends it and no child of it exits, it waits as long as the clock has not
come so far. No step leads past the tick that it waits for; after that one the process is ready and
has no deadline any more, or it runs already. -/
theorem sleep_of_reachable {paging : Paging} {system system' : System} {journal : Journal}
    {ticks : Nat} (h : system.table.Reachable) (hidle : system.table.current ≠ system.table.idle)
    (hticks : 0 < ticks)
    (hsleep : (System.sleep paging ticks system journal).state? = some system')
    {table : ProcessTable}
    (hsteps : ProcessTable.Steps (fun task table => ¬task.Disturbs system.table.current table)
      system'.table table) :
    (table.clock < system.table.clock + ticks →
      ∃ process, table.find? system.table.current = some process ∧ process.state = .blocked ∧
        process.wakeAt = some (system.table.clock + ticks)) ∧
    ∀ (task : Task) table', ¬task.Disturbs system.table.current table →
      task.Brings table table' → table.clock < system.table.clock + ticks →
        table'.clock < system.table.clock + ticks ∨
          (task = .event .tick ∧ table'.clock = system.table.clock + ticks ∧
            ∃ process, table'.find? system.table.current = some process ∧
              (process.state = .ready ∨ process.state = .running) ∧ process.wakeAt = none) := by
  obtain ⟨hstart, hasleep⟩ :=
    System.sleeps_of_sleep (sound_of_reachable h) hidle hticks hsleep
  have hsound := hsteps.sound hstart
  refine ⟨fun hclock => ?_, fun task table' hdisturbs hbrings hclock => ?_⟩
  · obtain ⟨process, hmem, hpid, hstate, hwakeAt⟩ := hsteps.sleeps hstart hasleep hclock
    exact ⟨process, hpid ▸ hsound.find?_pid hmem, hstate, hwakeAt⟩
  · have hsleeps := hsteps.sleeps hstart hasleep hclock
    refine (hbrings.sleeps_or_risen hsound hdisturbs hclock hsleeps).imp And.left ?_
    rintro ⟨htask, hwakeAt, process, hmem, hpid, hstate, hnone⟩
    exact ⟨htask, hwakeAt, process, hpid ▸ (hbrings.sound hsound).find?_pid hmem, hstate, hnone⟩

/-- The second process sleeps for two ticks. After the first one it still waits, and the second one
wakes it. -/
theorem sleep_of_twoTicks :
    ∃ (system system' : System) (table table' : ProcessTable), system.table.Reachable ∧
      system.table.current = 2 ∧ system.table.idle = 1 ∧
        (System.sleep default 2 system #[]).state? = some system' ∧
          ProcessTable.Steps (fun task table => ¬task.Disturbs 2 table) system'.table table ∧
            (∃ process, table.find? 2 = some process ∧ process.state = .blocked ∧
              process.wakeAt = some 2) ∧
                (Task.event .tick).Brings table table' ∧
                  ∃ process, table'.find? 2 = some process ∧
                    (process.state = .ready ∨ process.state = .running) ∧
                      process.wakeAt = none := by
  have hrun : (ProcessTable.ofRun? [.launch "init" 0 true (some ⟨0⟩), .schedule]).any (fun start =>
      (System.sleep default 2 (kernelOnly start default).state #[]).state?.any fun system' =>
        (Operation.tick.run default (kernelOnly system'.table default) #[]).state?.any fun first =>
          (Operation.tick.run default first #[]).state?.any fun second =>
            start.current = 2 ∧ start.idle = 1 ∧ start.clock = 0 ∧
              first.state.table.clock = 1 ∧ second.state.table.clock = 2) = true := by
    decide +kernel
  obtain ⟨start, hstart, hsleeps⟩ := (Option.any_eq_true _ _).mp hrun
  obtain ⟨system', hsleep, hfirsts⟩ := (Option.any_eq_true _ _).mp hsleeps
  obtain ⟨first, hfirst, hseconds⟩ := (Option.any_eq_true _ _).mp hfirsts
  obtain ⟨second, hsecond, hfacts⟩ := (Option.any_eq_true _ _).mp hseconds
  obtain ⟨hcurrent, hidle, hclock, hone, htwo⟩ := of_decide_eq_true hfacts
  let system : System := (kernelOnly start default).state
  have hreachable : system.table.Reachable := ProcessTable.reachable_of_ofRun? hstart
  have hcurrent' : system.table.current = 2 := hcurrent
  have hidle' : system.table.idle = 1 := hidle
  have hclock' : system.table.clock = 0 := hclock
  -- Ticks disturb nobody.
  have hsteps : ProcessTable.Steps (fun task table => ¬task.Disturbs system.table.current table)
      system'.table first.state.table := by
    refine Operation.steps_of_run hfirst fun task hmem _ => ?_
    rw [List.mem_singleton.mp hmem]
    exact id
  have hbrings : (Task.event .tick).Brings first.state.table second.state.table :=
    Operation.brings_of_run rfl hsecond
  obtain ⟨hwaits, hstep⟩ := sleep_of_reachable hreachable (by rw [hcurrent', hidle']; decide)
    (by decide : 0 < 2) hsleep hsteps
  rw [hcurrent'] at hwaits hstep hsteps
  rw [hclock', hone] at hwaits hstep
  refine ⟨system, system', _, _, hreachable, hcurrent', hidle', hsleep, hsteps,
    hwaits (by decide), hbrings, ?_⟩
  rcases hstep (.event .tick) _ id hbrings (by decide) with hearly | ⟨-, -, hrisen⟩
  · rw [htwo] at hearly
    exact absurd hearly (by decide)
  · exact hrisen

end KernelResources
