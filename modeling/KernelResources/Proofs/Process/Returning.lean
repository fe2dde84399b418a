import Mathlib.Algebra.Order.BigOperators.Group.Finset
import KernelResources.Proofs.Paging.Returning
import KernelResources.Proofs.Process.Charges

/-!
# Operations on processes that return

Operations on processes add in four places: a tick to the clock, a tick to the account of the
current process, one to the next pid, and the length of a sleep to the clock. The kernel halts if a
sum does not fit its register. Everything else they do is checked in ways that never fail.

* `System.Accurate`: the count of free frames is right. A pass, and whatever else adds nothing,
  survives with this invariant.
* `Task.Fits` says that the sums of a task fit, and `Task.exists_stage` that the task returns then.
* `Task.exists_stages`: as long as the clock fits, any number of events do.
-/

namespace KernelResources

open KernelResources.Action

namespace System

variable {ε α : Type} {paging : Paging} {system : System}

/-- The count of free frames is right. -/
def Accurate (system : System) : Prop := system.machine.Accurate

/-! ## Looking and changing -/

section Rules

variable {inv : System → Prop}

theorem returns_getTable {post : System → Prop} {next : ProcessTable → Action ε System α}
    (h : (next system.table).Returns system post) : (getTable >>= next).Returns system post :=
  returns_get h

theorem survives_getTable {next : ProcessTable → Action ε System α}
    (h : ∀ table, (next table).Survives inv) : (getTable >>= next).Survives inv :=
  survives_get fun system => h system.table

theorem survives_modifyTable (change : ProcessTable → ProcessTable) :
    (modifyTable change : Action ε System Unit).Survives Accurate :=
  survives_modify fun _ haccurate => haccurate

theorem survives_modifyProcess (pid : Nat) (change : Process → Process) :
    (modifyProcess pid change : Action ε System Unit).Survives Accurate :=
  survives_modifyTable _

theorem survives_findProcess (pid : Nat) : (findProcess pid).Survives inv :=
  survives_getTable fun _ => survives_ofOption _ _

/-- What the machine does has no effect on the process table. -/
theorem survives_onMachine_table {action : Action ε Machine α}
    (h : action.Survives Machine.Accurate) (table : ProcessTable) :
    (onMachine action).Survives fun system => system.Accurate ∧ system.table = table :=
  h.within (fun _ hinv => hinv.1) fun _ _ hinv hmachine => ⟨hmachine, hinv.2⟩

theorem survives_onMachine {action : Action ε Machine α} (h : action.Survives Machine.Accurate) :
    (onMachine action).Survives Accurate :=
  h.within (fun _ haccurate => haccurate) fun _ _ _ hmachine => hmachine

end Rules

/-! ## Passes -/

theorem survives_loadSpace (space : ProcessSpace) :
    (loadSpace paging space : Action ε Machine Unit).Survives Machine.Accurate := by
  cases space <;> exact Machine.survives_loadDirectory _

theorem survives_dispatch (next : Nat) :
    (dispatch paging next : Action ε System Unit).Survives Accurate := by
  refine survives_getTable fun table => Survives.bind (survives_modify fun _ => id) fun _ =>
    survives_getTable fun suspended => ?_
  split
  · exact survives_pure ()
  · refine (survives_modifyProcess _ _).bind fun _ =>
      Survives.bind (survives_modify fun _ => id) fun _ => survives_get fun system => ?_
    have hrest (outgoing : Nat) : (do
        Action.note (.switched outgoing next)
        modifyTable fun table =>
          { table with
            current := next
            cursor := if next = table.idle then table.cursor else next } :
        Action ε System Unit).Survives Accurate :=
      (survives_note _).bind fun _ => survives_modifyTable _
    split
    · exact (survives_onMachine (survives_loadSpace _)).bind fun _ => hrest _
    · exact hrest _

theorem survives_remove (pid : Nat) : (remove paging pid).Survives Accurate := by
  refine (survives_findProcess pid).bind fun process => survives_getTable fun table =>
    (survives_refuseIf _ _).bind fun _ => ?_
  have hrest {action : Action ProcessError System Unit} (h : action.Survives Accurate) : (do
      modifyTable fun table => unlink process (table.remove pid)
      Action.note (.processDestroyed pid process.name)
      action : Action ProcessError System Unit).Survives Accurate :=
    (survives_modifyTable _).bind fun _ => (survives_note _).bind fun _ => h
  cases process.space with
  | kernel => exact hrest (survives_pure ())
  | user space =>
    refine survives_get fun _ => (survives_refuseIf _ _).bind fun _ => hrest ?_
    exact survives_onMachine ((Paging.survives_destroySpace space).mapError _)

theorem survives_removeOrReport (pid : Nat) :
    (removeOrReport paging pid : Action ε System Unit).Survives Accurate := by
  refine (survives_remove pid).attempt.bind fun result => ?_
  cases result with
  | ok value => exact survives_pure ()
  | error error => exact survives_note _

theorem survives_schedule : (schedule paging : Action ε System Nat).Survives Accurate := by
  have hrest (outgoing : Nat) : (do
      removeEnded paging outgoing
      return (← getTable).current : Action ε System Nat).Survives Accurate :=
    (survives_getTable fun table => Survives.forM fun pid _ => survives_removeOrReport pid).bind
      fun _ => survives_getTable fun _ => survives_pure _
  refine survives_getTable fun table => ?_
  dsimp only
  split
  · exact (survives_dispatch _).bind fun _ => hrest _
  · exact (survives_modifyProcess _ _).bind fun _ => hrest _

/-! ## Waiting and ending -/

theorem survives_waitingCandidate : waitingCandidate.Survives Accurate :=
  survives_getTable fun _ => (survives_refuseIf _ _).bind fun _ => survives_findProcess _

theorem survives_beginBlock : beginBlock.Survives Accurate :=
  survives_waitingCandidate.bind fun _ => survives_modifyProcess _ _

theorem survives_wake (pid : Nat) : (wake pid).Survives Accurate :=
  (survives_findProcess pid).bind fun _ => (survives_refuseIf _ _).bind fun _ =>
    survives_modifyProcess _ _

theorem survives_beginExit (code : Int32) : (beginExit code).Survives Accurate := by
  refine survives_waitingCandidate.bind fun process => (survives_modifyProcess _ _).bind fun _ =>
    (survives_note _).bind fun _ => ?_
  split
  · exact survives_modifyProcess _ _
  · exact survives_pure ()

theorem survives_beginKill (pid : Nat) : (beginKill paging pid).Survives Accurate := by
  refine survives_getTable fun table => (survives_refuseIf _ _).bind fun _ => ?_
  split
  · exact (survives_beginExit killedCode).bind fun _ => survives_pure true
  · exact (survives_findProcess pid).bind fun _ => (survives_modifyProcess _ _).bind fun _ =>
      (survives_remove pid).bind fun _ => survives_pure false

theorem survives_answer (result : UInt32) : (Syscall.answer result).Survives Accurate :=
  Survives.bind (survives_modify fun _ => id) fun _ => survives_pure _

theorem survives_beginServe (request : Syscall.Request) :
    (Syscall.beginServe request).Survives Accurate := by
  have hanswer (result : UInt32) (due : Bool) : (do
      let _ ← Syscall.answer result
      return due : Total System Bool).Survives Accurate :=
    (survives_answer result).bind fun _ => survives_pure due
  unfold Syscall.beginServe
  -- The calls in the order in which the kernel tells them apart: exit, the pids, yield, others.
  split
  · refine (survives_beginExit _).attempt.bind fun result => ?_
    cases result with
    | ok value => exact survives_pure true
    | error error =>
      exact survives_getTable fun _ => (survives_note _).bind fun _ => hanswer _ _
  · split
    · exact survives_getTable fun _ => hanswer _ _
    · split
      · exact survives_getTable fun _ => hanswer _ _
      · split
        · exact hanswer _ _
        · exact survives_getTable fun _ => (survives_note _).bind fun _ => hanswer _ _

/-! ## Sums -/

/-- A tick fits on the clock and on every account. -/
def TickFits (table : ProcessTable) : Prop :=
  table.clock + 1 < bitRange 64 ∧ ∀ process ∈ table.processes, process.ticksUsed + 1 < bitRange 64

/-- The deadline of a sleep does not fit the clock, and nothing is in the way of computing it. -/
def Oversleeps (table : ProcessTable) (ticks : Nat) : Prop :=
  table.current ≠ table.idle ∧ bitRange 64 ≤ table.clock + ticks

theorem returns_charge (h : system.Accurate)
    (hfits : ∀ process ∈ system.table.processes, process.ticksUsed + 1 < bitRange 64) :
    (charge : Action ε System Bool).Returns system Accurate := by
  unfold charge
  refine returns_getTable ?_
  split
  · exact returns_pure h
  · next process hcurrent =>
    rw [Action.add_eq_pure (hfits process (ProcessTable.mem_of_find? hcurrent)), pure_bind]
    exact ((survives_modifyProcess _ _).bind fun _ => survives_pure _) system h

theorem returns_beginTick (h : system.Accurate) (hfits : TickFits system.table) :
    (beginTick : Action ε System Bool).Returns system Accurate := by
  unfold beginTick
  refine returns_getTable ?_
  rw [Action.add_eq_pure hfits.1, pure_bind]
  -- Sleepers that are woken keep their accounts.
  have hwoken (clock : Nat) : ∀ process ∈ ({ system.table with clock }.updateAll
      (wakeIfDue clock)).processes, process.ticksUsed + 1 < bitRange 64 := by
    refine List.forall_mem_map.mpr fun process hmem => ?_
    unfold wakeIfDue
    split <;> exact hfits.2 process hmem
  have hwake (clock : Nat) : (modifyTable fun table => { table with clock }.updateAll
      (wakeIfDue clock) : Action ε System Unit).Returns system fun system => system.Accurate ∧
        ∀ process ∈ system.table.processes, process.ticksUsed + 1 < bitRange 64 :=
    returns_modify ⟨h, hwoken clock⟩
  refine (hwake _).bind (fun _ middle hmiddle => ?_) fun _ hmiddle => hmiddle.1
  refine (returns_charge hmiddle.1 hmiddle.2).bind (fun expired middle hmiddle => ?_) fun _ => id
  exact survives_getTable (fun _ => survives_pure _) middle hmiddle

theorem returns_beginSleep (h : system.Accurate) {ticks : Nat}
    (hfits : ¬Oversleeps system.table ticks) : (beginSleep ticks).Returns system Accurate := by
  refine returns_getTable (returns_refuseIf (fun _ => h) fun hidle => ?_)
  split
  · exact returns_pure h
  · have hsum : system.table.clock + ticks < bitRange 64 :=
      Nat.lt_of_not_le fun hle => hfits ⟨hidle, hle⟩
    rw [Action.add_eq_pure hsum, pure_bind]
    exact ((survives_findProcess _).bind fun _ => (survives_modifyProcess _ _).bind fun _ =>
      (survives_note _).bind fun _ => survives_beginBlock) system h

/-- A space is built without a look at the processes. -/
theorem survives_createUserSpace (hlimit : paging.layout.heapLimit < bitRange 32)
    (htop : pageSize ≤ paging.layout.userStackTop) (table : ProcessTable) :
    (createUserSpace paging).Survives fun system => system.Accurate ∧ system.table = table := by
  refine (survives_onMachine_table ((Paging.survives_createSpace hlimit).mapError _) table).bind
    fun space => ?_
  rw [Action.subtract_eq_pure htop, pure_bind]
  refine (survives_onMachine_table ((Paging.survives_mapFresh space _ _).mapError _)
    table).attempt.bind fun result => ?_
  cases result with
  | ok value => exact survives_pure space
  | error error =>
    exact (survives_onMachine_table ((Paging.survives_destroySpace space).mapError _) table).bind
      fun _ => survives_throw error

theorem returns_enroll (h : system.Accurate) (hfits : system.table.nextPid + 1 < bitRange 32)
    (name : String) (eip : Nat) (kernelMode : Bool) (stack : KernelStack) (space : ProcessSpace)
    (context : Registers) :
    (enroll name eip kernelMode stack space context).Returns system Accurate := by
  refine returns_getTable ?_
  dsimp only
  rw [Action.add_eq_pure hfits, pure_bind]
  exact ((survives_modifyTable _).bind fun _ => (survives_modifyProcess _ _).bind fun _ =>
    (survives_note _).bind fun _ => survives_pure _) system h

theorem returns_launch (h : system.Accurate) (hlimit : paging.layout.heapLimit < bitRange 32)
    (htop : pageSize ≤ paging.layout.userStackTop)
    (hfits : system.table.nextPid + 1 < bitRange 32) (name : String) (entry : Nat)
    (kernelMode : Bool) (stack : Option KernelStack) :
    (launch paging name entry kernelMode stack).Returns system Accurate := by
  rw [launch_eq]
  refine returns_refuseIf (fun _ => h) fun _ => returns_ofOption (fun _ => h) fun stack _ => ?_
  split
  · exact returns_enroll h hfits _ _ _ _ _ _
  · refine (survives_createUserSpace hlimit htop system.table system ⟨h, rfl⟩).bind
      (fun space middle hmiddle => ?_) fun _ hmiddle => hmiddle.1
    exact returns_enroll hmiddle.1 (hmiddle.2 ▸ hfits) _ _ _ _ _ _

end System

/-! ## Stages -/

namespace Task

open KernelResources.System

variable {paging : Paging} {task : Task} {tasks : List Task} {system : System} {journal : Journal}
  {account : Nat → Nat} {clock : Nat}

/-- The sums of a task fit their registers. -/
def Fits (table : ProcessTable) : Task → Prop
  | launch .. => table.nextPid + 1 < bitRange 32
  | sleep ticks => ¬Oversleeps table ticks
  | event .tick => TickFits table
  | _ => True

/-- A task that adds nothing but ticks. -/
def OnlyTicks : Task → Prop
  | launch .. | sleep _ => False
  | _ => True

theorem returns_prepare (h : system.Accurate) (hlimit : paging.layout.heapLimit < bitRange 32)
    (htop : pageSize ≤ paging.layout.userStackTop) (hfits : task.Fits system.table) :
    (task.prepare paging).Returns system Accurate := by
  cases task with
  | launch name entry kernelMode stack =>
    exact (returns_launch h hlimit htop hfits name entry kernelMode stack).bind
      (fun _ _ => returns_pure) fun _ => id
  | remove pid => exact ((survives_remove pid).bind fun _ => survives_pure false) system h
  | pass => exact returns_pure h
  | block => exact (survives_beginBlock.bind fun _ => survives_pure true) system h
  | wake pid => exact ((survives_wake pid).bind fun _ => survives_pure false) system h
  | sleep ticks =>
    exact (returns_beginSleep h hfits).bind (fun _ _ => returns_pure) fun _ => id
  | exit code => exact ((survives_beginExit code).bind fun _ => survives_pure true) system h
  | kill pid => exact survives_beginKill pid system h
  | serve request => exact (survives_beginServe request).mapError _ system h
  | event event =>
    cases event with
    | tick => exact returns_beginTick h hfits
    | wake pid =>
      have hact : (actOn paging (.wake pid)).Survives Accurate :=
        (survives_wake pid).attempt.bind fun result => by
          cases result with
          | ok value => exact survives_pure ()
          | error error => exact survives_note _
      exact ((hact.mapError _).bind fun _ => survives_pure false) system h

/-- A task whose sums fit returns, and so does its pass. -/
theorem exists_stage (h : system.Accurate) (hlimit : paging.layout.heapLimit < bitRange 32)
    (htop : pageSize ≤ paging.layout.userStackTop) (hfits : task.Fits system.table)
    (journal : Journal) : ∃ stage journal',
      task.stage? paging system journal = some (stage, journal') ∧ stage.after.Accurate := by
  have hperform : (task.perform paging).Returns system Accurate := by
    refine (returns_prepare h hlimit htop hfits).bind (fun due middle hmiddle => ?_) fun _ => id
    split
    · exact (survives_schedule.bind fun _ => survives_pure ()) middle hmiddle
    · exact returns_pure hmiddle
  obtain ⟨system', hstate, haccurate⟩ := hperform.exists_state? journal
  have hended := ended_perform paging task system journal
  rw [Outcome.ended_of_state? hstate] at hended
  obtain ⟨⟨stage, journal'⟩, hstage, heq⟩ := Option.map_eq_some_iff.mp hended.symm
  cases heq
  exact ⟨stage, _, hstage, haccurate⟩

end Task

/-- No process has been charged more than the clock shows. -/
theorem Billed.ticksUsed_le {account : Nat → Nat} {clock : Nat} {table : ProcessTable}
    (h : Billed account clock table) (hsound : table.Sound) {process : Process}
    (hmem : process ∈ table.processes) : process.ticksUsed ≤ clock := by
  obtain ⟨hfirst, hcharged⟩ := h.each process hmem
  have hpid : process.pid ∈ Finset.Ico ProcessTable.bootstrapPid table.nextPid :=
    Finset.mem_Ico.mpr ⟨hfirst, hsound.below _ (List.mem_map_of_mem hmem)⟩
  rw [hcharged, ← h.sum_eq]
  exact Finset.single_le_sum (fun pid _ => Nat.zero_le (account pid)) hpid

namespace Task

open KernelResources.System

variable {paging : Paging} {tasks : List Task} {system : System} {account : Nat → Nat} {clock : Nat}

theorem OnlyTicks.fits {task : Task} (h : task.OnlyTicks) (hsound : system.table.Sound)
    (hbilled : Billed account clock system.table)
    (hclock : clock + [task].count (.event .tick) < bitRange 64) : task.Fits system.table := by
  cases task with
  | launch | sleep => exact h.elim
  | event event =>
    cases event with
    | tick =>
      have hlt : clock + 1 < bitRange 64 := hclock
      refine ⟨by rw [hbilled.clock_eq]; exact hlt, fun process hmem => ?_⟩
      exact Nat.lt_of_le_of_lt (Nat.succ_le_succ (hbilled.ticksUsed_le hsound hmem)) hlt
    | wake pid => trivial
  | _ => trivial

/-- As long as the clock fits, tasks that add nothing but ticks return, however many they are. -/
theorem exists_stages (h : system.Accurate) (hlimit : paging.layout.heapLimit < bitRange 32)
    (htop : pageSize ≤ paging.layout.userStackTop) (hsound : system.table.Sound)
    (hbilled : Billed account clock system.table) (htasks : ∀ task ∈ tasks, task.OnlyTicks)
    (hclock : clock + tasks.count (.event .tick) < bitRange 64) (journal : Journal) :
    ∃ stages journal', stages? paging tasks system journal = some (stages, journal') ∧
      (Stage.last system stages).Accurate := by
  -- Induction on the tasks: each one takes its ticks from those that are still to come.
  induction tasks generalizing system account clock journal with
  | nil => exact ⟨[], journal, rfl, h⟩
  | cons task rest ih =>
    rw [← List.singleton_append, List.count_append] at hclock
    obtain ⟨stage, middle, hstage, haccurate⟩ := exists_stage h hlimit htop
      ((htasks task List.mem_cons_self).fits hsound hbilled (by omega)) journal
    obtain ⟨stages, final, hstages, hlast⟩ := ih haccurate (sound_of_stage? hsound hstage)
      (hbilled.stage hsound hstage)
      (fun other hother => htasks other (List.mem_cons_of_mem _ hother)) (by omega) middle
    refine ⟨stage :: stages, final, ?_, hlast⟩
    rw [stages?, hstage]
    show (stages? paging rest stage.after middle).bind _ = _
    rw [hstages]
    rfl

end Task

end KernelResources
