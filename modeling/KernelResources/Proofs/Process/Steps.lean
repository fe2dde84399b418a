import KernelResources.Proofs.Process.Changes
import KernelResources.Proofs.Process.Tasks

/-!
# Runs step by step

An operation may hand over any number of events, and everything else that is said about runs may
change with each of them. So here a run goes on by single tasks: one operation that does not look
at the events that wait, one system call, or one event.

* `Task.Brings`: a task brings about another table. Between two tasks the machine, the registers on
  the processor and the journal may change in any way.
* `Operation.steps_of_run`: what an operation does, its tasks do one after another.
* `Task.Brings.course` says what a task can do to a table, and `Task.brings_tick` says more of a
  tick: there is a pass just if the turn of the current process is over.
-/

namespace KernelResources

open Processor

namespace Task

/-! ## Tasks as operations -/

/-- An operation that consists of this task, if the events of the task are what waits. -/
def operation : Task → Operation
  | launch name entry kernelMode stack => .launch name entry kernelMode stack
  | remove pid => .remove pid
  | pass => .schedule
  | block => .block
  | wake pid => .wake pid
  | sleep ticks => .sleep ticks
  | exit code => .exit code
  | kill pid => .kill pid
  | serve request => .serve request
  | event _ => .actOnEvents

/-- The events of a task: the one that it acts on, if it acts on one. -/
def events : Task → EventQueue
  | event recorded => { EventQueue.ofCapacity 1 with line := [recorded] }
  | _ => .ofCapacity 1

/-- What a task sets out to do. -/
def deeds (table : ProcessTable) : Task → List Deed
  | launch .. => [.launch]
  | remove pid => [.remove pid]
  | pass => [.pass .stay]
  | block => [.pass .block]
  | wake pid => [.wake pid]
  | sleep ticks => [.pass (System.sleeping table.clock ticks)]
  | exit code => [.pass (.exit code)]
  | kill pid => System.killing table pid
  | serve request => request.deeds
  | event recorded => [recorded.deed]

variable {paging : Paging} {task : Task} {system : System} {stage : Stage}
  {journal journal' : Journal} {table table' : ProcessTable}

theorem tasks_operation (task : Task) (system : System) :
    task.operation.tasks ⟨task.events, system⟩ = [task] := by
  cases task <;> rfl

theorem deeds_operation (task : Task) (system : System) :
    task.operation.deeds ⟨task.events, system⟩ = task.deeds system.table := by
  cases task <;> rfl

/-- Only one task is a tick. -/
theorem tick_not_mem_deeds (htask : task ≠ .event .tick) : .tick ∉ task.deeds table := by
  cases task with
  | kill pid =>
    simp only [deeds, System.killing]
    split <;> simp
  | serve request =>
    simp only [deeds, Syscall.Request.deeds]
    split
    · simp
    · split <;> simp
  | event recorded =>
    cases recorded with
    | tick => exact absurd rfl htask
    | wake pid => simp [deeds, Event.deed]
  | launch | remove | pass | block | wake | sleep | exit => simp [deeds]

/-- If a task sets out to do several things, only the removal of a process comes after the first of
them. -/
theorem eq_remove_of_mem_tail (task : Task) (table : ProcessTable) :
    ∀ deed ∈ (task.deeds table).tail, ∃ pid, deed = .remove pid := by
  cases task with
  | kill pid =>
    simp only [deeds, System.killing]
    split <;> simp
  | serve request =>
    simp only [deeds, Syscall.Request.deeds]
    split
    · simp
    · split <;> simp
  | launch | remove | pass | block | wake | sleep | exit | event => simp [deeds]

/-- The operation that consists of a task leaves behind what the task does. -/
theorem exists_run_operation (hstage : task.stage? paging system journal = some (stage, journal')) :
    ∃ events, (task.operation.run paging ⟨task.events, system⟩ journal).state? =
      some ⟨events, stage.after⟩ := by
  have hended := Operation.ended_run paging task.operation ⟨task.events, system⟩ journal
  rw [Operation.stages?, tasks_operation, stages?_singleton, hstage] at hended
  exact ⟨_, Outcome.state?_of_ended hended⟩

/-! ## Steps -/

/-- On some machine, the task turns a table into another one. -/
def Brings (task : Task) (table table' : ProcessTable) : Prop :=
  ∃ paging system journal stage journal', system.table = table ∧
    task.stage? paging system journal = some (stage, journal') ∧ stage.after.table = table'

namespace Brings

theorem sound (h : task.Brings table table') (hsound : table.Sound) : table'.Sound := by
  obtain ⟨_, _, _, _, _, rfl, hstage, rfl⟩ := h
  exact sound_of_stage? hsound hstage

theorem reachable (h : task.Brings table table') (hreachable : table.Reachable) :
    table'.Reachable := by
  obtain ⟨_, system, _, stage, _, rfl, hstage, rfl⟩ := h
  obtain ⟨events, hrun⟩ := exists_run_operation hstage
  have hbefore : (WithEvents.mk task.events system).state.table.Reachable := hreachable
  exact .step hbefore hrun

/-- A task does some of what it sets out to do. -/
theorem course (h : task.Brings table table') (hsound : table.Sound) :
    ∃ processor processor', processor.table = table ∧ processor'.table = table' ∧
      Course (task.deeds table) processor processor' := by
  obtain ⟨_, system, _, stage, _, rfl, hstage, rfl⟩ := h
  obtain ⟨events, hrun⟩ := exists_run_operation hstage
  have hbefore : (WithEvents.mk task.events system).state.table.Sound := hsound
  have hcourse := Operation.course_of_run hbefore hrun
  rw [deeds_operation] at hcourse
  exact ⟨_, _, rfl, rfl, hcourse⟩

/-- Nothing but ticks moves the clock. -/
theorem clock_of_ne (h : task.Brings table table') (hsound : table.Sound)
    (htask : task ≠ .event .tick) : table'.clock = table.clock := by
  obtain ⟨processor, processor', rfl, rfl, hcourse⟩ := h.course hsound
  refine hcourse.keeps (fun middle => middle.table.clock = processor.table.clock)
    (fun deed hmem _ _ hdoes hclock => (hdoes.clock_eq fun htick => ?_).trans hclock) rfl
  exact tick_not_mem_deeds htask (htick ▸ hmem)

end Brings

/-- After a tick there is a pass just if the turn of the current process is over. -/
theorem brings_tick (h : (event .tick).Brings table table') :
    table' = table.ticking ∧ ¬table.ticking.TurnOver ∨
      table.ticking.TurnOver ∧ ∃ processor processor', processor.table = table.ticking ∧
        processor'.table = table' ∧ Pass processor processor' := by
  obtain ⟨paging, system, journal, stage, _, rfl, hstage, rfl⟩ := h
  have hprepare : ((event .tick).prepare paging).Ensures system
      (fun due system' => system'.table = system.table.ticking ∧
        (due = true ↔ system.table.ticking.TurnOver)) fun _ _ => False := by
    refine System.ensures_beginTick.mono_done fun due system' hdone => ?_
    have htable : system'.table = system.table.ticking := congrArg Processor.table hdone.1
    exact ⟨htable, htable ▸ hdone.2⟩
  have hpass (found : System) (journal : Journal) :
      (System.schedule paging : Total System Nat).Yields found journal
        (fun _ system' _ => Pass found.processor system'.processor) fun _ _ _ => True :=
    (System.ensures_schedule.yields journal).mono (fun _ _ _ hdone => hdone) fun _ _ _ _ => trivial
  rcases of_stage? (hprepare.yields journal) (fun found journal _ => hpass found journal) hstage
    with ⟨-, ⟨htable, hdue⟩ | hrefused⟩ | ⟨found, -, ⟨htable, hdue⟩, hpassed⟩
  · exact .inl ⟨htable, fun hover => Bool.noConfusion (hdue.mpr hover)⟩
  · exact hrefused.elim
  · exact .inr ⟨hdue.mp rfl, _, _, htable, rfl, hpassed⟩

end Task

/-- A tick is counted. -/
theorem Task.Brings.clock_of_tick {table table' : ProcessTable}
    (h : (event .tick).Brings table table') : table'.clock = table.clock + 1 := by
  rcases brings_tick h with ⟨rfl, -⟩ | ⟨-, processor, processor', hbefore, rfl, hpass⟩
  · exact ProcessTable.clock_ticking
  · rw [hpass.clock_eq, hbefore, ProcessTable.clock_ticking]

theorem Task.Brings.clock_le {task : Task} {table table' : ProcessTable}
    (h : task.Brings table table') (hsound : table.Sound) : table.clock ≤ table'.clock := by
  rcases eq_or_ne task (.event .tick) with rfl | htask
  · exact h.clock_of_tick ▸ Nat.le_succ _
  · exact Nat.le_of_eq (h.clock_of_ne hsound htask).symm

/-- Tasks lead from one table to another. Each of them is one of the `allowed` tasks at the table
that it finds. -/
def ProcessTable.Steps (allowed : Task → ProcessTable → Prop) :
    ProcessTable → ProcessTable → Prop :=
  Relation.ReflTransGen fun table table' => ∃ task : Task, allowed task table ∧
    task.Brings table table'

namespace ProcessTable.Steps

variable {allowed : Task → ProcessTable → Prop} {table table' : ProcessTable}

/-- What every allowed step keeps, all of them keep. -/
theorem keeps (inv : ProcessTable → Prop)
    (hkeeps : ∀ task table table', allowed task table → task.Brings table table' →
      inv table → inv table')
    (h : Steps allowed table table') (hinv : inv table) : inv table' := by
  induction h with
  | refl => exact hinv
  | tail _ hstep ih =>
    obtain ⟨task, hallowed, hbrings⟩ := hstep
    exact hkeeps task _ _ hallowed hbrings ih

theorem reachable (h : Steps allowed table table') (hreachable : table.Reachable) :
    table'.Reachable :=
  h.keeps Reachable (fun _ _ _ _ hbrings => hbrings.reachable) hreachable

theorem sound (h : Steps allowed table table') (hsound : table.Sound) : table'.Sound :=
  h.keeps Sound (fun _ _ _ _ hbrings => hbrings.sound) hsound

end ProcessTable.Steps

/-- Tasks that are carried out one after another are steps. -/
theorem Task.steps_of_stages? {paging : Paging} {tasks : List Task} {system : System}
    {stages : List Stage} {journal journal' : Journal} {allowed : Task → ProcessTable → Prop}
    (hstages : stages? paging tasks system journal = some (stages, journal'))
    (hallowed : ∀ task ∈ tasks, ∀ table, allowed task table) :
    ProcessTable.Steps allowed system.table (Stage.last system stages).table := by
  induction tasks generalizing system journal stages with
  | nil =>
    cases hstages
    exact .refl
  | cons task rest ih =>
    obtain ⟨stage, middle, stages', hstage, hrest, rfl⟩ := stages?_cons hstages
    obtain ⟨htask, hothers⟩ := List.forall_mem_cons.mp hallowed
    exact .head ⟨task, htask system.table, paging, system, journal, stage, middle, rfl, hstage, rfl⟩
      (ih hrest hothers)

/-- An operation is carried out task by task. -/
theorem Operation.steps_of_run {paging : Paging} {operation : Operation}
    {whole whole' : WithEvents System} {journal : Journal} {allowed : Task → ProcessTable → Prop}
    (hrun : (operation.run paging whole journal).state? = some whole')
    (hallowed : ∀ task ∈ operation.tasks whole, ∀ table, allowed task table) :
    ProcessTable.Steps allowed whole.state.table whole'.state.table := by
  obtain ⟨stages, hstages⟩ := Operation.exists_stages hrun
  rw [(Operation.eq_of_stages? hrun hstages).1]
  exact Task.steps_of_stages? hstages hallowed

/-- An operation that consists of one task is a single step. -/
theorem Operation.brings_of_run {paging : Paging} {operation : Operation}
    {whole whole' : WithEvents System} {journal : Journal} {task : Task}
    (htasks : operation.tasks whole = [task])
    (hrun : (operation.run paging whole journal).state? = some whole') :
    task.Brings whole.state.table whole'.state.table := by
  obtain ⟨stages, hstages⟩ := Operation.exists_stages hrun
  rw [(Operation.eq_of_stages? hrun hstages).1]
  rw [Operation.stages?, htasks] at hstages
  obtain ⟨stage, _, stages', hstage, hrest, rfl⟩ := Task.stages?_cons hstages
  cases hrest
  exact ⟨paging, whole.state, journal, stage, _, rfl, hstage, rfl⟩

end KernelResources
