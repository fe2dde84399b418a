import KernelResources.Proofs.Event.Draining
import KernelResources.Proofs.Process.Runs
import KernelResources.Proofs.Yields

/-!
# Operations pass by pass

An operation may make many passes of the scheduler: one for the system call it serves, and one for
each tick that waits. `Operation.tasks` divides it into tasks that make at most one pass each, and
`Operation.stages?` runs them and returns what it finds on the way: the system that each pass finds,
and the system after each task. `Operation.ended_run` says that this is how operations run.

* `Task.Prepares` is what a task does to the process table before its pass.
* `Task.of_stages?`: what every stage keeps, all of them keep.
-/

namespace KernelResources

open KernelResources.Action

/-- The state and the journal that an action leaves behind, if it returns. -/
def Outcome.ended {ε σ α : Type} : Outcome ε σ α → Option (σ × Journal)
  | .done _ state journal => some (state, journal)
  | .refused _ state journal => some (state, journal)
  | .halted _ _ => none

/-- A part of an operation that makes at most one pass. -/
inductive Task where
  | launch (name : String) (entry : Nat) (kernelMode : Bool) (stack : Option KernelStack)
  | remove (pid : Nat)
  | pass
  | block
  | wake (pid : Nat)
  | sleep (ticks : Nat)
  | exit (code : Int32)
  | kill (pid : Nat)
  | serve (request : Syscall.Request)
  | event (event : Event)
deriving DecidableEq, Repr

/-- What a task does to the system. -/
structure Stage where
  /-- What the pass finds, if there is one. -/
  found? : Option System
  /-- What the task leaves behind. -/
  after : System

/-- The tables that can be seen at a stage: the one that the pass finds, and the last one. -/
def Stage.tables (stage : Stage) : List ProcessTable :=
  stage.found?.toList.map System.table ++ [stage.after.table]

/-- A pass: the table that it finds, and the one that it leaves behind. -/
structure Handover where
  /-- What the pass finds. -/
  before : ProcessTable
  /-- What it leaves behind. -/
  after : ProcessTable
deriving DecidableEq, Repr

/-- The pass of a stage, if there is one. -/
def Stage.handover? (stage : Stage) : Option Handover :=
  stage.found?.map fun found => ⟨found.table, stage.after.table⟩

/-- The pass of one more stage comes last. -/
theorem Stage.handovers_concat (stages : List Stage) (stage : Stage) :
    (stages ++ [stage]).filterMap handover? =
      stages.filterMap handover? ++ stage.handover?.toList := by
  rw [List.filterMap_append, List.filterMap_cons, List.filterMap_nil]
  cases stage.handover? <;> rfl

namespace Task

/-- What a task does before its pass. Returns whether the pass is due. -/
def prepare (paging : Paging) : Task → Action ProcessError System Bool
  | launch name entry kernelMode stack => do
    let _ ← System.launch paging name entry kernelMode stack
    return false
  | remove pid => do
    System.remove paging pid
    return false
  | pass => return true
  | block => do
    System.beginBlock
    return true
  | wake pid => do
    System.wake pid
    return false
  | sleep ticks => do
    System.beginSleep ticks
    return true
  | exit code => do
    System.beginExit code
    return true
  | kill pid => System.beginKill paging pid
  | serve request => (Syscall.beginServe request).unrefused
  | event .tick => System.beginTick
  | event (.wake pid) => do
    (System.actOn paging (.wake pid)).unrefused
    return false

/-- Runs a task and returns what it finds, with the journal. A task that is refused makes no pass.
-/
def stage? (paging : Paging) (task : Task) (system : System) (journal : Journal) :
    Option (Stage × Journal) :=
  match task.prepare paging system journal with
  | .done true middle journal =>
    match (System.schedule paging : Total System Nat) middle journal with
    | .done _ system journal => some (⟨some middle, system⟩, journal)
    | .refused error _ _ => error.elim
    | .halted _ _ => none
  | .done false system journal => some (⟨none, system⟩, journal)
  | .refused _ system journal => some (⟨none, system⟩, journal)
  | .halted _ _ => none

/-- Runs tasks one after another. -/
def stages? (paging : Paging) : List Task → System → Journal → Option (List Stage × Journal)
  | [], _, journal => some ([], journal)
  | task :: rest, system, journal => do
    let (stage, journal) ← task.stage? paging system journal
    let (stages, journal) ← stages? paging rest stage.after journal
    return (stage :: stages, journal)

end Task

/-- The system after all stages. -/
def Stage.last (system : System) (stages : List Stage) : System :=
  stages.foldl (fun _ stage => stage.after) system

namespace Operation

/-- The tasks that an operation consists of. -/
def tasks (whole : WithEvents System) : Operation → List Task
  | launch name entry kernelMode stack => [.launch name entry kernelMode stack]
  | remove pid => [.remove pid]
  | schedule => [.pass]
  | tick => [.event .tick]
  | block => [.block]
  | wake pid => [.wake pid]
  | sleep ticks => [.sleep ticks]
  | exit code => [.exit code]
  | kill pid => [.kill pid]
  | actOnEvents => whole.events.waiting.map .event
  | serve request => [.serve request]
  | timer => whole.events.addTick.waiting.map .event
  | systemCall =>
    .serve (.ofRegisters whole.state.cpu) :: whole.events.waiting.map .event

/-- The events that wait after an operation. -/
def eventsAfter (events : EventQueue) : Operation → EventQueue
  | actOnEvents | systemCall => events.emptied
  | timer => events.addTick.emptied
  | _ => events

/-- Runs an operation task by task and returns what it finds on the way. -/
def stages? (paging : Paging) (operation : Operation) (whole : WithEvents System)
    (journal : Journal) : Option (List Stage × Journal) :=
  Task.stages? paging (operation.tasks whole) whole.state journal

end Operation

/-! ## Tasks are what operations consist of -/

section Ended

variable {ε σ τ α β : Type}

theorem Outcome.ended_of_state? {outcome : Outcome ε σ α} {state : σ}
    (h : outcome.state? = some state) : outcome.ended = some (state, outcome.journal) := by
  cases outcome with
  | done | refused =>
    cases h
    rfl
  | halted => cases h

theorem Outcome.state?_of_ended {outcome : Outcome ε σ α} {state : σ} {journal : Journal}
    (h : outcome.ended = some (state, journal)) : outcome.state? = some state := by
  cases outcome with
  | done | refused =>
    cases h
    rfl
  | halted => cases h

theorem Outcome.ended_discard (action : Action ε σ α) (state : σ) (journal : Journal) :
    ((do let _ ← action : Action ε σ Unit) state journal).ended =
      (action state journal).ended := by
  rw [apply_bind]
  cases action state journal <;> rfl

theorem Outcome.ended_unrefused (action : Total σ α) (state : σ) (journal : Journal) :
    ((action.unrefused : Action ε σ α) state journal).ended = (action state journal).ended := by
  rw [unrefused, apply_mapError]
  cases action state journal with
  | done | halted => rfl
  | refused error => exact error.elim

theorem WithEvents.ended_onState (action : Action ε σ α) (whole : WithEvents σ)
    (journal : Journal) :
    (WithEvents.onState action whole journal).ended =
      (action whole.state journal).ended.map fun ended =>
        ({ whole with state := ended.1 }, ended.2) := by
  rw [WithEvents.onState_apply]
  cases action whole.state journal <;> rfl

end Ended

theorem Outcome.ended_viewed {ε σ τ α : Type} (view : σ → τ) (outcome : Outcome ε σ α) :
    (outcome.viewed view).ended = outcome.ended.map fun ended => (view ended.1, ended.2) := by
  cases outcome <;> rfl

namespace Task

variable {paging : Paging} {task : Task} {system : System} {journal : Journal}

/-- A task: what comes before its pass, and the pass. -/
def perform (paging : Paging) (task : Task) : Action ProcessError System Unit := do
  if ← task.prepare paging then
    let _ ← System.schedule paging

/-- What a task leaves behind is what its stage says. -/
theorem ended_perform (paging : Paging) (task : Task) (system : System) (journal : Journal) :
    (task.perform paging system journal).ended =
      (task.stage? paging system journal).map fun staged => (staged.1.after, staged.2) := by
  rw [perform, apply_bind, stage?]
  cases task.prepare paging system journal with
  | done due middle journal' =>
    cases due with
    | true =>
      show ((do let _ ← System.schedule paging : Action ProcessError System Unit) middle
        journal').ended = _
      rw [Outcome.ended_discard, ← System.unrefused_schedule, Outcome.ended_unrefused]
      dsimp only
      cases (System.schedule paging : Total System Nat) middle journal' with
      | done | halted => rfl
      | refused error => exact error.elim
    | false => rfl
  | refused | halted => rfl

/-- An action that makes no pass. -/
theorem discard_eq_quiet {α : Type} (action : Action ProcessError System α) :
    (do let _ ← action : Action ProcessError System Unit) = (do
      if ← (do
        let _ ← action
        return false) then
        let _ ← System.schedule paging) := by
  simp only [bind_assoc, pure_bind, Bool.false_eq_true, if_false]

/-- An action that always makes a pass. -/
theorem discard_eq_pass (action : Action ProcessError System Unit) :
    (do let _ ← (do
        action
        System.schedule paging) : Action ProcessError System Unit) = (do
      if ← (do
        action
        return true) then
        let _ ← System.schedule paging) := by
  simp only [bind_assoc, pure_bind, if_true]

theorem discard_clockTick :
    (do let _ ← System.clockTick paging : Action ProcessError System Unit) =
      (event .tick).perform paging := by
  rw [System.clockTick_eq, perform, prepare, bind_assoc]
  refine bind_congr fun due => ?_
  cases due <;> rfl

/-- To act on an event is a task. -/
theorem unrefused_actOn (event : Event) :
    (System.actOn paging event).unrefused = (Task.event event).perform paging := by
  cases event with
  | tick =>
    rw [System.actOn, unrefused_bind, System.unrefused_clockTick, ← discard_clockTick]
    rfl
  | wake pid =>
    rw [perform, prepare, ← discard_eq_quiet, bind_pure_unit]

/-- To serve a system call is a task. -/
theorem ended_serve (request : Syscall.Request) (system : System) (journal : Journal) :
    (Syscall.serve paging request system journal).ended =
      ((serve request).stage? paging system journal).map
        fun staged => (staged.1.after, staged.2) := by
  have hserve : (do let _ ← Syscall.serve paging request : Total System Unit).unrefused =
      (serve request).perform paging := by
    rw [Syscall.serve_eq, unrefused_bind]
    refine bind_congr fun due => ?_
    cases due with
    | true =>
      rw [if_pos rfl, if_pos rfl, unrefused_bind, System.unrefused_schedule]
      rfl
    | false => rfl
  rw [← ended_perform, ← hserve, Outcome.ended_unrefused, Outcome.ended_discard]

/-- To act on events is to carry out their tasks. -/
theorem ended_forM_actOn (events : List Event) (system : System) (journal : Journal) :
    (events.forM (System.actOn paging) system journal).ended =
      (stages? paging (events.map .event) system journal).map
        fun staged => (Stage.last system staged.1, staged.2) := by
  induction events generalizing system journal with
  | nil => rfl
  | cons event rest ih =>
    have hstage := ended_perform paging (.event event) system journal
    rw [← unrefused_actOn, Outcome.ended_unrefused] at hstage
    show ((System.actOn paging event >>= fun _ => rest.forM (System.actOn paging)) system
      journal).ended = _
    rw [apply_bind, List.map_cons, stages?]
    cases hact : System.actOn paging event system journal with
    | refused error => exact error.elim
    | halted cause journal' =>
      rw [hact] at hstage
      rw [Option.map_eq_none_iff.mp hstage.symm]
      rfl
    | done value system' journal' =>
      rw [hact] at hstage
      obtain ⟨⟨stage, journal''⟩, hstaged, heq⟩ := Option.map_eq_some_iff.mp hstage.symm
      cases heq
      rw [hstaged]
      refine (ih stage.after journal'').trans ?_
      simp only [Option.bind_eq_bind, Option.bind_some, Option.pure_def]
      cases stages? paging (rest.map .event) stage.after journal'' <;> rfl

theorem stages?_singleton : stages? paging [task] system journal =
    (task.stage? paging system journal).map fun staged => ([staged.1], staged.2) := by
  rw [stages?]
  cases task.stage? paging system journal <;> rfl

end Task

namespace Operation

variable {paging : Paging} {whole : WithEvents System} {journal : Journal}

/-- An operation on the system that consists of one task. -/
theorem ended_onState {α : Type} {action : Action ProcessError System α} {task : Task}
    (h : (do let _ ← action : Action ProcessError System Unit) = task.perform paging) :
    (WithEvents.onState action whole journal).ended =
      (Task.stages? paging [task] whole.state journal).map
        fun staged => (⟨whole.events, Stage.last whole.state staged.1⟩, staged.2) := by
  rw [WithEvents.ended_onState, ← Outcome.ended_discard, h, Task.ended_perform,
    Task.stages?_singleton]
  cases task.stage? paging whole.state journal <;> rfl

/-- Acting on the events that wait, one task for each of them. -/
theorem ended_actOnEvents (whole : WithEvents System) (journal : Journal) :
    (System.actOnEvents paging whole journal).ended =
      (Task.stages? paging (whole.events.waiting.map .event) whole.state journal).map
        fun staged => (⟨whole.events.emptied, Stage.last whole.state staged.1⟩, staged.2) := by
  rw [← Outcome.ended_discard, System.actOnEvents_apply, Outcome.ended_viewed,
    Task.ended_forM_actOn, Option.map_map]
  rfl

/-- A system call is served before the system acts on the events that wait. -/
theorem ended_systemCall (whole : WithEvents System) (journal : Journal) :
    (Trap.systemCall paging whole journal).ended =
      (systemCall.stages? paging whole journal).map
        fun staged => (⟨whole.events.emptied, Stage.last whole.state staged.1⟩, staged.2) := by
  let request := Syscall.Request.ofRegisters whole.state.cpu
  have hserve : (Syscall.serve paging request whole.state journal).ended =
      ((Task.serve request).stage? paging whole.state journal).map
        fun staged => (staged.1.after, staged.2) := Task.ended_serve request whole.state journal
  show ((WithEvents.onState (Syscall.serve paging request) >>= fun _ =>
    System.actOnEvents paging) whole journal).ended = _
  rw [apply_bind, WithEvents.onState_apply, stages?, tasks, Task.stages?]
  cases hout : Syscall.serve paging request whole.state journal with
  | refused error => exact error.elim
  | halted cause journal' =>
    rw [hout] at hserve
    rw [Option.map_eq_none_iff.mp hserve.symm]
    rfl
  | done value system' journal' =>
    rw [hout] at hserve
    obtain ⟨⟨stage, journal''⟩, hstaged, heq⟩ := Option.map_eq_some_iff.mp hserve.symm
    cases heq
    rw [hstaged]
    refine (ended_actOnEvents _ journal'').trans ?_
    simp only [Option.bind_eq_bind, Option.bind_some, Option.pure_def]
    cases Task.stages? paging (whole.events.waiting.map .event) stage.after journal'' <;> rfl

/-- An operation that returns leaves behind what its stages say. -/
theorem ended_run (paging : Paging) (operation : Operation) (whole : WithEvents System)
    (journal : Journal) :
    (operation.run paging whole journal).ended =
      (operation.stages? paging whole journal).map fun staged =>
        (⟨operation.eventsAfter whole.events, Stage.last whole.state staged.1⟩, staged.2) := by
  cases operation with
  | launch name entry kernelMode stack =>
    exact (Outcome.ended_discard _ _ _).trans (ended_onState (Task.discard_eq_quiet _))
  | remove pid => exact ended_onState (Task.discard_eq_quiet _)
  | schedule => exact (Outcome.ended_discard _ _ _).trans (ended_onState rfl)
  | tick => exact (Outcome.ended_discard _ _ _).trans (ended_onState Task.discard_clockTick)
  | block =>
    refine (Outcome.ended_discard _ _ _).trans (ended_onState ?_)
    rw [System.block_eq]
    exact Task.discard_eq_pass _
  | wake pid => exact ended_onState (Task.discard_eq_quiet _)
  | sleep ticks =>
    refine (Outcome.ended_discard _ _ _).trans (ended_onState ?_)
    rw [System.sleep_eq]
    exact Task.discard_eq_pass _
  | exit code =>
    refine (Outcome.ended_discard _ _ _).trans (ended_onState ?_)
    rw [System.exit_eq]
    exact Task.discard_eq_pass _
  | kill pid => exact ended_onState ((bind_pure_unit).trans (System.kill_eq pid))
  | actOnEvents =>
    exact (Outcome.ended_discard _ _ _).trans ((Outcome.ended_unrefused _ _ _).trans
      (ended_actOnEvents whole journal))
  | serve request =>
    refine (Outcome.ended_discard _ _ _).trans ((Outcome.ended_unrefused _ _ _).trans ?_)
    rw [WithEvents.ended_onState, Task.ended_serve, stages?, tasks, Task.stages?_singleton]
    cases (Task.serve request).stage? paging whole.state journal <;> rfl
  | timer =>
    exact (Outcome.ended_discard _ _ _).trans ((Outcome.ended_unrefused _ _ _).trans
      (ended_actOnEvents ⟨whole.events.addTick, whole.state⟩ journal))
  | systemCall =>
    exact (Outcome.ended_discard _ _ _).trans ((Outcome.ended_unrefused _ _ _).trans
      (ended_systemCall whole journal))

/-- The stages of an operation that returns lead to what it leaves behind. -/
theorem eq_of_stages? {operation : Operation} {whole' : WithEvents System} {stages : List Stage}
    {journal' : Journal} (hrun : (operation.run paging whole journal).state? = some whole')
    (hstages : operation.stages? paging whole journal = some (stages, journal')) :
    whole' = ⟨operation.eventsAfter whole.events, Stage.last whole.state stages⟩ ∧
      journal' = (operation.run paging whole journal).journal := by
  have hended := ended_run paging operation whole journal
  rw [Outcome.ended_of_state? hrun, hstages] at hended
  cases hended
  exact ⟨rfl, rfl⟩

theorem exists_stages {operation : Operation} {whole' : WithEvents System}
    (hrun : (operation.run paging whole journal).state? = some whole') :
    ∃ stages, operation.stages? paging whole journal =
      some (stages, (operation.run paging whole journal).journal) := by
  have hended := ended_run paging operation whole journal
  rw [Outcome.ended_of_state? hrun] at hended
  obtain ⟨⟨stages, journal'⟩, hstages, heq⟩ := Option.map_eq_some_iff.mp hended.symm
  cases heq
  exact ⟨stages, hstages⟩

end Operation

/-! ## What happens at a stage -/

/-- A deed that does not make a pass. -/
def Deed.Quiet : Deed → Prop
  | launch | remove _ | wake _ | kill _ => True
  | tick | pass _ => False

namespace Task

open Processor

variable {paging : Paging} {task : Task} {system : System} {stage : Stage}
  {journal journal' : Journal}

/-- What a task can do to the table before its pass, and whether the pass is due then. -/
inductive Prepares : Task → ProcessTable → Bool → ProcessTable → Prop where
  /-- A tick passes. -/
  | tick {table : ProcessTable} {due : Bool} : (due = true → table.ticking.TurnOver) →
      Prepares (.event .tick) table due table.ticking
  /-- The current process is about to leave the processor. -/
  | leave {task : Task} {table : ProcessTable} {leave : Leave} : task ≠ .event .tick →
      leave = .stay ∨ table.current ≠ table.idle → Prepares task table true (table.leaving leave)
  /-- Other processes come, go, or change their states. -/
  | quiet {task : Task} {deeds : List Deed} {processor processor' : Processor} :
      task ≠ .event .tick → (∀ deed ∈ deeds, deed.Quiet) → Course deeds processor processor' →
        Prepares task processor.table false processor'.table

theorem Prepares.refl (htask : task ≠ .event .tick) (system : System) :
    Prepares task system.table false system.table := by
  have hnone : Course [] system.processor system.processor := .nil
  exact .quiet htask (List.forall_mem_nil _) hnone

theorem ensures_prepare_tick :
    ((event .tick).prepare paging).Ensures system
      (fun due system' => (event .tick).Prepares system.table due system'.table)
      fun _ system' => (event .tick).Prepares system.table false system'.table := by
  refine System.ensures_beginTick.mono_done fun due system' hdone => ?_
  have htable : system'.table = system.table.ticking := congrArg Processor.table hdone.1
  rw [htable] at hdone ⊢
  exact .tick hdone.2.mp

/-- A task prepares its pass, and it makes none if it is refused. -/
theorem ensures_prepare (h : system.table.Sound) (task : Task) :
    (task.prepare paging).Ensures system
      (fun due system' => task.Prepares system.table due system'.table)
      fun _ system' => task.Prepares system.table false system'.table := by
  rcases eq_or_ne task (.event .tick) with rfl | htask
  · exact ensures_prepare_tick
  have hquiet {deeds : List Deed} (hdeeds : ∀ deed ∈ deeds, deed.Quiet) {system' : System}
      (hcourse : Course deeds system.processor system'.processor) :
      task.Prepares system.table false system'.table := .quiet htask hdeeds hcourse
  have hbegins {leave : Leave} {system' : System} (hbegins : System.Begins leave system system') :
      task.Prepares system.table true system'.table := by
    rw [show system'.table = system.table.leaving leave from congrArg Processor.table hbegins.2]
    exact .leave htask (.inr hbegins.1)
  -- Either the task is a quiet deed, or the current process is about to leave the processor.
  have hdoes {α : Type} {action : Action ProcessError System α} (deed : Deed) (hdeed : deed.Quiet)
      (haction : System.Along [deed] system.processor action system) :
      (do
        let _ ← action
        return false : Action ProcessError System Bool).Ensures system
        (fun due system' => task.Prepares system.table due system'.table)
        fun _ system' => task.Prepares system.table false system'.table :=
    (haction.mono (fun _ _ hcourse => hquiet (List.forall_mem_singleton.mpr hdeed) hcourse)
      fun _ _ hcourse => hquiet (List.forall_mem_singleton.mpr hdeed) hcourse).bind
        fun _ _ hdone => ensures_pure hdone
  have hleaves {action : Action ProcessError System Unit} {leave : Leave}
      (haction : action.Ensures system (fun _ system' => System.Begins leave system system')
        fun _ system' => system' = system) :
      (do
        action
        return true : Action ProcessError System Bool).Ensures system
        (fun due system' => task.Prepares system.table due system'.table)
        fun _ system' => task.Prepares system.table false system'.table := by
    refine (haction.mono (fun _ _ hdone => hdone) ?_).bind
      fun _ _ hdone => ensures_pure (hbegins hdone)
    rintro _ _ rfl
    exact .refl htask _
  cases task with
  | launch name entry kernelMode stack =>
    exact hdoes .launch trivial (System.along_launch name entry kernelMode stack)
  | remove pid => exact hdoes (.remove pid) trivial (System.along_remove pid)
  | pass => exact ensures_pure (.leave htask (.inl rfl))
  | block =>
    exact hleaves (System.ensures_beginBlock.mono (fun _ _ hdone => hdone)
      fun _ _ hstuck => hstuck.1)
  | wake pid => exact hdoes (.wake pid) trivial (System.along_wake pid)
  | sleep ticks =>
    exact hleaves ((System.ensures_beginSleep ticks).mono (fun _ _ hdone => hdone)
      fun _ _ hstuck => hstuck.1)
  | exit code =>
    exact hleaves ((System.ensures_beginExit code).mono (fun _ _ hdone => hdone)
      fun _ _ hstuck => hstuck.1)
  | kill pid =>
    have hdeeds : ∀ deed ∈ [Deed.kill pid, .remove pid], deed.Quiet :=
      List.forall_mem_cons.mpr ⟨trivial, List.forall_mem_singleton.mpr trivial⟩
    refine (System.ensures_beginKill pid).mono (fun due _ hdone => ?_) ?_
    · cases due with
      | true => exact hbegins hdone.2
      | false => exact hquiet hdeeds hdone.2
    · rintro _ _ (rfl | ⟨-, hcourse⟩)
      · exact .refl htask _
      · exact hquiet hdeeds hcourse
  | serve request =>
    refine ensures_unrefused ((Syscall.ensures_beginServe h.currentProcess? request).mono_done
      fun due system' hdone => ?_)
    cases due with
    | true =>
      obtain ⟨leave, -, hidle, -, heq⟩ := hdone
      rw [show system'.table = system.table.leaving leave from congrArg Processor.table heq]
      exact .leave htask hidle
    | false =>
      rw [show system'.table = system.table from congrArg Processor.table hdone]
      exact .refl htask _
  | event event =>
    cases event with
    | tick => exact absurd rfl htask
    | wake pid =>
      exact hdoes (.wake pid) trivial ((ensures_unrefused (System.along_actOn (.wake pid))))

/-- What is known of the preparation of a task and of every pass that it can lead to is known of its
stage. -/
theorem of_stage? {prepared : Bool → System → Prop} {refused : System → Prop}
    {passed : System → System → Prop}
    (hprepare : (task.prepare paging).Yields system journal
      (fun due system' _ => prepared due system') fun _ system' _ => refused system')
    (hpass : ∀ found journal, prepared true found →
      (System.schedule paging : Total System Nat).Yields found journal
        (fun _ system' _ => passed found system') fun _ _ _ => True)
    (hstage : task.stage? paging system journal = some (stage, journal')) :
    (stage.found? = none ∧ (prepared false stage.after ∨ refused stage.after)) ∨
      ∃ found, stage.found? = some found ∧ prepared true found ∧ passed found stage.after := by
  unfold Action.Yields at hprepare
  unfold stage? at hstage
  cases hout : task.prepare paging system journal with
  | halted cause journal'' =>
    rw [hout] at hstage
    cases hstage
  -- A task that is refused makes no pass.
  | refused error system' journal'' =>
    rw [hout] at hstage hprepare
    cases hstage
    exact .inl ⟨rfl, .inr hprepare⟩
  | done due middle journal'' =>
    rw [hout] at hstage hprepare
    cases due with
    | false =>
      cases hstage
      exact .inl ⟨rfl, .inl hprepare⟩
    | true =>
      have hpassed := hpass middle journal'' hprepare
      unfold Action.Yields at hpassed
      dsimp only at hstage
      cases hschedule : (System.schedule paging : Total System Nat) middle journal'' with
      | refused error => exact error.elim
      | halted cause journal₃ =>
        rw [hschedule] at hstage
        cases hstage
      | done next system' journal₃ =>
        rw [hschedule] at hstage hpassed
        cases hstage
        exact .inr ⟨middle, rfl, hprepare, hpassed⟩

/-- A stage is a preparation, and a pass if one is due. -/
theorem stage?_cases (h : system.table.Sound)
    (hstage : task.stage? paging system journal = some (stage, journal')) :
    (stage.found? = none ∧ task.Prepares system.table false stage.after.table) ∨
      ∃ found, stage.found? = some found ∧ task.Prepares system.table true found.table ∧
        Pass found.processor stage.after.processor := by
  have hpass (found : System) (journal : Journal) :
      (System.schedule paging : Total System Nat).Yields found journal
        (fun _ system' _ => Pass found.processor system'.processor) fun _ _ _ => True :=
    (System.ensures_schedule.yields journal).mono (fun _ _ _ hdone => hdone) fun _ _ _ _ => trivial
  rcases of_stage? ((ensures_prepare h task).yields journal) (fun found journal _ =>
    hpass found journal) hstage with ⟨hnone, hprepares⟩ | hpassed
  · exact .inl ⟨hnone, hprepares.elim id id⟩
  · exact .inr hpassed

theorem stages?_cons {tasks : List Task} {stages : List Stage}
    (h : stages? paging (task :: tasks) system journal = some (stages, journal')) :
    ∃ stage middle rest, task.stage? paging system journal = some (stage, middle) ∧
      stages? paging tasks stage.after middle = some (rest, journal') ∧ stages = stage :: rest := by
  obtain ⟨⟨stage, middle⟩, hstage, hrest⟩ := Option.bind_eq_some_iff.mp h
  obtain ⟨⟨rest, journal''⟩, hrest, heq⟩ := Option.bind_eq_some_iff.mp hrest
  cases heq
  exact ⟨stage, middle, rest, hstage, hrest, rfl⟩

end Task

namespace Processor

variable {processor processor' : Processor}

/-- A pass finds a table in which the current process may have stopped running, and leaves a sound
one behind. -/
theorem Pass.sound (h : Pass processor processor') (hschedulable : processor.table.Schedulable) :
    processor'.table.Sound := ((Clearing.path h).sound_carries (sound_turn hschedulable)).1

end Processor

namespace Task

open Processor

variable {paging : Paging} {task : Task} {system : System} {stage : Stage}
  {journal journal' : Journal} {table table' : ProcessTable} {due : Bool}

theorem Prepares.schedulable (h : task.Prepares table due table') (hsound : table.Sound) :
    table'.Schedulable := by
  cases h with
  | tick => exact hsound.ticking.toSchedulable
  | leave _ hidle => exact hsound.leaving hidle
  | quiet _ _ hcourse => exact (hcourse.path.sound_carries hsound).1.toSchedulable

theorem Prepares.sound (h : task.Prepares table false table') (hsound : table.Sound) :
    table'.Sound := by
  cases h with
  | tick => exact hsound.ticking
  | quiet _ _ hcourse => exact (hcourse.path.sound_carries hsound).1

/-- Every stage leaves a sound table behind. -/
theorem sound_of_stage? (h : system.table.Sound)
    (hstage : task.stage? paging system journal = some (stage, journal')) :
    stage.after.table.Sound := by
  rcases stage?_cases h hstage with ⟨-, hprepares⟩ | ⟨found, -, hprepares, hpass⟩
  · exact hprepares.sound h
  · exact hpass.sound (hprepares.schedulable h)

/-- What every stage keeps in sound tables, all of them keep. It may speak of the tasks that are
still to come, and of the stages so far. -/
theorem of_stages? {tasks : List Task} {stages : List Stage}
    (inv : List Task → List Stage → System → Journal → Prop)
    (hstep : ∀ task rest before system journal stage journal', system.table.Sound →
      task.stage? paging system journal = some (stage, journal') →
        inv (task :: rest) before system journal →
          inv rest (before ++ [stage]) stage.after journal')
    (hsound : system.table.Sound)
    (h : stages? paging tasks system journal = some (stages, journal'))
    (hinv : inv tasks [] system journal) : inv [] stages (Stage.last system stages) journal' := by
  suffices hgeneral : ∀ before, inv tasks before system journal →
      inv [] (before ++ stages) (Stage.last system stages) journal' from hgeneral [] hinv
  clear hinv
  induction tasks generalizing system journal stages with
  | nil =>
    intro before hinv
    cases h
    rw [List.append_nil]
    exact hinv
  | cons task rest ih =>
    intro before hinv
    obtain ⟨stage, middle, rest', hstage, hrest, rfl⟩ := stages?_cons h
    have hlast := ih (sound_of_stage? hsound hstage) hrest _
      (hstep task rest before system journal stage middle hsound hstage hinv)
    rw [List.append_assoc, List.singleton_append] at hlast
    exact hlast

end Task

end KernelResources
