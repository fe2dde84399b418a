import KernelResources.Proofs.Paging.Loads
import KernelResources.Proofs.Process.Runs

/-!
# What operations on processes are made of

An operation on processes is put together from few things: changes of single processes, notices, the
answer to a system call, going over to another process, and removing processes. What all of these
keep, every operation keeps, except for `launch`, which adds a process.

* `System.Stable` says of an invariant of the system that it withstands these things.
* There is one lemma for each part of the scheduler, up to `Stable.keeps_run` for operations.
-/

namespace KernelResources

/-- The process stays where it is, with the registers that are saved for it. -/
structure Process.Settled (process process' : Process) : Prop where
  pid_eq : process'.pid = process.pid
  space_eq : process'.space = process.space
  context_eq : process'.context = process.context

theorem System.settled_wakeParent (process : Process) : process.Settled (wakeParent process) := by
  unfold wakeParent
  split <;> exact ⟨rfl, rfl, rfl⟩

/-- Whether an operation creates a process. -/
def Operation.Launches : Operation → Prop
  | launch .. => True
  | _ => False

/-! ## Rules -/

namespace System

variable {ε α : Type} {system : System} {journal : Journal} {inv : System → Journal → Prop}
  {done : α → System → Journal → Prop} {refused : ε → System → Journal → Prop}

theorem yields_getTable {next : ProcessTable → Action ε System α}
    (h : (next system.table).Yields system journal done refused) :
    (getTable >>= next).Yields system journal done refused := Action.yields_get h

theorem yields_modifyTable {tableAfter : ProcessTable → ProcessTable}
    {done : Unit → System → Journal → Prop}
    (h : done () { system with table := tableAfter system.table } journal) :
    (modifyTable tableAfter : Action ε System Unit).Yields system journal done refused :=
  Action.yields_modify h

theorem yields_findProcess {pid : Nat} {done : Process → System → Journal → Prop}
    {refused : ProcessError → System → Journal → Prop}
    (hrefused : system.table.find? pid = none → refused .noSuchProcess system journal)
    (hdone : ∀ process, system.table.find? pid = some process → done process system journal) :
    (findProcess pid).Yields system journal done refused :=
  yields_getTable (Action.yields_ofOption hrefused hdone)

theorem yields_onMemory {action : Action MemoryError Machine α}
    {refused : ProcessError → System → Journal → Prop}
    (h : action.Yields system.machine journal
      (fun value machine => done value { system with machine })
      fun error machine => refused (.memory error) { system with machine }) :
    (onMemory action).Yields system journal done refused :=
  Action.yields_within (Action.yields_mapError h)

theorem keeps_getTable {next : ProcessTable → Action ε System α}
    (h : ∀ table, (next table).Keeps inv) : (getTable >>= next).Keeps inv :=
  Action.keeps_get fun _ => Action.Keeps.bind (Action.keeps_pure _) h

end System

namespace WithEvents

variable {ε σ α : Type} {handle : Event → Total σ Unit} {inv : σ → Journal → Prop}

/-- What an action keeps of the inner state, it keeps with events around it. -/
theorem keeps_onState {action : Action ε σ α} (h : action.Keeps inv) :
    (onState action).Keeps fun whole => inv whole.state :=
  fun whole journal hinv => Action.yields_within (h whole.state journal hinv)

theorem keeps_drainLine (hhandle : ∀ event, (handle event).Keeps inv) (rounds : Nat) :
    (drainLine handle rounds).Keeps fun whole => inv whole.state := by
  induction rounds with
  | zero => exact Action.keeps_pure ()
  | succ rounds ih =>
    refine Action.keeps_get fun whole => ?_
    split
    · exact Action.keeps_pure ()
    · exact Action.Keeps.bind (Action.keeps_modify fun _ _ hinv => hinv) fun _ =>
        (keeps_onState (hhandle _)).bind fun _ => ih

theorem keeps_replayTicks (hhandle : ∀ event, (handle event).Keeps inv) (count : Nat) :
    (replayTicks handle count).Keeps fun whole => inv whole.state := by
  induction count with
  | zero => exact Action.keeps_pure ()
  | succ count ih => exact (keeps_onState (hhandle .tick)).bind fun _ => ih

/-- What every event keeps of the inner state, handing all of them over keeps. -/
theorem keeps_drain (hhandle : ∀ event, (handle event).Keeps inv) :
    (drain handle).Keeps fun whole => inv whole.state :=
  Action.keeps_get fun _ => (keeps_drainLine hhandle _).bind fun _ => Action.keeps_get fun _ =>
    Action.Keeps.bind (Action.keeps_modify fun _ _ hinv => hinv) fun _ =>
      keeps_replayTicks hhandle _

end WithEvents

/-! ## Stable invariants -/

/-- The invariant withstands everything that operations on processes are made of, except that a
process is added. -/
structure System.Stable (paging : Paging) (inv : System → Journal → Prop) : Prop where
  /-- A notice, unless it reports a switch or a removal that failed. -/
  note : ∀ {system journal notice}, inv system journal → Notice.switch? notice = none →
    notice.isReapFailure = false → inv system (journal.push notice)
  /-- A change of a single process that leaves it where it is, and that does not end the idle
  one. -/
  update : ∀ {system journal pid change}, inv system journal →
    (∀ process : Process, process.Settled (change process)) →
      (pid ≠ system.table.idle ∨
        ∀ process, process.state ≠ .terminated → (change process).state ≠ .terminated) →
          inv { system with table := system.table.update pid change } journal
  /-- The time goes on, and sleepers wake. -/
  wakeDue : ∀ {system journal} clock, inv system journal →
    inv { system with table := { system.table with clock }.updateAll (wakeIfDue clock) } journal
  /-- An answer is left in a register. -/
  answer : ∀ {system journal} result, inv system journal →
    inv { system with cpu := { system.cpu with eax := result } } journal
  /-- The processor goes to another process. -/
  keeps_dispatch : ∀ {ε : Type} next, (dispatch paging next : Action ε System Unit).Keeps inv
  /-- The processes that have ended are removed. -/
  keeps_removeEnded : ∀ {ε : Type} outgoing,
    (removeEnded paging outgoing : Action ε System Unit).Keeps inv
  /-- A process is removed. -/
  keeps_remove : ∀ pid, (remove paging pid).Keeps inv

namespace System.Stable

variable {ε : Type} {paging : Paging} {inv : System → Journal → Prop}
  {change : Process → Process} {notice : Notice} (h : Stable paging inv)
include h

theorem keeps_note (hswitch : notice.switch? = none) (hfailure : notice.isReapFailure = false) :
    (Action.note notice : Action ε System Unit).Keeps inv :=
  fun _ _ hinv => Action.yields_note (h.note hinv hswitch hfailure)

theorem keeps_modifyProcess (pid : Nat)
    (hchange : ∀ process : Process, process.Settled (change process))
    (hlives : ∀ process, process.state ≠ .terminated → (change process).state ≠ .terminated) :
    (modifyProcess pid change : Action ε System Unit).Keeps inv :=
  Action.keeps_modify fun _ _ hinv => h.update hinv hchange (.inr hlives)

/-! ### Passes and ticks -/

theorem keeps_schedule : (schedule paging : Action ε System Nat).Keeps inv := by
  have hrest (outgoing : Nat) : (do
      removeEnded paging outgoing
      return (← getTable).current : Action ε System Nat).Keeps inv :=
    (h.keeps_removeEnded outgoing).bind fun _ => keeps_getTable fun _ => Action.keeps_pure _
  refine keeps_getTable fun table => ?_
  dsimp only
  split
  · exact (h.keeps_dispatch _).bind fun _ => hrest _
  · exact Action.Keeps.bind (h.keeps_modifyProcess _ (fun _ => ⟨rfl, rfl, rfl⟩)
      fun _ hstate => hstate) fun _ => hrest _

theorem keeps_charge : (charge : Action ε System Bool).Keeps inv := by
  refine keeps_getTable fun table => ?_
  split
  · exact Action.keeps_pure _
  · refine Action.Keeps.bind (Action.keeps_ite_halt _ _ _) fun _ => ?_
    exact Action.Keeps.bind (h.keeps_modifyProcess _ (fun _ => ⟨rfl, rfl, rfl⟩)
      fun _ hstate => hstate) fun _ => Action.keeps_pure _

theorem keeps_beginTick : (beginTick : Action ε System Bool).Keeps inv := by
  refine keeps_getTable fun table => Action.Keeps.bind (Action.keeps_ite_halt _ _ _) fun clock => ?_
  refine Action.Keeps.bind (Action.keeps_modify fun _ _ hinv => h.wakeDue clock hinv) fun _ => ?_
  exact h.keeps_charge.bind fun expired => keeps_getTable fun table => Action.keeps_pure _

theorem keeps_clockTick : (clockTick paging : Action ε System Nat).Keeps inv := by
  rw [clockTick_eq]
  refine h.keeps_beginTick.bind fun due => ?_
  split
  · exact h.keeps_schedule
  · exact keeps_getTable fun _ => Action.keeps_pure _

/-! ### Waiting and ending -/

omit h in
theorem keeps_findProcess (pid : Nat) : (findProcess pid).Keeps inv :=
  keeps_getTable fun _ => Action.keeps_ofOption _ _

omit h in
theorem keeps_waitingCandidate : waitingCandidate.Keeps inv :=
  keeps_getTable fun _ => (Action.keeps_refuseIf _ _).bind fun _ => keeps_findProcess _

theorem keeps_beginBlock : beginBlock.Keeps inv :=
  keeps_waitingCandidate.bind fun _ =>
    h.keeps_modifyProcess _ (fun _ => ⟨rfl, rfl, rfl⟩) fun _ _ => nofun

theorem keeps_block : (block paging).Keeps inv := by
  rw [block_eq]
  exact h.keeps_beginBlock.bind fun _ => h.keeps_schedule

theorem keeps_wake (pid : Nat) : (wake pid).Keeps inv := by
  refine (keeps_findProcess pid).bind fun process => (Action.keeps_refuseIf _ _).bind fun _ => ?_
  exact h.keeps_modifyProcess _ (fun _ => ⟨rfl, rfl, rfl⟩) fun _ _ => nofun

theorem keeps_beginSleep (ticks : Nat) : (beginSleep ticks).Keeps inv := by
  refine keeps_getTable fun table => (Action.keeps_refuseIf _ _).bind fun _ => ?_
  split
  · exact Action.keeps_pure _
  · refine Action.Keeps.bind (Action.keeps_ite_halt _ _ _) fun wakeAt =>
      (keeps_findProcess _).bind fun process => ?_
    -- Once the deadline is written down, the process waits as for anything else.
    refine Action.Keeps.bind (h.keeps_modifyProcess _ (fun _ => ⟨rfl, rfl, rfl⟩)
      fun _ hstate => hstate) fun _ => ?_
    exact Action.Keeps.bind (h.keeps_note rfl rfl) fun _ => h.keeps_beginBlock

theorem keeps_sleep (ticks : Nat) : (sleep paging ticks).Keeps inv := by
  rw [sleep_eq]
  exact (h.keeps_beginSleep ticks).bind fun _ => h.keeps_schedule

theorem keeps_wakeParent (pid : Nat) :
    (modifyProcess pid wakeParent : Action ε System Unit).Keeps inv := by
  refine h.keeps_modifyProcess pid settled_wakeParent fun process hstate => ?_
  unfold wakeParent
  split
  · exact nofun
  · exact hstate

/-- The process that exits is not the idle one, so it may end. -/
theorem keeps_beginExit (code : Int32) : (beginExit code).Keeps inv := by
  intro system journal hinv
  refine Action.yields_bind (yields_getTable (Action.yields_bind (Action.yields_refuseIf
    (fun _ => hinv) fun hidle => yields_findProcess (fun _ => hinv) fun process hfind => ?_)))
  rw [ProcessTable.pid_of_find? hfind]
  refine Action.yields_bind (yields_modifyTable ?_)
  refine (h.keeps_note rfl rfl).bind (fun _ => ?_) _ _
    (h.update hinv (fun _ => ⟨rfl, rfl, rfl⟩) (.inl hidle))
  split
  · exact h.keeps_wakeParent _
  · exact Action.keeps_pure _

theorem keeps_exit (code : Int32) : (exit paging code).Keeps inv := by
  rw [exit_eq]
  exact (h.keeps_beginExit code).bind fun _ => h.keeps_schedule

/-- Nor is the process idle that is ended by another. -/
theorem keeps_beginKill (pid : Nat) : (beginKill paging pid).Keeps inv := by
  intro system journal hinv
  refine yields_getTable (Action.yields_bind (Action.yields_refuseIf (fun _ => hinv)
    fun hidle => ?_))
  split
  · exact (h.keeps_beginExit _).bind (fun _ => Action.keeps_pure true) system journal hinv
  · refine Action.yields_bind (yields_findProcess (fun _ => hinv) fun process hfind =>
      Action.yields_bind (yields_modifyTable ?_))
    exact (h.keeps_remove pid).bind (fun _ => Action.keeps_pure false) _ journal
      (h.update hinv (fun _ => ⟨rfl, rfl, rfl⟩) (.inl hidle))

theorem keeps_kill (pid : Nat) : (kill paging pid).Keeps inv := by
  rw [kill_eq]
  refine (h.keeps_beginKill pid).bind fun due => ?_
  split
  · exact h.keeps_schedule.bind fun _ => Action.keeps_pure ()
  · exact Action.keeps_pure ()

/-! ### System calls -/

theorem keeps_answer (result : UInt32) : (Syscall.answer result).Keeps inv :=
  Action.Keeps.bind (Action.keeps_modify fun _ _ hinv => h.answer result hinv)
    fun _ => Action.keeps_pure _

theorem keeps_beginServe (request : Syscall.Request) :
    (Syscall.beginServe request).Keeps inv := by
  have hanswer (result : UInt32) (due : Bool) : (do
      let _ ← Syscall.answer result
      return due : Total System Bool).Keeps inv :=
    (h.keeps_answer result).bind fun _ => Action.keeps_pure due
  unfold Syscall.beginServe
  split
  -- The calls in the order in which the kernel tells them apart: exit, the pids, yield, others.
  · refine (h.keeps_beginExit _).attempt.bind fun result => ?_
    cases result with
    | ok value => exact Action.keeps_pure _
    | error error =>
      exact keeps_getTable fun table => (h.keeps_note rfl rfl).bind fun _ => hanswer _ _
  · split
    · exact keeps_getTable fun table => hanswer _ _
    · split
      · exact keeps_getTable fun table => hanswer _ _
      · split
        · exact hanswer _ _
        · exact keeps_getTable fun table => (h.keeps_note rfl rfl).bind fun _ => hanswer _ _

theorem keeps_serve (request : Syscall.Request) : (Syscall.serve paging request).Keeps inv := by
  refine Action.keeps_of_discard ?_
  rw [Syscall.serve_eq]
  refine (h.keeps_beginServe request).bind fun due => ?_
  split
  · exact h.keeps_schedule.bind fun _ => Action.keeps_pure ()
  · exact Action.keeps_pure ()

/-! ### Events and traps -/

theorem keeps_actOn (event : Event) : (actOn paging event).Keeps inv := by
  cases event with
  | tick => exact h.keeps_clockTick.bind fun _ => Action.keeps_pure ()
  | wake pid =>
    refine (h.keeps_wake pid).attempt.bind fun result => ?_
    cases result with
    | ok value => exact Action.keeps_pure ()
    | error error => exact h.keeps_note rfl rfl

theorem keeps_actOnEvents : (actOnEvents paging).Keeps fun whole => inv whole.state :=
  (WithEvents.keeps_drain h.keeps_actOn).bind fun _ => Action.keeps_get fun _ =>
    Action.keeps_pure _

theorem keeps_timer : (Trap.timer paging).Keeps fun whole => inv whole.state :=
  Action.Keeps.bind (Action.keeps_modify fun _ _ hinv => hinv) fun _ => h.keeps_actOnEvents

theorem keeps_systemCall : (Trap.systemCall paging).Keeps fun whole => inv whole.state :=
  Action.keeps_get fun _ => (WithEvents.keeps_onState (h.keeps_serve _)).bind fun _ =>
    h.keeps_actOnEvents

/-- Every operation keeps a stable invariant, unless it creates a process. -/
theorem keeps_run {operation : Operation} (hlaunch : ¬operation.Launches) :
    (operation.run paging).Keeps fun whole => inv whole.state := by
  cases operation with
  -- Operations differ in what they run and in the answer they give, not in what they change.
  | launch name entry kernelMode stack => exact absurd trivial hlaunch
  | remove pid => exact WithEvents.keeps_onState (h.keeps_remove pid)
  | schedule =>
    exact (WithEvents.keeps_onState h.keeps_schedule).bind fun _ => Action.keeps_pure ()
  | tick => exact (WithEvents.keeps_onState h.keeps_clockTick).bind fun _ => Action.keeps_pure ()
  | block => exact (WithEvents.keeps_onState h.keeps_block).bind fun _ => Action.keeps_pure ()
  | wake pid => exact WithEvents.keeps_onState (h.keeps_wake pid)
  | sleep ticks =>
    exact (WithEvents.keeps_onState (h.keeps_sleep ticks)).bind fun _ => Action.keeps_pure ()
  | exit code =>
    exact (WithEvents.keeps_onState (h.keeps_exit code)).bind fun _ => Action.keeps_pure ()
  | kill pid => exact WithEvents.keeps_onState (h.keeps_kill pid)
  | actOnEvents => exact (h.keeps_actOnEvents.mapError _).bind fun _ => Action.keeps_pure ()
  | serve request =>
    exact ((WithEvents.keeps_onState (h.keeps_serve request)).mapError _).bind
      fun _ => Action.keeps_pure ()
  | timer => exact (h.keeps_timer.mapError _).bind fun _ => Action.keeps_pure ()
  | systemCall => exact (h.keeps_systemCall.mapError _).bind fun _ => Action.keeps_pure ()

end System.Stable

end KernelResources
