import KernelResources.Proofs.Process.Reserved

/-!
# Refused operations on processes

A refusal keeps what was changed before it, so an operation that may be refused has to look at
everything first. The operations on single processes do, with one exception: whoever ends a process
that is not current marks it before it is removed, and the removal is refused if a caller has the
space of the process loaded. Then the process stays in the table, marked as ended.

* `Action.Atomic`: an action that is refused has changed nothing.
* `Operation.Checked`: the operations on single processes, apart from that exception.
* `refusals_of_ran`: what is left of the system when such an operation is refused.
* `ended_of_refusal`: a process that could run, and cannot any more after a refusal.
-/

namespace KernelResources

open Paging

/-! ## Actions that change nothing if they are refused -/

/-- If the action is refused, the state is what it was before. -/
def Action.Atomic {ε σ α : Type} (action : Action ε σ α) (state : σ) : Prop :=
  action.Ensures state (fun _ _ => True) fun _ state' => state' = state

section Atomic

variable {ε σ α : Type} {action : Action ε σ α}

theorem Action.Ensures.atomic {state : σ} {done : α → σ → Prop} {refused : ε → σ → Prop}
    (h : action.Ensures state done refused)
    (hrefused : ∀ error state', refused error state' → state' = state) : action.Atomic state :=
  h.mono (fun _ _ _ => trivial) hrefused

theorem Action.Atomic.discard {state : σ} (h : action.Atomic state) :
    (do let _ ← action : Action ε σ Unit).Atomic state :=
  h.bind fun _ _ _ => ensures_pure trivial

theorem WithEvents.atomic_onState {whole : WithEvents σ} (h : action.Atomic whole.state) :
    (onState action).Atomic whole := by
  refine Action.ensures_within (h.mono (fun _ _ _ => trivial) ?_)
  rintro _ _ rfl
  rfl

end Atomic

namespace System

variable {paging : Paging} {pool : FramePool} {outer : List AddressSpace} {held : List Nat}
  {system : System} {process : Process} {pid : Nat}

theorem atomic_block : (block paging).Atomic system :=
  ensures_block.atomic fun _ _ hrefused => hrefused.1

theorem atomic_exit (code : Int32) : (exit paging code).Atomic system :=
  (ensures_exit code).atomic fun _ _ hrefused => hrefused.1

/-- When a sleeper is about to wait, it has been looked up already. -/
theorem atomic_sleep (ticks : Nat) : (sleep paging ticks).Atomic system := by
  rw [sleep_eq]
  refine ((ensures_beginSleep ticks).mono (fun _ _ hbegins => hbegins)
    fun _ _ hstuck => hstuck.1).bind fun _ middle _ => ?_
  exact ensures_schedule.mono (fun _ _ _ => trivial) fun _ _ => False.elim

theorem atomic_wake (pid : Nat) : (wake pid).Atomic system :=
  Action.ensures_bind (ensures_findProcess (fun _ => rfl) fun _ _ =>
    Action.ensures_bind (Action.ensures_refuseIf (fun _ => rfl) fun _ =>
      ensures_modifyTable trivial))

/-- A process is looked up with its space before it is taken out of the table, so no refusal is left
for later. -/
theorem Balanced.ensures_remove (h : Balanced paging pool outer held system) (pid : Nat) :
    (remove paging pid).Ensures system (fun _ _ => True)
      fun _ system' => system' = system ∧ (system.table.Stays pid ∨ system.Lingers pid) :=
  Action.ensures_of_yields fun _ => (yields_remove h.consistent h.nodup pid).mono
    (fun _ _ _ _ => trivial) fun _ _ _ hrefused => ⟨hrefused.1, hrefused.2.2⟩

theorem Balanced.atomic_remove (h : Balanced paging pool outer held system) (pid : Nat) :
    (remove paging pid).Atomic system :=
  (h.ensures_remove pid).atomic fun _ _ hrefused => hrefused.1

/-- A process that somebody else ends. -/
def killed (process : Process) : Process :=
  { process with state := .terminated, exitCode := some killedCode }

/-- The system when a process is marked as ended. -/
def marking (pid : Nat) (system : System) : System :=
  { system with table := system.table.update pid killed }

theorem find?_marking (hfind : system.table.find? pid = some process) :
    (system.marking pid).table.find? pid = some (killed process) := by
  have hpid (process : Process) : (killed process).pid = process.pid := rfl
  rw [marking, ProcessTable.find?_update hpid, if_pos rfl, hfind]
  rfl

/-- A process that was marked as ended and is not current has to go, unless its space is loaded. -/
theorem lingers_of_marking (hcurrent : pid ≠ system.table.current)
    (hidle : pid ≠ system.table.idle) (hfind : system.table.find? pid = some process)
    (hkept : (system.marking pid).table.Stays pid ∨ (system.marking pid).Lingers pid) :
    system.Lingers pid := by
  rcases hkept with hstays | ⟨hcurrent, marked, hmarked, hpid, hspace⟩
  -- One that has ended neither runs nor is one of the two that have to stay.
  · rcases hstays _ (find?_marking hfind) with heq | heq | hrunning
    · exact absurd heq hcurrent
    · exact absurd heq hidle
    · cases hrunning
  -- The mark is neither on the pid nor on the space.
  · obtain ⟨before, hbefore, rfl⟩ := List.mem_map.mp hmarked
    refine ⟨hcurrent, before, hbefore, ?_, ?_⟩
    · split at hpid
      · exact hpid
      · exact hpid
    · split at hspace
      · exact hspace
      · exact hspace

/-- Ending a process changes nothing if it is refused, unless the space of the process is loaded. -/
theorem Balanced.atomic_kill (h : Balanced paging pool outer held system)
    (hlingers : ¬system.Lingers pid) : (kill paging pid).Atomic system := by
  refine ensures_getTable (Action.ensures_bind (Action.ensures_refuseIf (fun _ => rfl)
    fun hidle => ?_))
  split
  · exact (atomic_exit killedCode).discard
  · next hcurrent =>
    refine Action.ensures_bind (ensures_findProcess (fun _ => rfl) fun process hfind =>
      Action.ensures_bind (ensures_modifyTable ?_))
    have hmarked : Balanced paging pool outer held (system.marking pid) :=
      h.update (fun _ => rfl) fun _ => rfl
    refine (hmarked.ensures_remove pid).mono (fun _ _ _ => trivial) ?_
    rintro _ _ ⟨-, hkept⟩
    exact absurd (lingers_of_marking hcurrent hidle hfind hkept) hlingers

theorem findProcess_of_find? (hfind : system.table.find? pid = some process) (journal : Journal) :
    findProcess pid system journal = .done process system journal := by
  show (Action.ofOption ProcessError.noSuchProcess (system.table.find? pid) : Action _ _ _) system
    journal = _
  rw [hfind]
  rfl

theorem remove_of_loaded {space : AddressSpace} (hfind : system.table.find? pid = some process)
    (hfree : ¬(pid = system.table.current ∨ pid = system.table.idle ∨ process.state = .running))
    (hspace : process.space = .user space) (hactive : space.directory = system.machine.active)
    (journal : Journal) :
    remove paging pid system journal = .refused .invalidOperation system journal := by
  rw [remove, Action.bind_of_done (findProcess_of_find? hfind journal)]
  show (Action.refuseIf _ _ >>= _ : Action _ _ _) system journal = _
  rw [Action.refuseIf_of_neg hfree, pure_bind, hspace]
  show (Action.refuseIf _ _ >>= _ : Action _ _ _) system journal = _
  rw [Action.refuseIf_of_pos hactive]
  rfl

/-- A process whose space is loaded although it is not current is marked as ended and stays. -/
theorem kill_of_lingers (hnodup : system.table.pids.Nodup) (hlingers : system.Lingers pid)
    (hidle : pid ≠ system.table.idle) (journal : Journal) :
    kill paging pid system journal = .refused .invalidOperation (system.marking pid) journal := by
  obtain ⟨hcurrent, process, hprocess, rfl, space, hspace, hactive⟩ := hlingers
  have hfind := ProcessTable.find?_of_nodup hnodup hprocess
  have huser : process.space = .user space := by
    cases hhome : process.space with
    | kernel => rw [hhome] at hspace; cases hspace
    | user other => rw [hhome] at hspace; cases hspace; rfl
  show (Action.refuseIf _ _ >>= _ : Action _ _ _) system journal = _
  rw [Action.refuseIf_of_neg hidle, pure_bind, if_neg hcurrent,
    Action.bind_of_done (findProcess_of_find? hfind journal)]
  -- The marked process passes every check but the last one, which is about its space.
  have hfree : ¬(process.pid = system.table.current ∨ process.pid = system.table.idle ∨
      (killed process).state = .running) := by
    rintro (heq | heq | hrunning)
    · exact hcurrent heq
    · exact hidle heq
    · cases hrunning
  show remove paging process.pid (system.marking process.pid) journal = _
  exact remove_of_loaded (find?_marking hfind) hfree huser hactive journal

end System

/-! ## Runs -/

/-- The operations on single processes that may be refused, apart from one that ends a process whose
space is loaded although the process is not current. -/
def Operation.Checked (whole : WithEvents System) : Operation → Prop
  | remove _ | wake _ | block | sleep _ | exit _ => True
  | kill pid => ¬whole.state.Lingers pid
  | launch _ _ _ _ | schedule | tick | actOnEvents | serve _ | timer | systemCall => False

theorem Operation.atomic_of_checked {paging : Paging} {pool : FramePool}
    {outer : List AddressSpace} {held : List Nat} {whole : WithEvents System}
    (h : whole.state.Balanced paging pool outer held) {operation : Operation}
    (hchecked : operation.Checked whole) : (operation.run paging).Atomic whole := by
  cases operation with
  | remove pid => exact WithEvents.atomic_onState (h.atomic_remove pid)
  | wake pid => exact WithEvents.atomic_onState (System.atomic_wake pid)
  | block => exact (WithEvents.atomic_onState System.atomic_block).discard
  | sleep ticks => exact (WithEvents.atomic_onState (System.atomic_sleep ticks)).discard
  | exit code => exact (WithEvents.atomic_onState (System.atomic_exit code)).discard
  | kill pid => exact WithEvents.atomic_onState (h.atomic_kill hchecked)
  | launch _ _ _ _ | schedule | tick | actOnEvents | serve _ | timer | systemCall =>
    exact hchecked.elim

/-- After any run in which processes and callers take turns, with any registers on the processor and
any events waiting, an operation that removes, wakes or ends a process, or with which the current
process waits, sleeps or exits, changes nothing if it is refused: neither the machine nor the
processes nor the registers nor the events. Only one thing is different: if a process other than the
current one is to be ended while its space is loaded, this is refused as well, but the process is
marked as ended all the same. -/
theorem refusals_of_ran {layout : Layout} {start : Machine} {paging : Paging} {tenancy : Tenancy}
    {whole : WithEvents System} (hpool : start.frames.Reachable)
    (htotal : start.frames.total ≤ bitRange 20) (h : tenancy.Ran layout start paging)
    (hmachine : whole.state.machine = tenancy.system.machine)
    (htable : whole.state.table = tenancy.system.table) :
    (∀ operation : Operation, operation.Checked whole → ∀ journal error whole' journal',
      operation.run paging whole journal = .refused error whole' journal' → whole' = whole) ∧
    ∀ pid, whole.state.Lingers pid → pid ≠ whole.state.table.idle → ∀ journal,
      (Operation.kill pid).run paging whole journal = .refused .invalidOperation
        { whole with state := whole.state.marking pid } journal := by
  have hbalanced : whole.state.Balanced paging start.frames tenancy.spaces tenancy.held :=
    (h.balanced (FramePool.consistent_of_reachable hpool) htotal).congr hmachine (htable ▸ rfl)
      (htable ▸ rfl)
  constructor
  · intro operation hchecked journal error whole' journal' hrun
    have hatomic := Operation.atomic_of_checked hbalanced hchecked journal
    rwa [hrun] at hatomic
  · intro pid hlingers hidle journal
    have hkill : System.kill paging pid whole.state journal = _ :=
      System.kill_of_lingers hbalanced.nodup hlingers hidle journal
    show WithEvents.onState (System.kill paging pid) whole journal = _
    rw [WithEvents.onState, Action.within_of_refused hkill]

/-! ## Computed runs -/

namespace Tenancy

/-- In eight frames, a user process is made, and a caller has its space loaded before it is given
the processor. -/
def borrowing? : Option (Paging × Tenancy) := do
  let (paging, booted) ← System.booted? smallLayout smallMachine
  let launched ← after? paging (.launch "init" userSpaceStart false (some ⟨0⟩)) ⟨booted, [], []⟩
  guard (⟨2⟩ ∈ launched.live paging)
  let borrowing ← launched.step paging (.activate ⟨2⟩) #[]
  return (paging, borrowing)

variable {layout : Layout} {start : Machine} {paging : Paging} {tenancy tenancy' : Tenancy}

theorem Ran.of_after? {operation : Operation} (h : Ran layout start paging tenancy)
    (hafter : tenancy.after? paging operation = some tenancy') :
    Ran layout start paging tenancy' := by
  obtain ⟨whole, hrun, rfl⟩ := Option.map_eq_some_iff.mp hafter
  exact h.operate rfl rfl hrun

theorem ran_of_borrowing? (h : borrowing? = some (paging, tenancy)) :
    Ran smallLayout smallMachine paging tenancy := by
  unfold borrowing? at h
  obtain ⟨⟨paging', booted⟩, hbooted, h⟩ := Option.bind_eq_some_iff.mp h
  obtain ⟨launched, hlaunched, h⟩ := Option.bind_eq_some_iff.mp h
  obtain ⟨_, hlive, h⟩ := Option.bind_eq_some_iff.mp h
  obtain ⟨borrowing, hstep, h⟩ := Option.bind_eq_some_iff.mp h
  cases h
  have hlaunch := (ran_of_booted? hbooted).of_after? hlaunched
  unfold guard at hlive
  split at hlive
  · next hpermits =>
    have hpermitted : launched.Permits paging (.activate ⟨2⟩) := hpermits
    exact hlaunch.request hpermitted hstep
  · cases hlive

end Tenancy

/-- A caller has the space of a process loaded. To remove the process is refused, which changes
nothing; to end it is refused as well, and marks it as ended. -/
theorem refusals_of_borrowing :
    ∃ paging tenancy, Tenancy.Ran smallLayout smallMachine paging tenancy ∧
      (∃ error whole journal, (Operation.remove 2).run paging ⟨.ofCapacity 1, tenancy.system⟩ #[] =
        .refused error whole journal ∧ whole = ⟨.ofCapacity 1, tenancy.system⟩) ∧
      (Operation.kill 2).run paging ⟨.ofCapacity 1, tenancy.system⟩ #[] =
        .refused .invalidOperation ⟨.ofCapacity 1, tenancy.system.marking 2⟩ #[] := by
  have hpool : smallMachine.frames.Reachable := .allFree (by decide)
  have hrun : Tenancy.borrowing?.any (fun run =>
      ((Operation.remove 2).run run.1 ⟨.ofCapacity 1, run.2.system⟩ #[]).failsWith fun _ _ _ =>
        decide (2 ≠ run.2.system.table.current ∧ 2 ≠ run.2.system.table.idle ∧
          ∃ process ∈ run.2.system.table.processes, process.pid = 2 ∧
            process.space = .user ⟨run.2.system.machine.active⟩)) = true := by decide +kernel
  obtain ⟨⟨paging, tenancy⟩, htenancy, hrun⟩ := (Option.any_eq_true _ _).mp hrun
  obtain ⟨error, whole, journal, hremove, hfacts⟩ := Outcome.failsWith_iff.mp hrun
  obtain ⟨hcurrent, hidle, process, hprocess, hpid, hspace⟩ := of_decide_eq_true hfacts
  have hran := Tenancy.ran_of_borrowing? htenancy
  have hlingers : tenancy.system.Lingers 2 :=
    ⟨hcurrent, process, hprocess, hpid, _, congrArg ProcessSpace.user? hspace, rfl⟩
  let entered : WithEvents System := ⟨.ofCapacity 1, tenancy.system⟩
  have hmachine : entered.state.machine = tenancy.system.machine := rfl
  obtain ⟨hchecked, hkill⟩ := refusals_of_ran hpool (by decide) hran hmachine rfl
  exact ⟨paging, tenancy, hran,
    ⟨error, whole, journal, hremove, hchecked (.remove 2) trivial _ _ _ _ hremove⟩,
    hkill 2 hlingers hidle #[]⟩

/-- A process could run, and to end it is refused, for its space is loaded. Yet it has ended
afterwards. -/
theorem ended_of_refusal :
    ∃ paging tenancy error whole' journal', Tenancy.Ran smallLayout smallMachine paging tenancy ∧
      tenancy.system.table.state? 2 = some .ready ∧
      (Operation.kill 2).run paging ⟨.ofCapacity 1, tenancy.system⟩ #[] =
        .refused error whole' journal' ∧
      whole'.state.table.state? 2 = some .terminated := by
  have hrun : Tenancy.borrowing?.any (fun run =>
      ((Operation.kill 2).run run.1 ⟨.ofCapacity 1, run.2.system⟩ #[]).failsWith
        fun _ whole' _ => decide (run.2.system.table.state? 2 = some .ready ∧
          whole'.state.table.state? 2 = some .terminated)) = true := by decide +kernel
  obtain ⟨⟨paging, tenancy⟩, htenancy, hrun⟩ := (Option.any_eq_true _ _).mp hrun
  obtain ⟨error, whole', journal', hkill, hfacts⟩ := Outcome.failsWith_iff.mp hrun
  obtain ⟨hready, hended⟩ := of_decide_eq_true hfacts
  exact ⟨paging, tenancy, error, whole', journal', Tenancy.ran_of_borrowing? htenancy, hready,
    hkill, hended⟩

end KernelResources
