import KernelResources.Proofs.Process.Changes
import KernelResources.Proofs.Process.Runs

/-!
# The stack that a trap runs on

A trap runs on the kernel stack of the process that it interrupted, so that process must not be
removed before the trap returns. A pass spares the process that it takes the processor from, but a
trap can make several passes: the system call may make one, and so may every tick that it replays.

* `Pass.exists`: a process that has not ended survives any pass.
* `Spared`: a process that has ended survives the pass that ended it, and then any events whose
  ticks leave the turn of the next process unfinished.
* `continues_of_reachable`: the interrupted process survives every trap, except one in which it ends
  and which then replays the whole turn of the process that comes next.
* `released_of_exit`: in such a trap the process can be gone when the trap returns.
-/

namespace KernelResources

/-- The other process is this one later on: it has its pid, its kernel stack and its address
space. -/
def Process.Continues (process other : Process) : Prop :=
  other.pid = process.pid ∧ other.stack = process.stack ∧ other.space = process.space

theorem Process.enduring_continues (process : Process) : Enduring process.Continues where
  kin _ _ _ hcontinues := hcontinues
  refill _ hcontinues := hcontinues
  resume _ _ hcontinues := hcontinues
  suspend _ _ hcontinues := hcontinues

/-- A property of the process of a pid while it has not ended, which it does not lose as long as
nothing but turns and events happen to it. -/
structure Process.Persistent (pid : Nat) (P : Process → Prop) : Prop
    extends toEnduring : Process.Enduring P where
  pid_eq : ∀ process, P process → process.pid = pid
  lives : ∀ process, P process → process.state ≠ .terminated
  wake : ∀ process, P process → P { process with state := .ready, wakeAt := none }
  charge : ∀ process ticksUsed remaining, P process → P { process with ticksUsed, remaining }

theorem Process.persistent_lives (process : Process) :
    Persistent process.pid fun other => process.Continues other ∧ other.state ≠ .terminated where
  kin _ _ _ hlives := hlives
  refill _ hlives := hlives
  resume _ _ hlives := ⟨hlives.1, ProcessState.noConfusion⟩
  suspend _ other hlives := by
    refine ⟨hlives.1, ?_⟩
    simp only [System.suspend]
    split
    · exact ProcessState.noConfusion
    · exact hlives.2
  pid_eq _ hlives := hlives.1.1
  lives _ hlives := hlives.2
  wake _ hlives := ⟨hlives.1, ProcessState.noConfusion⟩
  charge _ _ _ hlives := hlives

/-- No process ends by this deed, and none is removed unless it has ended. -/
def Deed.Harmless : Deed → Prop
  | .tick | .wake _ | .pass .stay => True
  | _ => False

theorem Event.harmless_of_mem_map {events : List Event} {deed : Deed}
    (hmem : deed ∈ events.map Event.deed) : deed.Harmless := by
  obtain ⟨event, -, rfl⟩ := List.mem_map.mp hmem
  cases event <;> trivial

namespace ProcessTable

variable {table : ProcessTable} {process : Process}

/-- The process is there and has not ended. -/
def Lives (table : ProcessTable) (process : Process) : Prop :=
  ∃ other ∈ table.processes, process.Continues other ∧ other.state ≠ .terminated

/-- The process is there, even if it has ended. -/
def Houses (table : ProcessTable) (process : Process) : Prop :=
  ∃ other ∈ table.processes, process.Continues other

/-- The turn of the current process lasts for more than this many ticks, if any go by. The turn of
the idle process is over at every tick. -/
def TurnLasts (table : ProcessTable) (ticks : Nat) : Prop :=
  0 < ticks → table.current ≠ table.idle ∧
    ∀ process ∈ table.processes, process.pid = table.current → ticks < process.remaining

/-- The turn of the process that comes next will last for more than this many ticks, if any go
by. -/
def NextTurnLasts (table : ProcessTable) (ticks : Nat) : Prop :=
  0 < ticks → table.nextTurn ≠ table.idle ∧
    ∀ process ∈ table.processes, process.pid = table.nextTurn → ticks < process.timeSlice

theorem Lives.houses (h : table.Lives process) : table.Houses process := by
  obtain ⟨other, hmem, hcontinues, -⟩ := h
  exact ⟨other, hmem, hcontinues⟩

theorem exists_ticking {pid : Nat} {P : Process → Prop} (hP : Process.Persistent pid P)
    (hsome : ∃ process ∈ table.processes, P process) :
    ∃ process ∈ table.ticking.processes, P process :=
  (takes_ticking (fun process _ => hP.wake process) (fun _ _ hprocess => hprocess)
    hP.charge).exists hsome

theorem Houses.ticking (h : table.Houses process) : table.ticking.Houses process :=
  (takes_ticking (fun _ _ hcontinues => hcontinues) (fun _ _ hcontinues => hcontinues)
    fun _ _ _ hcontinues => hcontinues).exists h

theorem current_exiting (code : Int32) : (table.leaving (.exit code)).current = table.current := by
  unfold leaving
  dsimp only
  split <;> rfl

theorem Houses.exiting (h : table.Houses process) (code : Int32) :
    (table.leaving (.exit code)).Houses process :=
  (takes_exit (fun _ _ _ hcontinues => hcontinues)
    (fun _ _ _ _ hcontinues => hcontinues)
    fun _ _ _ hcontinues => hcontinues).exists h

end ProcessTable

namespace Processor

open ProcessTable

variable {processor processor' : Processor} {process : Process} {deeds : List Deed}

/-! ## A process that has not ended -/

/-- A pass removes only processes that have ended, so a process that lives keeps what it does not
lose when the processor changes hands. -/
theorem Pass.exists_of_enduring {pid : Nat} {P : Process → Prop} (h : Pass processor processor')
    (hP : Process.Enduring P) (hpid : ∀ process, P process → process.pid = pid)
    (hlives : ∀ process, P process → process.state ≠ .terminated)
    (hschedulable : processor.table.Schedulable)
    (hsome : ∃ process ∈ processor.table.processes, P process) :
    ∃ process ∈ processor'.table.processes, P process := by
  have hturn : ∃ process ∈ processor.turn.table.processes, P process :=
    (takes_turn hP hschedulable).exists hsome
  -- Pids name processes, so the one of this pid has not ended.
  have hnot : ¬processor.turn.table.Ended pid := by
    obtain ⟨process, hmem, hprocess⟩ := hturn
    rintro ⟨ended, hended, hsame, hterminated⟩
    obtain rfl := (sound_turn hschedulable).eq_of_pid hmem hended
      (hsame.trans (hpid process hprocess).symm)
    exact hlives _ hprocess hterminated
  refine Clearing.keeps (fun processor => ∃ process ∈ processor.table.processes, P process) ?_ h
    hturn
  rintro gone ⟨-, hended⟩ _ _ hremoval ⟨process, hmem, hprocess⟩
  refine hremoval.exists hP.kin ⟨process, hmem, fun heq => hnot ?_, hprocess⟩
  rwa [← hpid process hprocess, heq]

section Persistent

variable {pid : Nat} {P : Process → Prop} (hP : Process.Persistent pid P)
include hP

theorem Pass.exists (h : Pass processor processor') (hschedulable : processor.table.Schedulable)
    (hsome : ∃ process ∈ processor.table.processes, P process) :
    ∃ process ∈ processor'.table.processes, P process :=
  h.exists_of_enduring hP.toEnduring hP.pid_eq hP.lives hschedulable hsome

theorem Does.exists {deed : Deed} (h : Does deed processor processor') (hharmless : deed.Harmless)
    (hsound : processor.table.Sound) (hsome : ∃ process ∈ processor.table.processes, P process) :
    ∃ process ∈ processor'.table.processes, P process := by
  cases h with
  | wake _ _ =>
    exact (takes_update (fun process _ _ => hP.wake process)
      fun _ _ _ hprocess => hprocess).exists hsome
  | tick hticks =>
    have hticked := exists_ticking hP hsome
    rcases hticks with rfl | ⟨-, hpass⟩
    · exact hticked
    · exact hpass.exists hP hsound.ticking.toSchedulable hticked
  | @pass _ _ leave _ _ hpass =>
    cases leave with
    | stay => exact hpass.exists hP hsound.toSchedulable hsome
    | block | sleep _ | exit _ => exact hharmless.elim
  | launch _ _ _ _ | remove _ | kill _ _ => exact hharmless.elim

/-- Turns and events, however many, do not take the property away. -/
theorem Course.exists (h : Course deeds processor processor')
    (hharmless : ∀ deed ∈ deeds, deed.Harmless) (hsound : processor.table.Sound)
    (hsome : ∃ process ∈ processor.table.processes, P process) :
    ∃ process ∈ processor'.table.processes, P process := by
  refine (h.keeps (fun processor => processor.table.Sound ∧
    ∃ process ∈ processor.table.processes, P process) ?_ ⟨hsound, hsome⟩).2
  rintro deed hmem _ _ hdoes ⟨hsound, hsome⟩
  exact ⟨hdoes.sound hsound, hdoes.exists hP (hharmless deed hmem) hsound hsome⟩

end Persistent

theorem Course.lives (h : Course deeds processor processor')
    (hharmless : ∀ deed ∈ deeds, deed.Harmless) (hsound : processor.table.Sound)
    (hlives : processor.table.Lives process) : processor'.table.Lives process :=
  h.exists process.persistent_lives hharmless hsound hlives

/-! ## A process that has ended -/

/-- The process is there, and there will be no pass while this many ticks go by. -/
structure Spared (process : Process) (ticks : Nat) (table : ProcessTable) : Prop where
  sound : table.Sound
  houses : table.Houses process
  lasts : table.TurnLasts ticks

theorem Spared.mono {table : ProcessTable} {ticks ticks' : Nat} (h : Spared process ticks table)
    (hle : ticks' ≤ ticks) : Spared process ticks' table where
  sound := h.sound
  houses := h.houses
  lasts hpos := by
    obtain ⟨hidle, hremaining⟩ := h.lasts (Nat.lt_of_lt_of_le hpos hle)
    exact ⟨hidle, fun other hmem hpid => Nat.lt_of_le_of_lt hle (hremaining other hmem hpid)⟩

/-- A tick takes one of the ticks that may go by, and does not end the turn. -/
theorem Spared.tick {ticks : Nat} (h : Spared process (ticks + 1) processor.table)
    (hticks : Ticks processor processor') : Spared process ticks processor'.table := by
  obtain ⟨hidle, hremaining⟩ := h.lasts (Nat.succ_pos ticks)
  have hsound := h.sound.ticking
  -- The current process had more ticks left than will go by, and only one has.
  have hleft (other : Process) (hmem : other ∈ processor.table.ticking.processes)
      (hpid : other.pid = processor.table.ticking.current) : ticks < other.remaining := by
    rw [current_ticking] at hpid
    obtain ⟨before, hbefore, hpid', hone, -⟩ := charged_ticking hmem hpid
    have hbudget := hremaining before hbefore hpid'
    omega
  rcases hticks with rfl | ⟨hover | hover, -⟩
  -- No pass is made, or else the turn is over: the idle process has the processor, or nothing is
  -- left of the turn.
  · refine ⟨hsound, h.houses.ticking, fun _ => ⟨?_, hleft⟩⟩
    rwa [current_ticking, idle_ticking]
  · rw [current_ticking, idle_ticking] at hover
    exact absurd hover hidle
  · obtain ⟨other, hmem, hpid⟩ := mem_pids.mp hsound.current_mem
    have hnone := hover other hmem hpid
    exact absurd (hleft other hmem hpid) (by omega)

/-- A wake-up makes no pass. -/
theorem Spared.wake {pid ticks : Nat} (h : Spared process ticks processor.table)
    (hdoes : Does (.wake pid) processor processor') : Spared process ticks processor'.table := by
  refine ⟨hdoes.sound h.sound, ?_, fun hpos => ?_⟩
  · cases hdoes
    refine Takes.exists ?_ h.houses
    exact takes_update (fun _ _ _ hcontinues => hcontinues) fun _ _ _ hcontinues => hcontinues
  · obtain ⟨hidle, hremaining⟩ := h.lasts hpos
    cases hdoes
    refine ⟨hidle, Takes.forall ?_ hremaining⟩
    exact takes_update (fun _ _ _ hless => hless) fun _ _ _ hless => hless

/-- The events that wait end no turn if there are few enough ticks among them. -/
theorem Spared.events {events : List Event}
    (h : Spared process (events.count .tick) processor.table)
    (hcourse : Course (events.map Event.deed) processor processor') :
    Spared process 0 processor'.table := by
  induction events generalizing processor with
  | nil =>
    cases hcourse
    exact h
  | cons event rest ih =>
    -- An event that is left out, as a wake-up for a process that is gone, leaves ticks to spare.
    cases hcourse with
    | skip hrest => exact ih (h.mono List.count_le_count_cons) hrest
    | step hdoes hrest =>
      cases event with
      | tick =>
        rw [List.count_cons_self] at h
        cases hdoes with
        | tick hticks => exact ih (h.tick hticks) hrest
      | wake pid =>
        have hne : Event.wake pid ≠ .tick := nofun
        rw [List.count_cons_of_ne hne] at h
        exact ih (h.wake hdoes) hrest

/-- A pass spares the process that it takes the processor from. -/
theorem Pass.houses (h : Pass processor processor') (hschedulable : processor.table.Schedulable)
    (hcurrent : process.pid = processor.table.current) (hhouses : processor.table.Houses process) :
    processor'.table.Houses process := by
  refine Clearing.keeps (fun processor => processor.table.Houses process) ?_ h
    ((takes_turn process.enduring_continues hschedulable).exists hhouses)
  rintro pid ⟨hne, -⟩ _ _ hremoval ⟨other, hmem, hother⟩
  refine hremoval.exists process.enduring_continues.kin ⟨other, hmem, ?_, hother⟩
  exact fun heq => hne (heq.symm.trans (hother.1.trans hcurrent))

theorem Removal.turnLasts {pid ticks : Nat} (h : Removal pid processor processor')
    (hlasts : processor.table.TurnLasts ticks) : processor'.table.TurnLasts ticks := by
  intro hpos
  obtain ⟨hidle, hremaining⟩ := hlasts hpos
  have hless := h.forall (P := fun process =>
    process.pid = processor.table.current → ticks < process.remaining)
    (fun _ _ _ hless => hless) hremaining
  rw [h.table_eq]
  exact ⟨hidle, hless⟩

/-- The process that gets the processor begins a turn. -/
theorem turnLasts_turn (h : processor.table.Schedulable) {ticks : Nat}
    (hne : processor.table.nextTurn ≠ processor.table.current)
    (hnext : processor.table.NextTurnLasts ticks) : processor.turn.table.TurnLasts ticks := by
  intro hpos
  obtain ⟨hidle, hslice⟩ := hnext hpos
  obtain ⟨incoming, hmem, hpid, -, -⟩ :=
    h.nextTurn_cases.resolve_left fun hsame => hne hsame.1
  rw [turn_of_ne hne]
  rw [← hpid] at hne hidle hslice ⊢
  rw [dispatch_eq h hmem hne]
  refine ⟨hidle, List.forall_mem_map.mpr fun heir hheir hpid' => ?_⟩
  rw [Process.pid_switched] at hpid'
  rw [Process.switched, if_pos hpid']
  exact hslice heir hheir hpid'

/-- The process that exits does not get the next turn. -/
theorem nextTurn_exiting_ne {table : ProcessTable} (h : table.Sound)
    (hidle : table.current ≠ table.idle) (code : Int32) :
    (table.leaving (.exit code)).nextTurn ≠ (table.leaving (.exit code)).current := by
  -- The process that keeps the processor runs, but this one has ended.
  have hended : ∃ process ∈ (table.leaving (.exit code)).processes,
      process.pid = table.current ∧ process.state = .terminated := by
    refine (takes_exit (P := fun process => process.pid = table.current)
      (fun _ _ hpid _ => ⟨hpid, rfl⟩) (fun process hmem hblocked _ hpid => ?_)
      fun _ _ hne hpid => absurd hpid hne).exists (mem_pids.mp h.current_mem)
    cases hblocked.symm.trans (h.current_running process hmem hpid)
  rcases (h.leaving (.inr hidle)).nextTurn_cases with ⟨-, hrunning⟩ | ⟨-, -, -, hne, -⟩
  · obtain ⟨process, hmem, hpid, hstate⟩ := hended
    cases hstate.symm.trans (hrunning process hmem (hpid.trans (current_exiting code).symm))
  · exact hne

/-- The process that exits survives its own pass, and the next process has a whole turn. -/
theorem spared_exit {code : Int32} {ticks : Nat} (hsound : processor.table.Sound)
    (hdoes : Does (.pass (.exit code)) processor processor')
    (hcurrent : process.pid = processor.table.current) (hhouses : processor.table.Houses process)
    (hnext : (processor.table.leaving (.exit code)).NextTurnLasts ticks) :
    Spared process ticks processor'.table := by
  have hsound' := hdoes.sound hsound
  cases hdoes with
  | pass hidle _ hpass =>
    have hidle := hidle.resolve_left nofun
    have hleft : (processor.table.leaving (.exit code)).Schedulable := hsound.leaving (.inr hidle)
    refine ⟨hsound', ?_, ?_⟩
    · exact hpass.houses hleft (hcurrent.trans (current_exiting code).symm) (hhouses.exiting code)
    · exact hpass.keeps (fun processor => processor.table.TurnLasts ticks)
        (fun _ _ _ _ hremoval => hremoval.turnLasts)
        (turnLasts_turn hleft (nextTurn_exiting_ne hsound hidle code) hnext)

/-- The process that exits survives the events that wait as well, if their ticks do not use up the
turn of the next process. -/
theorem Course.houses_of_exit {code : Int32} {events : List Event}
    (h : Course (.pass (.exit code) :: events.map Event.deed) processor processor')
    (hsound : processor.table.Sound) (hcurrent : process.pid = processor.table.current)
    (hlives : processor.table.Lives process)
    (hnext : processor.table.current ≠ processor.table.idle →
      (processor.table.leaving (.exit code)).NextTurnLasts (events.count .tick)) :
    processor'.table.Houses process := by
  cases h with
  -- If the exit is refused, the process goes on and is safe from any pass.
  | skip hevents =>
    exact (hevents.lives (fun _ => Event.harmless_of_mem_map) hsound hlives).houses
  | step hdoes hevents =>
    have hidle : processor.table.current ≠ processor.table.idle := by
      cases hdoes with
      | pass hidle => exact hidle.resolve_left nofun
    exact ((spared_exit hsound hdoes hcurrent hlives.houses (hnext hidle)).events hevents).houses

end Processor

/-! ## Traps -/

open Processor

variable {paging : Paging} {whole whole' : WithEvents System} {journal : Journal}

/-- The program exits, and the ticks that wait use up the turn of the process that comes next. -/
def Trap.Overruns (whole : WithEvents System) : Prop :=
  Syscall.answer? whole.state.table whole.state.cpu.eax = none ∧
    ¬(whole.state.table.leaving (.exit whole.state.cpu.ebx.toInt32)).NextTurnLasts
      (whole.events.waiting.count .tick)

theorem Syscall.Request.deeds_of_exit {registers : Registers} (h : registers.eax = Syscall.exit) :
    (Request.ofRegisters registers).deeds = [.pass (.exit registers.ebx.toInt32)] := if_pos h

theorem Syscall.Request.harmless_of_ne {request : Request} (h : request.number ≠ Syscall.exit) :
    ∀ deed ∈ request.deeds, deed.Harmless := by
  unfold deeds
  rw [if_neg h]
  split
  · exact List.forall_mem_singleton.mpr trivial
  · exact nofun

/-- A trap that does not overrun leaves the process that it interrupted where it was. -/
theorem Trap.houses_systemCall (hsound : whole.state.table.Sound) {process : Process}
    (hcurrent : process.pid = whole.state.table.current)
    (hlives : whole.state.table.Lives process) (hoverruns : ¬Trap.Overruns whole)
    {registers : Registers} (hcourse : Course
      ((Syscall.Request.ofRegisters whole.state.cpu).deeds ++ whole.events.waiting.map Event.deed)
      ⟨whole.state.table, registers⟩ whole'.state.processor) :
    whole'.state.table.Houses process := by
  by_cases hexit : whole.state.cpu.eax = Syscall.exit
  · rw [Syscall.Request.deeds_of_exit hexit] at hcourse
    refine hcourse.houses_of_exit hsound hcurrent hlives fun hidle => ?_
    -- A program that is not the idle process gets no answer when it exits.
    have hanswer : Syscall.answer? whole.state.table whole.state.cpu.eax = none := by
      rw [Syscall.answer?, if_pos hexit, if_neg hidle]
    exact Classical.not_not.mp fun hlasts => hoverruns ⟨hanswer, hlasts⟩
  · refine (hcourse.lives (fun deed hmem => ?_) hsound hlives).houses
    exact (List.mem_append.mp hmem).elim (Syscall.Request.harmless_of_ne hexit deed)
      Event.harmless_of_mem_map

/-- After any run, the process that a trap interrupts is there until the trap returns, on the same
kernel stack and in the same address space. This holds of any events that wait, of any registers,
and also if the trap ends the process, unless the ticks that wait then use up the turn of the
process that comes next. -/
theorem continues_of_reachable (h : whole.state.table.Reachable) (trap : Operation)
    (htrap : trap = .timer ∨ trap = .systemCall ∧ ¬Trap.Overruns whole)
    (hrun : (trap.run paging whole journal).state? = some whole') :
    ∃ process other, whole.state.table.currentProcess? = some process ∧
      whole'.state.table.find? process.pid = some other ∧ process.Continues other := by
  have hsound := sound_of_reachable h
  have hcourse := Operation.course_of_run hsound hrun
  obtain ⟨process, hprocess⟩ := Option.ne_none_iff_exists'.mp hsound.currentProcess?
  have hmem := ProcessTable.mem_of_find? hprocess
  have hcurrent : process.pid = whole.state.table.current := ProcessTable.pid_of_find? hprocess
  have hlives : whole.state.table.Lives process :=
    ⟨process, hmem, ⟨rfl, rfl, rfl⟩, by simp [hsound.current_running process hmem hcurrent]⟩
  have hhouses : whole'.state.table.Houses process := by
    rcases htrap with rfl | ⟨rfl, hoverruns⟩
    · exact (hcourse.lives (fun _ => Event.harmless_of_mem_map) hsound hlives).houses
    · exact Trap.houses_systemCall hsound hcurrent hlives hoverruns hcourse
  obtain ⟨other, hother, hcontinues⟩ := hhouses
  refine ⟨process, other, hprocess, ?_, hcontinues⟩
  exact hcontinues.1 ▸ (Operation.sound_carries hsound hrun).1.find?_pid hother

/-- The registers of a program that exits. -/
def exiting : Registers := { eax := Syscall.exit }

/-- A system in which a program is about to exit while an event waits. -/
def exitingWith (table : ProcessTable) (event : Event) : WithEvents System :=
  { kernelOnly table exiting with events := { EventQueue.ofCapacity 1 with line := [event] } }

/-- A program that exits while a wake-up waits survives its last system call. -/
theorem continues_of_exiting :
    ∃ table whole' other, ProcessTable.Reachable table ∧ table.current = 2 ∧
      (Operation.systemCall.run default (exitingWith table (.wake 1)) #[]).state? = some whole' ∧
        whole'.state.table.find? 2 = some other ∧ other.state = .terminated := by
  have hrun : (ProcessTable.ofRun? [.launch "init" 0 true (some ⟨0⟩), .schedule]).any (fun table =>
      (Operation.systemCall.run default (exitingWith table (.wake 1)) #[]).state?.any fun whole' =>
        table.current = 2 ∧ whole'.state.table.state? 2 = some .terminated) = true := by
    decide +kernel
  obtain ⟨table, htable, hcall⟩ := (Option.any_eq_true _ _).mp hrun
  obtain ⟨whole', hwhole', hfacts⟩ := (Option.any_eq_true _ _).mp hcall
  obtain ⟨hcurrent, hstate⟩ := of_decide_eq_true hfacts
  have hreachable := ProcessTable.reachable_of_ofRun? htable
  have hwhole : (exitingWith table (.wake 1)).state.table.Reachable := hreachable
  obtain ⟨process, other, hprocess, hother, -⟩ := continues_of_reachable hwhole .systemCall
    (.inr ⟨rfl, fun hoverruns => hoverruns.2 fun hpos => absurd hpos (Nat.lt_irrefl 0)⟩) hwhole'
  have hpid : process.pid = 2 := (ProcessTable.pid_of_find? hprocess).trans hcurrent
  rw [hpid] at hother
  rw [ProcessTable.state?, hother] at hstate
  exact ⟨table, whole', other, hreachable, hcurrent, hwhole', hother, Option.some.inj hstate⟩

/-- A program that exits while a tick waits is gone when its last system call returns: the pass that
it exits with gives the processor to the idle process, the tick takes it from there, and that pass
removes it. -/
theorem released_of_exit :
    ∃ table whole', ProcessTable.Reachable table ∧ table.current = 2 ∧
      (table.find? 2).isSome ∧
        (Operation.systemCall.run default (exitingWith table .tick) #[]).state? = some whole' ∧
          whole'.state.table.find? 2 = none := by
  have hrun : (ProcessTable.ofRun? [.launch "init" 0 true (some ⟨0⟩), .schedule]).any (fun table =>
      (Operation.systemCall.run default (exitingWith table .tick) #[]).state?.any fun whole' =>
        table.current = 2 ∧ (table.find? 2).isSome ∧ whole'.state.table.find? 2 = none) = true := by
    decide +kernel
  obtain ⟨table, htable, hcall⟩ := (Option.any_eq_true _ _).mp hrun
  obtain ⟨whole', hwhole', hfacts⟩ := (Option.any_eq_true _ _).mp hcall
  obtain ⟨hcurrent, hthere, hgone⟩ := of_decide_eq_true hfacts
  exact ⟨table, whole', ProcessTable.reachable_of_ofRun? htable, hcurrent, hthere, hwhole', hgone⟩

end KernelResources
