import KernelResources.Proofs.Paging.Refusals
import KernelResources.Proofs.Process.Family
import KernelResources.Proofs.Process.Loading
import KernelResources.Proofs.Process.Returning

/-!
# Sums that do not fit

The clock, the accounts of the processes and the next pid go up in steps of one, and no kernel runs
for long enough to see one of them leave its register. The deadline of a sleep is another matter. It
is the clock with whatever the caller asks for, and nothing is asked about the sum before it is
computed.

* `System.Counted` is a run of any operations and requests, with the number of processes created and
  the number of ticks.
* `System.Regular` is what such a run keeps: the pids and the clock are these two numbers.
* `Operation.exists_run`: an operation returns, unless it is a sleep whose deadline does not fit.
* `Operation.run_of_counted` states this for all states that are reached.
-/

namespace KernelResources

open KernelResources.Action Paging

/-! ## Queues -/

namespace EventQueue

/-- What is true of every queue: the line keeps to its capacity, memory has room for a line of that
length, and the count of ticks fits its register. -/
structure Admissible (events : EventQueue) : Prop where
  length_le : events.line.length ≤ events.capacity
  capacity_lt : events.capacity * slotBytes < bitRange 63
  overflow_lt : events.overflow < bitRange 32

variable {events : EventQueue}

theorem admissible_ofCapacity {capacity : Nat} (h : capacity * slotBytes < bitRange 63) :
    (ofCapacity capacity).Admissible := ⟨Nat.zero_le _, h, bitRange_pos 32⟩

/-- No queue has so many events that handing them over would take the clock out of its register. -/
theorem Admissible.length_waiting_lt (h : events.Admissible) :
    events.waiting.length < bitRange 60 := by
  obtain ⟨hline, hcapacity, hoverflow⟩ := h
  have hwaiting : events.waiting.length = events.line.length + events.overflow := by
    rw [waiting, List.length_append, List.length_replicate]
  simp only [slotBytes, bitRange] at hcapacity hoverflow ⊢
  omega

theorem Admissible.addTick (h : events.Admissible) : events.addTick.Admissible := by
  unfold EventQueue.addTick push?
  dsimp only
  split
  · next queue hpush =>
    split at hpush
    · next hroom =>
      cases hpush
      refine ⟨?_, h.capacity_lt, h.overflow_lt⟩
      rw [List.length_append]
      exact hroom
    · cases hpush
  · exact ⟨h.length_le, h.capacity_lt, Nat.mod_lt _ (bitRange_pos 32)⟩

/-- Nor are there that many ticks in one operation. -/
theorem Admissible.count_tasks_le (h : events.Admissible) (operation : Operation)
    (system : System) :
    (operation.tasks ⟨events, system⟩).count (.event .tick) ≤ bitRange 60 := by
  have hwaiting {events : EventQueue} (h : events.Admissible) :
      (events.waiting.map Task.event).length < bitRange 60 := by
    rw [List.length_map]
    exact h.length_waiting_lt
  refine List.count_le_length.trans ?_
  cases operation with
  | actOnEvents => exact Nat.le_of_lt (hwaiting h)
  | timer => exact Nat.le_of_lt (hwaiting h.addTick)
  | systemCall => exact hwaiting h
  | _ => exact bitRange_pos 60

end EventQueue

/-! ## Single operations -/

namespace Operation

open KernelResources.System

variable {paging : Paging} {operation : Operation} {whole whole' : WithEvents System}
  {journal : Journal} {account : Nat → Nat} {clock : Nat}

/-- How many processes an operation has created, by the way it ended. -/
def creations (outcome : Outcome ProcessError (WithEvents System) Unit) : Operation → Nat
  | launch .. =>
    match outcome with
    | .done .. => 1
    | .refused .. | .halted .. => 0
  | _ => 0

/-- The deadline of a sleep does not fit the clock. -/
def Overflows (table : ProcessTable) : Operation → Prop
  | sleep ticks => Oversleeps table ticks
  | _ => False

/-- The kernel halts before anything has happened. -/
theorem run_of_overflows (hclock : whole.state.table.clock < bitRange 64)
    (h : operation.Overflows whole.state.table) :
    operation.run paging whole journal = .halted .addOverflow journal := by
  cases operation with
  | sleep ticks =>
    obtain ⟨hidle, hsum⟩ : Oversleeps whole.state.table ticks := h
    -- A sleep for no ticks has no deadline, and the clock itself does fit.
    have hticks : ticks ≠ 0 := by
      rintro rfl
      exact Nat.not_lt.mpr hsum hclock
    have hadd : (Action.add 64 whole.state.table.clock ticks : Action ProcessError System Nat) =
        Action.halt .addOverflow := if_neg (Nat.not_lt.mpr hsum)
    have hsleep : System.sleep paging ticks whole.state journal = .halted .addOverflow journal := by
      show (refuseIf (whole.state.table.current = whole.state.table.idle)
        ProcessError.invalidOperation >>= fun _ => _) whole.state journal = _
      rw [refuseIf_of_neg hidle, pure_bind, if_neg hticks, hadd]
      rfl
    show (WithEvents.onState (System.sleep paging ticks) >>= fun _ => pure ()) whole journal = _
    rw [apply_bind, WithEvents.onState_apply, hsleep]
    rfl
  | _ => exact h.elim

/-- An operation returns, unless it is a sleep whose deadline does not fit. -/
theorem exists_run (h : whole.state.Accurate) (hlimit : paging.layout.heapLimit < bitRange 32)
    (htop : pageSize ≤ paging.layout.userStackTop) (hsound : whole.state.table.Sound)
    (hbilled : Billed account clock whole.state.table)
    (hnextPid : whole.state.table.nextPid + 1 < bitRange 32)
    (hclock : clock + (operation.tasks whole).count (.event .tick) < bitRange 64)
    (hfits : ¬operation.Overflows whole.state.table) (journal : Journal) :
    ∃ whole', (operation.run paging whole journal).state? = some whole' ∧
      whole'.state.Accurate := by
  -- It is enough that the stages of the operation return.
  suffices hstages : ∃ stages journal', operation.stages? paging whole journal =
      some (stages, journal') ∧ (Stage.last whole.state stages).Accurate by
    obtain ⟨stages, journal', hstages, haccurate⟩ := hstages
    have hended := ended_run paging operation whole journal
    rw [hstages] at hended
    exact ⟨_, Outcome.state?_of_ended hended, haccurate⟩
  have hsingle {task : Task} (hfits : task.Fits whole.state.table) : ∃ stages journal',
      Task.stages? paging [task] whole.state journal = some (stages, journal') ∧
        (Stage.last whole.state stages).Accurate := by
    obtain ⟨stage, journal', hstage, haccurate⟩ := Task.exists_stage h hlimit htop hfits journal
    refine ⟨[stage], journal', ?_, haccurate⟩
    rw [Task.stages?_singleton, hstage]
    rfl
  have hticks (hall : ∀ task ∈ operation.tasks whole, task.OnlyTicks) :
      ∃ stages journal', operation.stages? paging whole journal = some (stages, journal') ∧
        (Stage.last whole.state stages).Accurate :=
    Task.exists_stages h hlimit htop hsound hbilled hall hclock journal
  -- Two operations add something else than ticks.
  cases operation with
  | launch => exact hsingle hnextPid
  | sleep => exact hsingle hfits
  | remove | schedule | tick | block | wake | exit | kill | serve =>
    exact hticks (List.forall_mem_singleton.mpr trivial)
  | actOnEvents | timer => exact hticks (List.forall_mem_map.mpr fun _ _ => trivial)
  | systemCall =>
    exact hticks (List.forall_mem_cons.mpr ⟨trivial, List.forall_mem_map.mpr fun _ _ => trivial⟩)

/-- Every process that is created has the next pid, and nothing else takes one. -/
theorem nextPid_run (hsound : whole.state.table.Sound)
    (hrun : (operation.run paging whole journal).state? = some whole') :
    whole'.state.table.nextPid = whole.state.table.nextPid +
      operation.creations (operation.run paging whole journal) := by
  rcases operation.launch_or_not_mem whole with ⟨name, entry, kernelMode, stack, rfl⟩ | hlaunch
  · have hlaunch : ((launch name entry kernelMode stack).run paging).Ensures whole _ _ :=
      nextPid_launch name entry kernelMode stack whole
    have hrun' := hlaunch journal
    cases hout : (launch name entry kernelMode stack).run paging whole journal with
    | done =>
      rw [hout] at hrun hrun'
      cases hrun
      exact hrun'.1
    | refused =>
      rw [hout] at hrun hrun'
      cases hrun
      exact hrun'
    | halted =>
      rw [hout] at hrun
      cases hrun
  · have hnone : operation.creations (operation.run paging whole journal) = 0 := by
      cases operation with
      | launch => exact absurd List.mem_cons_self hlaunch
      | _ => rfl
    rw [hnone, Nat.add_zero]
    have hcourse := Operation.course_of_run hsound hrun
    refine hcourse.keeps
      (fun processor => processor.table.nextPid = whole.state.table.nextPid) ?_ rfl
    intro deed hmem _ _ hdoes hsame
    exact (hdoes.nextPid_eq fun heq => hlaunch (heq ▸ hmem)).trans hsame

end Operation

/-! ## Runs -/

/-- The kernel space is built with the layout that is asked for. -/
theorem Paging.layout_of_create {layout : Layout} {paging : Paging} {machine machine' : Machine}
    {journal journal' : Journal}
    (h : Paging.create layout machine journal = .done paging machine' journal') :
    paging.layout = layout := by
  obtain ⟨directory, _, _, -, h⟩ := bind_eq_done.mp h
  obtain ⟨_, _, _, -, h⟩ := bind_eq_done.mp h
  obtain ⟨_, _, _, -, h⟩ := bind_eq_done.mp h
  obtain ⟨_, _, _, -, h⟩ := bind_eq_done.mp h
  cases h
  rfl

namespace System

/-- A run from the start, with the number of processes created and the number of ticks. Between two
operations, anything may be requested of the machine: a space may be used after it was destroyed, a
frame given back by somebody who does not hold it, and a table written to. The registers on the
processor and the events that wait may change in any way. -/
inductive Counted (layout : Layout) (start : Machine) (paging : Paging) :
    Nat → Nat → Machine → ProcessTable → Prop where
  | boot {machine : Machine} {table : ProcessTable} {stack : Option KernelStack}
      {journal journal' bootJournal bootJournal' : Journal} :
      Paging.create layout start journal = .done paging machine journal' →
        ProcessTable.bootstrap paging stack () bootJournal = .done table () bootJournal' →
          Counted layout start paging 0 0 machine table
  | operate {created ticks : Nat} {operation : Operation} {whole whole' : WithEvents System}
      {journal : Journal} :
      Counted layout start paging created ticks whole.state.machine whole.state.table →
        (operation.run paging whole journal).state? = some whole' →
          Counted layout start paging
            (created + operation.creations (operation.run paging whole journal))
            (ticks + (operation.tasks whole).count (.event .tick))
            whole'.state.machine whole'.state.table
  | request {created ticks : Nat} {machine machine' : Machine} {table : ProcessTable}
      {request : Paging.Request} {journal : Journal} :
      Counted layout start paging created ticks machine table →
        (request.run paging machine journal).state? = some machine' →
          Counted layout start paging created ticks machine' table

/-- The pids and the clock are what was counted, and nothing else that is added up is in doubt. -/
structure Regular (created ticks : Nat) (machine : Machine) (table : ProcessTable) : Prop where
  /-- The count of free frames is right. -/
  accurate : machine.Accurate
  /-- The table is in order. -/
  sound : table.Sound
  /-- Every process that was created has taken a pid. -/
  nextPid_eq : table.nextPid = ProcessTable.bootstrapPid + 1 + created
  /-- Every tick is on the clock, and it has been charged to a process. -/
  billed : ∃ account, Billed account ticks table

variable {layout : Layout} {start : Machine} {paging : Paging} {created ticks : Nat}
  {machine : Machine} {table : ProcessTable} {operation : Operation}
  {whole whole' : WithEvents System} {journal : Journal}

theorem Regular.clock_eq (h : Regular created ticks machine table) : table.clock = ticks :=
  let ⟨_, hbilled⟩ := h.billed
  hbilled.clock_eq

/-- A process can be created as long as there are few of them. -/
theorem Regular.nextPid_lt (h : Regular created ticks machine table)
    (hcreated : created < bitRange 31) : table.nextPid + 1 < bitRange 32 := by
  rw [h.nextPid_eq, ProcessTable.bootstrapPid]
  simp only [bitRange] at hcreated ⊢
  omega

theorem regular_of_boot {stack : Option KernelStack}
    {journal journal' bootJournal bootJournal' : Journal} (hpool : start.frames.Reachable)
    (hcreate : Paging.create layout start journal = .done paging machine journal')
    (hboot : ProcessTable.bootstrap paging stack () bootJournal = .done table () bootJournal') :
    Regular 0 0 machine table where
  accurate := (Paging.Reached.create hcreate).consistent hpool
  sound := sound_of_bootstrap hboot
  nextPid_eq := by
    cases stack with
    | none => cases hboot
    | some stack =>
      cases hboot
      rfl
  billed := ⟨_, billed_of_bootstrap hboot⟩

/-- What an operation creates and lets pass is added to the counts. -/
theorem Regular.operate (h : Regular created ticks whole.state.machine whole.state.table)
    (hlimit : paging.layout.heapLimit < bitRange 32)
    (htop : pageSize ≤ paging.layout.userStackTop) (hcreated : created < bitRange 31)
    (hticks : ticks + (operation.tasks whole).count (.event .tick) < bitRange 63)
    (hrun : (operation.run paging whole journal).state? = some whole') :
    Regular (created + operation.creations (operation.run paging whole journal))
      (ticks + (operation.tasks whole).count (.event .tick)) whole'.state.machine
      whole'.state.table := by
  obtain ⟨account, hbilled⟩ := h.billed
  have hclock : ticks + (operation.tasks whole).count (.event .tick) < bitRange 64 :=
    Nat.lt_of_lt_of_le hticks (by decide)
  -- An operation that has returned was not halted for its deadline.
  have hfits : ¬operation.Overflows whole.state.table := by
    intro hoverflows
    rw [Operation.run_of_overflows (by rw [h.clock_eq]; omega) hoverflows] at hrun
    cases hrun
  obtain ⟨_, hrun', haccurate⟩ := Operation.exists_run h.accurate hlimit htop h.sound hbilled
    (h.nextPid_lt hcreated) hclock hfits journal
  obtain rfl := Option.some.inj (hrun.symm.trans hrun')
  obtain ⟨stages, hstages⟩ := Operation.exists_stages hrun
  refine ⟨haccurate, (Operation.sound_carries h.sound hrun).1, ?_,
    _, hbilled.operate h.sound hrun hstages⟩
  rw [Operation.nextPid_run h.sound hrun, h.nextPid_eq, Nat.add_assoc]

/-- A request concerns nothing but the machine, where the count of free frames stays right. -/
theorem Regular.request (h : Regular created ticks machine table) {machine' : Machine}
    {request : Request} (hrun : (request.run paging machine journal).state? = some machine') :
    Regular created ticks machine' table where
  accurate :=
    (lasting_consistent.run (fun _ _ _ _ hkept => hkept) machine journal h.accurate).of_state? hrun
  sound := h.sound
  nextPid_eq := h.nextPid_eq
  billed := h.billed

/-- The kernel space is there from the start, and with it the layout. -/
theorem Counted.layout_eq (h : Counted layout start paging created ticks machine table) :
    paging.layout = layout ∧ layout.heapLimit < bitRange 32 := by
  induction h with
  | boot hcreate => exact ⟨Paging.layout_of_create hcreate, Paging.heapLimit_lt_of_create hcreate⟩
  | operate _ _ ih | request _ _ ih => exact ih

theorem Counted.regular (h : Counted layout start paging created ticks machine table)
    (hpool : start.frames.Reachable) (htop : pageSize ≤ layout.userStackTop)
    (hcreated : created < bitRange 31) (hticks : ticks < bitRange 63) :
    Regular created ticks machine table := by
  -- Induction on the run: the counts only go up, so they were small at every step.
  induction h with
  | boot hcreate hboot => exact regular_of_boot hpool hcreate hboot
  | operate hcounted hrun ih =>
    obtain ⟨hlayout, hlimit⟩ := hcounted.layout_eq
    exact (ih (by omega) (by omega)).operate (hlayout ▸ hlimit) (hlayout ▸ htop) (by omega) hticks
      hrun
  | request _ hrun ih => exact (ih hcreated hticks).request hrun

end System

/-- After any run in which fewer than `bitRange 31` processes were created and fewer than
`bitRange 63` ticks have passed, every operation returns, whatever is on the processor, whichever
events wait, and whatever the machine was asked for before: no sum, difference or index is out of
range. There is one exception. If the current process is not the idle one and is to sleep for so
long that the clock would not show the deadline, then the kernel halts. -/
theorem Operation.run_of_counted {layout : Layout} {start : Machine} {paging : Paging}
    {created ticks : Nat} {events : EventQueue} {system : System}
    (hpool : start.frames.Reachable) (htop : pageSize ≤ layout.userStackTop)
    (h : System.Counted layout start paging created ticks system.machine system.table)
    (hcreated : created < bitRange 31) (hticks : ticks < bitRange 63)
    (hevents : events.Admissible) (operation : Operation) (journal : Journal) :
    (operation.Overflows system.table →
      operation.run paging ⟨events, system⟩ journal = .halted .addOverflow journal) ∧
    (¬operation.Overflows system.table →
      ∃ whole', (operation.run paging ⟨events, system⟩ journal).state? = some whole') := by
  have hregular := h.regular hpool htop hcreated hticks
  obtain ⟨hlayout, hlimit⟩ := h.layout_eq
  obtain ⟨account, hbilled⟩ := hregular.billed
  refine ⟨fun hoverflows => ?_, fun hfits => ?_⟩
  · refine run_of_overflows ?_ hoverflows
    rw [hregular.clock_eq]
    exact Nat.lt_trans hticks (by decide)
  · have hcount := hevents.count_tasks_le operation system
    have hclock : ticks + (operation.tasks ⟨events, system⟩).count (.event .tick) <
        bitRange 64 := by
      simp only [bitRange] at hticks hcount ⊢
      omega
    have haccurate : (⟨events, system⟩ : WithEvents System).state.Accurate := hregular.accurate
    obtain ⟨whole', hrun, -⟩ := exists_run haccurate (hlayout ▸ hlimit) (hlayout ▸ htop)
      hregular.sound hbilled (hregular.nextPid_lt hcreated) hclock hfits journal
    exact ⟨whole', hrun⟩

/-! ## A sleep that is too long -/

namespace System

/-- The counts and the system after one more operation. -/
def tally? (paging : Paging) (run : Nat × Nat × System) (operation : Operation) :
    Option (Nat × Nat × System) :=
  let whole : WithEvents System := ⟨.ofCapacity 1, run.2.2⟩
  let outcome := operation.run paging whole #[]
  outcome.state?.map fun whole' => (run.1 + operation.creations outcome,
    run.2.1 + (operation.tasks whole).count (.event .tick), whole'.state)

/-- A process has been created, it runs, and a tick has passed. -/
theorem exists_counted :
    ∃ paging, ∃ system : System,
      Counted smallLayout smallMachine paging 1 1 system.machine system.table ∧
      system.table.current = 2 ∧ system.table.idle = 1 ∧ system.table.clock = 1 := by
  have hrun : (System.booted? smallLayout smallMachine).any (fun run =>
      ([.launch "init" 0 true (some ⟨0⟩), .schedule, .tick].foldlM (tally? run.1)
        (0, 0, run.2)).any fun final => final.1 = 1 ∧ final.2.1 = 1 ∧
          final.2.2.table.current = 2 ∧ final.2.2.table.idle = 1 ∧ final.2.2.table.clock = 1) =
      true := by decide +kernel
  obtain ⟨⟨paging, booted⟩, hbooted, hrun⟩ := (Option.any_eq_true _ _).mp hrun
  obtain ⟨⟨created, ticks, system⟩, hfinal, hfacts⟩ := (Option.any_eq_true _ _).mp hrun
  obtain ⟨rfl, rfl, hcurrent, hidle, hclock⟩ := of_decide_eq_true hfacts
  obtain ⟨machine, journal, table, journal', hcreate, hboot, rfl⟩ := exists_of_booted? hbooted
  refine ⟨paging, system, ?_, hcurrent, hidle, hclock⟩
  refine of_foldlM (fun run => Counted smallLayout smallMachine paging run.1 run.2.1
    run.2.2.machine run.2.2.table) (.boot hcreate hboot) ?_ hfinal
  intro operation _ run _ hcounted htally
  obtain ⟨whole', hrun, rfl⟩ := Option.map_eq_some_iff.mp htally
  exact .operate hcounted hrun

end System

/-- After one tick, the longest sleep with a deadline is one of `bitRange 64 - 2` ticks. -/
theorem Operation.run_of_sleeping :
    ∃ paging, ∃ system : System,
      System.Counted smallLayout smallMachine paging 1 1 system.machine system.table ∧
      (∃ whole', ((sleep (bitRange 64 - 2)).run paging ⟨.ofCapacity 1, system⟩ #[]).state? =
        some whole') ∧
      (sleep (bitRange 64 - 1)).run paging ⟨.ofCapacity 1, system⟩ #[] =
        .halted .addOverflow #[] := by
  obtain ⟨paging, system, hcounted, hcurrent, hidle, hclock⟩ := System.exists_counted
  have hevents : (EventQueue.ofCapacity 1).Admissible :=
    EventQueue.admissible_ofCapacity (by decide)
  have hresult := run_of_counted (.allFree (by decide)) (by decide) hcounted (by decide)
    (by decide) hevents
  refine ⟨paging, system, hcounted, (hresult _ #[]).2 ?_, (hresult _ #[]).1 ?_⟩
  · rintro ⟨-, hsum⟩
    rw [hclock] at hsum
    exact absurd hsum (by decide)
  · refine ⟨by rw [hcurrent, hidle]; decide, ?_⟩
    rw [hclock]
    decide

/-- A process that asks for the longest sleep that can be written down halts the kernel, after one
tick and with one process created. -/
theorem Operation.halts_of_longSleep :
    ∃ paging, ∃ system : System,
      System.Counted smallLayout smallMachine paging 1 1 system.machine system.table ∧
      smallMachine.frames.Reachable ∧ pageSize ≤ smallLayout.userStackTop ∧
      (EventQueue.ofCapacity 1).Admissible ∧ bitRange 64 - 1 < bitRange 64 ∧
      (sleep (bitRange 64 - 1)).run paging ⟨.ofCapacity 1, system⟩ #[] =
        .halted .addOverflow #[] := by
  obtain ⟨paging, system, hcounted, hcurrent, hidle, hclock⟩ := System.exists_counted
  refine ⟨paging, system, hcounted, .allFree (by decide), by decide,
    EventQueue.admissible_ofCapacity (by decide), by decide, run_of_overflows ?_ ⟨?_, ?_⟩⟩
  · rw [hclock]
    decide
  · rw [hcurrent, hidle]
    decide
  · rw [hclock]
    decide

end KernelResources
