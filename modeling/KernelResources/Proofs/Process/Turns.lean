import KernelResources.Proofs.Process.Changes
import KernelResources.Proofs.Process.Tasks

/-!
# Turns

While a process waits for its turn, the cursor goes up from it, then from the lowest pid on, and it
cannot come back to the process without giving it the processor. That holds whatever happens to the
other processes in the meantime, and also if the process that the cursor names is gone.

* `Precedes first` is the order of the turns that begins with `first`.
* `Schedulable.nextTurn_of_ready`: a pass that does not give the processor to a process that is
  ready moves the cursor on in this order.
* `turns_of_waiting`: so no process gets the processor twice while another one is ready.
-/

namespace KernelResources

open Processor

/-! ## The order of the turns -/

/-- In the order of the turns that begins with the process `first`, the process `pid` comes before
`later`: the pids go up from `first`, and then from the lowest one on. -/
def Precedes (first pid later : Nat) : Prop :=
  first ≤ pid ∧ (pid < later ∨ later < first) ∨ pid < later ∧ later < first

namespace Precedes

variable {first pid middle later : Nat}

theorem ne (h : Precedes first pid later) : pid ≠ later := by
  unfold Precedes at h
  omega

theorem trans (h : Precedes first pid middle) (h' : Precedes first middle later) :
    Precedes first pid later := by
  unfold Precedes at h h' ⊢
  omega

end Precedes

namespace ProcessTable

variable {table table' : ProcessTable} {process : Process} {test : Process → Bool} {pid : Nat}

/-- The process that is chosen is ready and not idle, passes the test, and is the lowest of all such
processes. -/
theorem Schedulable.of_firstReady? (h : table.Schedulable)
    (hfirst : table.firstReady? test = some pid) :
    ∃ incoming ∈ table.processes, incoming.pid = pid ∧ test incoming ∧ pid ≠ table.idle ∧
      incoming.state = .ready ∧ ∀ other ∈ table.processes, test other → other.pid ≠ table.idle →
        other.state = .ready → pid ≤ other.pid := by
  obtain ⟨incoming, hfind, rfl⟩ := Option.map_eq_some_iff.mp hfirst
  obtain ⟨hincoming, before, after, hsplit, hbefore⟩ := List.find?_eq_some_iff_append.mp hfind
  simp only [decide_eq_true_eq] at hincoming
  refine ⟨incoming, List.mem_of_find?_eq_some hfind, rfl, hincoming.1, hincoming.2.1,
    hincoming.2.2, fun other hother htest hidle hready => ?_⟩
  have hsorted := List.pairwise_map.mp h.sorted
  rw [hsplit] at hsorted hother
  rcases List.mem_append.mp hother with hother | hother
  -- Those in front of it have not been chosen.
  · have hnot := hbefore other hother
    simp [htest, hidle, hready] at hnot
  · rcases List.mem_cons.mp hother with rfl | hother
    · exact Nat.le_refl _
    · exact Nat.le_of_lt (List.rel_of_pairwise_cons (List.pairwise_append.mp hsorted).2.1 hother)

theorem firstReady?_ne_none (hprocess : process ∈ table.processes) (hready : process.state = .ready)
    (hidle : process.pid ≠ table.idle) (htest : test process) : table.firstReady? test ≠ none := by
  intro hnone
  have hnot := List.find?_eq_none.mp (Option.map_eq_none_iff.mp hnone) process hprocess
  simp [htest, hidle, hready] at hnot

/-- While a process is ready, a ready process other than the idle one gets its turn, and unless it
is this process, the cursor moves on towards it. -/
theorem Schedulable.nextTurn_of_ready (h : table.Schedulable)
    (hprocess : process ∈ table.processes) (hready : process.state = .ready)
    (hidle : process.pid ≠ table.idle) :
    table.nextTurn ≠ table.idle ∧ table.state? table.nextTurn = some .ready ∧
      (table.nextTurn ≠ process.pid → Precedes process.pid table.cursor table.nextTurn) := by
  have hstate {incoming : Process} (hmem : incoming ∈ table.processes)
      (hincoming : incoming.state = .ready) : table.state? incoming.pid = some .ready := by
    rw [state?, h.find?_pid hmem]
    exact congrArg some hincoming
  unfold nextTurn
  split
  · next next hfirst =>
    obtain ⟨incoming, hmem, rfl, hbehind, hne, hincoming, hleast⟩ := h.of_firstReady? hfirst
    refine ⟨hne, hstate hmem hincoming, fun hother => ?_⟩
    have hlt : table.cursor < incoming.pid := of_decide_eq_true hbehind
    by_cases hahead : table.cursor < process.pid
    · have hle := hleast process hprocess (decide_eq_true hahead) hidle hready
      exact .inr ⟨hlt, Nat.lt_of_le_of_ne hle hother⟩
    · exact .inl ⟨Nat.le_of_not_lt hahead, .inl hlt⟩
  · next hnone =>
    -- None is ready behind the cursor, so the turns begin again with the lowest pid.
    have hle : process.pid ≤ table.cursor := by
      by_contra hlt
      exact firstReady?_ne_none hprocess hready hidle
        (decide_eq_true (Nat.lt_of_not_le hlt)) hnone
    split
    · next next hfirst =>
      obtain ⟨incoming, hmem, rfl, -, hne, hincoming, hleast⟩ := h.of_firstReady? hfirst
      refine ⟨hne, hstate hmem hincoming, fun hother => ?_⟩
      have hle' := hleast process hprocess (decide_eq_true hle) hidle hready
      exact .inl ⟨hle, .inr (Nat.lt_of_le_of_ne hle' hother)⟩
    · next hnone' =>
      exact absurd hnone' (firstReady?_ne_none hprocess hready hidle (decide_eq_true hle))

/-- The current process does not wait for its turn. -/
theorem Schedulable.ne_current_of_ready (h : table.Schedulable)
    (hready : table.state? pid = some .ready) : pid ≠ table.current := by
  obtain ⟨process, hfind, hstate⟩ := Option.map_eq_some_iff.mp hready
  exact fun heq => (h.each process (mem_of_find? hfind)).current
    ((pid_of_find? hfind).trans heq) hstate

/-! ## What becomes of the cursor -/

/-- The scheduler has not moved: the same process is current, and the cursor names the same one. -/
structure Unmoved (table table' : ProcessTable) : Prop where
  current_eq : table'.current = table.current
  idle_eq : table'.idle = table.idle
  cursor_eq : table'.cursor = table.cursor

theorem Unmoved.refl (table : ProcessTable) : Unmoved table table := ⟨rfl, rfl, rfl⟩

theorem Unmoved.trans {middle : ProcessTable} (h : Unmoved table middle)
    (h' : Unmoved middle table') : Unmoved table table' :=
  ⟨h'.current_eq.trans h.current_eq, h'.idle_eq.trans h.idle_eq, h'.cursor_eq.trans h.cursor_eq⟩

theorem unmoved_leaving (leave : Leave) : Unmoved table (table.leaving leave) := by
  unfold leaving
  split
  · exact .refl table
  · exact ⟨rfl, rfl, rfl⟩
  · exact ⟨rfl, rfl, rfl⟩
  · split <;> exact ⟨rfl, rfl, rfl⟩

theorem unmoved_ticking : Unmoved table table.ticking := by
  unfold ticking charging
  dsimp only
  split <;> exact ⟨rfl, rfl, rfl⟩

end ProcessTable

namespace Processor

open ProcessTable

variable {processor processor' : Processor}

theorem Removal.unmoved {pid : Nat} (h : Removal pid processor processor') :
    Unmoved processor.table processor'.table := by
  rw [h.table_eq]
  exact ⟨rfl, rfl, rfl⟩

theorem Does.unmoved {deed : Deed} (h : Does deed processor processor') (hquiet : deed.Quiet) :
    Unmoved processor.table processor'.table := by
  cases h with
  | launch | wake | kill => exact ⟨rfl, rfl, rfl⟩
  | remove hremoval => exact hremoval.unmoved
  | tick | pass => exact hquiet.elim

/-- A pass moves the cursor to the process that gets the processor, unless it is the idle one. -/
theorem Pass.moves (h : Pass processor processor') (hschedulable : processor.table.Schedulable) :
    processor'.table.current = processor.table.nextTurn ∧
      processor'.table.idle = processor.table.idle ∧
      processor'.table.cursor =
        if processor.table.nextTurn = processor.table.current ∨
          processor.table.nextTurn = processor.table.idle then processor.table.cursor
        else processor.table.nextTurn := by
  have hclearing : Unmoved processor.turn.table processor'.table :=
    h.keeps (fun processor' => Unmoved processor.turn.table processor'.table)
      (fun _ _ _ _ hremoval hunmoved => hunmoved.trans hremoval.unmoved) (.refl _)
  rw [hclearing.current_eq, hclearing.idle_eq, hclearing.cursor_eq]
  rcases hschedulable.nextTurn_cases with ⟨hnext, -⟩ | ⟨incoming, hmem, hpid, hne, -⟩
  · rw [turn_of_eq hnext, if_pos (.inl hnext)]
    exact ⟨hnext.symm, rfl, rfl⟩
  · rw [turn_of_ne hne, ← hpid]
    rw [← hpid] at hne
    rw [dispatch_eq hschedulable hmem hne]
    refine ⟨rfl, rfl, ?_⟩
    simp only [hne, false_or]

end Processor

theorem Task.Prepares.unmoved {task : Task} {table table' : ProcessTable} {due : Bool}
    (h : task.Prepares table due table') : table.Unmoved table' := by
  cases h with
  | tick => exact ProcessTable.unmoved_ticking
  | leave => exact ProcessTable.unmoved_leaving _
  | @quiet _ deeds processor processor' _ hquiet hcourse =>
    exact hcourse.keeps (fun processor' => processor.table.Unmoved processor'.table)
      (fun deed hdeed _ _ hdoes hunmoved => hunmoved.trans (hdoes.unmoved (hquiet deed hdeed)))
      (.refl _)

/-! ## Waiting for a turn -/

/-- A part of a run throughout which a process is ready, with the passes made meanwhile, oldest
first. Between two operations the machine, the registers on the processor and the events that wait
may change in any way. -/
inductive Waiting (pid : Nat) (start : ProcessTable) : List Handover → ProcessTable → Prop where
  | start : start.state? pid = some .ready → Waiting pid start [] start
  | operate {passes : List Handover} {paging : Paging} {operation : Operation}
      {whole whole' : WithEvents System} {stages : List Stage} {journal journal' : Journal} :
      Waiting pid start passes whole.state.table →
        (operation.run paging whole journal).state? = some whole' →
          operation.stages? paging whole journal = some (stages, journal') →
            (∀ stage ∈ stages, ∀ table ∈ stage.tables, table.state? pid = some .ready) →
              Waiting pid start (passes ++ stages.filterMap Stage.handover?) whole'.state.table

/-- A pass gives the processor to a process that is ready. -/
structure Handover.Switches (pid : Nat) (handover : Handover) : Prop where
  switch : handover.after.current ≠ handover.before.current
  ready : handover.before.state? handover.after.current = some .ready
  not_idle : handover.after.current ≠ handover.before.idle
  other : handover.after.current ≠ pid

/-- What the passes amount to while a process is ready. -/
structure Rounds (pid idle : Nat) (passes : List Handover) (table : ProcessTable) : Prop where
  /-- The idle process stays the same. -/
  idle_eq : table.idle = idle
  /-- Each pass gives the processor to another process, which is ready. -/
  switches : ∀ handover ∈ passes, handover.Switches pid ∧ handover.before.idle = idle
  /-- The processes get it in the order of the turns that begins with the one that waits. -/
  sorted : (passes.map (·.after.current)).Pairwise (Precedes pid)
  /-- The cursor has come as far as the last one. -/
  reached : ∀ handover ∈ passes,
    handover.after.current = table.cursor ∨ Precedes pid handover.after.current table.cursor

namespace Rounds

variable {pid idle : Nat} {passes : List Handover} {table table' : ProcessTable}

theorem unmoved (h : Rounds pid idle passes table) (hunmoved : table.Unmoved table') :
    Rounds pid idle passes table' where
  idle_eq := hunmoved.idle_eq.trans h.idle_eq
  switches := h.switches
  sorted := h.sorted
  reached := hunmoved.cursor_eq ▸ h.reached

/-- One more pass while the process is ready. -/
theorem pass (h : Rounds pid idle passes table) (hidle : pid ≠ idle)
    (hschedulable : table.Schedulable) (hready : table.state? pid = some .ready)
    {processor processor' : Processor} (htable : processor.table = table)
    (hpass : Pass processor processor') (hready' : processor'.table.state? pid = some .ready) :
    Rounds pid idle (passes ++ [⟨table, processor'.table⟩]) processor'.table := by
  subst htable
  obtain ⟨process, hfind, hstate⟩ := Option.map_eq_some_iff.mp hready
  obtain ⟨process', hfind', hstate'⟩ := Option.map_eq_some_iff.mp hready'
  obtain rfl := ProcessTable.pid_of_find? hfind
  obtain ⟨hnextIdle, hnextReady, hprecedes⟩ := hschedulable.nextTurn_of_ready
    (ProcessTable.mem_of_find? hfind) hstate (fun heq => hidle (heq.trans h.idle_eq))
  obtain ⟨hcurrent, hidle', hcursor⟩ := hpass.moves hschedulable
  -- The process that runs is not the one that is still ready.
  have hother : processor.table.nextTurn ≠ process.pid := by
    intro heq
    have hrunning := (hpass.sound hschedulable).current_running process'
      (ProcessTable.mem_of_find? hfind')
      ((ProcessTable.pid_of_find? hfind').trans (heq.symm.trans hcurrent.symm))
    cases hrunning.symm.trans hstate'
  have hswitch := hschedulable.ne_current_of_ready hnextReady
  rw [if_neg (not_or.mpr ⟨hswitch, hnextIdle⟩)] at hcursor
  have hlater (handover : Handover) (hmem : handover ∈ passes) :
      Precedes process.pid handover.after.current processor.table.nextTurn := by
    rcases h.reached handover hmem with heq | hbefore
    · exact heq ▸ hprecedes hother
    · exact hbefore.trans (hprecedes hother)
  refine ⟨hidle'.trans h.idle_eq, ?_, ?_, ?_⟩
  · refine List.forall_mem_append.mpr ⟨h.switches, List.forall_mem_singleton.mpr ⟨?_, h.idle_eq⟩⟩
    constructor <;> dsimp only <;> rw [hcurrent] <;> assumption
  · rw [List.map_append, List.map_singleton, hcurrent]
    refine List.pairwise_append.mpr ⟨h.sorted, List.pairwise_singleton _ _, ?_⟩
    refine List.forall_mem_map.mpr fun handover hmem next hnext => ?_
    rw [List.mem_singleton.mp hnext]
    exact hlater handover hmem
  · rw [hcursor]
    refine List.forall_mem_append.mpr ⟨fun handover hmem => .inr (hlater handover hmem), ?_⟩
    exact List.forall_mem_singleton.mpr (.inl hcurrent)

/-- A stage throughout which the process is ready. -/
theorem stage (h : Rounds pid idle passes table) (hidle : pid ≠ idle) {task : Task}
    {paging : Paging} {system : System} {stage : Stage} {journal journal' : Journal}
    (htable : system.table = table)
    (hsound : table.Sound) (hstage : task.stage? paging system journal = some (stage, journal'))
    (hready : ∀ table ∈ stage.tables, table.state? pid = some .ready) :
    Rounds pid idle (passes ++ stage.handover?.toList) stage.after.table := by
  subst htable
  rcases Task.stage?_cases hsound hstage with ⟨hnone, hprepares⟩ | ⟨found, hfound, hprepares, hpass⟩
  · rw [Stage.handover?, hnone, Option.map_none, Option.toList_none, List.append_nil]
    exact h.unmoved hprepares.unmoved
  · rw [Stage.handover?, hfound, Option.map_some, Option.toList_some]
    simp only [Stage.tables, hfound, Option.toList_some, List.map_singleton, List.singleton_append,
      List.forall_mem_cons] at hready
    exact (h.unmoved hprepares.unmoved).pass hidle (hprepares.schedulable hsound) hready.1 rfl hpass
      hready.2.1

end Rounds

namespace Waiting

variable {pid : Nat} {start table : ProcessTable} {passes : List Handover}

theorem reachable (hstart : start.Reachable) (h : Waiting pid start passes table) :
    table.Reachable := by
  induction h with
  | start => exact hstart
  | operate _ hrun _ _ ih => exact .step ih hrun

theorem rounds (hstart : start.Reachable) (hidle : pid ≠ start.idle)
    (h : Waiting pid start passes table) : Rounds pid start.idle passes table := by
  induction h with
  | start => exact ⟨rfl, nofun, .nil, nofun⟩
  | @operate passes paging operation whole whole' stages journal journal' hwaiting hrun hstages
      hready ih =>
    rw [(Operation.eq_of_stages? hrun hstages).1]
    have hrounds := Task.of_stages?
      (fun _ before system _ =>
        (∀ stage ∈ before, ∀ table ∈ stage.tables, table.state? pid = some .ready) →
          Rounds pid start.idle (passes ++ before.filterMap Stage.handover?) system.table)
      (fun task rest before system journal stage journal' hsound hstage hbefore hready => ?_)
      (sound_of_reachable (hwaiting.reachable hstart)) hstages
      (fun _ => by rwa [List.filterMap_nil, List.append_nil])
    · exact hrounds hready
    · obtain ⟨hready, hlast⟩ := List.forall_mem_append.mp hready
      have hstep := (hbefore hready).stage hidle rfl hsound hstage
        (List.forall_mem_singleton.mp hlast)
      rw [List.append_assoc] at hstep
      rwa [Stage.handovers_concat]

end Waiting

/-- A pass that gives the processor to the idle process, or leaves it there, does not move the
cursor. -/
theorem cursor_of_idle {paging : Paging} {operation : Operation} {whole : WithEvents System}
    {stages : List Stage} {journal journal' : Journal} (hsound : whole.state.table.Sound)
    (hstages : operation.stages? paging whole journal = some (stages, journal')) :
    ∀ handover ∈ stages.filterMap Stage.handover?,
      handover.after.current = handover.before.idle →
        handover.after.cursor = handover.before.cursor := by
  have hall := Task.of_stages?
    (fun _ before _ _ => ∀ handover ∈ before.filterMap Stage.handover?,
      handover.after.current = handover.before.idle →
        handover.after.cursor = handover.before.cursor)
    (fun task rest before system journal stage journal' hsound hstage hbefore => ?_)
    hsound hstages nofun
  · exact hall
  · rw [List.filterMap_append]
    refine List.forall_mem_append.mpr ⟨hbefore, fun handover hmem hidle => ?_⟩
    obtain ⟨_, hlast, hhandover⟩ := List.mem_filterMap.mp hmem
    obtain rfl := List.mem_singleton.mp hlast
    obtain ⟨found, hfound, rfl⟩ := Option.map_eq_some_iff.mp hhandover
    rcases Task.stage?_cases hsound hstage with ⟨hnone, -⟩ | ⟨_, hfound', hprepares, hpass⟩
    · cases hfound.symm.trans hnone
    · cases hfound.symm.trans hfound'
      obtain ⟨hcurrent, -, hcursor⟩ := hpass.moves (hprepares.schedulable hsound)
      exact hcursor.trans (if_pos (.inr (hcurrent.symm.trans hidle)))

/-- As long as a process other than the idle one is ready, whatever is done to the others and
however many events are handed over, every pass gives the processor to another process that is
ready, and no process gets it twice; the idle process does not get it at all. And in every reachable
state, an operation in which the processor goes to the idle process does not move the cursor then,
so the turns go on from where they were. -/
theorem turns_of_waiting {pid : Nat} {start table : ProcessTable} {passes : List Handover}
    (hstart : start.Reachable) (hidle : pid ≠ start.idle) (h : Waiting pid start passes table) :
    (passes.map (·.after.current)).Nodup ∧
    (∀ handover ∈ passes, handover.after.current ≠ handover.before.current ∧
      handover.before.state? handover.after.current = some .ready ∧
      handover.after.current ≠ start.idle ∧ handover.after.current ≠ pid) ∧
    ∀ paging (operation : Operation) whole stages journal journal', whole.state.table.Reachable →
      operation.stages? paging whole journal = some (stages, journal') →
        ∀ handover ∈ stages.filterMap Stage.handover?,
          handover.after.current = handover.before.idle →
            handover.after.cursor = handover.before.cursor := by
  have hrounds := h.rounds hstart hidle
  refine ⟨hrounds.sorted.imp Precedes.ne, fun handover hmem => ?_, ?_⟩
  · obtain ⟨hswitches, hbefore⟩ := hrounds.switches handover hmem
    exact ⟨hswitches.switch, hswitches.ready, hbefore ▸ hswitches.not_idle, hswitches.other⟩
  · exact fun _ _ _ _ _ _ hreachable => cursor_of_idle (sound_of_reachable hreachable)

/-- While the third process that was created waits, the first two get the processor once each. -/
theorem turns_of_threeProcesses :
    ∃ start passes table, ProcessTable.Reachable start ∧ 4 ≠ start.idle ∧
      Waiting 4 start passes table ∧ passes.map (·.after.current) = [2, 3] ∧
        (passes.map (·.after.current)).Nodup := by
  let launching : Operation := .launch "init" 0 true (some ⟨0⟩)
  have hrun : (match ProcessTable.ofRun? [launching, launching, launching] with
      | some start =>
        match (Operation.schedule.run default (kernelOnly start default) #[]).state?,
          Operation.schedule.stages? default (kernelOnly start default) #[] with
        | some first, some (stages, _) =>
          match (Operation.schedule.run default first #[]).state?,
            Operation.schedule.stages? default first #[] with
          | some _, some (stages', _) => decide (4 ≠ start.idle ∧
              start.state? 4 = some .ready ∧
              (∀ stage ∈ stages ++ stages', ∀ table ∈ stage.tables,
                table.state? 4 = some .ready) ∧
              ((stages ++ stages').filterMap Stage.handover?).map (·.after.current) = [2, 3])
          | _, _ => false
        | _, _ => false
      | none => false) = true := by decide +kernel
  split at hrun
  case h_1 start hstart =>
    split at hrun
    case h_1 first stages journal hfirst hstages =>
      split at hrun
      case h_1 second stages' journal' hsecond hstages' =>
        obtain ⟨hidle, hready, hall, hturns⟩ := of_decide_eq_true hrun
        obtain ⟨hall, hall'⟩ := List.forall_mem_append.mp hall
        have hreachable := ProcessTable.reachable_of_ofRun? hstart
        have hbegin : Waiting 4 start [] (kernelOnly start default).state.table := .start hready
        have hwaiting := (hbegin.operate hfirst hstages hall).operate hsecond hstages' hall'
        rw [List.nil_append, ← List.filterMap_append] at hwaiting
        exact ⟨start, _, _, hreachable, hidle, hwaiting, hturns,
          (turns_of_waiting hreachable hidle hwaiting).1⟩
      case h_2 => cases hrun
    case h_2 => cases hrun
  case h_2 => cases hrun

end KernelResources
