import KernelResources.Proofs.Process.Deeds
import KernelResources.Proofs.Process.Invariant

/-!
# What becomes of single processes

Everything a deed does to the processes of a table, other than adding and removing some, it does to
each of them by itself.

* `ProcessTable.Takes P Q` says that a change of the table turns processes with the property `P`
  into processes with the property `Q`. So if some process or every process has `P` before, then
  some or every one has `Q` afterwards. There is one rule for each change that deeds are made of.
* `Process.Enduring P` says that a process does not lose `P` in a pass of the scheduler, unless it
  is removed.
* `Pass.forall`: what every process has and does not lose in a pass, every one has after a pass.
-/

namespace KernelResources

/-- A property that a process does not lose when the processor changes hands, nor when it loses its
relatives. -/
structure Process.Enduring (P : Process → Prop) : Prop where
  kin : ∀ process parent children, P process → P { process with parent, children }
  refill : ∀ process : Process, P process → P process.refill
  resume : ∀ process : Process, process.state = .ready → P process → P (System.resume process)
  suspend : ∀ (cpu : Registers) (process : Process), P process → P (System.suspend cpu process)

namespace ProcessTable

variable {table table' : ProcessTable} {P Q : Process → Prop} {pid : Nat}

/-- The processes with the one property become processes with the other. -/
def Takes (P Q : Process → Prop) (table table' : ProcessTable) : Prop :=
  ∃ change : Process → Process, table'.processes = table.processes.map change ∧
    ∀ process ∈ table.processes, P process → Q (change process)

theorem Takes.forall (h : Takes P Q table table') (hall : ∀ process ∈ table.processes, P process) :
    ∀ process ∈ table'.processes, Q process := by
  obtain ⟨change, hprocesses, htakes⟩ := h
  rw [hprocesses]
  exact List.forall_mem_map.mpr fun process hmem => htakes process hmem (hall process hmem)

theorem Takes.exists (h : Takes P Q table table') (hsome : ∃ process ∈ table.processes, P process) :
    ∃ process ∈ table'.processes, Q process := by
  obtain ⟨change, hprocesses, htakes⟩ := h
  obtain ⟨process, hmem, hprocess⟩ := hsome
  exact ⟨change process, hprocesses ▸ List.mem_map_of_mem hmem, htakes process hmem hprocess⟩

theorem Takes.trans {R : Process → Prop} {middle : ProcessTable} (h : Takes P R table middle)
    (h' : Takes R Q middle table') : Takes P Q table table' := by
  obtain ⟨change, hprocesses, htakes⟩ := h
  obtain ⟨change', hprocesses', htakes'⟩ := h'
  refine ⟨change' ∘ change, ?_, fun process hmem hP => ?_⟩
  · rw [hprocesses', hprocesses, List.map_map]
  · exact htakes' _ (hprocesses ▸ List.mem_map_of_mem hmem) (htakes process hmem hP)

theorem takes_updateAll {change : Process → Process}
    (h : ∀ process ∈ table.processes, P process → Q (change process)) :
    Takes P Q table (table.updateAll change) := ⟨change, rfl, h⟩

theorem takes_update {change : Process → Process}
    (hchange : ∀ process ∈ table.processes, process.pid = pid → P process → Q (change process))
    (hother : ∀ process ∈ table.processes, process.pid ≠ pid → P process → Q process) :
    Takes P Q table (table.update pid change) := by
  refine takes_updateAll fun process hmem hP => ?_
  split
  · next hpid => exact hchange process hmem hpid hP
  · next hpid => exact hother process hmem hpid hP

/-! ## Ticks -/

theorem takes_charging
    (hcharge : ∀ process ticksUsed remaining, P process → P { process with ticksUsed, remaining }) :
    Takes P P table table.charging := by
  unfold charging
  split
  · exact ⟨id, (List.map_id _).symm, fun _ _ hP => hP⟩
  · exact takes_update (fun process _ _ hP => hcharge process _ _ hP) fun _ _ _ hP => hP

/-- A tick wakes the sleepers whose time has come, and it is charged. -/
theorem takes_ticking
    (hwake : ∀ process, process.state = .blocked ∧ process.wakeAt.any (· ≤ table.clock + 1) →
      P process → Q { process with state := .ready, wakeAt := none })
    (hother : ∀ process, ¬(process.state = .blocked ∧
      process.wakeAt.any (· ≤ table.clock + 1)) → P process → Q process)
    (hcharge : ∀ process ticksUsed remaining, Q process → Q { process with ticksUsed, remaining }) :
    Takes P Q table table.ticking := by
  have hwoken : Takes P Q table
      ({ table with clock := table.clock + 1 }.updateAll (System.wakeIfDue (table.clock + 1))) := by
    refine ⟨_, rfl, fun process _ hP => ?_⟩
    unfold System.wakeIfDue
    split
    · next hdue => exact hwake process hdue hP
    · next hdue => exact hother process hdue hP
  exact hwoken.trans (takes_charging hcharge)

theorem current_ticking : table.ticking.current = table.current := by
  unfold ticking charging
  dsimp only
  split <;> rfl

theorem idle_ticking : table.ticking.idle = table.idle := by
  unfold ticking charging
  dsimp only
  split <;> rfl

theorem clock_ticking : table.ticking.clock = table.clock + 1 := by
  unfold ticking charging
  dsimp only
  split <;> rfl

theorem nextPid_ticking : table.ticking.nextPid = table.nextPid := by
  unfold ticking charging
  dsimp only
  split <;> rfl

/-- A tick is charged to the current process, which has one tick less left of its turn. -/
theorem charged_ticking {process : Process} (hmem : process ∈ table.ticking.processes)
    (hpid : process.pid = table.current) :
    ∃ before ∈ table.processes, before.pid = table.current ∧
      process.remaining = before.remaining - 1 ∧ process.ticksUsed = before.ticksUsed + 1 := by
  unfold ticking charging at hmem
  dsimp only at hmem
  split at hmem
  · next hnone => exact absurd (decide_eq_true hpid) (List.find?_eq_none.mp hnone process hmem)
  · next charged hcharged =>
    have hcurrent := pid_of_find? hcharged
    -- Sleepers are woken before the tick is charged, which does not touch what is left of a turn.
    obtain ⟨before, hbefore, rfl⟩ := List.mem_map.mp (mem_of_find? hcharged)
    have hwoken : (System.wakeIfDue (table.clock + 1) before).remaining = before.remaining ∧
        (System.wakeIfDue (table.clock + 1) before).ticksUsed = before.ticksUsed := by
      unfold System.wakeIfDue
      split <;> exact ⟨rfl, rfl⟩
    obtain ⟨other, -, rfl⟩ := List.mem_map.mp hmem
    refine ⟨before, hbefore, (pid_wakeIfDue _ before).symm.trans hcurrent, ?_⟩
    split
    · exact ⟨congrArg (· - 1) hwoken.1, congrArg (· + 1) hwoken.2⟩
    · next hne =>
      rw [if_neg hne] at hpid
      exact absurd (hpid.trans hcurrent.symm) hne

/-! ## Creating -/

theorem forall_launching (hP : Process.Enduring P) (name : String) (context : Registers)
    (space : ProcessSpace) (stack : KernelStack)
    (hnew : P (Process.create table.nextPid name .ready context space stack (some table.current)))
    (hall : ∀ process ∈ table.processes, P process) :
    ∀ process ∈ (table.launching name context space stack).processes, P process := by
  refine (takes_update (fun parent _ _ => hP.kin parent parent.parent _)
    fun _ _ _ hprocess => hprocess).forall fun process hmem => ?_
  rcases List.mem_append.mp hmem with hmem | hmem
  · exact hall process hmem
  · exact List.mem_singleton.mp hmem ▸ hnew

theorem exists_launching (hP : Process.Enduring P) (name : String) (context : Registers)
    (space : ProcessSpace) (stack : KernelStack) (hsome : ∃ process ∈ table.processes, P process) :
    ∃ process ∈ (table.launching name context space stack).processes, P process := by
  obtain ⟨process, hmem, hprocess⟩ := hsome
  refine (takes_update (fun parent _ _ => hP.kin parent parent.parent _)
    fun _ _ _ hprocess => hprocess).exists ?_
  exact ⟨process, List.mem_append_left _ hmem, hprocess⟩

/-! ## Leaving the processor -/

/-- The process that sleeps waits with a deadline. -/
theorem leaving_sleep (wakeAt : Nat) : table.leaving (.sleep wakeAt) =
    table.update table.current ({ · with wakeAt := some wakeAt, state := .blocked }) := by
  unfold leaving blocking update
  simp only [List.map_map, mk.injEq, and_true]
  refine List.map_congr_left fun process _ => ?_
  by_cases hcurrent : process.pid = table.current
  · simp only [Function.comp, hcurrent, if_true]
  · simp only [Function.comp, hcurrent, if_false]

theorem clock_leaving (leave : Leave) : (table.leaving leave).clock = table.clock := by
  unfold leaving
  split
  · rfl
  · rfl
  · rfl
  · split <;> rfl

theorem nextPid_leaving (leave : Leave) : (table.leaving leave).nextPid = table.nextPid := by
  unfold leaving
  split
  · rfl
  · rfl
  · rfl
  · split <;> rfl

/-- The process that exits ends, and its parent is woken if it waits. -/
theorem takes_exit {code : Int32}
    (hended : ∀ process ∈ table.processes, process.pid = table.current → P process →
      Q { process with state := .terminated, exitCode := some code })
    (hwoken : ∀ process ∈ table.processes, process.state = .blocked →
      table.currentProcess?.bind Process.parent = some process.pid → P process →
        Q { process with state := .ready })
    (hother : ∀ process ∈ table.processes, process.pid ≠ table.current → P process → Q process) :
    Takes P Q table (table.leaving (.exit code)) := by
  unfold leaving
  dsimp only
  split
  · next parent hparent =>
    refine ⟨_, List.map_map, fun process hmem hP => ?_⟩
    simp only [Function.comp]
    by_cases hcurrent : process.pid = table.current
    -- A process that is its own parent has ended by then.
    · have hQ := hended process hmem hcurrent hP
      simp only [hcurrent, if_true, System.wakeParent, reduceCtorEq, if_false, ite_self]
      exact hcurrent ▸ hQ
    · simp only [hcurrent, if_false, System.wakeParent]
      split
      · next hpid =>
        split
        · next hblocked => exact hwoken process hmem hblocked (hpid ▸ hparent) hP
        · exact hother process hmem hcurrent hP
      · exact hother process hmem hcurrent hP
  · exact takes_update hended hother

/-- To leave the processor concerns states, deadlines and exit codes only. -/
theorem takes_leaving (leave : Leave)
    (h : ∀ process state wakeAt exitCode, P process → P { process with state, wakeAt, exitCode }) :
    Takes P P table (table.leaving leave) := by
  have hupdate {change : Process → Process} (hchange : ∀ process, P process → P (change process)) :
      Takes P P table (table.update table.current change) :=
    takes_update (fun process _ _ => hchange process) fun _ _ _ => id
  cases leave with
  | stay => exact ⟨id, (List.map_id _).symm, fun _ _ => id⟩
  | block => exact hupdate fun process => h process _ process.wakeAt process.exitCode
  | sleep wakeAt =>
    rw [leaving_sleep]
    exact hupdate fun process => h process _ _ process.exitCode
  | exit code =>
    exact takes_exit (fun process _ _ => h process _ process.wakeAt _)
      (fun process _ _ _ => h process _ process.wakeAt process.exitCode) fun _ _ _ => id

/-- A property of processes that do not run is kept when the current process leaves the processor,
if a parent that is woken then does not lose it. -/
theorem exists_leaving (hsound : table.Sound) {leave : Leave}
    (hstopped : ∀ process, P process → process.state ≠ .running)
    (hwoken : ∀ code process, leave = .exit code → process.state = .blocked →
      table.currentProcess?.bind Process.parent = some process.pid → P process →
        P { process with state := .ready })
    (hsome : ∃ process ∈ table.processes, P process) :
    ∃ process ∈ (table.leaving leave).processes, P process := by
  -- The current process runs, so it is none of those.
  have hcurrent (process : Process) (hmem : process ∈ table.processes)
      (hpid : process.pid = table.current) : ¬P process := fun hP =>
    hstopped process hP (hsound.current_running process hmem hpid)
  have hupdate {change : Process → Process} :
      ∃ process ∈ (table.update table.current change).processes, P process :=
    (takes_update (fun process hmem hpid hP => absurd hP (hcurrent process hmem hpid))
      fun _ _ _ => id).exists hsome
  cases leave with
  | stay => exact hsome
  | block => exact hupdate
  | sleep wakeAt =>
    rw [leaving_sleep]
    exact hupdate
  | exit code =>
    exact (takes_exit (fun process hmem hpid hP => absurd hP (hcurrent process hmem hpid))
      (fun process _ => hwoken code process rfl) fun _ _ _ => id).exists hsome

end ProcessTable

namespace Processor

open ProcessTable

variable {processor processor' : Processor} {P : Process → Prop} {pid : Nat}

/-! ## Turns and removals -/

theorem takes_turn (hP : Process.Enduring P) (h : processor.table.Schedulable) :
    Takes P P processor.table processor.turn.table := by
  rcases h.nextTurn_cases with ⟨hnext, -⟩ | ⟨incoming, hmem, hpid, hne, hready⟩
  -- The current process goes on, with a new turn.
  · rw [turn_of_eq hnext]
    exact takes_update (fun process _ _ => hP.refill process) fun _ _ _ hprocess => hprocess
  · rw [turn_of_ne hne]
    rw [← hpid] at hne ⊢
    rw [dispatch_eq h hmem hne]
    refine ⟨_, rfl, fun process hprocess => ?_⟩
    unfold Process.switched
    split
    · next hpid' => exact hP.resume process (h.eq_of_pid hmem hprocess hpid' ▸ hready)
    · split
      · exact hP.suspend _ process
      · exact id

theorem clock_turn (processor : Processor) :
    processor.turn.table.clock = processor.table.clock := by
  unfold turn dispatch
  dsimp only
  split
  · split <;> rfl
  · rfl

theorem nextPid_turn (processor : Processor) :
    processor.turn.table.nextPid = processor.table.nextPid := by
  unfold turn dispatch
  dsimp only
  split
  · split <;> rfl
  · rfl

/-- A process that is removed leaves its relatives behind, and those only forget it. -/
theorem Removal.takes (h : Removal pid processor processor')
    (hkin : ∀ process parent children, P process → P { process with parent, children }) :
    Takes P P (processor.table.remove pid) processor'.table := by
  obtain ⟨process, -, -, -, rfl⟩ := h
  obtain ⟨change, hchange, hunlink⟩ := unlink_eq process (processor.table.remove pid)
  rw [hunlink]
  refine takes_updateAll fun other _ hother => ?_
  obtain ⟨parent, children, heq⟩ := hchange other
  exact heq ▸ hkin other parent children hother

theorem Removal.forall (h : Removal pid processor processor')
    (hkin : ∀ process parent children, P process → P { process with parent, children })
    (hall : ∀ process ∈ processor.table.processes, P process) :
    ∀ process ∈ processor'.table.processes, P process :=
  (h.takes hkin).forall fun process hmem => hall process (List.mem_of_mem_filter hmem)

theorem Removal.exists (h : Removal pid processor processor')
    (hkin : ∀ process parent children, P process → P { process with parent, children })
    (hsome : ∃ process ∈ processor.table.processes, process.pid ≠ pid ∧ P process) :
    ∃ process ∈ processor'.table.processes, P process := by
  obtain ⟨process, hmem, hne, hprocess⟩ := hsome
  exact (h.takes hkin).exists ⟨process, List.mem_filter.mpr ⟨hmem, decide_eq_true hne⟩, hprocess⟩

/-- A removal concerns the processes only. -/
theorem Removal.table_eq (h : Removal pid processor processor') :
    processor'.table = { processor.table with processes := processor'.table.processes } := by
  obtain ⟨process, -, -, -, rfl⟩ := h
  simp only [System.unlink]
  split <;> rfl

theorem Pass.forall (h : Pass processor processor') (hP : Process.Enduring P)
    (hschedulable : processor.table.Schedulable)
    (hall : ∀ process ∈ processor.table.processes, P process) :
    ∀ process ∈ processor'.table.processes, P process :=
  Clearing.keeps (fun processor => ∀ process ∈ processor.table.processes, P process)
    (fun _ _ _ _ hremoval => hremoval.forall hP.kin) h ((takes_turn hP hschedulable).forall hall)

theorem Pass.clock_eq (h : Pass processor processor') :
    processor'.table.clock = processor.table.clock :=
  Clearing.keeps (fun processor' => processor'.table.clock = processor.table.clock)
    (fun _ _ _ _ hremoval hclock => by rw [hremoval.table_eq]; exact hclock) h
    (clock_turn processor)

theorem Pass.nextPid_eq (h : Pass processor processor') :
    processor'.table.nextPid = processor.table.nextPid :=
  Clearing.keeps (fun processor' => processor'.table.nextPid = processor.table.nextPid)
    (fun _ _ _ _ hremoval hnextPid => by rw [hremoval.table_eq]; exact hnextPid) h
    (nextPid_turn processor)

/-- Pids are given out only when processes are created. -/
theorem Does.nextPid_eq {deed : Deed} (h : Does deed processor processor')
    (hdeed : deed ≠ .launch) : processor'.table.nextPid = processor.table.nextPid := by
  cases h with
  | launch => exact absurd rfl hdeed
  | remove hremoval => rw [hremoval.table_eq]
  | wake | kill => rfl
  | tick hticks =>
    rcases hticks with rfl | ⟨-, hpass⟩
    · exact nextPid_ticking
    · exact hpass.nextPid_eq.trans nextPid_ticking
  | pass _ _ hpass => exact hpass.nextPid_eq.trans (nextPid_leaving _)

/-- No deed but a tick has an effect on the clock. -/
theorem Does.clock_eq (h : Does deed processor processor') (hdeed : deed ≠ .tick) :
    processor'.table.clock = processor.table.clock := by
  cases h with
  | launch | wake | kill => rfl
  | remove hremoval => rw [hremoval.table_eq]
  | tick => exact absurd rfl hdeed
  | pass _ _ hpass => exact hpass.clock_eq.trans (clock_leaving _)

/-! ## Soundness -/

theorem Does.sound {deed : Deed} (h : Does deed processor processor')
    (hsound : processor.table.Sound) : processor'.table.Sound :=
  (h.path.sound_carries hsound).1

theorem Does.nextPid_le {deed : Deed} (h : Does deed processor processor')
    (hsound : processor.table.Sound) : processor.table.nextPid ≤ processor'.table.nextPid :=
  (h.path.sound_carries hsound).2.nextPid_le

/-- What the first of the deeds and every one of the others keep in sound tables, all of them keep.
The first one may be of another kind than the others. -/
theorem Course.keeps_after {deeds : List Deed} (inv : Processor → Prop)
    (hfirst : ∀ deed, deeds.head? = some deed → ∀ middle, Does deed processor middle → inv middle)
    (hrest : ∀ deed ∈ deeds.tail, ∀ processor processor', Does deed processor processor' →
      processor.table.Sound → inv processor → inv processor')
    (h : Course deeds processor processor') (hsound : processor.table.Sound)
    (hinv : inv processor) : inv processor' := by
  have hothers {start : Processor} (hcourse : Course deeds.tail start processor')
      (hsound : start.table.Sound) (hinv : inv start) : inv processor' := by
    refine (hcourse.keeps (fun processor => processor.table.Sound ∧ inv processor) ?_
      ⟨hsound, hinv⟩).2
    rintro deed hmem _ _ hdoes ⟨hsound, hinv⟩
    exact ⟨hdoes.sound hsound, hrest deed hmem _ _ hdoes hsound hinv⟩
  cases h with
  | nil => exact hinv
  | skip hcourse => exact hothers hcourse hsound hinv
  | step hdoes hcourse => exact hothers hcourse (hdoes.sound hsound) (hfirst _ rfl _ hdoes)

end Processor

end KernelResources
