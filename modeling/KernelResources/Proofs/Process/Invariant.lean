import KernelResources.Proofs.Process.Moves

/-!
# What every move keeps

Every move of the scheduler keeps the process table sound and carries the surviving processes along.
Giving the processor away takes two stages: the current process stops running, which leaves a table
that is only schedulable, and then the process whose turn it is starts to run.
-/

namespace KernelResources

/-! ## Bookkeeping -/

/-- A change of a process that concerns neither its state nor its registers. -/
structure Bookkeeping (change : Process → Process) : Prop where
  pid_eq : ∀ process, (change process).pid = process.pid
  state_eq : ∀ process, (change process).state = process.state
  exitCode_eq : ∀ process, (change process).exitCode = process.exitCode
  context_eq : ∀ process, (change process).context = process.context

/-- Bookkeeping for those processes that a condition selects. -/
theorem Bookkeeping.when {change : Process → Process} (h : Bookkeeping change)
    (condition : Process → Prop) [DecidablePred condition] :
    Bookkeeping fun process => if condition process then change process else process := by
  constructor <;> intro process <;> split
  · exact h.pid_eq process
  · rfl
  · exact h.state_eq process
  · rfl
  · exact h.exitCode_eq process
  · rfl
  · exact h.context_eq process
  · rfl

section Bookkeeping

variable {table : ProcessTable} {change : Process → Process}

theorem Process.Orderly.bookkeeping {process : Process} {current idle : Nat}
    (h : process.Orderly current idle) (hchange : Bookkeeping change) :
    (change process).Orderly current idle where
  running := by rw [hchange.state_eq, hchange.pid_eq]; exact h.running
  idle := by rw [hchange.state_eq, hchange.pid_eq]; exact h.idle
  current := by rw [hchange.state_eq, hchange.pid_eq]; exact h.current
  exitCode := by rw [hchange.state_eq, hchange.exitCode_eq]; exact h.exitCode

theorem ProcessTable.Sound.bookkeeping (h : table.Sound) (hchange : Bookkeeping change) :
    (table.updateAll change).Sound :=
  h.updateAll hchange.pid_eq (fun _ _ hprocess => hprocess.bookkeeping hchange)
    fun process _ _ hstate => (hchange.state_eq process).trans hstate

theorem Processor.Carries.bookkeeping (processor : Processor) (hchange : Bookkeeping change) :
    Carries processor { processor with table := processor.table.updateAll change } :=
  carries_updateAll hchange.pid_eq hchange.context_eq fun process _ => by
    rw [hchange.state_eq process]

end Bookkeeping

theorem ProcessTable.updateAll_updateAll (table : ProcessTable)
    (change change' : Process → Process) :
    (table.updateAll change).updateAll change' = table.updateAll (change' ∘ change) := by
  simp [updateAll]

theorem bookkeeping_refill : Bookkeeping Process.refill := by
  constructor <;> intro process <;> rfl

theorem bookkeeping_adopt (child : Nat) :
    Bookkeeping fun parent : Process => { parent with children := parent.children ++ [child] } := by
  constructor <;> intro process <;> rfl

theorem bookkeeping_deadline (wakeAt : Nat) :
    Bookkeeping fun process : Process => { process with wakeAt := some wakeAt } := by
  constructor <;> intro process <;> rfl

/-- A change of a process that concerns its relatives only. -/
def Estranges (change : Process → Process) : Prop :=
  ∀ process, ∃ parent children, change process = { process with parent, children }

theorem Estranges.bookkeeping {change : Process → Process} (h : Estranges change) :
    Bookkeeping change := by
  constructor <;> intro process <;> obtain ⟨parent, children, heq⟩ := h process <;> rw [heq]

/-- The relatives of a process forget it, and that is all that happens to them. -/
theorem unlink_eq (process : Process) (table : ProcessTable) :
    ∃ change, Estranges change ∧ System.unlink process table = table.updateAll change := by
  have horphan : Estranges fun child =>
      if child.pid ∈ process.children then { child with parent := none } else child := by
    intro child
    dsimp only
    split
    · exact ⟨none, child.children, rfl⟩
    · exact ⟨child.parent, child.children, rfl⟩
  unfold System.unlink
  split
  · next parent =>
    refine ⟨_, fun other => ?_, ProcessTable.updateAll_updateAll _ _ _⟩
    dsimp only [Function.comp]
    split
    · exact horphan { other with children := other.children.filter (· ≠ process.pid) }
    · exact horphan other
  · exact ⟨_, horphan, rfl⟩

/-! ## The turn of the next process -/

namespace ProcessTable

variable {table : ProcessTable} {pid : Nat}

theorem exists_of_firstReady? {test : Process → Bool} (h : table.firstReady? test = some pid) :
    ∃ process ∈ table.processes, process.pid = pid ∧ process.state = .ready := by
  obtain ⟨process, hfind, rfl⟩ := Option.map_eq_some_iff.mp h
  have htest := List.find?_some hfind
  simp only [decide_eq_true_eq] at htest
  exact ⟨process, List.mem_of_find?_eq_some hfind, rfl, htest.2.2⟩

/-- Either the current process goes on, and then it runs, or a ready one gets its turn. -/
theorem Schedulable.nextTurn_cases (h : table.Schedulable) :
    (table.nextTurn = table.current ∧
      ∀ process ∈ table.processes, process.pid = table.current → process.state = .running) ∨
    ∃ incoming ∈ table.processes, incoming.pid = table.nextTurn ∧
      table.nextTurn ≠ table.current ∧ incoming.state = .ready := by
  have hready {incoming : Process} {next : Nat} (hmem : incoming ∈ table.processes)
      (hstate : incoming.state = .ready) (hpid : incoming.pid = next) :
      ∃ incoming ∈ table.processes, incoming.pid = next ∧ next ≠ table.current ∧
        incoming.state = .ready :=
    ⟨incoming, hmem, hpid,
      fun heq => (h.each incoming hmem).current (hpid.trans heq) hstate, hstate⟩
  unfold nextTurn
  split
  · next pid hfirst =>
    obtain ⟨incoming, hmem, hpid, hstate⟩ := exists_of_firstReady? hfirst
    exact .inr (hready hmem hstate hpid)
  · split
    · next pid hfirst =>
      obtain ⟨incoming, hmem, hpid, hstate⟩ := exists_of_firstReady? hfirst
      exact .inr (hready hmem hstate hpid)
    · by_cases hrunning : table.state? table.current = some .running
      · rw [if_pos hrunning]
        refine .inl ⟨rfl, fun process hmem hpid => ?_⟩
        rw [state?, ← hpid, h.find?_pid hmem] at hrunning
        exact Option.some.inj hrunning
      · rw [if_neg hrunning]
        -- No process is ready but perhaps the idle one, and the current one has stopped running.
        obtain ⟨idle, hmem, hpid⟩ := mem_pids.mp h.idle_mem
        rcases (h.each idle hmem).idle hpid with hstate | hstate
        · exact .inr (hready hmem hstate hpid)
        · refine absurd ?_ hrunning
          rw [← (h.each idle hmem).running hstate, state?, h.find?_pid hmem]
          exact congrArg some hstate

end ProcessTable

theorem System.pid_suspend (cpu : Registers) (process : Process) :
    (System.suspend cpu process).pid = process.pid := rfl

/-- What a switch does to each process. -/
def Process.switched (cpu : Registers) (current next : Nat) (process : Process) : Process :=
  if process.pid = next then System.resume process
  else if process.pid = current then System.suspend cpu process
  else process

theorem Process.pid_switched (cpu : Registers) (current next : Nat) (process : Process) :
    (process.switched cpu current next).pid = process.pid := by
  unfold switched
  split
  · rfl
  · split <;> rfl

/-- Both processes of a switch are orderly afterwards, and so are all others. -/
theorem Process.Orderly.switched {process : Process} {cpu : Registers} {current idle next : Nat}
    (h : process.Orderly current idle)
    (hready : process.pid = next → process.state = .ready) :
    (process.switched cpu current next).Orderly next idle := by
  obtain ⟨hrunning, hidle, hcurrent, hexitCode⟩ := h
  unfold Process.switched
  split
  · next hpid =>
    have hstate := hready hpid
    exact ⟨fun _ => hpid, fun _ => .inr rfl, fun _ => nofun,
      by simpa [System.resume, hstate] using hexitCode⟩
  · next hpid =>
    split
    · next hpid' =>
      -- The process that is switched away from is ready if it could go on.
      by_cases hstate : process.state = .running
      · refine ⟨?_, ?_, fun heq => absurd heq hpid, ?_⟩
        · simp [System.suspend, hstate]
        · simp [System.suspend, hstate]
        · simpa [System.suspend, hstate] using hexitCode
      · refine ⟨?_, fun heq => ?_, fun heq => absurd heq hpid, ?_⟩
        · simp [System.suspend, hstate]
        · exact absurd (hidle heq) (not_or.mpr ⟨hcurrent hpid', hstate⟩)
        · simpa [System.suspend, hstate] using hexitCode
    · next hpid' =>
      exact ⟨fun hstate => absurd (hrunning hstate) hpid', hidle, fun heq => absurd heq hpid,
        hexitCode⟩

/-- A process changes its state in a switch only by starting to run or by making room. -/
theorem Process.steps_switched {process : Process} {cpu : Registers} {current next : Nat}
    (hready : process.pid = next → process.state = .ready) :
    process.state.Steps (process.switched cpu current next).state := by
  unfold Process.switched
  split
  · next hpid =>
    rw [hready hpid]
    exact .single .dispatch
  · split
    · by_cases hstate : process.state = .running
      · simp only [System.suspend, hstate, if_true]
        exact .single .preempt
      · simp only [System.suspend, hstate, if_false]
        exact .refl
    · exact .refl

namespace Processor

open ProcessTable

variable {processor processor' : Processor} {incoming : Process}

/-- A switch changes the two processes it is between. -/
theorem dispatch_eq (h : processor.table.Schedulable) (hmem : incoming ∈ processor.table.processes)
    (hne : incoming.pid ≠ processor.table.current) :
    processor.dispatch incoming.pid =
      { table := { processor.table.updateAll
            (Process.switched processor.cpu processor.table.current incoming.pid) with
          current := incoming.pid
          cursor := if incoming.pid = processor.table.idle then processor.table.cursor
            else incoming.pid }
        cpu := incoming.context } := by
  -- The process that is switched to is not the one that is suspended first.
  have hfind : (processor.table.update processor.table.current
      (System.suspend processor.cpu)).find? incoming.pid = some incoming := by
    rw [find?_update (System.pid_suspend _), if_neg hne, h.find?_pid hmem]
  have hprocesses : ((processor.table.update processor.table.current
      (System.suspend processor.cpu)).update incoming.pid System.resume).processes =
        processor.table.processes.map
          (Process.switched processor.cpu processor.table.current incoming.pid) := by
    simp only [ProcessTable.update, List.map_map]
    refine List.map_congr_left fun process _ => ?_
    simp only [Function.comp, Process.switched]
    by_cases hcurrent : process.pid = processor.table.current
    · have hnext : process.pid ≠ incoming.pid := fun heq => hne (heq.symm.trans hcurrent)
      have hnext' : (System.suspend processor.cpu process).pid ≠ incoming.pid := hnext
      simp only [hcurrent, if_true, hnext', if_false, hcurrent ▸ hnext]
    · simp only [hcurrent, if_false]
  unfold dispatch
  simp only [hfind, hprocesses]
  rfl

/-- The process that was switched to runs, and it is the only one. -/
theorem sound_dispatch (h : processor.table.Schedulable)
    (hmem : incoming ∈ processor.table.processes) (hne : incoming.pid ≠ processor.table.current)
    (hready : incoming.state = .ready) : (processor.dispatch incoming.pid).table.Sound := by
  rw [dispatch_eq h hmem hne]
  have hpids : (processor.table.updateAll
      (Process.switched processor.cpu processor.table.current incoming.pid)).pids =
        processor.table.pids := pids_updateAll (Process.pid_switched _ _ _)
  -- Pids name processes, so only the incoming one is resumed.
  have hincoming (process : Process) (hprocess : process ∈ processor.table.processes)
      (hpid : process.pid = incoming.pid) : process.state = .ready :=
    h.eq_of_pid hmem hprocess hpid ▸ hready
  refine ⟨⟨?_, ?_, ?_, ?_, ?_⟩, ?_⟩
  · exact hpids.symm ▸ h.sorted
  · exact hpids.symm ▸ h.below
  · exact hpids.symm ▸ List.mem_map_of_mem hmem
  · exact hpids.symm ▸ h.idle_mem
  · exact List.forall_mem_map.mpr fun process hprocess =>
      (h.each process hprocess).switched (hincoming process hprocess)
  · refine List.forall_mem_map.mpr fun process _ hpid => ?_
    rw [Process.pid_switched] at hpid
    rw [Process.switched, if_pos hpid]
    rfl

/-- A switch saves the registers on the processor and loads those that were saved. -/
theorem carries_dispatch (h : processor.table.Schedulable)
    (hmem : incoming ∈ processor.table.processes) (hne : incoming.pid ≠ processor.table.current)
    (hready : incoming.state = .ready) : Carries processor (processor.dispatch incoming.pid) := by
  rw [dispatch_eq h hmem hne]
  refine ⟨Nat.le_refl _, List.forall_mem_map.mpr fun process hprocess _ => ?_⟩
  refine ⟨process, hprocess, (Process.pid_switched _ _ _ _).symm, Process.steps_switched
    fun hpid => h.eq_of_pid hmem hprocess hpid ▸ hready, ?_⟩
  unfold registersOf
  rw [Process.pid_switched]
  by_cases hpid : process.pid = incoming.pid
  -- The incoming process: what was saved for it is on the processor now.
  · obtain rfl := h.eq_of_pid hmem hprocess hpid
    simp only [hne, if_true, if_false]
  -- Any other process: what was on the processor is saved, the rest stays.
  · simp only [hpid, if_false, Process.switched]
    split <;> rfl

/-! ## Moves -/

/-- The process whose turn it is runs. -/
theorem sound_turn (h : processor.table.Schedulable) : processor.turn.table.Sound := by
  rcases h.nextTurn_cases with ⟨hnext, hrunning⟩ | ⟨incoming, hmem, hpid, hne, hready⟩
  · rw [turn_of_eq hnext]
    exact Sound.bookkeeping ⟨h, hrunning⟩ (bookkeeping_refill.when _)
  · rw [turn_of_ne hne]
    rw [← hpid] at hne ⊢
    exact sound_dispatch h hmem hne hready

theorem carries_turn (h : processor.table.Schedulable) : Carries processor processor.turn := by
  rcases h.nextTurn_cases with ⟨hnext, -⟩ | ⟨incoming, hmem, hpid, hne, hready⟩
  · rw [turn_of_eq hnext]
    exact Carries.bookkeeping processor (bookkeeping_refill.when _)
  · rw [turn_of_ne hne]
    rw [← hpid] at hne ⊢
    exact carries_dispatch h hmem hne hready

end Processor

namespace ProcessTable

variable {table : ProcessTable}

/-- The current process can wait, unless it is the idle one. -/
theorem Sound.blocking (h : table.Sound) (hidle : table.current ≠ table.idle) :
    table.blocking.Schedulable := by
  refine h.toSchedulable.update (fun _ => rfl) fun process hmem hpid hprocess => ?_
  have hstate := h.current_running process hmem hpid
  have hexitCode := hprocess.exitCode_eq_none (by simp [hstate])
  exact .of_stopped (by simp) (by simp) (hpid ▸ hidle) (by simp [hexitCode])

/-- The current process can end, unless it is the idle one. -/
theorem Sound.ending (h : table.Sound) (hidle : table.current ≠ table.idle) (code : Int32) :
    (table.update table.current
      ({ · with state := .terminated, exitCode := some code })).Schedulable := by
  refine h.toSchedulable.update (fun _ => rfl) fun process _ hpid _ => ?_
  exact .of_stopped (by simp) (by simp) (hpid ▸ hidle) (by simp)

theorem pid_wakeParent (process : Process) : (System.wakeParent process).pid = process.pid := by
  unfold System.wakeParent
  split <;> rfl

/-- A process that waits can be woken, unless it is the one that is about to leave. -/
theorem Schedulable.wakingParent (h : table.Schedulable) (parent : Nat)
    (hcurrent : ∀ process ∈ table.processes, process.pid = table.current →
      process.state ≠ .blocked) : (table.update parent System.wakeParent).Schedulable := by
  refine h.update pid_wakeParent fun process hmem _ hprocess => ?_
  unfold System.wakeParent
  split
  · next hblocked =>
    exact .of_ready rfl (fun hpid => hcurrent process hmem hpid hblocked)
      (hprocess.exitCode_eq_none (by simp [hblocked]))
  · exact hprocess

/-- The current process can leave the processor; the idle one can only do so to go on later. -/
theorem Sound.leaving (h : table.Sound) {leave : Leave}
    (hidle : leave = .stay ∨ table.current ≠ table.idle) : (table.leaving leave).Schedulable := by
  cases leave with
  | stay => exact h.toSchedulable
  | block => exact h.blocking (hidle.resolve_left nofun)
  | sleep wakeAt =>
    have hdeadline := (bookkeeping_deadline wakeAt).when (·.pid = table.current)
    exact (h.bookkeeping hdeadline).blocking (hidle.resolve_left nofun)
  | exit code =>
    have hended := h.ending (hidle.resolve_left nofun) code
    unfold ProcessTable.leaving
    simp only
    split
    -- The process that exits has ended by then, so its parent is another one.
    · refine hended.wakingParent _ (List.forall_mem_map.mpr fun process _ => ?_)
      split
      · exact fun _ => nofun
      · next hne => exact fun hpid => absurd hpid hne
    · exact hended

/-- A new process is ready and has not ended. -/
theorem Sound.launching (h : table.Sound) (name : String) (context : Registers)
    (space : ProcessSpace) (stack : KernelStack) :
    (table.launching name context space stack).Sound := by
  have hbelow (process : Process) (hmem : process ∈ table.processes) :
      process.pid < table.nextPid := h.below _ (List.mem_map_of_mem hmem)
  have hcurrent : table.nextPid ≠ table.current := (Nat.ne_of_lt (h.below _ h.current_mem)).symm
  -- That the parent learns of its child is bookkeeping; the rest is about the longer table.
  refine Sound.bookkeeping ⟨⟨?_, ?_, ?_, ?_, ?_⟩, ?_⟩ ((bookkeeping_adopt table.nextPid).when _)
  · simp only [pids, add, List.map_append]
    refine List.pairwise_append.mpr ⟨h.sorted, List.pairwise_singleton _ _, ?_⟩
    intro pid hpid other hother
    rw [List.mem_singleton.mp hother]
    exact h.below pid hpid
  · intro pid hpid
    simp only [pids, add, List.map_append] at hpid
    rcases List.mem_append.mp hpid with hpid | hpid
    · exact Nat.lt_succ_of_lt (h.below pid hpid)
    · rw [List.mem_singleton.mp hpid]
      exact Nat.lt_succ_self _
  · simp only [pids, add, List.map_append]
    exact List.mem_append_left _ h.current_mem
  · simp only [pids, add, List.map_append]
    exact List.mem_append_left _ h.idle_mem
  · intro process hmem
    rcases List.mem_append.mp hmem with hmem | hmem
    · exact h.each process hmem
    · rw [List.mem_singleton.mp hmem]
      exact .of_ready rfl hcurrent rfl
  · intro process hmem hpid
    rcases List.mem_append.mp hmem with hmem | hmem
    · exact h.current_running process hmem hpid
    · rw [List.mem_singleton.mp hmem] at hpid
      exact absurd hpid hcurrent

/-- Removing a process that is neither current nor idle leaves the others as they are. -/
theorem Sound.removing (h : table.Sound) {pid : Nat} (hcurrent : pid ≠ table.current)
    (hidle : pid ≠ table.idle) : (table.remove pid).Sound := by
  refine ⟨⟨?_, ?_, ?_, ?_, ?_⟩, ?_⟩
  · rw [pids_remove]
    exact h.sorted.filter _
  · rw [pids_remove]
    exact fun other hother => h.below other (List.mem_of_mem_filter hother)
  · rw [pids_remove]
    exact List.mem_filter.mpr ⟨h.current_mem, decide_eq_true hcurrent.symm⟩
  · rw [pids_remove]
    exact List.mem_filter.mpr ⟨h.idle_mem, decide_eq_true hidle.symm⟩
  · exact fun process hmem => h.each process (List.mem_of_mem_filter hmem)
  · exact fun process hmem => h.current_running process (List.mem_of_mem_filter hmem)

/-- A process that waits can be woken. -/
theorem Sound.waking (h : table.Sound) {process : Process} (hmem : process ∈ table.processes)
    (hblocked : process.state = .blocked) :
    (table.update process.pid ({ · with state := .ready, wakeAt := none })).Sound := by
  -- The current process runs, so it is not the one that waits.
  have hne := h.pid_ne_current hmem (by simp [hblocked])
  refine h.update (fun _ => rfl) (fun other hother hpid hprocess => ?_) hne
  obtain rfl := h.eq_of_pid hmem hother hpid
  exact .of_ready rfl hne (hprocess.exitCode_eq_none (by simp [hblocked]))

/-- A process that is neither current nor idle can be ended. -/
theorem Sound.killing (h : table.Sound) {pid : Nat} (hcurrent : pid ≠ table.current)
    (hidle : pid ≠ table.idle) (code : Int32) :
    (table.update pid ({ · with state := .terminated, exitCode := some code })).Sound := by
  refine h.update (fun _ => rfl) (fun process _ hpid _ => ?_) hcurrent
  exact .of_stopped (by simp) (by simp) (hpid ▸ hidle) (by simp)

/-- Charging a tick is bookkeeping. -/
theorem charging_eq (table : ProcessTable) :
    ∃ change, Bookkeeping change ∧ table.charging = table.updateAll change := by
  unfold charging
  split
  · exact ⟨id, by constructor <;> intro process <;> rfl, by simp [updateAll]⟩
  · next process _ =>
    have hcharge : Bookkeeping fun other : Process =>
        { other with ticksUsed := process.ticksUsed + 1, remaining := process.remaining - 1 } := by
      constructor <;> intro process <;> rfl
    exact ⟨_, hcharge.when _, rfl⟩

theorem pid_wakeIfDue (clock : Nat) (process : Process) :
    (System.wakeIfDue clock process).pid = process.pid := by
  unfold System.wakeIfDue
  split <;> rfl

/-- A tick wakes sleepers, of which the current process is none. -/
theorem Sound.ticking (h : table.Sound) : table.ticking.Sound := by
  obtain ⟨change, hchange, hcharging⟩ := charging_eq
    ({ table with clock := table.clock + 1 }.updateAll (System.wakeIfDue (table.clock + 1)))
  have hclock : { table with clock := table.clock + 1 }.Sound :=
    ⟨⟨h.sorted, h.below, h.current_mem, h.idle_mem, h.each⟩, h.current_running⟩
  unfold ProcessTable.ticking
  simp only [hcharging]
  refine Sound.bookkeeping (hclock.updateAll (pid_wakeIfDue _) (fun process hmem hprocess => ?_)
    fun process _ _ hstate => ?_) hchange
  · unfold System.wakeIfDue
    split
    -- A sleeper is blocked, so it is not the current process, which runs.
    · next hdue =>
      have hne : process.pid ≠ table.current := h.pid_ne_current hmem (by simp [hdue.1])
      exact .of_ready rfl hne (hprocess.exitCode_eq_none (by simp [hdue.1]))
    · exact hprocess
  · simp [System.wakeIfDue, hstate]

end ProcessTable

namespace Processor

variable {processor processor' : Processor}

/-- Every move keeps the table sound. -/
theorem Move.sound (hmove : Move processor processor') (h : processor.table.Sound) :
    processor'.table.Sound := by
  cases hmove with
  | launch name context space stack => exact h.launching name context space stack
  | @remove process _ hcurrent hidle =>
    obtain ⟨change, hchange, hunlink⟩ := unlink_eq process (processor.table.remove process.pid)
    rw [hunlink]
    exact (h.removing hcurrent hidle).bookkeeping hchange.bookkeeping
  | wake hfind hblocked => exact h.waking (ProcessTable.mem_of_find? hfind) hblocked
  | kill hcurrent hidle => exact h.killing hcurrent hidle System.killedCode
  | tick => exact h.ticking
  | turn leave hidle => exact sound_turn (h.leaving hidle)

/-- A process that waits is woken along with the one that exits, if it is its parent. -/
theorem carries_wakingParent (processor : Processor) (parent : Nat) :
    Carries processor
      { processor with table := processor.table.update parent System.wakeParent } := by
  refine carries_update ProcessTable.pid_wakeParent (fun process => ?_) fun process _ _ => ?_
  · unfold System.wakeParent
    split <;> rfl
  · unfold System.wakeParent
    split
    · next hblocked => exact hblocked ▸ .single .wake
    · exact .refl

theorem carries_blocking (h : processor.table.Sound) :
    Carries processor { processor with table := processor.table.blocking } := by
  refine carries_update (fun _ => rfl) (fun _ => rfl) fun process hmem hpid => ?_
  rw [h.current_running process hmem hpid]
  exact .single .block

theorem carries_ending (processor : Processor) (pid : Nat) (code : Int32) :
    Carries processor { processor with
      table := processor.table.update pid
        ({ · with state := .terminated, exitCode := some code }) } :=
  carries_update (fun _ => rfl) (fun _ => rfl) fun _ _ _ => .single (.terminate _)

/-- The current process steps down, and its registers stay on the processor. -/
theorem carries_leaving (h : processor.table.Sound) (leave : Leave) :
    Carries processor { processor with table := processor.table.leaving leave } := by
  cases leave with
  | stay => exact .refl processor
  | block => exact carries_blocking h
  | sleep wakeAt =>
    have hdeadline := (bookkeeping_deadline wakeAt).when (·.pid = processor.table.current)
    have hmarked := Carries.bookkeeping processor hdeadline
    exact hmarked.trans (carries_blocking (h.bookkeeping hdeadline))
  | exit code =>
    have hended := carries_ending processor processor.table.current code
    unfold ProcessTable.leaving
    simp only
    split
    · exact hended.trans (carries_wakingParent _ _)
    · exact hended

/-- Sleepers are woken by a tick. -/
theorem carries_ticking (processor : Processor) :
    Carries processor { processor with table := processor.table.ticking } := by
  obtain ⟨change, hchange, hcharging⟩ := ProcessTable.charging_eq
    ({ processor.table with clock := processor.table.clock + 1 }.updateAll
      (System.wakeIfDue (processor.table.clock + 1)))
  have hclock : Carries processor
      { processor with table := { processor.table with clock := processor.table.clock + 1 } } :=
    ⟨Nat.le_refl _, fun process hmem _ => ⟨process, hmem, rfl, .refl, rfl⟩⟩
  unfold ProcessTable.ticking
  simp only [hcharging]
  refine (hclock.trans (carries_updateAll (ProcessTable.pid_wakeIfDue _) (fun process => ?_)
    fun process _ => ?_)).trans (Carries.bookkeeping _ hchange)
  · unfold System.wakeIfDue
    split <;> rfl
  · unfold System.wakeIfDue
    split
    · next hdue => exact hdue.1 ▸ .single .wake
    · exact .refl

/-- A new process has a pid that no process had before. -/
theorem carries_launching (processor : Processor) (name : String) (context : Registers)
    (space : ProcessSpace) (stack : KernelStack) :
    Carries processor
      { processor with table := processor.table.launching name context space stack } := by
  have hadd : Carries processor { processor with
      table := { processor.table with nextPid := processor.table.nextPid + 1 }.add
        (Process.create processor.table.nextPid name .ready context space stack
          (some processor.table.current)) } := by
    refine ⟨Nat.le_succ _, fun process hmem hpid => ?_⟩
    rcases List.mem_append.mp hmem with hmem | hmem
    · exact ⟨process, hmem, rfl, .refl, rfl⟩
    -- The new process itself is not among those that were there before.
    · rw [List.mem_singleton.mp hmem] at hpid
      exact absurd hpid (Nat.lt_irrefl _)
  exact hadd.trans (Carries.bookkeeping _ ((bookkeeping_adopt processor.table.nextPid).when _))

/-- Every move carries the surviving processes along. -/
theorem Move.carries (hmove : Move processor processor') (h : processor.table.Sound) :
    Carries processor processor' := by
  cases hmove with
  | launch name context space stack => exact carries_launching processor name context space stack
  | @remove process _ hcurrent hidle =>
    obtain ⟨change, hchange, hunlink⟩ := unlink_eq process (processor.table.remove process.pid)
    have hremoved : Carries processor
        { processor with table := processor.table.remove process.pid } :=
      ⟨Nat.le_refl _, fun other hother _ =>
        ⟨other, List.mem_of_mem_filter hother, rfl, .refl, rfl⟩⟩
    rw [hunlink]
    exact hremoved.trans (Carries.bookkeeping _ hchange.bookkeeping)
  | @wake process hfind hblocked =>
    refine carries_update (fun _ => rfl) (fun _ => rfl) fun other hother hpid => ?_
    rw [h.eq_of_pid (ProcessTable.mem_of_find? hfind) hother hpid, hblocked]
    exact .single .wake
  | @kill pid _ _ => exact carries_ending processor pid System.killedCode
  | tick => exact carries_ticking processor
  | turn leave hidle => exact (carries_leaving h leave).trans (carries_turn (h.leaving hidle))

/-- Any number of moves keeps the table sound and carries the surviving processes along. -/
theorem Path.sound_carries (hpath : Path processor processor') (h : processor.table.Sound) :
    processor'.table.Sound ∧ Carries processor processor' := by
  induction hpath with
  | refl => exact ⟨h, .refl processor⟩
  | tail _ hmove ih => exact ⟨hmove.sound ih.1, ih.2.trans (hmove.carries ih.1)⟩

end Processor

end KernelResources
