import KernelResources.Proofs.Process.Changes
import KernelResources.Proofs.Process.Runs

/-!
# Deadlines

A process that sleeps waits with a deadline, and one that blocks waits without one. What ends a wait
has to take the deadline away, lest the process wakes too early when it waits again. A tick and a
wake-up do so; the exit of a child does not.

* `Punctual`: only sleepers have deadlines, and those are in the future.
* `Idles`: a process waits without a deadline, unless it has ended.
* `ProcessTable.Undisturbed`: a run in which no process sleeps while a child of it exits.
* `deadlines_of_reachable`: such a run keeps every process punctual, and in any run a process that
  waits without a deadline does so until it is woken or a child of it exits.
* `disturbed_of_exit`: the exit of a child can leave a process that runs with a deadline.
-/

namespace KernelResources

namespace Process

/-- Only a process that waits has a deadline, and it is in the future; one that was ended while it
waited may have kept it. -/
def Punctual (clock : Nat) (process : Process) : Prop :=
  ∀ wakeAt, process.wakeAt = some wakeAt →
    process.state = .terminated ∨ process.state = .blocked ∧ clock < wakeAt

/-- The process of this pid waits without a deadline, or it has ended. -/
def Idles (pid : Nat) (process : Process) : Prop :=
  process.pid = pid →
    process.state = .blocked ∧ process.wakeAt = none ∨ process.state = .terminated

theorem Punctual.wakeAt_eq_none {clock : Nat} {process : Process} (h : process.Punctual clock)
    (hterminated : process.state ≠ .terminated) (hblocked : process.state ≠ .blocked) :
    process.wakeAt = none :=
  Option.eq_none_iff_forall_ne_some.mpr fun wakeAt hwakeAt =>
    (h wakeAt hwakeAt).elim hterminated fun hwaits => hblocked hwaits.1

theorem Punctual.wakeAt_eq_none_of_running {clock : Nat} {process : Process}
    (h : process.Punctual clock) (hrunning : process.state = .running) : process.wakeAt = none :=
  h.wakeAt_eq_none (by simp [hrunning]) (by simp [hrunning])

theorem punctual_of_none {clock : Nat} {process : Process} (h : process.wakeAt = none) :
    process.Punctual clock := fun _ hwakeAt => nomatch h.symm.trans hwakeAt

theorem enduring_punctual (clock : Nat) : Enduring (Punctual clock) where
  kin _ _ _ hpunctual := hpunctual
  refill _ hpunctual := hpunctual
  resume _ hready hpunctual :=
    punctual_of_none (hpunctual.wakeAt_eq_none (by simp [hready]) (by simp [hready]))
  suspend cpu process hpunctual := by
    by_cases hrunning : process.state = .running
    · exact punctual_of_none (hpunctual.wakeAt_eq_none_of_running hrunning)
    · simpa only [Punctual, System.suspend, hrunning, if_false] using hpunctual

/-- A process that runs or could run does not wait. -/
theorem Idles.pid_ne {pid : Nat} {process : Process} (h : process.Idles pid)
    (hgoes : process.state = .running ∨ process.state = .ready) : process.pid ≠ pid := by
  intro hpid
  rcases h hpid with ⟨hblocked, -⟩ | hterminated
  · simp [hblocked] at hgoes
  · simp [hterminated] at hgoes

theorem enduring_idles (pid : Nat) : Enduring (Idles pid) where
  kin _ _ _ hidles := hidles
  refill _ hidles := hidles
  resume _ hready hidles hpid := absurd hpid (hidles.pid_ne (.inr hready))
  suspend cpu process hidles hpid := by
    have hrunning : process.state ≠ .running := fun hrunning => hidles.pid_ne (.inl hrunning) hpid
    simpa only [System.suspend, hrunning, if_false] using hidles hpid

end Process

namespace ProcessTable

variable {table : ProcessTable}

/-- Every process is punctual. -/
def Punctual (table : ProcessTable) : Prop :=
  ∀ process ∈ table.processes, process.Punctual table.clock

theorem Punctual.ticking (h : table.Punctual) : table.ticking.Punctual := by
  unfold Punctual
  rw [clock_ticking]
  refine (takes_ticking (fun _ _ _ => Process.punctual_of_none rfl)
    (fun process hdue hpunctual => ?_) fun _ _ _ hpunctual => hpunctual).forall h
  -- A sleeper that goes on sleeping has a deadline that the clock has not reached.
  intro wakeAt hwakeAt
  refine (hpunctual wakeAt hwakeAt).imp_right fun hwaits => ⟨hwaits.1, ?_⟩
  exact Nat.lt_of_not_le fun hle => hdue ⟨hwaits.1, by simpa [hwakeAt] using hle⟩

/-- The current process can leave the processor, unless it exits while its parent sleeps. -/
theorem Punctual.leaving (h : table.Punctual) (hsound : table.Sound) {leave : Leave}
    (hfuture : ∀ wakeAt, leave = .sleep wakeAt → table.clock < wakeAt)
    (hparent : ∀ code, leave = .exit code → ∀ parent ∈ table.processes,
      table.currentProcess?.bind Process.parent = some parent.pid → parent.state = .blocked →
        parent.wakeAt = none) : (table.leaving leave).Punctual := by
  unfold Punctual
  rw [clock_leaving]
  cases leave with
  | stay => exact h
  | block =>
    refine (takes_update (fun process hmem hpid hpunctual => ?_) fun _ _ _ hpunctual =>
      hpunctual).forall h
    have hrunning := hsound.current_running process hmem hpid
    exact Process.punctual_of_none (hpunctual.wakeAt_eq_none_of_running hrunning)
  | sleep wakeAt =>
    rw [leaving_sleep]
    refine (takes_update (fun _ _ _ _ => ?_) fun _ _ _ hpunctual => hpunctual).forall h
    rintro _ ⟨⟩
    exact .inr ⟨rfl, hfuture wakeAt rfl⟩
  | exit code =>
    refine (takes_exit (fun _ _ _ _ _ _ => .inl rfl) (fun process hmem hblocked hchild _ => ?_)
      fun _ _ _ hpunctual => hpunctual).forall h
    exact Process.punctual_of_none (hparent code rfl process hmem hchild hblocked)

/-- The process of this pid waits without a deadline, or it has ended. -/
def Idles (table : ProcessTable) (pid : Nat) : Prop :=
  ∀ process ∈ table.processes, process.Idles pid

theorem Idles.ticking {pid : Nat} (h : table.Idles pid) : table.ticking.Idles pid := by
  refine (takes_ticking (fun process hdue hidles hpid => ?_) (fun _ _ hidles => hidles)
    fun _ _ _ hidles => hidles).forall h
  rcases hidles hpid with ⟨-, hnone⟩ | hterminated
  · simp [hnone] at hdue
  · cases hterminated.symm.trans hdue.1

/-- Only the exit of a child wakes a process when another one leaves the processor. -/
theorem Idles.leaving {pid : Nat} (h : table.Idles pid) (hsound : table.Sound) {leave : Leave}
    (hparent : ∀ code, leave = .exit code →
      table.currentProcess?.bind Process.parent ≠ some pid) : (table.leaving leave).Idles pid := by
  -- The current process runs, so it is not the one that waits.
  have hne (process : Process) (hmem : process ∈ table.processes)
      (hcurrent : process.pid = table.current) (hidles : process.Idles pid) :
      process.pid ≠ pid :=
    hidles.pid_ne (.inl (hsound.current_running process hmem hcurrent))
  cases leave with
  | stay => exact h
  | block =>
    exact (takes_update (fun process hmem hcurrent hidles hpid =>
      absurd hpid (hne process hmem hcurrent hidles)) fun _ _ _ hidles => hidles).forall h
  | sleep wakeAt =>
    rw [leaving_sleep]
    exact (takes_update (fun process hmem hcurrent hidles hpid =>
      absurd hpid (hne process hmem hcurrent hidles)) fun _ _ _ hidles => hidles).forall h
  | exit code =>
    refine (takes_exit (fun _ _ _ _ _ => .inr rfl) (fun process _ _ hchild _ hpid => ?_)
      fun _ _ _ hidles => hidles).forall h
    exact absurd (hpid ▸ hchild) (hparent code rfl)

end ProcessTable

namespace Processor

open ProcessTable

variable {processor processor' : Processor} {deeds : List Deed} {deed : Deed} {pid : Nat}

/-! ## What a deed keeps -/

theorem Pass.punctual (h : Pass processor processor') (hschedulable : processor.table.Schedulable)
    (hpunctual : processor.table.Punctual) : processor'.table.Punctual := by
  unfold ProcessTable.Punctual
  rw [h.clock_eq]
  exact h.forall (Process.enduring_punctual _) hschedulable hpunctual

/-- Every deed keeps all processes punctual, except the exit of a process whose parent sleeps. -/
theorem Does.punctual (h : Does deed processor processor') (hsound : processor.table.Sound)
    (hparent : ∀ code, deed = .pass (.exit code) → ∀ parent ∈ processor.table.processes,
      processor.table.currentProcess?.bind Process.parent = some parent.pid →
        parent.state = .blocked → parent.wakeAt = none)
    (hpunctual : processor.table.Punctual) : processor'.table.Punctual := by
  cases h with
  | launch name context space stack =>
    exact forall_launching (Process.enduring_punctual _) name context space stack
      (Process.punctual_of_none rfl) hpunctual
  | remove hremoval =>
    -- The clock stays, so the processes that are left need only be punctual by the same clock.
    unfold ProcessTable.Punctual
    have hforall := hremoval.forall (Process.enduring_punctual processor.table.clock).kin hpunctual
    rw [hremoval.table_eq]
    exact hforall
  | wake _ _ =>
    exact (takes_update (fun _ _ _ _ => Process.punctual_of_none rfl)
      fun _ _ _ hpunctual => hpunctual).forall hpunctual
  | kill _ _ =>
    exact (takes_update (fun _ _ _ _ _ _ => .inl rfl) fun _ _ _ hpunctual => hpunctual).forall
      hpunctual
  | tick hticks =>
    rcases hticks with rfl | ⟨-, hpass⟩
    · exact hpunctual.ticking
    · exact hpass.punctual hsound.ticking.toSchedulable hpunctual.ticking
  | pass hidle hfuture hpass =>
    exact hpass.punctual (hsound.leaving hidle)
      (hpunctual.leaving hsound hfuture fun code hexit => hparent code (hexit ▸ rfl))

theorem Pass.idles (h : Pass processor processor') (hschedulable : processor.table.Schedulable)
    (hidles : processor.table.Idles pid) : processor'.table.Idles pid :=
  h.forall (Process.enduring_idles pid) hschedulable hidles

/-- A process that waits without a deadline does so until it is woken or a child of it exits. -/
theorem Does.idles (h : Does deed processor processor') (hsound : processor.table.Sound)
    (hpid : pid < processor.table.nextPid) (hwake : deed ≠ .wake pid)
    (hparent : ∀ code, deed = .pass (.exit code) →
      processor.table.currentProcess?.bind Process.parent ≠ some pid)
    (hidles : processor.table.Idles pid) : processor'.table.Idles pid := by
  cases h with
  | launch name context space stack =>
    exact forall_launching (Process.enduring_idles pid) name context space stack
      (fun hnew => absurd hnew (Nat.ne_of_gt hpid)) hidles
  | remove hremoval => exact hremoval.forall (Process.enduring_idles pid).kin hidles
  | @wake _ _ woken _ _ =>
    refine (takes_update (fun process _ hwoken _ hpid => ?_) fun _ _ _ hidles => hidles).forall
      hidles
    exact absurd (congrArg Deed.wake (hwoken.symm.trans hpid)) hwake
  | kill _ _ =>
    exact (takes_update (fun _ _ _ _ _ => .inr rfl) fun _ _ _ hidles => hidles).forall hidles
  | tick hticks =>
    rcases hticks with rfl | ⟨-, hpass⟩
    · exact hidles.ticking
    · exact hpass.idles hsound.ticking.toSchedulable hidles.ticking
  | pass hidle _ hpass =>
    exact hpass.idles (hsound.leaving hidle)
      (hidles.leaving hsound fun code hexit => hparent code (hexit ▸ rfl))

/-- A process that blocks without a deadline waits without one. -/
theorem Pass.idles_of_block
    (h : Pass { processor with table := processor.table.blocking } processor')
    (hsound : processor.table.Sound) (hidle : processor.table.current ≠ processor.table.idle)
    (hpunctual : processor.table.Punctual) : processor'.table.Idles processor.table.current := by
  refine Pass.idles h (hsound.blocking hidle) ?_
  refine (takes_update (fun process hmem hpid hpunctual _ => ?_)
    fun _ _ hne _ hpid => absurd hpid hne).forall hpunctual
  have hrunning := hsound.current_running process hmem hpid
  exact .inl ⟨rfl, hpunctual.wakeAt_eq_none_of_running hrunning⟩

end Processor

/-! ## Operations -/

open Processor

variable {paging : Paging} {table : ProcessTable} {operation : Operation}
  {whole whole' : WithEvents System} {journal : Journal}

/-- The operation ends the current process, whose parent has the pid `parent`. -/
def Operation.EndsChildOf (operation : Operation) (whole : WithEvents System) (parent : Nat) :
    Prop :=
  (∃ code, Deed.pass (.exit code) ∈ operation.deeds whole) ∧
    whole.state.table.currentProcess?.bind Process.parent = some parent

/-- A run leads to the table in which no process sleeps while a child of it exits. -/
inductive ProcessTable.Undisturbed : ProcessTable → Prop where
  | bootstrap {paging : Paging} {stack : Option KernelStack} {table : ProcessTable}
      {journal journal' : Journal} :
      ProcessTable.bootstrap paging stack () journal = .done table () journal' → Undisturbed table
  | step {paging : Paging} {operation : Operation} {whole whole' : WithEvents System}
      {journal : Journal} : Undisturbed whole.state.table →
        (∀ parent ∈ whole.state.table.processes, operation.EndsChildOf whole parent.pid →
          parent.state = .blocked → parent.wakeAt = none) →
            (operation.run paging whole journal).state? = some whole' →
              Undisturbed whole'.state.table

theorem Event.exit_not_mem_map (events : List Event) (code : Int32) :
    Deed.pass (.exit code) ∉ events.map Event.deed := by
  intro hmem
  obtain ⟨event, -, heq⟩ := List.mem_map.mp hmem
  cases event <;> cases heq

/-- If an operation ends the current process, it does so first. -/
theorem Operation.exit_not_mem_tail (operation : Operation) (whole : WithEvents System)
    (code : Int32) : Deed.pass (.exit code) ∉ (operation.deeds whole).tail := by
  have hrequest (request : Syscall.Request) : request.deeds.tail = [] := by
    unfold Syscall.Request.deeds
    split
    · rfl
    · split <;> rfl
  cases operation with
  | kill pid =>
    simp only [Operation.deeds, System.killing]
    split <;> simp
  | serve request => simp [Operation.deeds, hrequest]
  | actOnEvents => exact fun hmem => Event.exit_not_mem_map _ code (List.mem_of_mem_tail hmem)
  | timer => exact fun hmem => Event.exit_not_mem_map _ code (List.mem_of_mem_tail hmem)
  | systemCall =>
    have htail := hrequest (Syscall.Request.ofRegisters whole.state.cpu)
    simp only [Operation.deeds]
    cases hdeeds : (Syscall.Request.ofRegisters whole.state.cpu).deeds with
    | nil => exact fun hmem => Event.exit_not_mem_map _ code (List.mem_of_mem_tail hmem)
    | cons deed rest =>
      rw [hdeeds] at htail
      obtain rfl : rest = [] := htail
      exact Event.exit_not_mem_map _ code
  | launch _ _ _ _ | remove _ | schedule | tick | block | wake _ | sleep _ | exit _ =>
    exact nofun

/-- An operation keeps all processes punctual, unless it ends the child of a process that sleeps. -/
theorem Operation.punctual_of_run (hsound : whole.state.table.Sound)
    (hparent : ∀ parent ∈ whole.state.table.processes, operation.EndsChildOf whole parent.pid →
      parent.state = .blocked → parent.wakeAt = none)
    (hrun : (operation.run paging whole journal).state? = some whole')
    (hpunctual : whole.state.table.Punctual) : whole'.state.table.Punctual := by
  refine (Operation.course_of_run hsound hrun).keeps_after
    (fun processor => processor.table.Punctual) ?_ ?_ hsound hpunctual
  -- Only the first deed can be an exit, and then it is the exit of the process that is current now.
  · intro deed hhead _ hdoes
    refine hdoes.punctual hsound (fun code hexit parent hmem hchild => ?_) hpunctual
    exact hparent parent hmem ⟨⟨code, hexit ▸ List.mem_of_head? hhead⟩, hchild⟩
  · intro deed hmem _ _ hdoes hsound
    refine hdoes.punctual hsound fun code hexit => ?_
    exact absurd (hexit ▸ hmem) (operation.exit_not_mem_tail whole code)

/-- A process that waits without a deadline does so after an operation that neither wakes it nor
ends a child of it. -/
theorem Operation.idles_of_run (hsound : whole.state.table.Sound) {pid : Nat}
    (hpid : pid < whole.state.table.nextPid) (hwake : .wake pid ∉ operation.deeds whole)
    (hparent : ¬operation.EndsChildOf whole pid)
    (hrun : (operation.run paging whole journal).state? = some whole')
    (hidles : whole.state.table.Idles pid) : whole'.state.table.Idles pid := by
  refine ((Operation.course_of_run hsound hrun).keeps_after (fun processor =>
    pid < processor.table.nextPid ∧ processor.table.Idles pid) ?_ ?_ hsound ⟨hpid, hidles⟩).2
  · intro deed hhead _ hdoes
    have hmem := List.mem_of_head? hhead
    refine ⟨Nat.lt_of_lt_of_le hpid (hdoes.nextPid_le hsound), hdoes.idles hsound hpid ?_ ?_ hidles⟩
    · exact fun heq => hwake (heq ▸ hmem)
    · exact fun code hexit hchild => hparent ⟨⟨code, hexit ▸ hmem⟩, hchild⟩
  · rintro deed hmem _ _ hdoes hsound ⟨hpid, hidles⟩
    refine ⟨Nat.lt_of_lt_of_le hpid (hdoes.nextPid_le hsound), hdoes.idles hsound hpid ?_ ?_ hidles⟩
    · exact fun heq => hwake (heq ▸ List.mem_of_mem_tail hmem)
    · exact fun code hexit => absurd (hexit ▸ hmem) (operation.exit_not_mem_tail whole code)

/-! ## Runs -/

theorem ProcessTable.Undisturbed.reachable (h : table.Undisturbed) : table.Reachable := by
  induction h with
  | bootstrap hboot => exact .bootstrap hboot
  | step _ _ hrun ih => exact .step ih hrun

theorem ProcessTable.Undisturbed.punctual (h : table.Undisturbed) : table.Punctual := by
  induction h with
  | @bootstrap _ stack _ _ _ hboot =>
    cases stack with
    | none => cases hboot
    | some stack =>
      cases hboot
      exact List.forall_mem_singleton.mpr (Process.punctual_of_none rfl)
  | step hbefore hparent hrun ih =>
    exact Operation.punctual_of_run (sound_of_reachable hbefore.reachable) hparent hrun ih

/-- After a run in which no process sleeps while a child of it exits, only processes that wait have
deadlines, and those are in the future, but for processes that were ended while they waited; and the
current process waits without a deadline when it blocks. After any run, a process that waits without
a deadline does so until it is woken, directly or by an event, or a child of it exits. -/
theorem deadlines_of_reachable (h : table.Reachable) :
    (table.Undisturbed → table.Punctual) ∧
    (table.Undisturbed → ∀ paging system system' next journal journal', system.table = table →
      System.block paging system journal = .done next system' journal' →
        system'.table.Idles table.current) ∧
    ∀ paging (operation : Operation) whole whole' journal, whole.state.table = table →
      (operation.run paging whole journal).state? = some whole' →
        ∀ pid < table.nextPid, table.Idles pid → .wake pid ∉ operation.deeds whole →
          ¬operation.EndsChildOf whole pid → whole'.state.table.Idles pid := by
  have hsound := sound_of_reachable h
  refine ⟨ProcessTable.Undisturbed.punctual, ?_, ?_⟩
  · rintro hundisturbed paging system system' next journal journal' rfl hblock
    obtain ⟨hidle, hleaves⟩ := System.ensures_block.of_done hblock
    have hpass : Pass { system.processor with table := system.processor.table.blocking }
      system'.processor := hleaves
    exact hpass.idles_of_block hsound hidle hundisturbed.punctual
  · rintro paging operation whole whole' journal rfl hrun pid hpid hidles hwake hparent
    exact Operation.idles_of_run hsound hpid hwake hparent hrun hidles

/-- The operations by which the second process goes to sleep for five ticks. -/
def sleepingRun : List Operation := [.launch "init" 0 true (some ⟨0⟩), .schedule, .sleep 5]

/-- A process that sleeps has a deadline in the future. -/
theorem deadlines_of_sleeping :
    ∃ table process, ProcessTable.Undisturbed table ∧ table.find? 2 = some process ∧
      process.wakeAt = some 5 ∧ process.state = .blocked ∧ table.clock < 5 := by
  have hrun : (ProcessTable.ofRun? sleepingRun).any (fun table => (table.find? 2).any fun process =>
      process.wakeAt = some 5 ∧ process.state ≠ .terminated) = true := by decide +kernel
  obtain ⟨table, htable, hfound⟩ := (Option.any_eq_true _ _).mp hrun
  obtain ⟨process, hfind, hfacts⟩ := (Option.any_eq_true _ _).mp hfound
  obtain ⟨hwakeAt, hstate⟩ := of_decide_eq_true hfacts
  have hundisturbed : table.Undisturbed := by
    refine ProcessTable.of_ofRun? ProcessTable.Undisturbed (fun _ _ => .bootstrap)
      (fun operation hmem start whole' hstart hafter => ?_) htable
    have hundisturbed : (kernelOnly start default).state.table.Undisturbed := hstart
    -- None of these operations ends a process.
    refine .step hundisturbed (fun _ _ hends => absurd hends.1 ?_) hafter
    rintro ⟨code, hexit⟩
    simp only [sleepingRun, List.mem_cons, List.not_mem_nil, or_false] at hmem
    rcases hmem with rfl | rfl | rfl <;> simp [Operation.deeds, System.sleeping] at hexit
  obtain ⟨hpunctual, -, -⟩ := deadlines_of_reachable (ProcessTable.reachable_of_ofRun? htable)
  have hwaits := hpunctual hundisturbed process (ProcessTable.mem_of_find? hfind) 5 hwakeAt
  obtain ⟨hblocked, hclock⟩ := hwaits.resolve_left hstate
  exact ⟨table, process, hundisturbed, hfind, hwakeAt, hblocked, hclock⟩

/-- A process whose child exits while it sleeps runs with a deadline. If it then blocks, it runs
again after as many ticks, though nothing has woken it. -/
theorem disturbed_of_exit :
    ∃ table later process, ProcessTable.Reachable table ∧ table.find? 2 = some process ∧
      process.state = .running ∧ process.wakeAt = some 5 ∧
        [Operation.block, .tick, .tick, .tick, .tick, .tick].foldlM ProcessTable.after? table =
          some later ∧ later.state? 2 = some .running := by
  have hrun : (ProcessTable.ofRun? [.launch "init" 0 true (some ⟨0⟩), .schedule,
      .launch "child" 0 true (some ⟨0⟩), .sleep 5, .exit 0]).any (fun table =>
        (table.find? 2).any fun process =>
          ([Operation.block, .tick, .tick, .tick, .tick, .tick].foldlM
            ProcessTable.after? table).any fun later =>
              process.state = .running ∧ process.wakeAt = some 5 ∧
                later.state? 2 = some .running) = true := by decide +kernel
  obtain ⟨table, htable, hfound⟩ := (Option.any_eq_true _ _).mp hrun
  obtain ⟨process, hfind, hlater⟩ := (Option.any_eq_true _ _).mp hfound
  obtain ⟨later, hfold, hfacts⟩ := (Option.any_eq_true _ _).mp hlater
  obtain ⟨hrunning, hwakeAt, hagain⟩ := of_decide_eq_true hfacts
  exact ⟨table, later, process, ProcessTable.reachable_of_ofRun? htable, hfind, hrunning, hwakeAt,
    hfold, hagain⟩

end KernelResources
