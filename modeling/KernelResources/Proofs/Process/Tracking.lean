import KernelResources.Proofs.Process.Switching

/-!
# Operations and the loaded directory

`System.Tracked` withstands everything that operations on processes are made of, so every operation
keeps it, except for `launch`, which makes no switch but adds a process. For the operations that end
processes there are lemmas that say when they are refused and which processes stay in the table.
-/

namespace KernelResources

namespace System

open Paging

variable {ε : Type} {paging : Paging} {others : List Nat} {start system : System}
  {journal₀ journal journal' : Journal} {change : Process → Process} {pid : Nat}

/-! ## Passes -/

/-- A change of a single process that leaves it where it is, and that does not end the idle one. -/
theorem Tracked.update (h : Tracked paging others start journal₀ system journal)
    (hchange : ∀ process : Process, process.Settled (change process))
    (hlives : pid ≠ system.table.idle ∨
      ∀ process, process.state ≠ .terminated → (change process).state ≠ .terminated) :
    Tracked paging others start journal₀
      { system with table := system.table.update pid change } journal := by
  refine h.updateAll (.when (fun process => (hchange process).pid_eq)
    (fun process => (hchange process).space_eq)
    (fun process _ _ => (hchange process).context_eq) ?_)
  rintro process rfl hidle hstate
  exact hlives.elim (fun hne => absurd hidle hne) fun hchange => hchange process hstate

/-- Waking is no end. -/
theorem retains_wakeIfDue (table : ProcessTable) (clock : Nat) :
    table.Retains (wakeIfDue clock) :=
  .when (fun _ => rfl) (fun _ => rfl) (fun _ _ _ => rfl) fun _ _ _ _ => nofun

theorem stable_tracked : Stable paging (Tracked paging others start journal₀) where
  note h := h.note
  update h := h.update
  wakeDue clock h := (h.withClock clock).updateAll (retains_wakeIfDue _ clock)
  answer _ h := h.withCpu rfl
  keeps_dispatch := keeps_dispatch
  keeps_removeEnded outgoing _ _ h :=
    (h.yields_removeEnded outgoing).mono_done fun _ _ _ hend => hend.1
  keeps_remove pid _ _ h := by
    refine (h.yields_remove pid).mono (fun _ _ _ hdone => hdone) ?_
    rintro _ _ _ ⟨rfl, rfl, -⟩
    exact h

/-- After a pass, no process has ended but perhaps the one that the pass has found current. -/
theorem Tracked.yields_schedule (h : Tracked paging others start journal₀ system journal) :
    (schedule paging : Action ε System Nat).Yields system journal
      (fun _ system' journal' => Tracked paging others start journal₀ system' journal' ∧
        ∀ pid, system'.table.Ended pid →
          pid = system'.table.current ∨ pid = system.table.current)
      fun _ => Tracked paging others start journal₀ := by
  refine yields_getTable ?_
  -- Whoever goes on, the processes that have ended are removed afterwards.
  have hrest {middle : System} {journal' : Journal}
      (hmiddle : Tracked paging others start journal₀ middle journal') :
      (do
        removeEnded paging system.table.current
        return (← getTable).current : Action ε System Nat).Yields middle journal'
        (fun _ system' journal' => Tracked paging others start journal₀ system' journal' ∧
          ∀ pid, system'.table.Ended pid →
            pid = system'.table.current ∨ pid = system.table.current)
        fun _ => Tracked paging others start journal₀ :=
    (hmiddle.yields_removeEnded _).bind fun _ _ _ hend =>
      yields_getTable (Action.yields_pure hend)
  dsimp only
  split
  · exact (keeps_dispatch _ _ _ h).bind fun _ _ _ hmiddle => hrest hmiddle
  · refine Action.Yields.bind
      (stable_tracked.keeps_modifyProcess _ ?_ ?_ _ _ h) fun _ _ _ hmiddle => hrest hmiddle
    · exact fun _ => ⟨rfl, rfl, rfl⟩
    · exact fun _ hstate => hstate

/-! ## Ending -/

/-- The idle process is the only one that cannot exit. -/
theorem Tracked.yields_beginExit (h : Tracked paging others start journal₀ system journal)
    (code : Int32) :
    (beginExit code).Yields system journal (fun _ => Tracked paging others start journal₀)
      fun _ system' journal' => Tracked paging others start journal₀ system' journal' ∧
        system.table.current = system.table.idle := by
  refine ((stable_tracked.keeps_beginExit code _ _ h).and
    ((ensures_beginExit code).yields journal)).mono (fun _ _ _ hdone => hdone.1) ?_
  rintro error system' journal' ⟨h', -, hidle | hnone⟩
  · exact ⟨h', hidle⟩
  · obtain ⟨current, -, -, hcurrent⟩ := ProcessTable.exists_currentProcess? h.nodup h.current_mem
    cases hcurrent.symm.trans hnone

theorem Tracked.yields_exit (h : Tracked paging others start journal₀ system journal)
    (code : Int32) :
    (exit paging code).Yields system journal (fun _ => Tracked paging others start journal₀)
      fun _ system' journal' => Tracked paging others start journal₀ system' journal' ∧
        system.table.current = system.table.idle := by
  rw [exit_eq]
  exact (h.yields_beginExit code).bind fun _ middle journal' h' =>
    ((stable_tracked.keeps_schedule middle journal' h').and (ensures_schedule.yields journal')).mono
      (fun _ _ _ hdone => hdone.1) fun _ _ _ hrefused => hrefused.2.elim

/-- A process that is ended by another is removed without failure, so it is not left behind. -/
theorem Tracked.yields_beginKill (h : Tracked paging others start journal₀ system journal)
    (pid : Nat) :
    (beginKill paging pid).Yields system journal
      (fun due system' journal' => Tracked paging others start journal₀ system' journal' ∧
        (due = false → system.table.NoneEnds system'.table))
      fun _ system' journal' => (Tracked paging others start journal₀ system' journal' ∧
        system.table.NoneEnds system'.table) ∧
          (pid = system.table.idle ∨ system.table.find? pid = none) := by
  have hrefused := And.intro h (ProcessTable.NoneEnds.refl system.table)
  refine yields_getTable (Action.yields_bind (Action.yields_refuseIf
    (fun hidle => ⟨hrefused, .inl hidle⟩) fun hidle => ?_))
  split
  · next hcurrent =>
    refine (((h.yields_beginExit killedCode).and
      ((ensures_beginExit killedCode).yields journal)).mono (fun _ _ _ h' => h') ?_).bind
        fun _ _ _ h' => Action.yields_pure ⟨h'.1, nofun⟩
    rintro error system' journal' ⟨⟨h', hsame⟩, rfl, -⟩
    exact ⟨⟨h', .refl _⟩, .inl (hcurrent.trans hsame)⟩
  · next hcurrent =>
    refine Action.yields_bind (yields_findProcess (fun hnone => ⟨hrefused, .inr hnone⟩)
      fun process hfind => Action.yields_bind (yields_modifyTable ?_))
    have hended : Tracked paging others start journal₀
        { system with table := system.table.update pid fun process =>
          { process with state := .terminated, exitCode := some killedCode } } journal :=
      h.update (fun _ => ⟨rfl, rfl, rfl⟩) (.inl hidle)
    refine (((hended.yields_remove pid).and ((ensures_remove pid).yields journal)).mono
      (fun _ _ _ h' => h') ?_).bind fun _ system' _ ⟨h', hremoval⟩ =>
        Action.yields_pure ⟨h', fun _ other hother => ?_⟩
    -- A process that has ended and is not current need not stay, so its removal is not refused.
    · rintro _ _ _ ⟨⟨-, -, hstays⟩, -⟩
      refine absurd hstays (hended.not_stays hcurrent ?_)
      obtain rfl := ProcessTable.pid_of_find? hfind
      refine ⟨_, List.mem_map_of_mem (ProcessTable.mem_of_find? hfind), ?_⟩
      rw [if_pos rfl]
      exact ⟨rfl, rfl⟩
    · obtain ⟨hne, hother⟩ := hremoval.ended hother
      refine ProcessTable.ended_of_update ?_ hne hother
      exact fun _ => rfl

theorem Tracked.yields_kill (h : Tracked paging others start journal₀ system journal) (pid : Nat) :
    (kill paging pid).Yields system journal (fun _ => Tracked paging others start journal₀)
      fun _ system' journal' => Tracked paging others start journal₀ system' journal' ∧
        (pid = system.table.idle ∨ system.table.find? pid = none) := by
  rw [kill_eq]
  refine ((h.yields_beginKill pid).mono (fun _ _ _ h' => h'.1)
    fun _ _ _ hrefused => ⟨hrefused.1.1, hrefused.2⟩).bind fun due middle journal' h' => ?_
  split
  · exact (((stable_tracked.keeps_schedule middle journal' h').and
      (ensures_schedule.yields journal')).mono (fun _ _ _ hdone => hdone.1)
        fun _ _ _ hrefused => hrefused.2.elim).bind fun _ _ _ h'' => Action.yields_pure h''
  · exact Action.yields_pure h'

/-! ## Creating -/

/-- Only the machine has changed, on which these spaces are alive. No directory was loaded, and no
table of the kernel region was moved. -/
structure Housed (paging : Paging) (others : List Nat) (spaces : List AddressSpace)
    (start : System) (journal : Journal) (system : System) (journal' : Journal) : Prop where
  /-- Everything but the machine is as it was. -/
  eq : system = { start with machine := system.machine }
  /-- Frames and tables agree. -/
  consistent : Consistent paging system.machine spaces others
  /-- No directory was loaded. -/
  quiet : Quiet start.machine journal system.machine journal'
  /-- The tables of the kernel region are where they were. -/
  anchored : paging.Anchored start.machine.memory system.machine.memory

theorem Loaded.housed (h : Loaded paging others system) (journal : Journal) :
    Housed paging others (system.table.spaces paging) system journal system journal :=
  ⟨rfl, h.consistent, .refl _ _, .refl paging _⟩

/-- A memory operation that keeps frames and tables in order, loads no directory and moves no table
of the kernel region. -/
theorem Housed.yields_onMemory {spaces spacesRefused : List AddressSpace}
    (h : Housed paging others spaces start journal₀ system journal)
    {action : Action MemoryError Machine α} {spacesDone : α → List AddressSpace}
    (hsettles : action.Settles system.machine
      (fun value machine => Consistent paging machine (spacesDone value) others)
      fun _ machine => Consistent paging machine spacesRefused others)
    (hanchored : action.Ensures system.machine
      (fun _ machine => paging.Anchored system.machine.memory machine.memory)
      fun _ machine => paging.Anchored system.machine.memory machine.memory)
    (hquiet : action.Keeps (Quiet start.machine journal₀)) :
    (onMemory action).Yields system journal
      (fun value => Housed paging others (spacesDone value) start journal₀)
      fun _ => Housed paging others spacesRefused start journal₀ := by
  have hhoused {spaces' : List AddressSpace} {machine : Machine} {journal' : Journal}
      (hmachine : (Consistent paging machine spaces' others ∧
        paging.Anchored system.machine.memory machine.memory) ∧
          Quiet start.machine journal₀ machine journal') :
      Housed paging others spaces' start journal₀ { system with machine } journal' :=
    ⟨by rw [h.eq], hmachine.1.1, hmachine.2, h.anchored.trans hmachine.1.2⟩
  exact System.yields_onMemory ((((hsettles.and hanchored).ensures.yields journal).and
    (hquiet _ _ h.quiet)).mono (fun _ _ _ hdone => hhoused hdone) fun _ _ _ => hhoused)

/-- A new space is alive besides the others, unless there was no memory for it. -/
theorem Housed.yields_createUserSpace {spaces : List AddressSpace}
    (h : Housed paging others spaces start journal₀ system journal)
    (hactive : ⟨start.machine.active⟩ ∈ spaces) :
    (createUserSpace paging).Yields system journal
      (fun space => Housed paging others (space :: spaces) start journal₀)
      fun _ => Housed paging others spaces start journal₀ := by
  refine Action.Yields.bind (h.yields_onMemory (settles_createSpace h.consistent)
    (anchored_createSpace h.consistent) lasting_quiet.createSpace)
      fun space middle journal' hspace => ?_
  refine Action.yields_bind (Action.yields_ite_halt fun _ => Action.yields_bind
    (Action.yields_attempt ((hspace.yields_onMemory (settles_mapFresh hspace.consistent
      List.mem_cons_self) (anchored_mapFresh hspace.consistent List.mem_cons_self _ _)
        lasting_quiet.mapFresh).mono (fun _ _ _ hmapped => Action.yields_pure hmapped)
          fun error middle' journal'' hrefused => ?_)))
  -- The space that is taken down again is neither the kernel's nor loaded, for it is new.
  have hfresh := (List.nodup_cons.mp (nodup_spaces hrefused.consistent.nodup)).1
  have hkernel : space.directory ≠ paging.kernel.directory := fun heq =>
    hfresh (directory_inj.mp heq ▸ h.consistent.kernel_mem)
  have hloaded : space.directory ≠ middle'.machine.active := by
    rw [hrefused.quiet.active_eq]
    exact fun heq => hfresh ((directory_inj.mp heq : space = ⟨_⟩) ▸ hactive)
  have hdestroy : (paging.destroySpace space).Settles middle'.machine
      (fun _ machine => Consistent paging machine spaces others)
      fun _ machine => Consistent paging machine spaces others := by
    refine (settles_destroySpace hrefused.consistent List.mem_cons_self).mono ?_
      fun _ _ hkept => (hkept.2.elim hkernel hloaded).elim
    rintro _ machine ⟨hconsistent, -⟩
    rwa [List.erase_cons_head] at hconsistent
  have hanchored := anchored_destroySpace hrefused.consistent List.mem_cons_self
  exact (hrefused.yields_onMemory hdestroy hanchored lasting_quiet.destroySpace).bind
    fun _ _ _ hdestroyed => Action.yields_throw hdestroyed

/-- A process begins with the directory of its own space. -/
theorem Loaded.yields_enroll (h : Loaded paging others system) (space : ProcessSpace)
    {context : Registers} (hcontext : context.cr3 = (space.user?.getD paging.kernel).cr3)
    {middle : System} (hspace : Housed paging others
      (space.user?.toList ++ system.table.spaces paging) system journal middle journal')
    (name : String) (eip : Nat) (kernelMode : Bool) (stack : KernelStack) :
    (enroll name eip kernelMode stack space context).Yields middle journal'
      (fun _ => Follows paging others system journal) fun _ =>
        Follows paging others system journal := by
  obtain ⟨heq, hconsistent, hquiet, hanchored⟩ := hspace
  have htable : middle.table = system.table := by rw [heq]
  refine yields_getTable (Action.yields_bind (Action.yields_ite_halt fun _ => ?_))
  refine Action.yields_bind (yields_modifyTable (Action.yields_bind (yields_modifyTable ?_)))
  refine Action.yields_bind (Action.yields_note (Action.yields_pure ?_))
  rw [htable, heq]
  let process := Process.create system.table.nextPid name .ready context space stack
    (some system.table.current)
  have hnext : process.pid < system.table.nextPid + 1 := Nat.lt_succ_self _
  have hadded := h.adding rfl hnext nofun hcontext hconsistent hquiet.active_eq
  -- The current process takes the new one in as its child, and nobody moves.
  have hadopt : ({ system.table with nextPid := system.table.nextPid + 1 }.add process).Retains
      fun parent => if parent.pid = system.table.current then
        { parent with children := parent.children ++ [system.table.nextPid] } else parent :=
    .when (fun _ => rfl) (fun _ => rfl) (fun _ _ _ => rfl) fun _ _ _ hstate => hstate
  refine ⟨hadded.updateAll hadopt, ⟨[], ?_⟩, hanchored, hquiet.total_eq⟩
  exact (Switches.refl system journal).quiet rfl (hquiet.push rfl rfl)

/-- Creating a process makes no switch. -/
theorem Loaded.yields_launch (h : Loaded paging others system) (name : String) (entry : Nat)
    (kernelMode : Bool) (stack : Option KernelStack) (journal : Journal) :
    (launch paging name entry kernelMode stack).Yields system journal
      (fun _ => Follows paging others system journal) fun _ =>
        Follows paging others system journal := by
  have hstart := (h.tracked journal).toFollows
  rw [launch_eq]
  refine Action.yields_bind (Action.yields_refuseIf (fun _ => hstart) fun _ => ?_)
  refine Action.yields_bind (Action.yields_ofOption (fun _ => hstart) fun stack _ => ?_)
  split
  · exact h.yields_enroll .kernel rfl (h.housed journal) name _ _ stack
  · refine Action.Yields.bind (((h.housed journal).yields_createUserSpace h.active_mem_spaces).mono
      (fun _ _ _ hspace => hspace) ?_) fun space middle journal' hspace =>
        h.yields_enroll (.user space) rfl hspace name _ _ stack
    rintro _ system' journal' ⟨heq, hconsistent, hquiet, hanchored⟩
    have htable : system'.table.current = system.table.current := by rw [heq]
    exact ⟨heq ▸ h.withMachine hconsistent hquiet.active_eq,
      ⟨[], (Switches.refl system journal).quiet htable hquiet⟩, hanchored, hquiet.total_eq⟩

end System

end KernelResources
