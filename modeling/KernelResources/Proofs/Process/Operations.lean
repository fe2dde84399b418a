import KernelResources.Proofs.Ensures
import KernelResources.Proofs.Process.Beginnings
import KernelResources.Proofs.Process.Deeds

/-!
# What operations do

Every operation on processes, whatever the machine answers to its requests for memory, changes the
process table and the registers on the processor by deeds of the scheduler only. There is one lemma
for each operation; `Along` is the form they have in common.
-/

namespace KernelResources

namespace System

open Processor

variable {ε α : Type} {paging : Paging} {system : System}

/-! ## Looking and changing -/

section Rules

variable {done : α → System → Prop} {refused : ε → System → Prop}

/-- Whatever the machine does, it does not concern the scheduler. -/
theorem ensures_onMachine {action : Action ε Machine α}
    (hdone : ∀ value machine, done value { system with machine })
    (hrefused : ∀ error machine, refused error { system with machine }) :
    (onMachine action).Ensures system done refused :=
  Action.ensures_within (Action.ensures_of_forall (fun value machine => hdone value machine)
    fun error machine => hrefused error machine)

theorem ensures_getTable {next : ProcessTable → Action ε System α}
    (h : (next system.table).Ensures system done refused) :
    (getTable >>= next).Ensures system done refused := h

theorem ensures_modifyTable {change : ProcessTable → ProcessTable} {done : Unit → System → Prop}
    (h : done () { system with table := change system.table }) :
    (modifyTable change).Ensures system done refused := fun _ => h

theorem ensures_findProcess {pid : Nat} {done : Process → System → Prop}
    {refused : ProcessError → System → Prop}
    (hrefused : system.table.find? pid = none → refused .noSuchProcess system)
    (hdone : ∀ process, system.table.find? pid = some process → done process system) :
    (findProcess pid).Ensures system done refused :=
  ensures_getTable (Action.ensures_ofOption hrefused hdone)

end Rules

/-- Loading an address space does not concern the scheduler. -/
theorem ensures_loadSpace {space : ProcessSpace} {done : Unit → System → Prop}
    {refused : ε → System → Prop} (h : ∀ machine, done () { system with machine }) :
    (onMachine (loadSpace paging space)).Ensures system done refused := by
  refine Action.ensures_within ?_
  cases space with
  | kernel => exact Action.ensures_modify (h _)
  | user space => exact Action.ensures_modify (h _)

/-- The action does some of the deeds from `start`, whether it is done or refused. -/
def Along (deeds : List Deed) (start : Processor) (action : Action ε System α) (system : System) :
    Prop :=
  action.Ensures system (fun _ system' => Course deeds start system'.processor)
    fun _ system' => Course deeds start system'.processor

/-! ## Passes of the scheduler -/

theorem ensures_dispatch {refused : ε → System → Prop} (next : Nat) :
    (dispatch paging next).Ensures system
      (fun _ system' => system'.processor = system.processor.dispatch next) refused := by
  refine ensures_getTable (Action.ensures_bind (Action.ensures_modify (ensures_getTable ?_)))
  unfold Processor.dispatch
  simp only [System.processor]
  cases hfind : (system.table.update system.table.current (suspend system.cpu)).find? next with
  | none => exact Action.ensures_pure rfl
  | some incoming =>
    refine Action.ensures_bind (ensures_modifyTable (Action.ensures_bind
      (Action.ensures_modify (Action.ensures_get ?_))))
    -- Whether an address space has to be loaded makes no difference here.
    split
    · exact Action.ensures_bind (ensures_loadSpace fun _ => Action.ensures_bind
        (Action.ensures_note (ensures_modifyTable rfl)))
    · exact Action.ensures_bind (Action.ensures_note (ensures_modifyTable rfl))

/-- A process is removed even if its space turns out to be in the way, unless it has to stay. -/
theorem ensures_remove (pid : Nat) :
    (remove paging pid).Ensures system
      (fun _ system' => Removal pid system.processor system'.processor)
      fun _ system' => system'.processor = system.processor ∨
        Removal pid system.processor system'.processor := by
  refine Action.ensures_bind (ensures_findProcess (fun _ => .inl rfl) fun process hfind => ?_)
  refine ensures_getTable (Action.ensures_bind (Action.ensures_refuseIf (fun _ => .inl rfl)
    fun hstays => ?_))
  -- The checks at the start are what makes the removal a move.
  obtain ⟨hcurrent, hidle, -⟩ : pid ≠ system.table.current ∧
      pid ≠ system.table.idle ∧ process.state ≠ .running := by simpa using hstays
  have hremoval : Removal pid system.processor { system.processor with
      table := unlink process (system.table.remove pid) } :=
    ⟨process, hfind, hcurrent, hidle, rfl⟩
  cases hspace : process.space with
  | kernel =>
    exact Action.ensures_bind (ensures_modifyTable (Action.ensures_bind
      (Action.ensures_note (Action.ensures_pure hremoval))))
  | user space =>
    refine Action.ensures_get (Action.ensures_bind (Action.ensures_refuseIf (fun _ => .inl rfl)
      fun _ => ?_))
    exact Action.ensures_bind (ensures_modifyTable (Action.ensures_bind
      (Action.ensures_note (ensures_onMachine (fun _ _ => hremoval) fun _ _ => .inr hremoval))))

theorem along_remove (pid : Nat) :
    Along [.remove pid] system.processor (remove paging pid) system := by
  refine (ensures_remove pid).mono (fun _ _ hremoval => (Does.remove hremoval).course) ?_
  rintro _ _ (hsame | hremoval)
  · exact hsame ▸ .refl _ _
  · exact (Does.remove hremoval).course

theorem ensures_removeOrReport (pid : Nat) :
    (removeOrReport paging pid : Action ε System Unit).Ensures system
      (fun _ system' => system'.processor = system.processor ∨
        Removal pid system.processor system'.processor) fun _ _ => False := by
  refine Action.ensures_bind (Action.ensures_attempt ((ensures_remove pid).mono ?_ ?_))
  · exact fun _ _ hremoval => Action.ensures_pure (.inr hremoval)
  · exact fun _ _ hremoval => Action.ensures_note hremoval

/-- Only processes that have ended are removed, and not the one switched away from. -/
theorem ensures_removeEnded (outgoing : Nat) :
    (removeEnded paging outgoing : Action ε System Unit).Ensures system
      (fun _ system' => Clearing (fun pid => pid ≠ outgoing ∧ system.table.Ended pid)
        system.processor system'.processor) fun _ _ => False := by
  refine ensures_getTable (Action.ensures_forM (fun system' : System => Clearing _
    system.processor system'.processor) (List.forall_mem_map.mpr fun process hmem middle hmiddle =>
      ?_) .refl)
  obtain ⟨hmem, hended⟩ := List.mem_filter.mp hmem
  obtain ⟨hstate, -, hne⟩ := of_decide_eq_true hended
  refine (ensures_removeOrReport process.pid).mono_done fun _ _ hremoval => ?_
  rcases hremoval with hsame | hremoval
  · exact hsame ▸ hmiddle
  · exact hmiddle.tail ⟨process.pid, ⟨hne, process, hmem, rfl, hstate⟩, hremoval⟩

/-- A pass of the scheduler is never refused. -/
theorem ensures_schedule :
    (schedule paging : Action ε System Nat).Ensures system
      (fun _ system' => Pass system.processor system'.processor) fun _ _ => False := by
  -- However the turn comes about, the rest of the pass follows it.
  have hrest {middle : System} (hmiddle : middle.processor = system.processor.turn) :
      (do
        removeEnded paging system.table.current
        return (← getTable).current : Action ε System Nat).Ensures middle
        (fun _ system' => Pass system.processor system'.processor) fun _ _ => False := by
    unfold Pass
    rw [← hmiddle]
    exact (ensures_removeEnded _).bind fun _ _ hclearing =>
      ensures_getTable (Action.ensures_pure hclearing)
  refine ensures_getTable ?_
  by_cases hnext : system.table.nextTurn = system.table.current
  · simp only [hnext, ne_eq, not_true_eq_false, if_false]
    exact Action.ensures_bind (ensures_modifyTable (hrest (by rw [turn_of_eq hnext, ← hnext]; rfl)))
  · simp only [ne_eq, hnext, not_false_eq_true, if_true]
    exact (ensures_dispatch _).bind fun _ _ hmiddle =>
      hrest (hmiddle.trans (turn_of_ne hnext).symm)

theorem along_schedule :
    Along [.pass .stay] system.processor (schedule paging : Action ε System Nat) system :=
  ensures_schedule.mono (fun _ _ hpass => hpass.does.course) fun _ _ => False.elim

/-! ## Ticks -/

/-- Charging a tick says whether the current process has ticks left. -/
theorem ensures_charge {refused : ε → System → Prop} :
    (charge : Action ε System Bool).Ensures system
      (fun expired system' => system'.processor =
        { system.processor with table := system.table.charging } ∧
          (expired = true ↔ ∀ process ∈ system'.table.processes,
            process.pid = system'.table.current → process.remaining = 0)) refused := by
  refine ensures_getTable ?_
  unfold ProcessTable.charging
  cases hcurrent : system.table.currentProcess? with
  | none =>
    refine Action.ensures_pure ⟨rfl, fun _ process hmem hpid => ?_, fun _ => rfl⟩
    exact absurd (decide_eq_true hpid) (List.find?_eq_none.mp hcurrent process hmem)
  | some process =>
    refine Action.ensures_bind (Action.ensures_add fun _ => Action.ensures_bind
      (ensures_modifyTable (Action.ensures_pure ⟨rfl, fun hexpired => ?_, fun hnone => ?_⟩)))
    · refine List.forall_mem_map.mpr fun other _ hpid => ?_
      split
      · exact of_decide_eq_true hexpired
      · next hne =>
        rw [if_neg hne] at hpid
        exact absurd (hpid.trans (ProcessTable.pid_of_find? hcurrent).symm) hne
    · -- The process that was charged is the current one, and it is still there.
      have hcharged := List.forall_mem_map.mp hnone process (ProcessTable.mem_of_find? hcurrent)
      rw [if_pos rfl] at hcharged
      have hpid : process.pid = system.table.current := ProcessTable.pid_of_find? hcurrent
      exact decide_eq_true (hcharged hpid)

/-- The clock, the sleepers and the charge make up the tick. A pass is due just if the turn of the
current process is over. -/
theorem ensures_beginTick {refused : ε → System → Prop} :
    (beginTick : Action ε System Bool).Ensures system
      (fun due system' => system'.processor =
        { system.processor with table := system.table.ticking } ∧
          (due = true ↔ system'.table.TurnOver)) refused := by
  refine ensures_getTable (Action.ensures_bind (Action.ensures_add fun _ => Action.ensures_bind
    (ensures_modifyTable (ensures_charge.bind ?_))))
  rintro expired middle ⟨hmiddle, hexpired⟩
  refine ensures_getTable (Action.ensures_pure ⟨hmiddle, ?_⟩)
  rw [decide_eq_true_iff, hexpired, or_comm]
  rfl

theorem ensures_clockTick :
    (clockTick paging : Action ε System Nat).Ensures system
      (fun _ system' => Ticks system.processor system'.processor) fun _ _ => False := by
  rw [clockTick_eq]
  refine ensures_beginTick.bind ?_
  rintro due middle ⟨hmiddle, hdue⟩
  split
  · next hpass =>
    have htable : middle.table = system.table.ticking := congrArg Processor.table hmiddle
    exact ensures_schedule.mono_done fun _ _ hpass' =>
      .inr ⟨htable ▸ hdue.mp hpass, hmiddle ▸ hpass'⟩
  · exact ensures_getTable (Action.ensures_pure (.inl hmiddle))

theorem along_clockTick :
    Along [.tick] system.processor (clockTick paging : Action ε System Nat) system :=
  ensures_clockTick.mono (fun _ _ hticks => (Does.tick hticks).course) fun _ _ => False.elim

/-! ## Waiting and ending -/

/-- The current process cannot wait: it is the idle one, or it is not there. -/
def Stuck (system : System) : Prop :=
  system.table.current = system.table.idle ∨ system.table.currentProcess? = none

theorem ensures_waitingCandidate :
    waitingCandidate.Ensures system
      (fun process system' => system' = system ∧ system.table.current ≠ system.table.idle ∧
        system.table.currentProcess? = some process)
      fun _ system' => system' = system ∧ system.Stuck :=
  ensures_getTable (Action.ensures_bind (Action.ensures_refuseIf (fun hidle => ⟨rfl, .inl hidle⟩)
    fun hidle => ensures_findProcess (fun hnone => ⟨rfl, .inr hnone⟩)
      fun _ hfind => ⟨rfl, hidle, hfind⟩))

/-- The current process is about to leave the processor as `leave` says. -/
def Begins (leave : Leave) (system system' : System) : Prop :=
  system.table.current ≠ system.table.idle ∧
    system'.processor = { system.processor with table := system.table.leaving leave }

/-- The current process leaves the processor as `leave` says. -/
def Leaves (leave : Leave) (system system' : System) : Prop :=
  system.table.current ≠ system.table.idle ∧
    Pass { system.processor with table := system.table.leaving leave } system'.processor

/-- After the beginning comes the pass. -/
theorem Begins.ensures_schedule {leave : Leave} {middle : System}
    (h : Begins leave system middle) :
    (schedule paging : Action ε System Nat).Ensures middle
      (fun _ system' => Leaves leave system system') fun _ _ => False :=
  System.ensures_schedule.mono_done fun _ _ hpass => ⟨h.1, h.2 ▸ hpass⟩

theorem Leaves.does {leave : Leave} {system' : System} (h : Leaves leave system system')
    (hfuture : ∀ wakeAt, leave = .sleep wakeAt → system.table.clock < wakeAt) :
    Does (.pass leave) system.processor system'.processor := .pass (.inr h.1) hfuture h.2

theorem ensures_beginBlock :
    beginBlock.Ensures system (fun _ system' => Begins .block system system')
      fun _ system' => system' = system ∧ system.Stuck := by
  refine ensures_waitingCandidate.bind ?_
  rintro process _ ⟨rfl, hidle, hfind⟩
  rw [ProcessTable.pid_of_find? hfind]
  exact ensures_modifyTable ⟨hidle, rfl⟩

theorem ensures_block :
    (block paging).Ensures system (fun _ system' => Leaves .block system system')
      fun _ system' => system' = system ∧ system.Stuck := by
  rw [block_eq]
  exact ensures_beginBlock.bind fun _ _ hbegins =>
    hbegins.ensures_schedule.mono (fun _ _ hleaves => hleaves) fun _ _ => False.elim

theorem along_block : Along [.pass .block] system.processor (block paging) system := by
  refine ensures_block.mono (fun _ _ hleaves => (hleaves.does fun _ => nofun).course) ?_
  rintro _ _ ⟨rfl, -⟩
  exact .refl _ _

/-- How a process leaves the processor when it sleeps: for no ticks, it only ends its turn. -/
def sleeping (clock ticks : Nat) : Leave := if ticks = 0 then .stay else .sleep (clock + ticks)

theorem sleeping_future {clock ticks wakeAt : Nat} (h : sleeping clock ticks = .sleep wakeAt) :
    clock < wakeAt := by
  unfold sleeping at h
  split at h
  · cases h
  · next hticks =>
    cases h
    exact Nat.lt_add_of_pos_right (Nat.pos_of_ne_zero hticks)

/-- Sleeping is blocking with a deadline, or ending the turn. -/
theorem ensures_beginSleep (ticks : Nat) :
    (beginSleep ticks).Ensures system
      (fun _ system' => Begins (sleeping system.table.clock ticks) system system')
      fun _ system' => system' = system ∧ system.Stuck := by
  unfold sleeping
  refine ensures_getTable (Action.ensures_bind (Action.ensures_refuseIf
    (fun hidle => ⟨rfl, .inl hidle⟩) fun hidle => ?_))
  split
  · exact Action.ensures_pure ⟨hidle, rfl⟩
  · refine Action.ensures_bind (Action.ensures_add fun _ => Action.ensures_bind
      (ensures_findProcess (fun hnone => ⟨rfl, .inr hnone⟩) fun process hfind => ?_))
    have hpid : process.pid = _ := ProcessTable.pid_of_find? hfind
    rw [hpid]
    refine Action.ensures_bind (ensures_modifyTable (Action.ensures_bind (Action.ensures_note
      (ensures_beginBlock.mono (fun _ _ hbegins => ⟨hidle, hbegins.2⟩) ?_))))
    -- The process that was found is still there.
    rintro _ _ ⟨-, hsame | hnone⟩
    · exact absurd hsame hidle
    · have hstill : (system.table.update system.table.current
          ({ · with wakeAt := some (system.table.clock + ticks) })).find? system.table.current =
            some { process with wakeAt := some (system.table.clock + ticks) } := by
        refine (ProcessTable.find?_update ?_).trans ?_
        · exact fun _ => rfl
        · rw [if_pos rfl, hfind]
          rfl
      cases hstill.symm.trans hnone

theorem along_sleep (ticks : Nat) :
    Along [.pass (sleeping system.table.clock ticks)] system.processor (sleep paging ticks)
      system := by
  rw [sleep_eq]
  refine ((ensures_beginSleep ticks).mono (fun _ _ hbegins => hbegins) ?_).bind
    fun _ _ hbegins => hbegins.ensures_schedule.mono
      (fun _ _ hleaves => (hleaves.does fun _ => sleeping_future).course) fun _ _ => False.elim
  rintro _ _ ⟨rfl, -⟩
  exact .refl _ _

theorem along_wake (pid : Nat) : Along [.wake pid] system.processor (wake pid) system := by
  refine Action.ensures_bind (ensures_findProcess (fun _ => .refl _ _) fun process hfind => ?_)
  refine Action.ensures_bind (Action.ensures_refuseIf (fun _ => .refl _ _) fun hblocked => ?_)
  exact ensures_modifyTable (Does.wake hfind (Decidable.not_not.mp hblocked)).course

theorem ensures_beginExit (code : Int32) :
    (beginExit code).Ensures system (fun _ system' => Begins (.exit code) system system')
      fun _ system' => system' = system ∧ system.Stuck := by
  refine ensures_waitingCandidate.bind ?_
  rintro process _ ⟨rfl, hidle, hfind⟩
  have hpid : process.pid = _ := ProcessTable.pid_of_find? hfind
  rw [hpid]
  refine Action.ensures_bind (ensures_modifyTable (Action.ensures_bind (Action.ensures_note ?_)))
  unfold Begins ProcessTable.leaving
  rw [hfind, Option.bind_some]
  cases process.parent with
  | none => exact Action.ensures_pure ⟨hidle, rfl⟩
  | some parent => exact ensures_modifyTable ⟨hidle, rfl⟩

theorem ensures_exit (code : Int32) :
    (exit paging code).Ensures system (fun _ system' => Leaves (.exit code) system system')
      fun _ system' => system' = system ∧ system.Stuck := by
  rw [exit_eq]
  exact (ensures_beginExit code).bind fun _ _ hbegins =>
    hbegins.ensures_schedule.mono (fun _ _ hleaves => hleaves) fun _ _ => False.elim

theorem along_exit (code : Int32) :
    Along [.pass (.exit code)] system.processor (exit paging code) system := by
  refine (ensures_exit code).mono (fun _ _ hleaves => (hleaves.does fun _ => nofun).course) ?_
  rintro _ _ ⟨rfl, -⟩
  exact .refl _ _

/-- What ending a process amounts to: one that does not have the processor is removed at once. -/
def killing (table : ProcessTable) (pid : Nat) : List Deed :=
  if pid = table.current then [.pass (.exit killedCode)] else [.kill pid, .remove pid]

/-- If no pass is due, the process is gone unless that was refused. -/
theorem ensures_beginKill (pid : Nat) :
    (beginKill paging pid).Ensures system
      (fun due system' => if due then pid = system.table.current ∧
          Begins (.exit killedCode) system system'
        else pid ≠ system.table.current ∧
          Course [.kill pid, .remove pid] system.processor system'.processor)
      fun _ system' => system' = system ∨ pid ≠ system.table.current ∧
        Course [.kill pid, .remove pid] system.processor system'.processor := by
  refine ensures_getTable (Action.ensures_bind (Action.ensures_refuseIf (fun _ => .inl rfl)
    fun hidle => ?_))
  split
  · next hcurrent =>
    refine ((ensures_beginExit killedCode).mono (fun _ _ hbegins => hbegins) ?_).bind
      fun _ _ hbegins => Action.ensures_pure ⟨hcurrent, hbegins⟩
    exact fun _ _ hstuck => .inl hstuck.1
  · next hcurrent =>
    refine Action.ensures_bind (ensures_findProcess (fun _ => .inl rfl) fun _ _ =>
      Action.ensures_bind (ensures_modifyTable (Action.Ensures.bind ((along_remove pid).mono
        (fun _ _ hcourse => ?_) fun _ _ hcourse => ?_)
          fun _ _ hcourse => Action.ensures_pure hcourse)))
    · exact ⟨hcurrent, .step (.kill hcurrent hidle) hcourse⟩
    · exact .inr ⟨hcurrent, .step (.kill hcurrent hidle) hcourse⟩

theorem along_kill (pid : Nat) :
    Along (killing system.table pid) system.processor (kill paging pid) system := by
  unfold killing
  rw [kill_eq]
  refine ((ensures_beginKill pid).mono (fun _ _ hbegins => hbegins) ?_).bind
    fun due middle hbegins => ?_
  · rintro _ _ (rfl | ⟨hcurrent, hcourse⟩)
    · exact .refl _ _
    · rw [if_neg hcurrent]
      exact hcourse
  · cases due with
    | true =>
      rw [if_pos hbegins.1]
      exact (hbegins.2.ensures_schedule.mono (fun _ _ hleaves =>
        (hleaves.does fun _ => nofun).course) fun _ _ => False.elim).bind
          fun _ _ hcourse => Action.ensures_pure hcourse
    | false =>
      rw [if_neg hbegins.1]
      exact Action.ensures_pure hbegins.2

/-! ## Creating -/

theorem ensures_createUserSpace :
    (createUserSpace paging).Ensures system
      (fun _ system' => system'.processor = system.processor)
      fun _ system' => system'.processor = system.processor := by
  refine Action.ensures_bind (ensures_onMachine (fun space machine => ?_) fun _ _ => rfl)
  refine Action.ensures_bind (Action.ensures_subtract (Action.ensures_bind
    (Action.ensures_attempt (ensures_onMachine (fun _ _ => Action.ensures_pure rfl) ?_))))
  exact fun _ _ => Action.ensures_bind (ensures_onMachine (fun _ _ => Action.ensures_throw rfl)
    fun _ _ => rfl)

/-- Enters a fresh process into the table. -/
def enroll (name : String) (eip : Nat) (kernelMode : Bool) (stack : KernelStack)
    (space : ProcessSpace) (context : Registers) : Action ProcessError System Nat := do
  let table ← getTable
  let pid := table.nextPid
  let nextPid ← Action.add 32 pid 1
  let process := Process.create pid name .ready context space stack (some table.current)
  modifyTable fun table => { table with nextPid }.add process
  modifyProcess table.current fun parent => { parent with children := parent.children ++ [pid] }
  Action.note (.processCreated pid name eip kernelMode)
  return pid

/-- Creating a process is finding a space for it and entering it into the table. -/
theorem launch_eq (name : String) (entry : Nat) (kernelMode : Bool) (stack : Option KernelStack) :
    launch paging name entry kernelMode stack = (do
      let eip := entry % bitRange 32
      Action.refuseIf (kernelMode = false ∧ eip < userSpaceStart) .invalidOperation
      let stack ← Action.ofOption (.memory .outOfMemory) stack
      if kernelMode then
        enroll name eip kernelMode stack .kernel
          (Registers.forKernel paging.kernel.cr3 stack.top (UInt32.ofNat eip))
      else
        let space ← createUserSpace paging
        enroll name eip kernelMode stack (.user space)
          (Registers.forUser space.cr3 (UInt32.ofNat paging.layout.userStackTop)
            (UInt32.ofNat eip))) := by
  cases kernelMode <;> rfl

theorem along_enroll (name : String) (eip : Nat) (kernelMode : Bool) (stack : KernelStack)
    (space : ProcessSpace) (context : Registers) :
    Along [.launch] system.processor (enroll name eip kernelMode stack space context) system := by
  refine ensures_getTable (Action.ensures_bind (Action.ensures_add fun _ => ?_))
  refine Action.ensures_bind (ensures_modifyTable (Action.ensures_bind (ensures_modifyTable ?_)))
  refine Action.ensures_bind (Action.ensures_note (Action.ensures_pure ?_))
  exact (Does.launch name context space stack).course

theorem along_launch (name : String) (entry : Nat) (kernelMode : Bool)
    (stack : Option KernelStack) :
    Along [.launch] system.processor (launch paging name entry kernelMode stack) system := by
  rw [launch_eq]
  refine Action.ensures_bind (Action.ensures_refuseIf (fun _ => .refl _ _) fun _ => ?_)
  refine Action.ensures_bind (Action.ensures_ofOption (fun _ => .refl _ _) fun stack _ => ?_)
  split
  · exact along_enroll name _ _ stack _ _
  · refine Action.ensures_bind (ensures_createUserSpace.mono (fun space middle hmiddle => ?_)
      fun _ _ hmiddle => hmiddle ▸ .refl _ _)
    rw [← hmiddle]
    exact along_enroll name _ _ stack _ _

end System

/-! ## System calls -/

namespace Syscall

open Processor

variable {paging : Paging} {system : System}

/-- The answer that a program finds in its registers when it goes on; a program that exits finds
none. -/
def answer? (table : ProcessTable) (number : UInt32) : Option UInt32 :=
  if number = exit then if table.current = table.idle then some failure else none
  else if number = getPid then some (UInt32.ofNat table.current)
  else if number = getParentPid then
    some (UInt32.ofNat ((table.currentProcess?.bind Process.parent).getD 0))
  else if number = yield then some 0
  else some failure

/-- The registers of a program with the answer to its call. -/
def answered (registers : Registers) : Option UInt32 → Registers
  | some result => { registers with eax := result }
  | none => registers

theorem ensures_answer {result : UInt32} {done : UInt32 → System → Prop}
    {refused : Empty → System → Prop}
    (h : done result { system with cpu := { system.cpu with eax := result } }) :
    (answer result).Ensures system done refused := fun _ => h

/-- A system call leaves its answer in the registers of its caller before it does anything else. -/
theorem ensures_beginServe (hcurrent : system.table.currentProcess? ≠ none) (request : Request) :
    (beginServe request).Ensures system
      (fun due system' => if due then ∃ leave, request.deeds = [.pass leave] ∧
          (leave = .stay ∨ system.table.current ≠ system.table.idle) ∧
          (∀ wakeAt, leave ≠ .sleep wakeAt) ∧
            system'.processor = ⟨system.table.leaving leave,
              answered system.cpu (answer? system.table request.number)⟩
        else system'.processor =
          ⟨system.table, answered system.cpu (answer? system.table request.number)⟩)
      fun _ _ => False := by
  unfold beginServe answer? Request.deeds
  split
  -- The calls in the order in which the kernel tells them apart: exit, the pids, yield, others.
  · refine Action.ensures_bind (Action.ensures_attempt ((System.ensures_beginExit _).mono ?_ ?_))
    · -- The answer to a program that exits would end up in the registers of another one.
      intro _ system' hbegins
      rw [if_neg hbegins.1]
      exact Action.ensures_pure ⟨_, rfl, .inr hbegins.1, fun _ => nofun, hbegins.2⟩
    · rintro error _ ⟨rfl, hstuck⟩
      rw [if_pos (hstuck.resolve_right hcurrent)]
      exact System.ensures_getTable (Action.ensures_bind
        (Action.ensures_note (Action.ensures_bind (ensures_answer (Action.ensures_pure rfl)))))
  · split
    · exact System.ensures_getTable
        (Action.ensures_bind (ensures_answer (Action.ensures_pure rfl)))
    · split
      · exact System.ensures_getTable
          (Action.ensures_bind (ensures_answer (Action.ensures_pure rfl)))
      · split
        · exact Action.ensures_bind (ensures_answer (Action.ensures_pure
            ⟨.stay, rfl, .inl rfl, fun _ => nofun, rfl⟩))
        · exact System.ensures_getTable (Action.ensures_bind (Action.ensures_note
            (Action.ensures_bind (ensures_answer (Action.ensures_pure rfl)))))

theorem ensures_serve (hcurrent : system.table.currentProcess? ≠ none) (request : Request) :
    (serve paging request).Ensures system
      (fun _ system' => Course request.deeds
        ⟨system.table, answered system.cpu (answer? system.table request.number)⟩ system'.processor)
      fun _ _ => False := by
  refine Action.ensures_of_discard ?_
  rw [serve_eq]
  refine (ensures_beginServe hcurrent request).bind fun due middle hbegins => ?_
  cases due with
  | true =>
    obtain ⟨leave, hdeeds, hidle, hsleep, hmiddle⟩ := hbegins
    refine System.ensures_schedule.bind fun _ _ hpass => Action.ensures_pure ?_
    rw [hmiddle] at hpass
    rw [hdeeds]
    exact Does.course (.pass hidle (fun wakeAt heq => absurd heq (hsleep wakeAt)) hpass)
  | false => exact Action.ensures_pure (hbegins ▸ .refl _ _)

end Syscall

/-! ## Events and traps -/

/-- The events that wait, in the order in which they are handed over. -/
def EventQueue.waiting (queue : EventQueue) : List Event :=
  queue.line ++ List.replicate queue.overflow .tick

namespace WithEvents

variable {ε σ α : Type} {handle : Event → Total σ Unit} {inv : List Event → σ → Prop}

/-- What an action ensures of the inner state, it ensures with events around it. -/
theorem ensures_onState {action : Action ε σ α} (whole : WithEvents σ) {done : α → σ → Prop}
    {refused : ε → σ → Prop} (h : action.Ensures whole.state done refused) :
    (onState action).Ensures whole (fun value whole' => done value whole'.state)
      fun error whole' => refused error whole'.state :=
  Action.ensures_within h

/-- An invariant of the state and the events that are left holds when the line has been handed
over, and then only the ticks that found it full are left. -/
theorem ensures_drainLine
    (hhandle : ∀ event rest state, inv (event :: rest) state →
      (handle event).Ensures state (fun _ => inv rest) fun _ _ => False)
    (whole : WithEvents σ) (hinv : inv whole.events.waiting whole.state) :
    (drainLine handle whole.events.line.length).Ensures whole
      (fun _ whole' => whole'.events.line = [] ∧ inv whole'.events.waiting whole'.state)
      fun _ _ => False := by
  obtain ⟨⟨capacity, line, overflow, ticks⟩, state⟩ := whole
  induction line generalizing state with
  | nil => exact Action.ensures_pure ⟨rfl, hinv⟩
  | cons event line ih =>
    exact Action.ensures_get (Action.ensures_bind (Action.ensures_modify (Action.ensures_bind
      (Action.ensures_within ((hhandle event _ state hinv).mono_done
        fun _ state' hstate' => ih state' hstate')))))

theorem ensures_replayTicks
    (hhandle : ∀ event rest state, inv (event :: rest) state →
      (handle event).Ensures state (fun _ => inv rest) fun _ _ => False)
    (count : Nat) (whole : WithEvents σ) (hinv : inv (List.replicate count .tick) whole.state) :
    (replayTicks handle count).Ensures whole (fun _ whole' => inv [] whole'.state)
      fun _ _ => False := by
  induction count generalizing whole with
  | zero => exact Action.ensures_pure hinv
  | succ count ih =>
    exact (ensures_onState whole (hhandle .tick _ whole.state hinv)).bind
      fun _ middle hmiddle => ih middle hmiddle

/-- An invariant of the state and the events that are left holds at the end, when none is. -/
theorem ensures_drain
    (hhandle : ∀ event rest state, inv (event :: rest) state →
      (handle event).Ensures state (fun _ => inv rest) fun _ _ => False)
    (whole : WithEvents σ) (hinv : inv whole.events.waiting whole.state) :
    (drain handle).Ensures whole (fun _ whole' => inv [] whole'.state) fun _ _ => False := by
  refine Action.ensures_get ((ensures_drainLine hhandle whole hinv).bind ?_)
  rintro _ middle ⟨hline, hmiddle⟩
  rw [EventQueue.waiting, hline, List.nil_append] at hmiddle
  exact Action.ensures_get (Action.ensures_bind
    (Action.ensures_modify (ensures_replayTicks hhandle _ _ hmiddle)))

end WithEvents

namespace System

open Processor

variable {paging : Paging}

theorem along_actOn (event : Event) {system : System} :
    (actOn paging event).Ensures system
      (fun _ system' => Course [event.deed] system.processor system'.processor)
      fun _ _ => False := by
  cases event with
  | tick =>
    exact ensures_clockTick.bind fun _ _ hticks => Action.ensures_pure (Does.tick hticks).course
  | wake pid =>
    refine Action.ensures_bind (Action.ensures_attempt ((along_wake pid).mono ?_ ?_))
    · exact fun _ _ hcourse => Action.ensures_pure hcourse
    · exact fun _ _ hcourse => Action.ensures_note hcourse

/-- Acting on the events that wait is doing some of what they stand for, in their order. -/
theorem along_actOnEvents {whole : WithEvents System} :
    (actOnEvents paging).Ensures whole
      (fun _ whole' => Course (whole.events.waiting.map Event.deed) whole.state.processor
        whole'.state.processor) fun _ _ => False := by
  -- The events that have been handed over lead to the state so far.
  let inv (rest : List Event) (system : System) : Prop :=
    ∃ handled, handled ++ rest = whole.events.waiting ∧
      Course (handled.map Event.deed) whole.state.processor system.processor
  have hhandle (event : Event) (rest : List Event) (system : System)
      (hinv : inv (event :: rest) system) :
      (actOn paging event).Ensures system (fun _ => inv rest) fun _ _ => False := by
    obtain ⟨handled, hwaiting, hcourse⟩ := hinv
    refine (along_actOn event).mono_done fun _ _ hevent =>
      ⟨handled ++ [event], by rw [← hwaiting, List.append_assoc, List.singleton_append], ?_⟩
    rw [List.map_append]
    exact hcourse.append hevent
  refine (WithEvents.ensures_drain hhandle whole ⟨[], rfl, .nil⟩).bind ?_
  rintro _ middle ⟨handled, hwaiting, hcourse⟩
  rw [List.append_nil] at hwaiting
  rw [hwaiting] at hcourse
  exact Action.ensures_get (Action.ensures_pure hcourse)

end System

namespace Trap

open Processor

variable {paging : Paging} {whole : WithEvents System}

theorem along_timer :
    (timer paging).Ensures whole
      (fun _ whole' => Course (whole.events.addTick.waiting.map Event.deed) whole.state.processor
        whole'.state.processor) fun _ _ => False :=
  Action.ensures_bind (Action.ensures_modify System.along_actOnEvents)

/-- A trap serves the system call first, and acts on the events that wait afterwards. -/
theorem ensures_systemCall (hcurrent : whole.state.table.currentProcess? ≠ none) :
    (systemCall paging).Ensures whole
      (fun _ whole' => Course
        ((Syscall.Request.ofRegisters whole.state.cpu).deeds ++
          whole.events.waiting.map Event.deed)
        ⟨whole.state.table, Syscall.answered whole.state.cpu
          (Syscall.answer? whole.state.table whole.state.cpu.eax)⟩ whole'.state.processor)
      fun _ _ => False := by
  refine Action.ensures_get (Action.ensures_bind (Action.ensures_within
    ((Syscall.ensures_serve hcurrent _).mono_done fun _ system hserved => ?_)))
  exact System.along_actOnEvents.mono_done fun _ _ hcourse => hserved.append hcourse

end Trap

end KernelResources
