import KernelResources.Proofs.Paging.Backing
import KernelResources.Proofs.Process.Tenants

/-!
# Creating processes

A user process needs a kernel stack, and a directory, a table and a page for its space. Memory may
run out at each of them, and the page may lie in the kernel region; then everything that was taken
before is given back.

* `ProcessTable.adopting`: the table with one more process, a child of the current one.
* `Paging.Furnished`: the space of a user process that has not run yet.
* `System.Rejects`: why a process may not be created.
* `launch_of_ran`: a process is created with all that it needs, or nothing has happened.
-/

namespace KernelResources

open Paging Machine

/-- The table when the current process has a new child, which is the last of its children. -/
def ProcessTable.adopting (table : ProcessTable) (child : Process) : ProcessTable :=
  { table with
    processes := table.processes.map (fun process =>
      if process.pid = table.current then
        { process with children := process.children ++ [child.pid] }
      else process) ++ [child]
    nextPid := child.pid + 1 }

theorem ProcessTable.launching_eq {table : ProcessTable} (hfresh : table.nextPid ≠ table.current)
    (name : String) (context : Registers) (space : ProcessSpace) (stack : KernelStack) :
    table.launching name context space stack = table.adopting
      (.create table.nextPid name .ready context space stack (some table.current)) := by
  have hother : (Process.create table.nextPid name .ready context space stack
      (some table.current)).pid ≠ table.current := hfresh
  unfold launching adopting add update
  simp only [List.map_append, List.map_cons, List.map_nil, if_neg hother]
  rfl

namespace Paging

variable {paging : Paging} {machine machine' : Machine} {space : AddressSpace} {table page : Nat}

/-- The space of a user process that has not run yet. -/
structure Furnished (paging : Paging) (machine : Machine) (space : AddressSpace) (table page : Nat)
    (machine' : Machine) : Prop where
  /-- The directory leads to the table of the stack page and lets user mode through. -/
  entry_eq :
    machine'.memory.entry space.directory
        (slotInDirectory (paging.layout.userStackTop - pageSize)) =
      .leadingTo (Frame.address table) (Flags.table ||| Flags.user)
  /-- The stack page reads as zeros. -/
  zeroed : ∀ physical, Frame.containing physical = page → machine'.memory.wordAt physical = 0
  /-- The stack page ends where the stack starts, and the space has to give its frame back. In the
  kernel region the space maps what the kernel space maps, and nothing else is mapped. -/
  addressMap_eq : machine'.memory.addressMap space = fun other =>
    if other.address + pageSize = paging.layout.userStackTop then
      some (.leadingTo (Frame.address page)
        (Flags.present ||| Flags.writable ||| Flags.user ||| Flags.owned))
    else (machine.memory.addressMap paging.kernel).sharedPart paging.layout other

/-- The flags with which the stack page of a user process is backed. -/
def stackFlags : Flags := Flags.writable ||| Flags.user

theorem eq_ofAddress_iff {top : Nat} (halign : top % pageSize = 0) (hroom : pageSize ≤ top)
    (htop : top < bitRange 32) (page : PageNumber) :
    page = .ofAddress (top - pageSize) ↔ page.address + pageSize = top := by
  have hlt := page.isLt
  have hrange : bitRange 32 = 4294967296 := rfl
  rw [← BitVec.toNat_inj]
  simp only [PageNumber.ofAddress, PageNumber.address, BitVec.toNat_ofNat, pageSize] at *
  omega

theorem Backs.furnished
    (h : Backs paging (paging.layout.userStackTop - pageSize) stackFlags machine space table page
      machine')
    (halign : paging.layout.userStackTop % pageSize = 0)
    (hroom : pageSize ≤ paging.layout.userStackTop)
    (htop : paging.layout.userStackTop < bitRange 32) :
    Furnished paging machine space table page machine' where
  entry_eq := h.entry_eq
  zeroed := h.zeroed
  addressMap_eq := by
    rw [h.addressMap_eq]
    funext other
    rw [if_congr (eq_ofAddress_iff halign hroom htop other) rfl rfl]
    rfl

end Paging

namespace System

variable {ε α : Type} {paging : Paging} {system : System}

/-! ## Parts of creating a process -/

theorem settles_getTable {next : ProcessTable → Action ε System α} {done : α → System → Prop}
    {refused : ε → System → Prop} (h : (next system.table).Settles system done refused) :
    (getTable >>= next).Settles system done refused := h

theorem settles_onMemory {action : Action MemoryError Machine α} {done : α → System → Prop}
    {refused : ProcessError → System → Prop}
    (h : action.Settles system.machine (fun value machine => done value { system with machine })
      fun error machine => refused (.memory error) { system with machine }) :
    (onMemory action).Settles system done refused :=
  Action.settles_within (Action.settles_mapError h)

theorem settles_enroll {refused : ProcessError → System → Prop}
    (hnext : system.table.nextPid + 1 < bitRange 32) (name : String) (eip : Nat)
    (kernelMode : Bool) (stack : KernelStack) (space : ProcessSpace) (context : Registers) :
    (enroll name eip kernelMode stack space context).Settles system
      (fun pid system' => pid = system.table.nextPid ∧ system' =
        { system with table := system.table.launching name context space stack }) refused := by
  refine settles_getTable ?_
  dsimp only
  rw [Action.add_eq_pure hnext, pure_bind]
  refine Action.settles_bind (Action.settles_modify (Action.settles_bind
    (Action.settles_modify ?_)))
  exact Action.settles_bind (Action.settles_note rfl (Action.settles_pure ⟨rfl, rfl⟩))

/-- Why there may be no space for a user process. -/
def RejectsSpace (paging : Paging) (machine : Machine) : ProcessError → Prop
  | .memory .invalidOperation =>
    paging.inKernelRegion (paging.layout.userStackTop - pageSize) = true
  | .memory .outOfMemory => machine.frames.freeFrames.card < 3
  | _ => False

/-- The space of a user process has its stack page, or nothing is left of it. -/
theorem settles_createUserSpace {spaces : List AddressSpace} {others : List Nat}
    (h : Consistent paging system.machine spaces others)
    (hactive : ⟨system.machine.active⟩ ∈ spaces)
    (hroom : pageSize ≤ paging.layout.userStackTop) :
    (createUserSpace paging).Settles system
      (fun space system' => system' = { system with machine := system'.machine } ∧
        ∃ table page, Backs paging (paging.layout.userStackTop - pageSize) stackFlags
          system.machine space table page system'.machine)
      fun error system' => system' = { system with machine := system'.machine } ∧
        Takes system.machine [] system'.machine ∧ RejectsSpace paging system.machine error := by
  refine Action.settles_bind (settles_onMemory ((blank_createSpace h).mono ?_ ?_))
  · intro space middle hblank
    rw [Action.subtract_eq_pure hroom, pure_bind]
    refine Action.settles_bind (Action.settles_attempt (settles_onMemory
      ((hblank.settles_mapFresh h.kernel_mem).mono ?_ ?_)))
    · rintro page machine' ⟨table, hbacks⟩
      exact Action.settles_pure ⟨rfl, table, page, hbacks⟩
    -- The page was refused, so the directory is all that has to be given back.
    · rintro error middle' ⟨htakes, hconsistent, hreason⟩
      refine Action.settles_bind (settles_onMemory ((hblank.takes_destroySpace h.kernel_mem hactive
        hconsistent htakes).mono (fun _ _ hend => Action.settles_throw ⟨rfl, hend, ?_⟩)
          fun _ _ => False.elim))
      rcases hreason with ⟨rfl, hregion⟩ | ⟨rfl, hfull⟩
      · exact hregion
      · show system.machine.frames.freeFrames.card < 3
        rw [hblank.takes.card_freeFrames]
        exact Nat.succ_lt_succ hfull
  · rintro error middle ⟨rfl, rfl, hfull⟩
    refine ⟨rfl, Takes.refl h.pool, ?_⟩
    show system.machine.frames.freeFrames.card < 3
    rw [hfull]
    decide

/-- Why a process may not be created. -/
def Rejects (paging : Paging) (machine : Machine) (entry : Nat) (kernelMode : Bool)
    (stack : Option KernelStack) : ProcessError → Prop
  | .invalidOperation => kernelMode = false ∧ entry % bitRange 32 < userSpaceStart
  | .memory cause => cause = .outOfMemory ∧ stack = none ∨
    kernelMode = false ∧ RejectsSpace paging machine (.memory cause)
  | .noSuchProcess => False

/-- A process was created. A process of the kernel runs in the kernel space, for which nothing is
taken; a user process has a space of its own. -/
inductive Creates (paging : Paging) (spaces : List AddressSpace) (name : String) (eip : UInt32)
    (stack : KernelStack) (system : System) : Bool → System → Prop where
  | kernel : Creates paging spaces name eip stack system true
      { system with table := system.table.adopting (.create system.table.nextPid name .ready
          (Registers.forKernel paging.kernel.cr3 stack.top eip) .kernel stack
            (some system.table.current)) }
  | user {space : AddressSpace} {table page : Nat} {machine : Machine} :
      Spends spaces system.machine [table, page, space.directory] machine →
        Furnished paging system.machine space table page machine →
          Creates paging spaces name eip stack system false
            { system with machine, table := system.table.adopting (.create system.table.nextPid name
              .ready (Registers.forUser space.cr3 (UInt32.ofNat paging.layout.userStackTop) eip)
                (.user space) stack (some system.table.current)) }

/-- A process is created with all that it needs, or nothing has happened. -/
theorem Balanced.settles_launch {pool : FramePool} {outer : List AddressSpace} {held : List Nat}
    (h : Balanced paging pool outer held system)
    (hcurrent : system.table.nextPid ≠ system.table.current)
    (hnext : system.table.nextPid + 1 < bitRange 32)
    (halign : paging.layout.userStackTop % pageSize = 0)
    (hroom : pageSize ≤ paging.layout.userStackTop)
    (htop : paging.layout.userStackTop < bitRange 32) (name : String) (entry : Nat)
    (kernelMode : Bool) (stack : Option KernelStack) :
    (launch paging name entry kernelMode stack).Settles system
      (fun pid system' => pid = system.table.nextPid ∧ ∃ memory, stack = some memory ∧
        Creates paging (outer ++ system.table.spaces paging) name
          (UInt32.ofNat (entry % bitRange 32)) memory system kernelMode system')
      fun error system' => system' = { system with machine := system'.machine } ∧
        Spends (outer ++ system.table.spaces paging) system.machine [] system'.machine ∧
        Rejects paging system.machine entry kernelMode stack error := by
  have hunspent := h.consistent.spends_of_takes (Takes.refl h.consistent.pool)
  rw [launch_eq]
  refine Action.settles_bind (Action.settles_refuseIf (fun hlow => ⟨rfl, hunspent, hlow⟩) fun _ =>
    Action.settles_bind (Action.settles_ofOption (fun hnone => ⟨rfl, hunspent, .inl ⟨rfl, hnone⟩⟩)
      fun memory hmemory => ?_))
  cases kernelMode with
  | true =>
    refine (settles_enroll hnext _ _ _ _ _ _).mono_done ?_
    rintro pid _ ⟨rfl, rfl⟩
    rw [ProcessTable.launching_eq hcurrent]
    exact ⟨rfl, memory, hmemory, .kernel⟩
  | false =>
    refine Action.settles_bind
      ((settles_createUserSpace h.consistent h.active_mem hroom).mono ?_ ?_)
    -- The space does not show in the table, so the process is enrolled as if there were none.
    · rintro space ⟨machine, _, _⟩ ⟨heq, table, page, hbacks⟩
      cases heq
      have hbuilt : ({ system with machine } : System).table.nextPid + 1 < bitRange 32 := hnext
      refine (settles_enroll hbuilt _ _ _ _ _ _).mono_done ?_
      rintro pid _ ⟨rfl, rfl⟩
      rw [ProcessTable.launching_eq hcurrent]
      exact ⟨rfl, memory, hmemory, .user (h.consistent.spends_of_takes hbacks.takes)
        (hbacks.furnished halign hroom htop)⟩
    · rintro error system' ⟨heq, htakes, hreason⟩
      refine ⟨heq, h.consistent.spends_of_takes htakes, ?_⟩
      cases error with
      | memory cause => exact .inr ⟨rfl, hreason⟩
      | noSuchProcess | invalidOperation => exact hreason.elim

end System

/-- After any run in which processes and callers take turns, if the next pid is not the last one and
the stack of a user process is to start at the end of a page, then creating a process returns. If it
is done, the new process has the next pid; it is ready, starts at its entry point, has the kernel
stack and names the current process as its parent, which lists it last, while no other process is
different. For a process of the kernel, no frame is taken. For a user process, three frames are
taken that were free, a directory, a table and a page; the space has that page, zeroed, as its
stack, maps the kernel region as the kernel space does, and maps nothing else. If it is refused,
then because the entry point of a user process lies too low, because there is no memory for the
kernel stack, because fewer than three frames are free for a user process, or because its stack page
lies in the kernel region; and the processes, the registers and the free frames are what they were.
Either way, the live spaces translate as before and nothing is loaded. -/
theorem launch_of_ran {layout : Layout} {start : Machine} {paging : Paging} {tenancy : Tenancy}
    {system : System} (hpool : start.frames.Reachable) (htotal : start.frames.total ≤ bitRange 20)
    (h : tenancy.Ran layout start paging) (hmachine : system.machine = tenancy.system.machine)
    (htable : system.table = tenancy.system.table)
    (hnext : system.table.nextPid + 1 < bitRange 32)
    (halign : paging.layout.userStackTop % pageSize = 0)
    (hroom : pageSize ≤ paging.layout.userStackTop)
    (htop : paging.layout.userStackTop < bitRange 32) (name : String) (entry : Nat)
    (kernelMode : Bool) (stack : Option KernelStack) :
    (System.launch paging name entry kernelMode stack).Settles system
      (fun pid system' => pid = system.table.nextPid ∧ ∃ memory, stack = some memory ∧
        System.Creates paging (tenancy.live paging) name (UInt32.ofNat (entry % bitRange 32)) memory
          system kernelMode system')
      fun error system' => system' = { system with machine := system'.machine } ∧
        Spends (tenancy.live paging) system.machine [] system'.machine ∧
        System.Rejects paging system.machine entry kernelMode stack error := by
  have hbalanced : system.Balanced paging start.frames tenancy.spaces tenancy.held :=
    (h.balanced (FramePool.consistent_of_reachable hpool) htotal).congr hmachine (htable ▸ rfl)
      (htable ▸ rfl)
  have hsound : system.table.Sound := htable ▸ sound_of_reachable h.table
  have hfresh : system.table.current < system.table.nextPid := hsound.below _ hsound.current_mem
  have hlive : tenancy.live paging = tenancy.spaces ++ system.table.spaces paging := by
    rw [htable]
    rfl
  rw [hlive]
  exact hbalanced.settles_launch (Nat.ne_of_gt hfresh) hnext halign hroom htop name entry kernelMode
    stack

/-- In eight frames there is room for the kernel space and for one user process. -/
theorem launch_of_smallMachine :
    ∃ paging booted system' journal' space table page,
      Tenancy.Ran smallLayout smallMachine paging ⟨booted, [], []⟩ ∧
      System.launch paging "init" userSpaceStart false (some ⟨0⟩) booted #[] =
        .done 2 system' journal' ∧
      system'.table.state? 2 = some .ready ∧
      Spends [paging.kernel] booted.machine [table, page, space.directory] system'.machine ∧
      Furnished paging booted.machine space table page system'.machine := by
  have hpool : smallMachine.frames.Reachable := .allFree (by decide)
  have hrun : (System.booted? smallLayout smallMachine).any (fun run =>
      (System.launch run.1 "init" userSpaceStart false (some ⟨0⟩) run.2 #[]).passes
        fun pid system' _ => decide (pid = 2 ∧ system'.table.state? 2 = some .ready ∧
          run.1.layout = smallLayout ∧ run.2.table.nextPid = 2 ∧
          run.2.table.spaces run.1 = [run.1.kernel])) = true := by decide +kernel
  obtain ⟨⟨paging, booted⟩, hbooted, hrun⟩ := (Option.any_eq_true _ _).mp hrun
  obtain ⟨pid, system', journal', hlaunch, hfacts⟩ := Outcome.passes_iff.mp hrun
  obtain ⟨rfl, hready, hlayout, hnext, hspaces⟩ := of_decide_eq_true hfacts
  dsimp only at hlaunch hlayout hnext hspaces
  have hran := Tenancy.ran_of_booted? hbooted
  have hlaunched := launch_of_ran hpool (by decide) hran rfl rfl (by rw [hnext]; decide)
    (by rw [hlayout]; decide) (by rw [hlayout]; decide) (by rw [hlayout]; decide) "init"
    userSpaceStart false (some ⟨0⟩) #[]
  rw [hlaunch] at hlaunched
  obtain ⟨-, -, memory, -, hcreates⟩ := hlaunched
  have hlive : Tenancy.live paging ⟨booted, [], []⟩ = [paging.kernel] := hspaces
  rw [hlive] at hcreates
  cases hcreates with
  | user hspends hfurnished =>
    exact ⟨paging, booted, _, journal', _, _, _, hran, hlaunch, hready, hspends, hfurnished⟩

end KernelResources
