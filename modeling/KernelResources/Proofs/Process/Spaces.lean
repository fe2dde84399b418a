import KernelResources.Proofs.Paging.Translation
import KernelResources.Proofs.Process.Changes
import Mathlib.Data.List.Pairwise

/-!
# Processes and their address spaces

Which directory is loaded is written down in three places: in the machine, in the registers on the
processor, and in the registers saved for each process, which also knows its own space.

* `System.Loaded` is the invariant that makes them agree: the directory of the current process is
  loaded, and so the registers say; every other process has the directory of its own space saved.
  The live spaces are the kernel's and those of the user processes, and no two of them are the same.
* `Loaded.updateAll`, `Loaded.adding`, `Loaded.removing` and `Loaded.switching` say which changes of
  the process table keep it.
-/

namespace KernelResources

/-- The space of a user process. -/
def ProcessSpace.user? : ProcessSpace → Option AddressSpace
  | .kernel => none
  | .user space => some space

/-- The address space that a process runs in. -/
def Process.home (paging : Paging) (process : Process) : AddressSpace :=
  process.space.user?.getD paging.kernel

/-- The live spaces: the kernel's and those of the user processes. -/
def ProcessTable.spaces (paging : Paging) (table : ProcessTable) : List AddressSpace :=
  paging.kernel :: table.processes.filterMap fun process => process.space.user?

namespace Paging

variable {paging : Paging} {machine : Machine} {spaces spaces' : List AddressSpace}
  {others : List Nat} {space : AddressSpace}

/-- In what order the spaces are listed makes no difference. -/
theorem Consistent.permSpaces (h : Consistent paging machine spaces others)
    (hperm : spaces.Perm spaces') : Consistent paging machine spaces' others where
  toAccounted := { h.toAccounted with
    taken := h.taken.trans ((hperm.flatMap_right _).append_left others)
    marked := fun space hspace => h.marked space (hperm.mem_iff.mpr hspace) }
  slots_le := h.slots_le
  kernel_mem := hperm.mem_iff.mp h.kernel_mem
  present := h.present
  same := fun space hspace => h.same space (hperm.mem_iff.mpr hspace)

theorem Accounted.directory_mem_taken (h : Accounted paging machine spaces others)
    (hspace : space ∈ spaces) : space.directory ∈ machine.frames.takenFrames :=
  h.mem_taken_of_owned (mem_ownedFrames_of_space hspace mem_spaceFrames_directory)

/-- The directory register is wide enough for the directories of live spaces. -/
theorem Accounted.toNat_cr3 (h : Accounted paging machine spaces others) (hspace : space ∈ spaces) :
    space.cr3.toNat = Frame.address space.directory := by
  have hlt := h.lt_of_taken (h.directory_mem_taken hspace)
  have hrange : bitRange 20 = 1048576 := rfl
  refine UInt32.toNat_ofNat_of_lt' ?_
  simp only [Frame.address, Frame.size, UInt32.size]
  omega

end Paging

open Paging

/-! ## The spaces of a table -/

namespace ProcessTable

variable {paging : Paging} {table : ProcessTable} {process other : Process}
  {change : Process → Process}

theorem home_mem_spaces (hprocess : process ∈ table.processes) :
    process.home paging ∈ table.spaces paging := by
  unfold Process.home
  cases hspace : process.space.user? with
  | none => exact List.mem_cons_self
  | some space => exact List.mem_cons_of_mem _ (List.mem_filterMap.mpr ⟨process, hprocess, hspace⟩)

theorem spaces_updateAll (hspace : ∀ process ∈ table.processes, (change process).space =
    process.space) : (table.updateAll change).spaces paging = table.spaces paging := by
  unfold spaces updateAll
  rw [List.filterMap_map]
  refine congrArg _ (List.filterMap_congr fun process hprocess => ?_)
  exact congrArg ProcessSpace.user? (hspace process hprocess)

theorem spaces_update (pid : Nat) (hspace : ∀ process, (change process).space = process.space) :
    (table.update pid change).spaces paging = table.spaces paging := by
  refine spaces_updateAll fun process _ => ?_
  split
  · exact hspace process
  · rfl

theorem spaces_add (process : Process) :
    ((table.add process).spaces paging).Perm
      (process.space.user?.toList ++ table.spaces paging) := by
  have hnew : [process].filterMap (fun process => process.space.user?) =
      process.space.user?.toList := by
    rw [List.filterMap_cons]
    cases process.space.user? <;> rfl
  unfold spaces add
  rw [List.filterMap_append, hnew]
  exact (List.perm_append_comm.cons _).trans List.perm_middle.symm

/-- The space of a process is no longer alive when the process is removed. -/
theorem spaces_remove (hnodup : table.pids.Nodup) (hprocess : process ∈ table.processes) :
    (table.spaces paging).Perm
      (process.space.user?.toList ++ (table.remove process.pid).spaces paging) := by
  -- Pids occur once, so the filter takes out this one process only.
  have hrest : table.processes.erase process =
      table.processes.filter (·.pid ≠ process.pid) := by
    rw [(List.Nodup.of_map _ hnodup).erase_eq_filter]
    refine List.filter_congr fun other hother => ?_
    by_cases heq : other = process
    · simp [heq]
    · have hpid : other.pid ≠ process.pid := fun hpid =>
        heq (eq_of_nodup hnodup hprocess hother hpid)
      simp [heq, hpid]
  have hsplit := (List.perm_cons_erase hprocess).filterMap fun process => process.space.user?
  rw [hrest, List.filterMap_cons] at hsplit
  unfold spaces remove
  cases hspace : process.space.user? with
  | none =>
    rw [hspace] at hsplit
    exact hsplit.cons _
  | some space =>
    rw [hspace] at hsplit
    exact (hsplit.cons _).trans (List.Perm.swap _ _ _)

/-- User processes do not share their spaces with anybody. -/
theorem home_ne_of_user (hnodup : (table.spaces paging).Nodup) {space : AddressSpace}
    (hprocess : process ∈ table.processes) (hspace : process.space.user? = some space)
    (hother : other ∈ table.processes) (hne : other ≠ process) : other.home paging ≠ space := by
  obtain ⟨hkernel, husers⟩ := List.nodup_cons.mp hnodup
  unfold Process.home
  cases hspace' : other.space.user? with
  | none =>
    rintro rfl
    exact hkernel (List.mem_filterMap.mpr ⟨process, hprocess, hspace⟩)
  | some space' =>
    -- No user space is listed twice, so two processes cannot both have it.
    have hpairwise := List.pairwise_filterMap.mp husers
    have hsymm : Std.Symm fun process other : Process =>
        ∀ space, process.space.user? = some space →
          ∀ space', other.space.user? = some space' → space ≠ space' :=
      ⟨fun _ _ h space hspace space' hspace' => (h space' hspace' space hspace).symm⟩
    exact hpairwise.forall hother hprocess hne space' hspace' space hspace

end ProcessTable

/-! ## The invariant -/

/-- The loaded directory is that of the current process, everybody else has his own one saved, and
frames and tables agree. -/
structure System.Loaded (paging : Paging) (others : List Nat) (system : System) : Prop where
  /-- Frames and tables agree, and every live space is that of one user process or the kernel's. -/
  consistent : Consistent paging system.machine (system.table.spaces paging) others
  /-- Pids name processes. -/
  nodup : system.table.pids.Nodup
  /-- The next pid is a fresh one. -/
  below : ∀ pid ∈ system.table.pids, pid < system.table.nextPid
  /-- The current process is in the table. -/
  current_mem : system.table.current ∈ system.table.pids
  /-- The idle process does not end. -/
  idle_lives : ∀ process ∈ system.table.processes, process.pid = system.table.idle →
    process.state ≠ .terminated
  /-- Every process but the current one has the directory of its space saved. -/
  saved : ∀ process ∈ system.table.processes, process.pid ≠ system.table.current →
    process.context.cr3 = (process.home paging).cr3
  /-- The directory of the current process is loaded. -/
  active : ∀ process ∈ system.table.processes, process.pid = system.table.current →
    system.machine.active = (process.home paging).directory
  /-- So the registers on the processor say. -/
  cpu : system.cpu.cr3 = (⟨system.machine.active⟩ : AddressSpace).cr3

/-- A change of single processes that neither moves them to other spaces nor touches saved
registers, and that does not end the idle process. -/
structure ProcessTable.Retains (table : ProcessTable) (change : Process → Process) : Prop where
  pid_eq : ∀ process, (change process).pid = process.pid
  space_eq : ∀ process, (change process).space = process.space
  context_eq : ∀ process, process.pid ≠ table.current → (change process).context = process.context
  lives : ∀ process, process.pid = table.idle → process.state ≠ .terminated →
    (change process).state ≠ .terminated

/-- The change of a process of a given pid. -/
theorem ProcessTable.Retains.when {table : ProcessTable} {change : Process → Process}
    {condition : Process → Prop} [DecidablePred condition]
    (hpid : ∀ process, (change process).pid = process.pid)
    (hspace : ∀ process, (change process).space = process.space)
    (hcontext : ∀ process, condition process → process.pid ≠ table.current →
      (change process).context = process.context)
    (hlives : ∀ process, condition process → process.pid = table.idle →
      process.state ≠ .terminated → (change process).state ≠ .terminated) :
    table.Retains fun process => if condition process then change process else process := by
  constructor
  · intro process
    split
    · exact hpid process
    · rfl
  · intro process
    split
    · exact hspace process
    · rfl
  · intro process hcurrent
    split
    · next hcondition => exact hcontext process hcondition hcurrent
    · rfl
  · intro process hidle hstate
    split
    · next hcondition => exact hlives process hcondition hidle hstate
    · exact hstate

namespace System

variable {paging : Paging} {others : List Nat} {system : System} {process : Process}
  {change : Process → Process} {machine : Machine}

namespace Loaded

variable (h : Loaded paging others system)
include h

/-- The space that is loaded is a live one. -/
theorem active_mem_spaces : ⟨system.machine.active⟩ ∈ system.table.spaces paging := by
  obtain ⟨current, hmem, hpid⟩ := ProcessTable.mem_pids.mp h.current_mem
  rw [h.active current hmem hpid]
  exact ProcessTable.home_mem_spaces hmem

/-- The registers that processes are to have are those of their own spaces. -/
theorem cpu_eq (hprocess : process ∈ system.table.processes)
    (hcurrent : process.pid = system.table.current) :
    system.cpu.cr3 = (process.home paging).cr3 := by
  rw [h.cpu, h.active process hprocess hcurrent]

/-- The space of a process that is not current is neither the kernel's nor loaded. -/
theorem can_destroy {space : AddressSpace} (hprocess : process ∈ system.table.processes)
    (hspace : process.space.user? = some space) (hcurrent : process.pid ≠ system.table.current) :
    space.directory ≠ paging.kernel.directory ∧ space.directory ≠ system.machine.active := by
  have hnodup := nodup_spaces h.consistent.nodup
  constructor
  · refine fun heq => (List.nodup_cons.mp hnodup).1 ?_
    rw [← directory_inj.mp heq]
    exact List.mem_filterMap.mpr ⟨process, hprocess, hspace⟩
  · obtain ⟨current, hmem, hpid⟩ := ProcessTable.mem_pids.mp h.current_mem
    rw [h.active current hmem hpid]
    refine fun heq => ?_
    have hne : current ≠ process := fun heq => hcurrent (heq ▸ hpid)
    exact ProcessTable.home_ne_of_user hnodup hprocess hspace hmem hne (directory_inj.mp heq).symm

/-- The machine may change as long as the same directory is loaded. -/
theorem withMachine (hconsistent : Consistent paging machine (system.table.spaces paging) others)
    (hactive : machine.active = system.machine.active) :
    Loaded paging others { system with machine } where
  consistent := hconsistent
  nodup := h.nodup
  below := h.below
  current_mem := h.current_mem
  idle_lives := h.idle_lives
  saved := h.saved
  active process hprocess hcurrent := hactive.trans (h.active process hprocess hcurrent)
  cpu := h.cpu.trans (congrArg (fun active => AddressSpace.cr3 ⟨active⟩) hactive.symm)

/-- The registers may change as long as they name the same directory. -/
theorem withCpu {cpu : Registers} (hcpu : cpu.cr3 = system.cpu.cr3) :
    Loaded paging others { system with cpu } :=
  { h with cpu := hcpu.trans h.cpu }

theorem updateAll (hchange : system.table.Retains change) :
    Loaded paging others { system with table := system.table.updateAll change } := by
  have hpids : (system.table.updateAll change).pids = system.table.pids :=
    ProcessTable.pids_updateAll hchange.pid_eq
  have hhome (process : Process) : (change process).home paging = process.home paging :=
    congrArg (fun space : ProcessSpace => space.user?.getD paging.kernel)
      (hchange.space_eq process)
  refine ⟨?_, hpids.symm ▸ h.nodup, hpids.symm ▸ h.below, hpids.symm ▸ h.current_mem, ?_, ?_, ?_,
    h.cpu⟩
  · rw [ProcessTable.spaces_updateAll fun process _ => hchange.space_eq process]
    exact h.consistent
  · refine List.forall_mem_map.mpr fun process hprocess hidle => ?_
    rw [hchange.pid_eq] at hidle
    exact hchange.lives process hidle (h.idle_lives process hprocess hidle)
  · refine List.forall_mem_map.mpr fun process hprocess hcurrent => ?_
    rw [hchange.pid_eq] at hcurrent
    rw [hchange.context_eq process hcurrent, hhome]
    exact h.saved process hprocess hcurrent
  · refine List.forall_mem_map.mpr fun process hprocess hcurrent => ?_
    rw [hchange.pid_eq] at hcurrent
    rw [hhome]
    exact h.active process hprocess hcurrent

/-- What time it is makes no difference. -/
theorem withClock (clock : Nat) :
    Loaded paging others { system with table := { system.table with clock } } :=
  ⟨h.consistent, h.nodup, h.below, h.current_mem, h.idle_lives, h.saved, h.active, h.cpu⟩

/-- A process is added that begins in its own space. -/
theorem adding {nextPid : Nat} (hpid : process.pid = system.table.nextPid)
    (hnext : process.pid < nextPid) (hstate : process.state ≠ .terminated)
    (hcontext : process.context.cr3 = (process.home paging).cr3)
    (hconsistent : Consistent paging machine
      (process.space.user?.toList ++ system.table.spaces paging) others)
    (hactive : machine.active = system.machine.active) :
    Loaded paging others
      { system with machine, table := { system.table with nextPid }.add process } := by
  have hne : process.pid ≠ system.table.current := by
    rw [hpid]
    exact (Nat.ne_of_lt (h.below _ h.current_mem)).symm
  have hold (pid : Nat) (hmem : pid ∈ system.table.pids) : pid < process.pid :=
    hpid ▸ h.below pid hmem
  have hpids : ({ system.table with nextPid }.add process).pids =
      system.table.pids ++ [process.pid] := List.map_append
  constructor
  · exact hconsistent.permSpaces (ProcessTable.spaces_add process).symm
  · rw [hpids]
    refine List.nodup_append.mpr ⟨h.nodup, List.nodup_singleton _, fun pid hmem other hother => ?_⟩
    rw [List.mem_singleton.mp hother]
    exact Nat.ne_of_lt (hold pid hmem)
  · rw [hpids]
    intro pid hmem
    rcases List.mem_append.mp hmem with hmem | hmem
    · exact Nat.lt_trans (hold pid hmem) hnext
    · exact List.mem_singleton.mp hmem ▸ hnext
  · rw [hpids]
    exact List.mem_append_left _ h.current_mem
  · intro other hother hidle
    rcases List.mem_append.mp hother with hother | hother
    · exact h.idle_lives other hother hidle
    · exact List.mem_singleton.mp hother ▸ hstate
  · intro other hother hcurrent
    rcases List.mem_append.mp hother with hother | hother
    · exact h.saved other hother hcurrent
    · exact List.mem_singleton.mp hother ▸ hcontext
  · intro other hother hcurrent
    rcases List.mem_append.mp hother with hother | hother
    · exact hactive.trans (h.active other hother hcurrent)
    · rw [List.mem_singleton.mp hother] at hcurrent
      exact absurd hcurrent hne
  · exact h.cpu.trans (congrArg (fun active => AddressSpace.cr3 ⟨active⟩) hactive.symm)

/-- A process that is not current is removed, and with it the space of a user process. -/
theorem removing {pid : Nat} (hcurrent : pid ≠ system.table.current)
    (hconsistent : Consistent paging machine ((system.table.remove pid).spaces paging) others)
    (hactive : machine.active = system.machine.active) :
    Loaded paging others { system with machine, table := system.table.remove pid } := by
  have hrest {process : Process} (hprocess : process ∈ (system.table.remove pid).processes) :
      process ∈ system.table.processes := List.mem_of_mem_filter hprocess
  refine ⟨hconsistent, ?_, ?_, ?_, fun process hprocess => h.idle_lives process (hrest hprocess),
    fun process hprocess => h.saved process (hrest hprocess),
    fun process hprocess hcurrent => hactive.trans (h.active process (hrest hprocess) hcurrent),
    h.cpu.trans (congrArg (fun active => AddressSpace.cr3 ⟨active⟩) hactive.symm)⟩
  · rw [ProcessTable.pids_remove]
    exact h.nodup.filter _
  · rw [ProcessTable.pids_remove]
    exact fun other hother => h.below other (List.mem_of_mem_filter hother)
  · rw [ProcessTable.pids_remove]
    exact List.mem_filter.mpr ⟨h.current_mem, decide_eq_true hcurrent.symm⟩

/-- Another process gets the processor, and its space is loaded. -/
theorem switching {incoming : Process} (hincoming : incoming ∈ system.table.processes)
    (hsaved : ∀ process ∈ system.table.processes,
      process.context.cr3 = (process.home paging).cr3)
    (hconsistent : Consistent paging machine (system.table.spaces paging) others)
    (hactive : machine.active = (incoming.home paging).directory) (cursor : Nat) :
    Loaded paging others
      { machine, cpu := incoming.context
        table := { system.table.update incoming.pid resume with
          current := incoming.pid, cursor } } := by
  have hresume : system.table.Retains fun process =>
      if process.pid = incoming.pid then resume process else process :=
    .when (fun _ => rfl) (fun _ => rfl) (fun _ _ _ => rfl) fun _ _ _ _ => nofun
  have hresumed := h.updateAll hresume
  have hpids : (system.table.update incoming.pid resume).pids = system.table.pids :=
    ProcessTable.pids_updateAll hresume.pid_eq
  -- Nobody moves when a process gets a new turn, and all registers stay saved.
  have hhome (process : Process) : (if process.pid = incoming.pid then resume process
      else process).home paging = process.home paging := by
    split <;> rfl
  have hcontext (process : Process) : (if process.pid = incoming.pid then resume process
      else process).context = process.context := by
    split <;> rfl
  refine ⟨?_, hresumed.nodup, hresumed.below, ?_, hresumed.idle_lives, ?_, ?_, ?_⟩
  · have hspaces : (system.table.updateAll fun process => if process.pid = incoming.pid then
        resume process else process).spaces paging = system.table.spaces paging :=
      ProcessTable.spaces_updateAll fun process _ => hresume.space_eq process
    exact hspaces.symm ▸ hconsistent
  · exact hpids.symm ▸ List.mem_map_of_mem hincoming
  · refine List.forall_mem_map.mpr fun process hprocess _ => ?_
    rw [hcontext, hhome]
    exact hsaved process hprocess
  · refine List.forall_mem_map.mpr fun process hprocess hcurrent => ?_
    rw [hresume.pid_eq] at hcurrent
    rw [hhome, ProcessTable.eq_of_nodup h.nodup hincoming hprocess hcurrent]
    exact hactive
  · exact (hsaved incoming hincoming).trans
      (congrArg (fun directory => AddressSpace.cr3 ⟨directory⟩) hactive.symm)

end Loaded

end System

end KernelResources
