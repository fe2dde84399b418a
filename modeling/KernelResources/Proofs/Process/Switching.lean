import KernelResources.Proofs.Paging.Anchors
import KernelResources.Proofs.Process.Endings
import KernelResources.Proofs.Process.Spaces
import KernelResources.Proofs.Process.Stability

/-!
# Switching address spaces

What the parts of the scheduler do to the loaded directory. A directory is loaded exactly where the
processor goes from one process to another that has a different one, and nothing that is loaded is
ever destroyed, so no removal is refused for that.

* `System.Tracked` is the invariant: besides `System.Loaded`, the directories loaded since a given
  state are those that the switches reported since then call for.
* `keeps_dispatch` is where directories are loaded, `yields_remove` where spaces are destroyed.
  Everything else that the scheduler does is made of these two and of changes of single processes.
* `yields_removeEnded` says which processes stay in the table although they have ended.
-/

namespace KernelResources

/-- The directory of the process of a given pid. -/
def ProcessTable.directory? (paging : Paging) (table : ProcessTable) (pid : Nat) : Option Nat :=
  (table.find? pid).map fun process => (process.home paging).directory

/-- The address that has to be loaded for a switch: that of the directory of the incoming process,
unless the outgoing one has the same. -/
def ProcessTable.load? (paging : Paging) (table : ProcessTable) (switch : Nat × Nat) :
    Option Nat :=
  if table.directory? paging switch.1 = table.directory? paging switch.2 then none
  else (table.directory? paging switch.2).map Frame.address

/-- The process has to stay in the table, if it is there at all. -/
def ProcessTable.Stays (table : ProcessTable) (pid : Nat) : Prop :=
  ∀ process, table.find? pid = some process →
    pid = table.current ∨ pid = table.idle ∨ process.state = .running

namespace System

open Paging

/-- The switches from one process to another between two states, with all that they have led to:
each of them begins with the process that the one before it ended with, and exactly the directories
that they call for were loaded. No removal of a terminated process has failed meanwhile. -/
structure Switches (paging : Paging) (start : System) (journal : Journal) (system : System)
    (journal' : Journal) (switches : List (Nat × Nat)) : Prop where
  /-- They are the ones that were reported. -/
  reported : journal'.switches = journal.switches ++ switches
  /-- They lead from the process that was current to the one that is. -/
  leads : switches.map Prod.fst ++ [system.table.current] =
    start.table.current :: switches.map Prod.snd
  /-- They are what directories were loaded for. -/
  loads : system.machine.loads =
    start.machine.loads ++ switches.filterMap (start.table.load? paging)
  /-- Terminated processes were removed without failure. -/
  reapFailures_eq : journal'.reapFailures = journal.reapFailures

/-- The loaded directory has followed the current process since a given state, and the kernel space
has kept its tables. -/
structure Follows (paging : Paging) (others : List Nat) (start : System) (journal : Journal)
    (system : System) (journal' : Journal) : Prop extends Loaded paging others system where
  /-- Directories were loaded for the switches that were reported. -/
  switched : ∃ switches, Switches paging start journal system journal' switches
  /-- The tables of the kernel region are where they were. -/
  anchored : paging.Anchored start.machine.memory system.machine.memory
  /-- There are as many frames as before. -/
  total_eq : system.machine.frames.total = start.machine.frames.total

/-- The invariant of everything that happens between two states without a process being created. -/
structure Tracked (paging : Paging) (others : List Nat) (start : System) (journal : Journal)
    (system : System) (journal' : Journal) : Prop
    extends Follows paging others start journal system journal' where
  /-- All processes were there before, in the spaces that they are in. -/
  settled : ∀ process ∈ system.table.processes,
    start.table.directory? paging process.pid = some (process.home paging).directory

variable {ε α : Type} {paging : Paging} {others : List Nat} {start system : System}
  {journal₀ journal journal' : Journal} {process : Process} {change : Process → Process}
  {machine : Machine}

/-! ## What keeps the invariant -/

theorem Switches.quiet {switches : List (Nat × Nat)}
    (h : Switches paging start journal₀ system journal switches) {system' : System}
    (hcurrent : system'.table.current = system.table.current)
    (hquiet : Quiet system.machine journal system'.machine journal') :
    Switches paging start journal₀ system' journal' switches where
  reported := hquiet.switches_eq.trans h.reported
  leads := hcurrent ▸ h.leads
  loads := hquiet.loads_eq.trans h.loads
  reapFailures_eq := hquiet.reapFailures_eq.trans h.reapFailures_eq

/-- Nothing has happened yet. -/
theorem Switches.refl (system : System) (journal : Journal) :
    Switches paging system journal system journal [] := by
  constructor <;> simp

theorem Loaded.tracked (h : Loaded paging others system) (journal : Journal) :
    Tracked paging others system journal system journal where
  toLoaded := h
  settled process hprocess := by
    rw [ProcessTable.directory?, ProcessTable.find?_of_nodup h.nodup hprocess]
    rfl
  switched := ⟨[], .refl system journal⟩
  anchored := .refl paging _
  total_eq := rfl

namespace Tracked

variable (h : Tracked paging others start journal₀ system journal)
include h

/-- Parts of the state that have nothing to do with switches may change. -/
theorem quiet {system' : System} (hloaded : Loaded paging others system')
    (hsettled : ∀ process ∈ system'.table.processes, ∃ before ∈ system.table.processes,
      before.pid = process.pid ∧ before.space = process.space)
    (hcurrent : system'.table.current = system.table.current)
    (hquiet : Quiet system.machine journal system'.machine journal')
    (hanchored : paging.Anchored system.machine.memory system'.machine.memory) :
    Tracked paging others start journal₀ system' journal' where
  toLoaded := hloaded
  settled process hprocess := by
    obtain ⟨before, hbefore, hpid, hspace⟩ := hsettled process hprocess
    rw [← hpid, h.settled before hbefore, Process.home, Process.home, hspace]
  switched := by
    obtain ⟨switches, hswitches⟩ := h.switched
    exact ⟨switches, hswitches.quiet hcurrent hquiet⟩
  anchored := h.anchored.trans hanchored
  total_eq := hquiet.total_eq.trans h.total_eq

theorem note {notice : Notice} (hswitch : notice.switch? = none)
    (hfailure : notice.isReapFailure = false) :
    Tracked paging others start journal₀ system (journal.push notice) :=
  h.quiet h.toLoaded (fun process hprocess => ⟨process, hprocess, rfl, rfl⟩) rfl
    ((Quiet.refl _ _).push hswitch hfailure) (.refl paging _)

theorem updateAll (hchange : system.table.Retains change) :
    Tracked paging others start journal₀
      { system with table := system.table.updateAll change } journal := by
  refine h.quiet (h.toLoaded.updateAll hchange) ?_ rfl (.refl _ _) (.refl paging _)
  exact List.forall_mem_map.mpr fun process hprocess =>
    ⟨process, hprocess, (hchange.pid_eq process).symm, (hchange.space_eq process).symm⟩

theorem withCpu {cpu : Registers} (hcpu : cpu.cr3 = system.cpu.cr3) :
    Tracked paging others start journal₀ { system with cpu } journal :=
  h.quiet (h.toLoaded.withCpu hcpu) (fun process hprocess => ⟨process, hprocess, rfl, rfl⟩) rfl
    (.refl _ _) (.refl paging _)

theorem withClock (clock : Nat) :
    Tracked paging others start journal₀
      { system with table := { system.table with clock } } journal :=
  h.quiet (h.toLoaded.withClock clock) (fun process hprocess => ⟨process, hprocess, rfl, rfl⟩) rfl
    (.refl _ _) (.refl paging _)

/-- A switch calls for a load if the directory of the incoming process is not loaded. -/
theorem load?_eq {incoming : Process} (hincoming : incoming ∈ system.table.processes) :
    start.table.load? paging (system.table.current, incoming.pid) =
      if system.machine.active = (incoming.home paging).directory then none
      else some (Frame.address (incoming.home paging).directory) := by
  obtain ⟨current, hmem, hpid⟩ := ProcessTable.mem_pids.mp h.current_mem
  unfold ProcessTable.load?
  rw [← hpid, h.settled current hmem, h.settled incoming hincoming, h.active current hmem hpid,
    Option.map_some]
  simp only [Option.some.injEq]

/-- The processor goes to another process, and its directory is loaded unless it is already. -/
theorem switching {incoming : Process} (hincoming : incoming ∈ system.table.processes)
    (hsaved : ∀ process ∈ system.table.processes,
      process.context.cr3 = (process.home paging).cr3)
    (hframes : machine.frames = system.machine.frames)
    (hmemory : machine.memory = system.machine.memory)
    (hactive : machine.active = (incoming.home paging).directory)
    (hloads : machine.loads = system.machine.loads ++
      if system.machine.active = (incoming.home paging).directory then []
      else [Frame.address (incoming.home paging).directory]) (cursor : Nat) :
    Tracked paging others start journal₀
      { machine, cpu := incoming.context
        table := { system.table.update incoming.pid resume with
          current := incoming.pid, cursor } }
      (journal.push (.switched system.table.current incoming.pid)) where
  toLoaded := h.toLoaded.switching hincoming hsaved (h.consistent.congr hframes hmemory) hactive
    cursor
  settled := by
    refine List.forall_mem_map.mpr fun process hprocess => ?_
    split
    · exact h.settled process hprocess
    · exact h.settled process hprocess
  switched := by
    obtain ⟨switches, hswitches⟩ := h.switched
    refine ⟨switches ++ [(system.table.current, incoming.pid)], ?_, ?_, ?_, ?_⟩
    · rw [Journal.switches_push, hswitches.reported, List.append_assoc]
      rfl
    · rw [List.map_append, List.map_append, ← List.cons_append, ← hswitches.leads]
      rfl
    · rw [hloads, hswitches.loads, List.append_assoc, List.filterMap_append, List.filterMap_cons,
        h.load?_eq hincoming]
      split <;> rfl
    · exact (Journal.reapFailures_push rfl).trans hswitches.reapFailures_eq
  anchored := hmemory ▸ h.anchored
  total_eq := hframes ▸ h.total_eq

end Tracked

/-! ## Switches -/

/-- Loading the space of a process is loading its directory. -/
theorem loadSpace_eq (process : Process) :
    (loadSpace paging process.space : Action ε Machine Unit) =
      Machine.loadDirectory (process.home paging).directory := by
  unfold loadSpace Process.home
  cases process.space with
  | kernel => rfl
  | user space => rfl

/-- A directory is loaded by a switch, and only if it is not loaded yet. -/
theorem keeps_dispatch (next : Nat) :
    (dispatch paging next : Action ε System Unit).Keeps
      (Tracked paging others start journal₀) := by
  intro system journal h
  refine yields_getTable (Action.yields_bind (Action.yields_modify (yields_getTable ?_)))
  dsimp only
  -- When the registers of the current process are saved, those of all processes are.
  have hsuspend : system.table.Retains fun process =>
      if process.pid = system.table.current then suspend system.cpu process else process := by
    refine .when (fun _ => rfl) (fun _ => rfl) (fun _ hcurrent hne => absurd hcurrent hne) ?_
    intro process _ _ hstate
    unfold suspend
    split
    · exact nofun
    · exact hstate
  have hsuspended := h.updateAll hsuspend
  have hsaved : ∀ process ∈ (system.table.update system.table.current
      (suspend system.cpu)).processes, process.context.cr3 = (process.home paging).cr3 := by
    refine List.forall_mem_map.mpr fun process hprocess => ?_
    split
    · next hcurrent =>
      show system.cpu.cr3 = (process.home paging).cr3
      exact h.cpu_eq hprocess hcurrent
    · next hcurrent => exact h.saved process hprocess hcurrent
  cases hfind : (system.table.update system.table.current (suspend system.cpu)).find? next with
  | none => exact Action.yields_pure hsuspended
  | some incoming =>
    have hincoming := ProcessTable.mem_of_find? hfind
    obtain rfl := ProcessTable.pid_of_find? hfind
    refine Action.yields_bind (yields_modifyTable (Action.yields_bind
      (Action.yields_modify (Action.yields_get ?_))))
    -- What is compared is the address of the directory that is loaded with that of the other one.
    have haddress : Frame.address system.machine.active = incoming.context.cr3.toNat ↔
        system.machine.active = (incoming.home paging).directory := by
      rw [hsaved incoming hincoming, hsuspended.consistent.toNat_cr3
        (ProcessTable.home_mem_spaces hincoming)]
      exact Nat.mul_left_inj (by decide)
    split
    · next hload =>
      have hne := mt haddress.mpr hload
      rw [loadSpace_eq]
      refine Action.yields_bind (Action.yields_within (Action.yields_modify (Action.yields_bind
        (Action.yields_note (yields_modifyTable ?_)))))
      refine hsuspended.switching hincoming hsaved ?_ ?_ rfl ?_ _
      · rfl
      · rfl
      · rw [Machine.loads_push, if_neg hne]
    · next hload =>
      have heq := haddress.mp (Decidable.not_not.mp hload)
      refine Action.yields_bind (Action.yields_note (yields_modifyTable ?_))
      refine hsuspended.switching hincoming hsaved rfl rfl heq ?_ _
      rw [if_pos heq, List.append_nil]

/-! ## Removals -/

/-- The process is not current, but its space is loaded. -/
def Lingers (system : System) (pid : Nat) : Prop :=
  pid ≠ system.table.current ∧ ∃ process ∈ system.table.processes, process.pid = pid ∧
    ∃ space, process.space.user? = some space ∧ space.directory = system.machine.active

/-- A process that was not current is gone, and with it the space of a user process. The spaces of
`outer` are alive besides those of the processes. -/
structure Vacated (paging : Paging) (outer : List AddressSpace) (others : List Nat) (pid : Nat)
    (start : System) (journal : Journal) (system : System) (journal' : Journal) : Prop where
  /-- The current process is there still. -/
  ne_current : pid ≠ start.table.current
  /-- The process is no longer in the table, and its relatives have forgotten it. -/
  eq : ∃ change, Estranges change ∧ system = { start with
    machine := system.machine, table := (start.table.remove pid).updateAll change }
  /-- Frames and tables agree. -/
  consistent : Consistent paging system.machine
    (outer ++ (start.table.remove pid).spaces paging) others
  /-- What is loaded was not destroyed. -/
  active_mem : ⟨start.machine.active⟩ ∈ outer ++ start.table.spaces paging →
    ⟨start.machine.active⟩ ∈ outer ++ (start.table.remove pid).spaces paging
  /-- No directory was loaded. -/
  quiet : Quiet start.machine journal system.machine journal'
  /-- The tables of the kernel region are where they were. -/
  anchored : paging.Anchored start.machine.memory system.machine.memory

/-- The space of a user process is not the kernel's. -/
theorem directory_ne_kernel {spaces : List AddressSpace} {space : AddressSpace}
    (h : Consistent paging machine (spaces ++ system.table.spaces paging) others)
    (hprocess : process ∈ system.table.processes) (hspace : process.space.user? = some space) :
    space.directory ≠ paging.kernel.directory := by
  intro heq
  refine (List.nodup_cons.mp (List.nodup_append.mp (nodup_spaces h.nodup)).2.1).1 ?_
  rw [← directory_inj.mp heq]
  exact List.mem_filterMap.mpr ⟨process, hprocess, hspace⟩

/-- A process that need not stay is removed, and its space is destroyed, unless it is loaded. -/
theorem yields_remove {outer : List AddressSpace}
    (h : Consistent paging system.machine (outer ++ system.table.spaces paging) others)
    (hnodup : system.table.pids.Nodup) (pid : Nat) :
    (remove paging pid).Yields system journal
      (fun _ => Vacated paging outer others pid system journal)
      fun _ system' journal' => system' = system ∧ journal' = journal ∧
        (system.table.Stays pid ∨ system.Lingers pid) := by
  refine Action.yields_bind (yields_findProcess
    (fun hnone => ⟨rfl, rfl, .inl fun other hother => ?_⟩) fun process hfind =>
      yields_getTable (Action.yields_bind (Action.yields_refuseIf
        (fun hstays => ⟨rfl, rfl, .inl fun other hother => ?_⟩) fun hfree => ?_)))
  · cases hnone.symm.trans hother
  · cases hfind.symm.trans hother
    exact hstays
  have hprocess := ProcessTable.mem_of_find? hfind
  obtain rfl := ProcessTable.pid_of_find? hfind
  have hcurrent : process.pid ≠ system.table.current := fun heq => hfree (.inl heq)
  have hspaces : (outer ++ system.table.spaces paging).Perm (outer ++
      (process.space.user?.toList ++ (system.table.remove process.pid).spaces paging)) :=
    (ProcessTable.spaces_remove hnodup hprocess).append_left outer
  obtain ⟨change, hchange, hunlink⟩ := unlink_eq process (system.table.remove process.pid)
  have hnote : Quiet system.machine journal system.machine
      (journal.push (.processDestroyed process.pid process.name)) :=
    (Quiet.refl _ _).push rfl rfl
  cases hspace : process.space with
  | kernel =>
    rw [hspace] at hspaces
    refine Action.yields_bind (yields_modifyTable (Action.yields_bind (Action.yields_note
      (Action.yields_pure ⟨hcurrent, ⟨change, hchange, ?_⟩, h.permSpaces hspaces,
        hspaces.mem_iff.mp, hnote, .refl paging _⟩))))
    rw [hunlink]
  | user space =>
    rw [hspace] at hspaces
    -- Once the space is no longer among the live ones, everything is in order again.
    have hsplit : (outer ++ system.table.spaces paging).Perm
        (space :: (outer ++ (system.table.remove process.pid).spaces paging)) :=
      hspaces.trans List.perm_middle
    have hmem := hsplit.mem_iff.mpr List.mem_cons_self
    have hkernel := directory_ne_kernel h hprocess (congrArg ProcessSpace.user? hspace)
    refine Action.yields_get (Action.yields_bind (Action.yields_refuseIf
      (fun hloaded => ⟨rfl, rfl, .inr ⟨hcurrent, process, hprocess, rfl, space,
        congrArg ProcessSpace.user? hspace, hloaded⟩⟩) fun hactive => ?_))
    refine Action.yields_bind (yields_modifyTable (Action.yields_bind (Action.yields_note
      (yields_onMemory ?_))))
    have hdestroy := (settles_destroySpace h hmem).and (anchored_destroySpace h hmem)
    refine ((hdestroy.ensures.yields _).and (lasting_quiet.destroySpace _ _ hnote)).mono ?_ ?_
    · rintro _ machine journal' ⟨⟨⟨hconsistent, -⟩, hanchored⟩, hquiet⟩
      have herased := hsplit.erase space
      rw [List.erase_cons_head] at herased
      refine ⟨hcurrent, ⟨change, hchange, ?_⟩, hconsistent.permSpaces herased, fun hloaded => ?_,
        hquiet, hanchored⟩
      · rw [hunlink]
      · refine (List.mem_cons.mp (hsplit.mem_iff.mp hloaded)).resolve_left fun heq => hactive ?_
        rw [← heq]
    · rintro _ machine journal' ⟨⟨⟨-, heq⟩, -⟩, -⟩
      exact absurd heq (not_or.mpr ⟨hkernel, hactive⟩)

/-- A process that need not stay is removed: its space is not loaded, for it is not current. -/
theorem Tracked.yields_remove (h : Tracked paging others start journal₀ system journal)
    (pid : Nat) :
    (remove paging pid).Yields system journal (fun _ => Tracked paging others start journal₀)
      fun _ system' journal' => system' = system ∧ journal' = journal ∧
        system.table.Stays pid := by
  have hconsistent : Consistent paging system.machine ([] ++ system.table.spaces paging) others :=
    h.consistent
  refine (System.yields_remove hconsistent h.nodup pid).mono ?_ ?_
  · rintro _ ⟨machine, table, cpu⟩ journal' hvacated
    obtain ⟨change, hchange, heq⟩ := hvacated.eq
    cases heq
    have hretains : (system.table.remove pid).Retains change := by
      constructor <;> intro other <;> obtain ⟨parent, children, heq⟩ := hchange other <;> rw [heq]
      · exact fun _ => rfl
      · exact fun _ hstate => hstate
    refine Tracked.updateAll (h.quiet (h.toLoaded.removing hvacated.ne_current
      hvacated.consistent hvacated.quiet.active_eq) (fun other hother => ?_) rfl hvacated.quiet
        hvacated.anchored) hretains
    exact ⟨other, List.mem_of_mem_filter hother, rfl, rfl⟩
  · rintro _ _ _ ⟨hsystem, hjournal, hstays | ⟨hcurrent, process, hprocess, rfl, hloaded⟩⟩
    · exact ⟨hsystem, hjournal, hstays⟩
    · obtain ⟨space, hspace, heq⟩ := hloaded
      exact absurd heq (h.can_destroy hprocess hspace hcurrent).2

/-- A terminated process that is not current need not stay. -/
theorem Loaded.not_stays (h : Loaded paging others system) {pid : Nat}
    (hcurrent : pid ≠ system.table.current) (hended : system.table.Ended pid) :
    ¬system.table.Stays pid := by
  obtain ⟨process, hprocess, rfl, hstate⟩ := hended
  intro hstays
  rcases hstays process (ProcessTable.find?_of_nodup h.nodup hprocess) with heq | heq | heq
  · exact hcurrent heq
  · exact h.idle_lives process hprocess heq hstate
  · cases heq.symm.trans hstate

/-- The terminated processes are removed one after another, and no removal fails. Afterwards none is
left but perhaps the current one and the one that is spared. -/
theorem Tracked.yields_removeEnded (h : Tracked paging others start journal₀ system journal)
    (outgoing : Nat) :
    (removeEnded paging outgoing : Action ε System Unit).Yields system journal
      (fun _ system' journal' => Tracked paging others start journal₀ system' journal' ∧
        ∀ pid, system'.table.Ended pid → pid = system'.table.current ∨ pid = outgoing)
      fun _ => Tracked paging others start journal₀ := by
  -- Those that are still to come have ended, and besides them only those that are spared have.
  let inv (rest : List Nat) (system : System) (journal : Journal) : Prop :=
    Tracked paging others start journal₀ system journal ∧ rest.Nodup ∧
      (∀ pid ∈ rest, pid ≠ system.table.current ∧ system.table.Ended pid) ∧
      ∀ pid, system.table.Ended pid → pid ∈ rest ∨ pid = system.table.current ∨ pid = outgoing
  refine yields_getTable ((Action.yields_forM inv ?_ ⟨h, ?_, ?_, ?_⟩).mono_done
    fun _ _ _ hend => ⟨hend.1, fun pid hended => ?_⟩)
  · rintro pid rest system journal ⟨h, hnodup, hended, hcovered⟩
    obtain ⟨hnot, hnodup⟩ := List.nodup_cons.mp hnodup
    obtain ⟨hcurrent, hend⟩ := hended pid List.mem_cons_self
    refine Action.yields_bind (Action.yields_attempt (((h.yields_remove pid).and
      ((ensures_remove pid).yields journal)).mono ?_ ?_))
    · rintro _ system' journal' ⟨h', hremoval⟩
      have hsame : system'.table.current = system.table.current :=
        (congrArg ProcessTable.current hremoval.table_eq :)
      refine Action.yields_pure ⟨h', hnodup, fun other hother => ?_, fun other hother => ?_⟩
      · obtain ⟨hcurrent', process, hprocess, hpid, hstate⟩ :=
          hended other (List.mem_cons_of_mem _ hother)
        refine ⟨hsame ▸ hcurrent',
          hremoval.exists (fun _ _ _ hkin => hkin) ⟨process, hprocess, ?_, hpid, hstate⟩⟩
        exact fun heq => hnot (heq ▸ hpid ▸ hother)
      · obtain ⟨hne, hother⟩ := hremoval.ended hother
        rw [hsame]
        exact (hcovered other hother).imp_left fun hmem => (List.mem_cons.mp hmem).resolve_left hne
    · rintro error system' journal' ⟨⟨-, -, hstays⟩, -⟩
      exact absurd hstays (h.not_stays hcurrent hend)
  · exact h.nodup.sublist (List.filter_sublist.map _)
  · refine List.forall_mem_map.mpr fun process hmem => ?_
    obtain ⟨hmem, hended⟩ := List.mem_filter.mp hmem
    obtain ⟨hstate, hcurrent, -⟩ := of_decide_eq_true hended
    exact ⟨hcurrent, process, hmem, rfl, hstate⟩
  · rintro pid ⟨process, hmem, rfl, hstate⟩
    by_cases hspared : process.pid = system.table.current ∨ process.pid = outgoing
    · exact .inr hspared
    · have hends := decide_eq_true (And.intro hstate (not_or.mp hspared))
      exact .inl (List.mem_map_of_mem (List.mem_filter.mpr ⟨hmem, hends⟩))
  · exact (hend.2.2.2 pid hended).resolve_left List.not_mem_nil

end System

end KernelResources
