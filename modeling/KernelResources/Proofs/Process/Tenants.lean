import KernelResources.Proofs.Process.Loading

/-!
# Callers beside the processes

Processes are not the only ones that hold memory. Callers of the kernel build spaces that no process
has, change pages in any live space, load one, and hold frames. Operations on processes go on
meanwhile, whatever directory is loaded and whatever the registers say.

* `System.Balanced` is the invariant that is left then: every taken frame was taken at first, is
  held by a caller, or belongs to exactly one live space, and a live space is loaded.
* `Operation.keeps_balanced`: every operation on processes keeps it.
* `Tenancy` is a system with what callers hold; `Tenancy.balanced_of_step` says that the requests of
  callers keep the invariant.
* `Tenancy.Ran` are runs in which callers and processes take turns, and `Tenancy.Ran.balanced` says
  that the books are right after any of them.
-/

namespace KernelResources

open Paging

/-- The books are right while callers hold frames, and spaces besides those of the processes. The
pool tells which frames were taken at first. -/
structure System.Balanced (paging : Paging) (pool : FramePool) (outer : List AddressSpace)
    (held : List Nat) (system : System) : Prop where
  /-- Frames and tables agree. -/
  consistent : Consistent paging system.machine (outer ++ system.table.spaces paging)
    (pool.takenFrames ++ held)
  /-- There are as many frames as at first. -/
  total_eq : system.machine.frames.total = pool.total
  /-- Pids name processes. -/
  nodup : system.table.pids.Nodup
  /-- The next pid is a fresh one. -/
  below : ∀ pid ∈ system.table.pids, pid < system.table.nextPid
  /-- A live space is loaded. -/
  active_mem : ⟨system.machine.active⟩ ∈ outer ++ system.table.spaces paging

namespace System

variable {ε : Type} {paging : Paging} {pool : FramePool} {outer : List AddressSpace}
  {held : List Nat} {system : System} {journal : Journal} {machine : Machine} {process : Process}
  {change : Process → Process} {pid : Nat}

namespace Balanced

variable (h : Balanced paging pool outer held system)
include h

/-! ## What keeps the invariant -/

/-- Registers, the clock and the turns have nothing to do with it, and any live space may be
loaded. -/
theorem loading {system' : System} (hframes : system'.machine.frames = system.machine.frames)
    (hmemory : system'.machine.memory = system.machine.memory)
    (hprocesses : system'.table.processes = system.table.processes)
    (hnext : system'.table.nextPid = system.table.nextPid)
    (hactive : ⟨system'.machine.active⟩ ∈ outer ++ system.table.spaces paging) :
    Balanced paging pool outer held system' := by
  obtain ⟨machine, table, cpu⟩ := system'
  obtain ⟨processes, current, idle, cursor, nextPid, clock⟩ := table
  cases hprocesses
  cases hnext
  exact ⟨h.consistent.congr hframes hmemory, hframes ▸ h.total_eq, h.nodup, h.below, hactive⟩

theorem congr {system' : System} (hmachine : system'.machine = system.machine)
    (hprocesses : system'.table.processes = system.table.processes)
    (hnext : system'.table.nextPid = system.table.nextPid) :
    Balanced paging pool outer held system' :=
  h.loading (hmachine ▸ rfl) (hmachine ▸ rfl) hprocesses hnext (hmachine ▸ h.active_mem)

/-- Processes may change as long as they stay where they are. -/
theorem updateAll (hpid : ∀ process, (change process).pid = process.pid)
    (hspace : ∀ process, (change process).space = process.space) :
    Balanced paging pool outer held
      { system with table := system.table.updateAll change } := by
  have hpids : (system.table.updateAll change).pids = system.table.pids :=
    ProcessTable.pids_updateAll hpid
  have hspaces : (system.table.updateAll change).spaces paging = system.table.spaces paging :=
    ProcessTable.spaces_updateAll fun process _ => hspace process
  constructor
  · rw [hspaces]
    exact h.consistent
  · exact h.total_eq
  · rw [hpids]
    exact h.nodup
  · rw [hpids]
    exact h.below
  · rw [hspaces]
    exact h.active_mem

theorem update (hpid : ∀ process, (change process).pid = process.pid)
    (hspace : ∀ process, (change process).space = process.space) :
    Balanced paging pool outer held
      { system with table := system.table.update pid change } := by
  refine h.updateAll (fun process => ?_) fun process => ?_
  · split
    · exact hpid process
    · rfl
  · split
    · exact hspace process
    · rfl

/-- A process is gone, and with it the space that it had. -/
theorem vacated {system' : System} {journal' : Journal}
    (hvacated : Vacated paging outer (pool.takenFrames ++ held) pid system journal system'
      journal') :
    Balanced paging pool outer held system' := by
  -- First the process and its space go, then its relatives forget it.
  obtain ⟨change, hchange, heq⟩ := hvacated.eq
  have hremoved : Balanced paging pool outer held
      { system with machine := system'.machine, table := system.table.remove pid } := by
    refine ⟨hvacated.consistent, hvacated.quiet.total_eq.trans h.total_eq, ?_, ?_, ?_⟩
    · rw [ProcessTable.pids_remove]
      exact h.nodup.filter _
    · rw [ProcessTable.pids_remove]
      exact fun other hother => h.below other (List.mem_of_mem_filter hother)
    · show ⟨system'.machine.active⟩ ∈ outer ++ (system.table.remove pid).spaces paging
      rw [hvacated.quiet.active_eq]
      exact hvacated.active_mem h.active_mem
  rw [heq]
  refine hremoved.updateAll (fun other => ?_) fun other => ?_
  · obtain ⟨parent, children, hother⟩ := hchange other
    rw [hother]
  · obtain ⟨parent, children, hother⟩ := hchange other
    rw [hother]

omit h in
/-- A process takes over a space that a caller had. -/
theorem adding {nextPid : Nat}
    (h : Balanced paging pool (process.space.user?.toList ++ outer) held system)
    (hpid : process.pid = system.table.nextPid) (hnext : process.pid < nextPid) :
    Balanced paging pool outer held
      { system with table := { system.table with nextPid }.add process } := by
  -- The new pid is above all others.
  have hold (pid : Nat) (hmem : pid ∈ system.table.pids) : pid < process.pid :=
    hpid ▸ h.below pid hmem
  have hpids : ({ system.table with nextPid }.add process).pids =
      system.table.pids ++ [process.pid] := List.map_append
  have hspaces : (process.space.user?.toList ++ outer ++ system.table.spaces paging).Perm
      (outer ++ ({ system.table with nextPid }.add process).spaces paging) := by
    rw [List.append_assoc]
    refine (List.perm_append_comm_assoc _ _ _).trans (List.Perm.append_left outer ?_)
    exact (ProcessTable.spaces_add process).symm
  constructor
  · exact h.consistent.permSpaces hspaces
  · exact h.total_eq
  · rw [hpids]
    refine List.nodup_append.mpr ⟨h.nodup, List.nodup_singleton _, fun pid hmem other hother => ?_⟩
    rw [List.mem_singleton.mp hother]
    exact Nat.ne_of_lt (hold pid hmem)
  · rw [hpids]
    intro pid hmem
    rcases List.mem_append.mp hmem with hmem | hmem
    · exact Nat.lt_trans (hold pid hmem) hnext
    · exact List.mem_singleton.mp hmem ▸ hnext
  · exact hspaces.mem_iff.mp h.active_mem

end Balanced

/-! ## Operations on processes -/

/-- The processor may go to any process, for its space is a live one. -/
theorem keeps_dispatch_balanced (next : Nat) :
    (dispatch paging next : Action ε System Unit).Keeps
      fun system _ => Balanced paging pool outer held system := by
  intro system journal h
  refine yields_getTable (Action.yields_bind (Action.yields_modify (yields_getTable ?_)))
  dsimp only
  have hsuspended : Balanced paging pool outer held
      { system with table := system.table.update system.table.current (suspend system.cpu) } :=
    h.update (fun _ => rfl) fun _ => rfl
  cases hfind : (system.table.update system.table.current (suspend system.cpu)).find? next with
  | none => exact Action.yields_pure hsuspended
  | some incoming =>
    have hresumed : Balanced paging pool outer held { system with table :=
        (system.table.update system.table.current (suspend system.cpu)).update next resume } :=
      hsuspended.update (fun _ => rfl) fun _ => rfl
    -- Suspending and resuming move no process to another space.
    have hhome : incoming.home paging ∈ outer ++ ((system.table.update system.table.current
        (suspend system.cpu)).update next resume).spaces paging := by
      have hspaces : ((system.table.update system.table.current (suspend system.cpu)).update next
          resume).spaces paging = _ := ProcessTable.spaces_update next fun _ => rfl
      rw [hspaces]
      exact List.mem_append_right _
        (ProcessTable.home_mem_spaces (ProcessTable.mem_of_find? hfind))
    refine Action.yields_bind (yields_modifyTable (Action.yields_bind
      (Action.yields_modify (Action.yields_get ?_))))
    split
    · rw [loadSpace_eq]
      refine Action.yields_bind (Action.yields_within (Action.yields_modify (Action.yields_bind
        (Action.yields_note (yields_modifyTable ?_)))))
      exact hresumed.loading rfl rfl rfl rfl hhome
    · refine Action.yields_bind (Action.yields_note (yields_modifyTable ?_))
      exact hresumed.congr rfl rfl rfl

theorem keeps_remove_balanced (pid : Nat) :
    (remove paging pid).Keeps fun system _ => Balanced paging pool outer held system := by
  intro system journal h
  refine (yields_remove h.consistent h.nodup pid).mono ?_ ?_
  · exact fun _ _ _ hvacated => h.vacated hvacated
  · rintro _ _ _ ⟨rfl, -, -⟩
    exact h

theorem keeps_removeEnded_balanced (outgoing : Nat) :
    (removeEnded paging outgoing : Action ε System Unit).Keeps
      fun system _ => Balanced paging pool outer held system := by
  refine keeps_getTable fun table => Action.Keeps.forM (fun pid => ?_) _
  refine (keeps_remove_balanced pid).attempt.bind fun result => ?_
  cases result with
  | ok value => exact Action.keeps_pure ()
  | error error => exact fun _ _ h => Action.yields_note h

theorem stable_balanced :
    Stable paging fun system _ => Balanced paging pool outer held system where
  note h _ _ := h
  update h hchange _ := h.update (fun process => (hchange process).pid_eq)
    fun process => (hchange process).space_eq
  wakeDue {system _} clock h :=
    (h.updateAll (retains_wakeIfDue system.table clock).pid_eq
      (retains_wakeIfDue system.table clock).space_eq).congr rfl rfl rfl
  answer _ h := h.congr rfl rfl rfl
  keeps_dispatch := keeps_dispatch_balanced
  keeps_removeEnded := keeps_removeEnded_balanced
  keeps_remove := keeps_remove_balanced

/-- A new space is a caller's at first, unless there was no memory for it. -/
theorem Balanced.yields_createUserSpace (h : Balanced paging pool outer held system) :
    (createUserSpace paging).Yields system journal
      (fun space system' _ => Balanced paging pool (space :: outer) held system')
      fun _ system' _ => Balanced paging pool outer held system' := by
  have hhoused : Housed paging (pool.takenFrames ++ held) (outer ++ system.table.spaces paging)
      system journal system journal := ⟨rfl, h.consistent, .refl _ _, .refl paging _⟩
  refine (hhoused.yields_createUserSpace h.active_mem).mono ?_ ?_
  · rintro space system' journal' ⟨heq, hconsistent, hquiet, -⟩
    rw [heq]
    refine ⟨hconsistent, hquiet.total_eq.trans h.total_eq, h.nodup, h.below, ?_⟩
    exact List.mem_cons_of_mem _ (hquiet.active_eq ▸ h.active_mem)
  · rintro error system' journal' ⟨heq, hconsistent, hquiet, -⟩
    rw [heq]
    refine ⟨hconsistent, hquiet.total_eq.trans h.total_eq, h.nodup, h.below, ?_⟩
    exact hquiet.active_eq ▸ h.active_mem

/-- The new process has the space from then on. -/
theorem Balanced.yields_enroll (space : ProcessSpace)
    (h : Balanced paging pool (space.user?.toList ++ outer) held system) (name : String)
    (eip : Nat) (kernelMode : Bool) (stack : KernelStack) (context : Registers) :
    (enroll name eip kernelMode stack space context).Yields system journal
      (fun _ system' _ => Balanced paging pool outer held system')
      fun _ system' _ => Balanced paging pool outer held system' := by
  refine yields_getTable (Action.yields_bind (Action.yields_ite_halt fun _ => ?_))
  refine Action.yields_bind (yields_modifyTable (Action.yields_bind (yields_modifyTable ?_)))
  refine Action.yields_bind (Action.yields_note (Action.yields_pure ?_))
  exact (Balanced.adding h rfl (Nat.lt_succ_self _)).update (fun _ => rfl) fun _ => rfl

theorem keeps_launch_balanced (name : String) (entry : Nat) (kernelMode : Bool)
    (stack : Option KernelStack) :
    (launch paging name entry kernelMode stack).Keeps
      fun system _ => Balanced paging pool outer held system := by
  intro system journal h
  rw [launch_eq]
  refine Action.yields_bind (Action.yields_refuseIf (fun _ => h) fun _ => ?_)
  refine Action.yields_bind (Action.yields_ofOption (fun _ => h) fun stack _ => ?_)
  split
  · exact Balanced.yields_enroll .kernel h name _ _ stack _
  · exact h.yields_createUserSpace.bind fun space _ _ hspace =>
      Balanced.yields_enroll (.user space) hspace name _ _ stack _

end System

/-- Every operation on processes keeps the books right, with any registers on the processor. -/
theorem Operation.keeps_balanced {paging : Paging} {pool : FramePool} {outer : List AddressSpace}
    {held : List Nat} (operation : Operation) :
    (operation.run paging).Keeps
      fun whole _ => whole.state.Balanced paging pool outer held := by
  cases operation with
  | launch name entry kernelMode stack =>
    exact (WithEvents.keeps_onState (System.keeps_launch_balanced name entry kernelMode stack)).bind
      fun _ => Action.keeps_pure ()
  | _ => exact System.stable_balanced.keeps_run id

/-! ## Requests of callers -/

namespace Paging

variable {paging : Paging} {ledger ledger' : Ledger} {request : Request}

/-- The space that is loaded cannot be destroyed. -/
theorem destroySpace_active (machine : Machine) (journal : Journal) :
    (Request.destroySpace ⟨machine.active⟩).run paging machine journal =
      .refused .invalidOperation machine journal := by
  refine Action.bind_of_refused ?_
  rw [destroySpace, Action.get_bind, Action.refuseIf_of_pos (.inr rfl)]
  rfl

/-- A live space is alive after a request that does not destroy it. -/
theorem mem_spacesAfter {spaces : List AddressSpace} {space : AddressSpace} {grant : Grant}
    (hspace : space ∈ spaces) (hkept : request ≠ .destroySpace space) :
    space ∈ Ledger.spacesAfter spaces request grant := by
  cases grant with
  | space new =>
    have hmem : space ∈ new :: spaces := List.mem_cons_of_mem _ hspace
    cases request <;> exact hmem
  | frames | nothing =>
    cases request with
    | destroySpace other =>
      refine (List.mem_erase_of_ne fun heq => hkept ?_).mpr hspace
      rw [heq]
    | _ => exact hspace

/-- After a request, a live space is loaded, and there are as many frames as before. -/
theorem loaded_of_step (hkernel : paging.kernel ∈ ledger.spaces)
    (hactive : ⟨ledger.machine.active⟩ ∈ ledger.spaces)
    (hpermits : ledger.Permits paging request)
    (hstep : ledger.step paging request = some ledger') :
    ⟨ledger'.machine.active⟩ ∈ ledger'.spaces ∧
      ledger'.machine.frames.total = ledger.machine.frames.total := by
  by_cases hloads : request.Loads
  · cases request with
    | activate space =>
      cases hstep
      exact ⟨hpermits, rfl⟩
    | activateKernel =>
      cases hstep
      exact ⟨hkernel, rfl⟩
    | _ => exact hloads.elim
  -- Nothing is loaded, so the space that was loaded has to be alive still.
  · have hrun : (request.run paging).Keeps (Quiet ledger.machine ledger.journal) :=
      lasting_quiet.run fun hload => absurd hload hloads
    have hquiet := hrun _ _ (.refl ledger.machine ledger.journal)
    unfold Ledger.step at hstep
    cases hout : request.run paging ledger.machine ledger.journal with
    | done grant machine journal =>
      have hsame := hquiet.of_state? (congrArg Outcome.state? hout)
      rw [hout] at hstep
      cases hstep
      refine ⟨?_, hsame.total_eq⟩
      rw [hsame.active_eq]
      refine mem_spacesAfter hactive ?_
      rintro rfl
      rw [destroySpace_active] at hout
      cases hout
    | refused error machine journal =>
      have hsame := hquiet.of_state? (congrArg Outcome.state? hout)
      rw [hout] at hstep
      cases hstep
      exact ⟨hsame.active_eq.symm ▸ hactive, hsame.total_eq⟩
    | halted cause journal =>
      rw [hout] at hstep
      cases hstep

end Paging

/-- A system together with what callers hold of it. -/
structure Tenancy where
  /-- The machine and the processes. -/
  system : System
  /-- The spaces of callers, which no process has. -/
  spaces : List AddressSpace
  /-- The frames that callers hold. -/
  held : List Nat

namespace Tenancy

/-- The live spaces: those of callers, the kernel's and those of the user processes. -/
def live (paging : Paging) (tenancy : Tenancy) : List AddressSpace :=
  tenancy.spaces ++ tenancy.system.table.spaces paging

/-- The machine with all live spaces, whoever has them. -/
def ledger (paging : Paging) (tenancy : Tenancy) (journal : Journal) : Ledger :=
  ⟨tenancy.system.machine, journal, tenancy.live paging, tenancy.held⟩

/-- Callers destroy their own spaces only. Apart from that, they may use any live space, give back
the frames that they hold, and write into any frame that is no table. -/
def Permits (paging : Paging) (tenancy : Tenancy) : Request → Prop
  | .destroySpace space => space ∈ tenancy.spaces
  | request => (tenancy.ledger paging #[]).Permits paging request

/-- The tenancy after a request, unless the request halts the kernel. -/
def step (paging : Paging) (request : Request) (tenancy : Tenancy) (journal : Journal) :
    Option Tenancy :=
  match request.run paging tenancy.system.machine journal with
  | .done grant machine _ => some
    { system := { tenancy.system with machine }
      spaces := Ledger.spacesAfter tenancy.spaces request grant
      held := Ledger.heldAfter tenancy.held request grant }
  | .refused _ machine _ => some { tenancy with system := { tenancy.system with machine } }
  | .halted _ _ => none

variable {paging : Paging} {pool : FramePool} {tenancy tenancy' : Tenancy} {request : Request}
  {journal : Journal}

theorem permits_ledger (h : tenancy.Permits paging request) :
    (tenancy.ledger paging journal).Permits paging request := by
  cases request with
  | destroySpace space => exact List.mem_append_left _ h
  | _ => exact h

/-- What callers do to their spaces concerns none that a process has. -/
theorem spacesAfter_append (h : tenancy.Permits paging request) (grant : Grant) :
    Ledger.spacesAfter (tenancy.live paging) request grant =
      Ledger.spacesAfter tenancy.spaces request grant ++ tenancy.system.table.spaces paging := by
  cases grant with
  | space space => cases request <;> rfl
  | frames | nothing =>
    cases request with
    | destroySpace space => exact List.erase_append_left _ h
    | _ => rfl

/-- A step of the tenancy is one of the ledger. -/
theorem ledger_step (hpermits : tenancy.Permits paging request)
    (hstep : tenancy.step paging request journal = some tenancy') :
    tenancy'.system = { tenancy.system with machine := tenancy'.system.machine } ∧
      ∃ journal', (tenancy.ledger paging journal).step paging request =
        some (tenancy'.ledger paging journal') := by
  unfold step at hstep
  cases hout : request.run paging tenancy.system.machine journal with
  | done grant machine journal' =>
    rw [hout] at hstep
    cases hstep
    refine ⟨rfl, journal', ?_⟩
    unfold Ledger.step
    rw [show (tenancy.ledger paging journal).machine = tenancy.system.machine from rfl,
      show (tenancy.ledger paging journal).journal = journal from rfl, hout]
    refine congrArg some ?_
    unfold ledger
    rw [spacesAfter_append hpermits]
    rfl
  | refused error machine journal' =>
    rw [hout] at hstep
    cases hstep
    refine ⟨rfl, journal', ?_⟩
    unfold Ledger.step
    rw [show (tenancy.ledger paging journal).machine = tenancy.system.machine from rfl,
      show (tenancy.ledger paging journal).journal = journal from rfl, hout]
    rfl
  | halted cause journal' =>
    rw [hout] at hstep
    cases hstep

/-- Whatever callers request, the books stay right. -/
theorem balanced_of_step (h : tenancy.system.Balanced paging pool tenancy.spaces tenancy.held)
    (hpermits : tenancy.Permits paging request)
    (hstep : tenancy.step paging request journal = some tenancy') :
    tenancy'.system.Balanced paging pool tenancy'.spaces tenancy'.held := by
  obtain ⟨heq, journal', hledger⟩ := ledger_step hpermits hstep
  have hconsistent := (consistent_of_step h.consistent (permits_ledger hpermits) hledger).1
  have hloaded := loaded_of_step h.consistent.kernel_mem h.active_mem (permits_ledger hpermits)
    hledger
  -- The processes are those of before.
  have htable : tenancy'.system.table = tenancy.system.table := by rw [heq]
  exact ⟨hconsistent, hloaded.2.trans h.total_eq, htable ▸ h.nodup, htable ▸ h.below, hloaded.1⟩

/-! ## Runs -/

/-- A run leads to the tenancy that begins with building the kernel space. An operation on processes
finds the machine and the processes as they were left; the registers may say anything, and anything
may wait to be handed over. -/
inductive Ran (layout : Layout) (start : Machine) (paging : Paging) : Tenancy → Prop where
  | boot {system : System} {stack : Option KernelStack}
      {journal journal' bootJournal bootJournal' : Journal} :
      Paging.create layout start journal = .done paging system.machine journal' →
        ProcessTable.bootstrap paging stack () bootJournal = .done system.table () bootJournal' →
          Ran layout start paging ⟨system, [], []⟩
  | operate {tenancy : Tenancy} {operation : Operation} {whole whole' : WithEvents System}
      {journal : Journal} : Ran layout start paging tenancy →
        whole.state.machine = tenancy.system.machine →
          whole.state.table = tenancy.system.table →
            (operation.run paging whole journal).state? = some whole' →
              Ran layout start paging { tenancy with system := whole'.state }
  | request {tenancy tenancy' : Tenancy} {request : Request} {journal : Journal} :
      Ran layout start paging tenancy → tenancy.Permits paging request →
        tenancy.step paging request journal = some tenancy' → Ran layout start paging tenancy'

/-- The books are right when the first process has been made. -/
theorem balanced_of_boot {layout : Layout} {start : Machine} {system : System}
    {stack : Option KernelStack} {journal' bootJournal bootJournal' : Journal}
    (hpool : start.frames.Consistent) (htotal : start.frames.total ≤ bitRange 20)
    (hcreate : Paging.create layout start journal = .done paging system.machine journal')
    (hboot : ProcessTable.bootstrap paging stack () bootJournal =
      .done system.table () bootJournal') :
    system.Balanced paging start.frames [] [] := by
  obtain ⟨machine, table, cpu⟩ := system
  -- The registers make no difference, so let them name what is loaded.
  have hloaded : System.Loaded paging start.frames.takenFrames
      ⟨machine, table, { cr3 := (⟨machine.active⟩ : AddressSpace).cr3 }⟩ :=
    System.loaded_of_boot hpool htotal hcreate hboot rfl
  constructor
  · rw [List.append_nil]
    exact hloaded.consistent
  · exact (keeps_total_create layout start.frames.total start journal rfl).of_state?
      (congrArg Outcome.state? hcreate)
  · exact hloaded.nodup
  · exact hloaded.below
  · exact hloaded.active_mem_spaces

namespace Ran

variable {layout : Layout} {start : Machine} (h : Ran layout start paging tenancy)
include h

theorem table : tenancy.system.table.Reachable := by
  induction h with
  | boot _ hboot => exact .bootstrap hboot
  | operate _ _ htable hrun ih => exact .step (htable ▸ ih) hrun
  | request _ hpermits hstep ih => exact (ledger_step hpermits hstep).1 ▸ ih

theorem balanced (hpool : start.frames.Consistent) (htotal : start.frames.total ≤ bitRange 20) :
    tenancy.system.Balanced paging start.frames tenancy.spaces tenancy.held := by
  induction h with
  | boot hcreate hboot => exact balanced_of_boot hpool htotal hcreate hboot
  | @operate tenancy operation whole whole' journal _ hmachine htable hrun ih =>
    have hentered : whole.state.Balanced paging start.frames tenancy.spaces tenancy.held :=
      ih.congr hmachine (htable ▸ rfl) (htable ▸ rfl)
    exact (operation.keeps_balanced whole journal hentered).of_state? hrun
  | request _ hpermits hstep ih => exact balanced_of_step ih hpermits hstep

end Ran

theorem ran_of_booted? {layout : Layout} {start : Machine} {booted : System}
    (h : System.booted? layout start = some (paging, booted)) :
    Ran layout start paging ⟨booted, [], []⟩ := by
  obtain ⟨machine, journal, table, journal', hcreate, hboot, rfl⟩ := System.exists_of_booted? h
  exact .boot hcreate hboot

end Tenancy

end KernelResources
