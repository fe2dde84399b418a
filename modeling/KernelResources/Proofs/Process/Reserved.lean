import KernelResources.Kernel.Core
import KernelResources.Proofs.Paging.Freshness
import KernelResources.Proofs.Process.Tenants

/-!
# The frames that the kernel lies in

The kernel image and the heap lie in frames that are taken when the frame pool is built. They belong
to nobody, so nobody can give them back.

* `Layout.Reserves` says which frames these are.
* `Tenancy.Reachable` are runs that begin with building the core, in which callers and processes
  take turns.
* `withholds_of_reachable`: after any run, these frames are taken, nobody holds one, none is a
  directory or a table, and no answer to a request names one.
* `table_reserved_of_stale`: so it would not be if callers went on to use a space that they have
  destroyed, gave a frame back twice, or destroyed the space of a process.
-/

namespace KernelResources

open Paging Machine

/-- The kernel image or the heap has an address in the frame. -/
def Layout.Reserves (layout : Layout) (frame : Nat) : Prop :=
  ∃ address, layout.kernelStart ≤ address ∧ address < layout.heapLimit ∧
    Frame.containing address = frame

/-- The frames that the kernel lies in are taken. -/
def FramePool.Spares (layout : Layout) (pool : FramePool) : Prop :=
  ∀ frame, layout.Reserves frame → pool.isTaken frame

namespace Tenancy

/-- A tenancy is reachable if a run leads to it that begins with building the core. An operation on
processes finds the machine and the processes as they were left; the registers may say anything, and
anything may wait to be handed over. -/
inductive Reachable (regions : List Region) (layout : Layout) (paging : Paging) :
    Tenancy → Prop where
  | build {memory : WordMemory} {stack : Option KernelStack} {table : ProcessTable}
      {machine : Machine} {cpu : Registers} {journal journal' : Journal} :
      Core.build regions layout stack (.bare memory) journal =
          .done { paging, table } machine journal' →
        Reachable regions layout paging ⟨{ machine, table, cpu }, [], []⟩
  | operate {tenancy : Tenancy} {operation : Operation} {whole whole' : WithEvents System}
      {journal : Journal} :
      Reachable regions layout paging tenancy →
        whole.state.machine = tenancy.system.machine →
          whole.state.table = tenancy.system.table →
            (operation.run paging whole journal).state? = some whole' →
              Reachable regions layout paging { tenancy with system := whole'.state }
  | request {tenancy tenancy' : Tenancy} {request : Request} {journal : Journal} :
      Reachable regions layout paging tenancy → tenancy.Permits paging request →
        tenancy.step paging request journal = some tenancy' →
          Reachable regions layout paging tenancy'

/-- The frames that the kernel lies in are not given away. -/
structure Withholds (paging : Paging) (layout : Layout) (tenancy : Tenancy) : Prop where
  /-- They stay taken. -/
  taken : tenancy.system.machine.frames.Spares layout
  /-- No caller holds one of them. -/
  held : ∀ frame ∈ tenancy.held, ¬layout.Reserves frame
  /-- No live space owns one of them. -/
  owned : ∀ frame ∈ paging.ownedFrames tenancy.system.machine.memory (tenancy.live paging),
    ¬layout.Reserves frame
  /-- No live space has its directory in one of them. -/
  directory : ∀ space ∈ tenancy.live paging, ¬layout.Reserves space.directory
  /-- The loaded directory is in none of them. -/
  active : ¬layout.Reserves tenancy.system.machine.active
  /-- No slot of the directory of a live space leads to one of them. -/
  table : ∀ space ∈ tenancy.live paging, ∀ slot < entryCount, ∀ table,
    (tenancy.system.machine.memory.entry space.directory slot).frame? = some table →
      ¬layout.Reserves table
  /-- None of them is handed out as a single frame. -/
  allocate : (onFrames FramePool.allocate).Ensures tenancy.system.machine
    (fun frame _ => ¬layout.Reserves frame) fun _ _ => True
  /-- None of them is handed out in a run of frames. -/
  allocateRun : ∀ count, (onFrames (FramePool.allocateRun count)).Ensures tenancy.system.machine
    (fun first _ => ∀ frame ∈ List.range' first count, ¬layout.Reserves frame) fun _ _ => True
  /-- None of them becomes the directory of a new space. -/
  createSpace : paging.createSpace.Ensures tenancy.system.machine
    (fun space _ => ¬layout.Reserves space.directory) fun _ _ => True
  /-- No page is backed by one of them. -/
  mapFresh : ∀ space address flags,
    (paging.mapFresh space address flags).Ensures tenancy.system.machine
      (fun frame _ => ¬layout.Reserves frame) fun _ _ => True
  /-- None of them is named as the table of an address. -/
  tableFor : ∀ space ∈ tenancy.live paging, ∀ address create,
    (Paging.tableFor space address create).Ensures tenancy.system.machine
      (fun table _ => ¬layout.Reserves table) fun _ _ => True

end Tenancy

variable {regions : List Region} {layout : Layout} {paging : Paging} {pool : FramePool}
  {machine : Machine} {spaces : List AddressSpace} {others held : List Nat} {frame : Nat}
  {journal journal' : Journal}

/-! ## Frames that were free -/

/-- Only free frames are handed out. -/
theorem ensures_allocate (hpool : machine.frames.Consistent) :
    (onFrames FramePool.allocate).Ensures machine
      (fun frame _ => machine.frames.isTaken frame = false) fun _ _ => True := by
  intro journal
  cases hfree : machine.frames.lowestFree 0 with
  | none =>
    rw [onFrames, Action.within_of_refused (FramePool.allocate_of_none journal hfree)]
    trivial
  | some frame =>
    rw [onFrames, Action.within_of_done (FramePool.allocate_of_some hpool journal hfree)]
    exact (FramePool.lowestFree_eq_some_iff.mp hfree).2.2.1

theorem ensures_allocateRun (hpool : machine.frames.Consistent) (count : Nat) :
    (onFrames (FramePool.allocateRun count)).Ensures machine
      (fun first _ => ∀ frame ∈ List.range' first count, machine.frames.isTaken frame = false)
      fun _ _ => True := by
  intro journal
  rcases FramePool.allocateRun_cases hpool journal count with
    ⟨first, -, hfree, hdone⟩ | ⟨error, hrefused⟩ | hhalted
  · rw [onFrames, Action.within_of_done hdone]
    intro frame hframe
    obtain ⟨hle, hlt⟩ := List.mem_range'_1.mp hframe
    exact hfree frame hle hlt
  · rw [onFrames, Action.within_of_refused hrefused]
    trivial
  · rw [onFrames, Action.apply_within, hhalted]
    trivial

theorem ensures_takeZeroed (hpool : machine.frames.Consistent) :
    takeZeroed.Ensures machine (fun frame _ => machine.frames.isTaken frame = false)
      fun _ _ => True :=
  (settles_takeZeroed hpool (fun _ hfree => (FramePool.lowestFree_eq_some_iff.mp hfree).2.2.1)
    trivial).ensures

theorem ensures_createSpace (hpool : machine.frames.Consistent) :
    paging.createSpace.Ensures machine
      (fun space _ => machine.frames.isTaken space.directory = false) fun _ _ => True :=
  (ensures_takeZeroed hpool).bind fun _ _ hfree =>
    Action.ensures_bind (Action.ensures_of_forall (fun _ _ => Action.ensures_pure hfree)
      fun _ _ => trivial)

theorem ensures_mapFresh (hpool : machine.frames.Consistent) (space : AddressSpace) (address : Nat)
    (flags : Flags) :
    (paging.mapFresh space address flags).Ensures machine
      (fun frame _ => machine.frames.isTaken frame = false) fun _ _ => True := by
  refine (ensures_takeZeroed hpool).bind fun frame middle hfree => ?_
  refine Action.ensures_bind (Action.ensures_of_forall (fun result middle' => ?_)
    fun _ _ => trivial)
  cases result with
  | ok value => exact Action.ensures_pure hfree
  | error error =>
    exact Action.ensures_bind (Action.ensures_of_forall (fun _ _ => Action.ensures_throw trivial)
      fun _ _ => trivial)

/-- The table of an address was there before, or its frame was free. -/
theorem ensures_tableFor (hpool : machine.frames.Consistent) (space : AddressSpace)
    (address : Nat) (create : Bool) :
    (tableFor space address create).Ensures machine
      (fun table _ =>
        (machine.memory.entry space.directory (slotInDirectory address)).frame? = some table ∨
          machine.frames.isTaken table = false) fun _ _ => True := by
  refine Action.ensures_bind (settles_entry (slotInDirectory_lt address) ?_).ensures
  cases hframe : (machine.memory.entry space.directory (slotInDirectory address)).frame? with
  | some table => exact Action.ensures_pure (.inl rfl)
  | none =>
    refine Action.ensures_bind (Action.ensures_refuseIf (fun _ => trivial) fun _ => ?_)
    refine (ensures_takeZeroed hpool).bind fun table middle hfree => ?_
    exact Action.ensures_bind (Action.ensures_of_forall
      (fun _ _ => Action.ensures_pure (.inr hfree)) fun _ _ => trivial)

/-! ## Frames that were taken at first -/

theorem not_reserves_of_free (hspares : machine.frames.Spares layout)
    (hfree : machine.frames.isTaken frame = false) : ¬layout.Reserves frame := by
  intro hreserves
  cases (hspares frame hreserves).symm.trans hfree

namespace System.Balanced

variable {outer : List AddressSpace} {system : System}
  (h : Balanced paging pool outer held system) (hspares : pool.Spares layout)
include h hspares

/-- A frame that was taken at first stays taken. -/
theorem spares : system.machine.frames.Spares layout := by
  intro frame hreserves
  -- Frames past the end of memory count as taken.
  by_cases htotal : frame < pool.total
  · have hfirst := FramePool.mem_takenFrames.mpr ⟨htotal, hspares frame hreserves⟩
    exact (FramePool.mem_takenFrames.mp
      (h.consistent.mem_taken_of_other (List.mem_append_left _ hfirst))).2
  · exact FramePool.isTaken_of_total_le (h.total_eq ▸ Nat.le_of_not_lt htotal)

/-- No frame is both one of those that were taken at first and somebody's. -/
theorem not_reserves (hframe : frame ∈ held ++
    paging.ownedFrames system.machine.memory (outer ++ system.table.spaces paging)) :
    ¬layout.Reserves frame := by
  intro hreserves
  have htaken := h.consistent.taken
  have hnodup := h.consistent.nodup_all
  rw [List.append_assoc] at htaken hnodup
  have hlt : frame < pool.total := by
    rw [← h.total_eq]
    exact (FramePool.mem_takenFrames.mp
      (htaken.mem_iff.mpr (List.mem_append_right _ hframe))).1
  -- It was taken at first, and nothing of that kind is listed a second time.
  have hfirst := FramePool.mem_takenFrames.mpr ⟨hlt, hspares frame hreserves⟩
  exact (List.nodup_append.mp hnodup).2.2 frame hfirst frame hframe rfl

theorem withholds : Tenancy.Withholds paging layout ⟨system, outer, held⟩ := by
  have hpool := h.consistent.pool
  have hfree {frame : Nat} (hframe : system.machine.frames.isTaken frame = false) :
      ¬layout.Reserves frame := not_reserves_of_free (h.spares hspares) hframe
  have howned {frame : Nat} (hframe : frame ∈ paging.ownedFrames system.machine.memory
      (outer ++ system.table.spaces paging)) : ¬layout.Reserves frame :=
    h.not_reserves hspares (List.mem_append_right _ hframe)
  have hdirectory {space : AddressSpace} (hspace : space ∈ outer ++ system.table.spaces paging) :
      ¬layout.Reserves space.directory :=
    howned (mem_ownedFrames_of_space hspace mem_spaceFrames_directory)
  refine ⟨h.spares hspares, fun frame hframe => ?_, fun frame => howned, fun space => hdirectory,
    hdirectory h.active_mem, fun space hspace slot hslot table htable => ?_, ?_, fun count => ?_,
    ?_, fun space address flags => ?_, fun space hspace address create => ?_⟩
  · exact h.not_reserves hspares (List.mem_append_left _ hframe)
  · exact howned (h.consistent.toShared.lends.isTable hspace hslot htable).mem_ownedFrames
  -- Whatever is handed out was free until then.
  · exact (ensures_allocate hpool).mono_done fun _ _ => hfree
  · exact (ensures_allocateRun hpool count).mono_done
      fun _ _ hrun frame hframe => hfree (hrun frame hframe)
  · exact (ensures_createSpace hpool).mono_done fun _ _ => hfree
  · exact (ensures_mapFresh hpool space address flags).mono_done fun _ _ => hfree
  · refine (ensures_tableFor hpool space address create).mono_done fun table _ htable => ?_
    rcases htable with htable | htable
    · exact howned (h.consistent.toShared.lends.isTable hspace (slotInDirectory_lt address)
        htable).mem_ownedFrames
    · exact hfree htable

end System.Balanced

/-! ## Building the core -/

/-- The pool that is installed has the frames taken that the kernel lies in. -/
theorem Core.installFrames_eq (regions : List Region) (hlimit : layout.heapLimit < bitRange 32)
    (machine : Machine) (journal : Journal) :
    ∃ frames : FramePool, (frames.Consistent ∧ frames.total ≤ bitRange 20 ∧
        frames.Spares layout) ∧
      ∃ journal', installFrames regions layout machine journal =
        .done () { machine with frames } journal' := by
  obtain ⟨frames, ⟨hpool, htotal, htaken⟩, journal', hdone⟩ := MemoryMap.framePool_eq regions
    (layout.kernelStart, layout.heapLimit) machine journal
  refine ⟨frames, ⟨hpool, ?_, ?_⟩, journal'.push (.framesFree frames.freeCount frames.total), ?_⟩
  · rw [htotal]
    exact Nat.div_le_div_right (MemoryMap.top_usable_le regions)
  · rintro _ ⟨address, hfirst, hlast, rfl⟩
    exact htaken address hfirst hlast
  · rw [installFrames, Layout.reservedRange, Layout.heapEnd_eq_pure hlimit]
    simp only [pure_bind]
    rw [Action.bind_of_done hdone]
    rfl

/-- If the core was built, then the kernel space was built in the pool that had been installed, and
the first process was made. -/
theorem Core.create_of_build {memory : WordMemory} {stack : Option KernelStack}
    {table : ProcessTable}
    (h : Core.build regions layout stack (.bare memory) journal =
      .done { paging, table } machine journal') :
    ∃ start : Machine, (start.frames.Consistent ∧ start.frames.total ≤ bitRange 20 ∧
        start.frames.Spares layout) ∧
      (∃ middle middle', Paging.create layout start middle = .done paging machine middle') ∧
      ∃ middle middle', ProcessTable.bootstrap paging stack () middle = .done table () middle' := by
  obtain ⟨⟨⟩, installed, middle, hinstall, hrest⟩ := Action.bind_eq_done.mp h
  obtain ⟨paging', built, middle', hcreate, hrest⟩ := Action.bind_eq_done.mp hrest
  obtain ⟨table', booted, middle'', hboot, hrest⟩ := Action.bind_eq_done.mp hrest
  cases hrest
  rw [Action.apply_mapError] at hcreate
  cases hkernel : Paging.create layout installed middle with
  | done paging' built' journal' =>
    rw [hkernel] at hcreate
    cases hcreate
    -- The kernel space was created, so the layout is in order and the pool could be built.
    obtain ⟨frames, hframes, _, hinstalled⟩ := Core.installFrames_eq regions
      (heapLimit_lt_of_create hkernel) (.bare memory) journal
    rw [Action.unrefused_of_done hinstalled] at hinstall
    cases hinstall
    cases stack with
    | none => cases hboot
    | some stack =>
      cases hboot
      exact ⟨_, hframes, ⟨_, _, hkernel⟩, #[], _, rfl⟩
  | refused error built' journal' =>
    rw [hkernel] at hcreate
    cases hcreate
  | halted cause journal' =>
    rw [hkernel] at hcreate
    cases hcreate

/-! ## Runs -/

/-- A run that begins with building the core is one that begins with building the kernel space, in a
pool that has the frames taken that the kernel lies in. -/
theorem Tenancy.Reachable.ran {tenancy : Tenancy}
    (h : Tenancy.Reachable regions layout paging tenancy) :
    ∃ start : Machine, (start.frames.Consistent ∧ start.frames.total ≤ bitRange 20 ∧
      start.frames.Spares layout) ∧ Tenancy.Ran layout start paging tenancy := by
  induction h with
  | build hbuild =>
    obtain ⟨start, hstart, ⟨_, _, hcreate⟩, _, _, hboot⟩ := Core.create_of_build hbuild
    exact ⟨start, hstart, .boot hcreate hboot⟩
  | operate _ hmachine htable hrun ih =>
    obtain ⟨start, hstart, hran⟩ := ih
    exact ⟨start, hstart, hran.operate hmachine htable hrun⟩
  | request _ hpermits hstep ih =>
    obtain ⟨start, hstart, hran⟩ := ih
    exact ⟨start, hstart, hran.request hpermits hstep⟩

/-- After any run that begins with building the core, whatever the memory map and the layout, every
frame that the kernel image or the heap has an address in is taken; no caller holds one; no live
space owns one, has its directory in one or leads to one as a table; and nobody gets one who asks
for a frame, a run of frames, a new space, a page with a frame of its own or the table of an
address. The run may consist of any operations on processes, with any registers on the processor and
any events waiting, and of requests of callers that use live spaces, destroy none but their own and
give back frames that they hold. -/
theorem withholds_of_reachable {tenancy : Tenancy}
    (h : Tenancy.Reachable regions layout paging tenancy) : tenancy.Withholds paging layout := by
  obtain ⟨start, ⟨hpool, htotal, hspares⟩, hran⟩ := h.ran
  exact (hran.balanced hpool htotal).withholds hspares

/-! ## Computed runs -/

/-- A memory map of twelve frames. -/
def lowMap : List Region := [⟨0, 0xC000, .usable⟩]

/-- A layout whose kernel image and heap lie in the frames 1, 2 and 3. -/
def lowLayout : Layout where
  kernelStart := 0x1000
  heapStart := 0x2000
  heapSize := 0x2000
  userStackTop := 0xC0000000

theorem reserves_lowLayout : lowLayout.Reserves 1 := ⟨0x1000, by decide, by decide, rfl⟩

/-- The tenancy after an operation on processes. -/
def Tenancy.after? (paging : Paging) (operation : Operation) (tenancy : Tenancy) :
    Option Tenancy :=
  (operation.run paging ⟨.ofCapacity 1, tenancy.system⟩ #[]).state?.map fun whole =>
    { tenancy with system := whole.state }

theorem Tenancy.Reachable.after {tenancy tenancy' : Tenancy} {operation : Operation}
    (h : Tenancy.Reachable regions layout paging tenancy)
    (hafter : tenancy.after? paging operation = some tenancy') :
    Tenancy.Reachable regions layout paging tenancy' := by
  obtain ⟨whole, hrun, rfl⟩ := Option.map_eq_some_iff.mp hafter
  exact .operate h rfl rfl hrun

/-- In twelve frames there is room for a user process, which is given the processor, and for a space
and a frame that a caller has, although three frames are the kernel's. -/
theorem withholds_of_lowMap :
    ∃ paging tenancy, Tenancy.Reachable lowMap lowLayout paging tenancy ∧
      tenancy.system.table.current = 2 ∧ tenancy.system.machine.active = 5 ∧
      tenancy.spaces = [⟨8⟩] ∧ tenancy.held = [9] ∧ lowLayout.Reserves 1 ∧
      tenancy.Withholds paging lowLayout := by
  have hrun : (Core.build lowMap lowLayout (some ⟨0⟩) (.bare .empty) #[]).passes
      (fun core machine _ =>
        (do
          let launched ← Tenancy.after? core.paging
            (.launch "init" userSpaceStart false (some ⟨0⟩))
              ⟨⟨machine, core.table, default⟩, [], []⟩
          let spacious ← launched.step core.paging .createSpace #[]
          let holding ← spacious.step core.paging .allocate #[]
          holding.after? core.paging .schedule : Option Tenancy).any fun tenancy =>
            decide (tenancy.system.table.current = 2 ∧ tenancy.system.machine.active = 5 ∧
              tenancy.spaces = [⟨8⟩] ∧ tenancy.held = [9])) = true := by decide +kernel
  obtain ⟨core, machine, journal, hbuild, hsteps⟩ := Outcome.passes_iff.mp hrun
  obtain ⟨tenancy, hsteps, hfacts⟩ := (Option.any_eq_true _ _).mp hsteps
  obtain ⟨hcurrent, hactive, hspaces, hheld⟩ := of_decide_eq_true hfacts
  obtain ⟨launched, hlaunch, hsteps⟩ := Option.bind_eq_some_iff.mp hsteps
  obtain ⟨spacious, hspace, hsteps⟩ := Option.bind_eq_some_iff.mp hsteps
  obtain ⟨holding, hframe, hschedule⟩ := Option.bind_eq_some_iff.mp hsteps
  have hlaunched := (Tenancy.Reachable.build hbuild).after hlaunch
  have hholding : Tenancy.Reachable lowMap lowLayout core.paging holding :=
    .request (.request hlaunched (by trivial) hspace) (by trivial) hframe
  have hreachable := hholding.after hschedule
  exact ⟨core.paging, tenancy, hreachable, hcurrent, hactive, hspaces, hheld, reserves_lowLayout,
    withholds_of_reachable hreachable⟩

/-! ## Callers that use what is no longer theirs -/

/-- A space is destroyed, and its directory becomes a table of another space. Used once more, the
table of that space is the directory, and the page that the table maps is the table. -/
def useDestroyed (paging : Paging) : Action MemoryError Machine Nat := do
  let space ← paging.createSpace
  let destroyed ← paging.createSpace
  paging.destroySpace destroyed
  paging.map space 0x40200000 0x1000 Flags.writable
  Paging.tableFor destroyed 0x80000000 false

/-- A frame is given back, becomes the directory of a space, and is given back once more. Then it
becomes a table of another space. -/
def freeTwice (paging : Paging) : Action MemoryError Machine Nat := do
  let space ← paging.createSpace
  let frame ← onFrames FramePool.allocate
  onFrames (FramePool.free frame)
  let robbed ← paging.createSpace
  onFrames (FramePool.free frame)
  paging.map space 0x40200000 0x1000 Flags.writable
  Paging.tableFor robbed 0x80000000 false

/-- The space of a process is destroyed, and its directory becomes a table of another space. The end
of the process destroys its space once more, and the directory becomes that of a third one. -/
def System.destroyOccupied (paging : Paging) : Action ProcessError System Nat := do
  let pid ← launch paging "init" userSpaceStart false (some ⟨0⟩)
  let space ← onMemory paging.createSpace
  let process ← findProcess pid
  onMemory (paging.destroySpace (process.home paging))
  onMemory (paging.map space 0x40200000 0x1000 Flags.writable)
  remove paging pid
  let robbed ← onMemory paging.createSpace
  onMemory (paging.map space 0x40200000 0x1000 Flags.writable)
  onMemory (Paging.tableFor robbed 0x80000000 false)

/-- If a space is used after it was destroyed, a frame that a caller was given is given back twice,
or a caller destroys the space of a process, then a frame of the kernel can turn up as a table. -/
theorem table_reserved_of_stale :
    lowLayout.kernelStart ≤ lowLayout.heapStart ∧ lowLayout.heapLimit < bitRange 32 ∧
      ∃ core machine journal,
        Core.build lowMap lowLayout (some ⟨0⟩) (.bare .empty) #[] = .done core machine journal ∧
        (∃ machine' journal', useDestroyed core.paging machine journal =
          .done 1 machine' journal') ∧
        (∃ machine' journal', freeTwice core.paging machine journal =
          .done 1 machine' journal') ∧
        (∃ system journal',
          System.destroyOccupied core.paging ⟨machine, core.table, default⟩ journal =
            .done 1 system journal') ∧
        lowLayout.Reserves 1 := by
  refine ⟨by decide, by decide, ?_⟩
  have hrun : (Core.build lowMap lowLayout (some ⟨0⟩) (.bare .empty) #[]).passes
      (fun core machine journal =>
        (useDestroyed core.paging machine journal).passes (fun frame _ _ => frame == 1) &&
        (freeTwice core.paging machine journal).passes (fun frame _ _ => frame == 1) &&
        (System.destroyOccupied core.paging ⟨machine, core.table, default⟩ journal).passes
          fun frame _ _ => frame == 1) = true := by decide +kernel
  obtain ⟨core, machine, journal, hbuild, hruns⟩ := Outcome.passes_iff.mp hrun
  simp only [Bool.and_eq_true, Outcome.passes_iff, beq_iff_eq] at hruns
  obtain ⟨⟨⟨_, machine₁, journal₁, hstale, rfl⟩, ⟨_, machine₂, journal₂, htwice, rfl⟩⟩,
    ⟨_, system, journal₃, hoccupied, rfl⟩⟩ := hruns
  exact ⟨core, machine, journal, hbuild, ⟨machine₁, journal₁, hstale⟩,
    ⟨machine₂, journal₂, htwice⟩, ⟨system, journal₃, hoccupied⟩, reserves_lowLayout⟩

end KernelResources
