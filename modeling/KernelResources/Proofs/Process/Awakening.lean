import KernelResources.Proofs.Process.Family
import KernelResources.Proofs.Process.Survival

/-!
# Parents that wait for a child to end

A process that ends may have a parent that waits for this. Whether the parent is woken depends on
who ends the process. One that ends itself wakes its parent before the processor changes hands; one
that is ended by somebody else while it does not have the processor is only removed, and its parent
goes on waiting for a child that it no longer has.

* `ProcessTable.Awake`: a process is there and waits for nothing. Turns and events keep it awake.
* `Operation.Exits`: the ways in which the current process ends.
* `parents_of_ending`: what becomes of a parent that waits, in either case.
* `waits_of_kill`: a parent that waits in vain.
-/

namespace KernelResources

open Processor

theorem Process.persistent_awake (pid : Nat) :
    Persistent pid fun process => process.pid = pid ∧
      (process.state = .ready ∨ process.state = .running) where
  kin _ _ _ hawake := hawake
  refill _ hawake := hawake
  resume _ _ hawake := ⟨hawake.1, .inr rfl⟩
  suspend _ process hawake := by
    refine ⟨hawake.1, ?_⟩
    simp only [System.suspend]
    split
    · exact .inl rfl
    · exact hawake.2
  pid_eq _ hawake := hawake.1
  lives _ hawake := by rcases hawake.2 with hstate | hstate <;> simp [hstate]
  wake _ hawake := ⟨hawake.1, .inl rfl⟩
  charge _ _ _ hawake := hawake

namespace ProcessTable

variable {table : ProcessTable} {child parent : Process} {pid : Nat}

/-- The process of a pid is there, and it waits for nothing. -/
def Awake (table : ProcessTable) (pid : Nat) : Prop :=
  ∃ process ∈ table.processes, process.pid = pid ∧
    (process.state = .ready ∨ process.state = .running)

/-- A parent that waits is awake as soon as the current process is about to exit. -/
theorem awake_exiting (hsound : table.Sound) (hchild : table.currentProcess? = some child)
    (hlink : child.parent = some parent.pid) (hparent : parent ∈ table.processes)
    (hblocked : parent.state = .blocked) (code : Int32) :
    (table.leaving (.exit code)).Awake parent.pid := by
  have hleaving : table.leaving (.exit code) = (table.update table.current
      ({ · with state := .terminated, exitCode := some code })).update parent.pid
        System.wakeParent := by
    simp [leaving, hchild, hlink]
  -- The current process runs, so it is not the one that waits.
  have hended : Takes (fun process => process.pid = parent.pid ∧ process.state = .blocked)
      (fun process => process.pid = parent.pid ∧ process.state = .blocked) table
      (table.update table.current ({ · with state := .terminated, exitCode := some code })) := by
    refine takes_update (fun process hmem hcurrent hwaits => ?_) fun _ _ _ hwaits => hwaits
    have hrunning := hsound.current_running process hmem hcurrent
    rw [hwaits.2] at hrunning
    cases hrunning
  rw [hleaving]
  refine (hended.trans (takes_update (fun process _ _ hwaits => ?_) ?_)).exists
    ⟨parent, hparent, rfl, hblocked⟩
  · simp [System.wakeParent, hwaits]
  · exact fun process _ hother hwaits => absurd hwaits.1 hother

theorem find?_updateAll {change : Process → Process}
    (hpid : ∀ process, (change process).pid = process.pid) :
    (table.updateAll change).find? pid = (table.find? pid).map change := by
  unfold find? updateAll
  simp only [List.find?_map, Function.comp_def, hpid]

/-- The parent of a process that was marked as ended and removed has one child less, and nothing
else has become of it. -/
theorem find?_of_killed {process : Process} {change : Process → Process} (hsound : table.Sound)
    (hfamily : table.Family) (hkin : ∀ process, (change process).kin = process.kin)
    (hlink : child.parent = some parent.pid) (hchild : child ∈ table.processes)
    (hparent : parent ∈ table.processes)
    (hfind : (table.update child.pid change).find? child.pid = some process) :
    (System.unlink process ((table.update child.pid change).remove child.pid)).find? parent.pid =
      some (parent.forget child.pid) := by
  have hpid : process.pid = child.pid := pid_of_find? hfind
  -- The parent is the older one, so neither the mark nor the removal is about it.
  have hne : parent.pid ≠ child.pid := Nat.ne_of_lt (hfamily.parent_lt child hchild _ hlink)
  have hmarked : (table.update child.pid change).Family := hfamily.congr (kins_update hkin)
  have hunlink := hmarked.unlink_eq (mem_of_find? hfind)
  rw [hpid] at hunlink
  rw [hunlink, find?_updateAll (Process.pid_forget _), find?_remove, if_neg hne,
    find?_update fun process => congrArg Kin.pid (hkin process), if_neg hne,
    hsound.find?_pid hparent]
  rfl

end ProcessTable

/-! ## The two ways to end -/

/-- The current process ends by the operation. The idle process cannot do so in a system call. -/
def Operation.Exits (whole : WithEvents System) : Operation → Prop
  | exit _ => True
  | kill pid => pid = whole.state.table.current
  | serve request => request.number = Syscall.exit ∧
    whole.state.table.current ≠ whole.state.table.idle
  | systemCall => whole.state.cpu.eax = Syscall.exit ∧
    whole.state.table.current ≠ whole.state.table.idle
  | _ => False

namespace System

variable {paging : Paging} {system system' : System} {child parent : Process} {code : Int32}

/-- The pass with which a process exits finds its parent awake. -/
theorem Leaves.awake (h : Leaves (.exit code) system system') (hsound : system.table.Sound)
    (hchild : system.table.currentProcess? = some child)
    (hlink : child.parent = some parent.pid) (hparent : parent ∈ system.table.processes)
    (hblocked : parent.state = .blocked) :
    system'.table.Sound ∧ system'.table.Awake parent.pid := by
  have hleaving : (system.table.leaving (.exit code)).Schedulable := hsound.leaving (.inr h.1)
  have hawake := ProcessTable.awake_exiting hsound hchild hlink hparent hblocked code
  exact ⟨(h.does fun _ => nofun).sound hsound,
    h.2.exists (Process.persistent_awake parent.pid) hleaving hawake⟩

/-- To end the current process is to have it exit. -/
theorem ensures_kill_current :
    (kill paging system.table.current).Ensures system
      (fun _ system' => Leaves (.exit killedCode) system system') fun _ _ => True := by
  refine ensures_getTable (Action.ensures_bind (Action.ensures_refuseIf (fun _ => trivial)
    fun _ => ?_))
  rw [if_pos rfl]
  exact ((ensures_exit killedCode).mono (fun _ _ hleaves => hleaves) fun _ _ _ => trivial).bind
    fun _ _ hleaves => Action.ensures_pure hleaves

/-- A process that does not have the processor is marked as ended and removed. -/
theorem ensures_kill_other {pid : Nat} (hne : pid ≠ system.table.current) :
    (kill paging pid).Ensures system
      (fun _ system' => Removal pid { system.processor with
        table := system.table.update pid
          ({ · with state := .terminated, exitCode := some killedCode }) } system'.processor)
      fun _ _ => True := by
  refine ensures_getTable (Action.ensures_bind (Action.ensures_refuseIf (fun _ => trivial)
    fun _ => ?_))
  rw [if_neg hne]
  refine Action.ensures_bind (ensures_findProcess (fun _ => trivial) fun _ _ => ?_)
  exact Action.ensures_bind (ensures_modifyTable ((ensures_remove pid).mono
    (fun _ _ hremoval => hremoval) fun _ _ _ => trivial))

end System

/-- A program that is not the idle process exits by asking for it. -/
theorem Syscall.ensures_serve_exit {paging : Paging} {system : System} {request : Request}
    (hnumber : request.number = exit) (hcurrent : system.table.currentProcess? ≠ none)
    (hidle : system.table.current ≠ system.table.idle) :
    (serve paging request).Ensures system
      (fun _ system' => System.Leaves (.exit (request.args.get 0).toInt32) system system')
      fun _ _ => False := by
  unfold serve
  rw [if_pos hnumber]
  refine Action.ensures_bind (Action.ensures_attempt ((System.ensures_exit _).mono
    (fun _ _ hleaves => Action.ensures_pure hleaves) ?_))
  rintro _ _ ⟨-, hstuck⟩
  exact (hstuck.elim hidle hcurrent).elim

section Ending

variable {paging : Paging} {whole : WithEvents System} {operation : Operation}
  {child parent : Process}

/-- However the current process ends itself, its parent is awake afterwards. Whatever events are
acted on in the same trap, they leave the parent awake. -/
theorem Operation.ensures_awake (hsound : whole.state.table.Sound)
    (hchild : whole.state.table.currentProcess? = some child)
    (hlink : child.parent = some parent.pid) (hparent : parent ∈ whole.state.table.processes)
    (hblocked : parent.state = .blocked) (hexits : operation.Exits whole) :
    (operation.run paging).Ensures whole
      (fun _ whole' => whole'.state.table.Awake parent.pid) fun _ _ => True := by
  have hawake {code : Int32} {system' : System}
      (hleaves : System.Leaves (.exit code) whole.state system') :=
    hleaves.awake hsound hchild hlink hparent hblocked
  cases operation with
  | exit code =>
    refine (WithEvents.ensures_onState whole ((System.ensures_exit code).mono
      (fun _ _ hleaves => (hawake hleaves).2) fun _ _ _ => trivial)).bind ?_
    exact fun _ _ hdone => Action.ensures_pure hdone
  | kill pid =>
    obtain rfl : pid = whole.state.table.current := hexits
    exact WithEvents.ensures_onState whole (System.ensures_kill_current.mono
      (fun _ _ hleaves => (hawake hleaves).2) fun _ _ _ => trivial)
  | serve request =>
    refine Action.ensures_bind (Action.ensures_unrefused ((WithEvents.ensures_onState whole
      (Syscall.ensures_serve_exit hexits.1 hsound.currentProcess? hexits.2)).mono
        (fun _ _ hleaves => Action.ensures_pure (hawake hleaves).2) fun _ _ => id))
  | systemCall =>
    refine Action.ensures_bind (Action.ensures_unrefused (Action.ensures_get (Action.ensures_bind
      ((WithEvents.ensures_onState whole (Syscall.ensures_serve_exit hexits.1
        hsound.currentProcess? hexits.2)).mono (fun _ middle hleaves => ?_) fun _ _ => id))))
    -- The parent is awake before the events are acted on, and they leave it so.
    refine System.along_actOnEvents.mono (fun _ whole' hcourse => Action.ensures_pure ?_)
      fun _ _ => id
    exact hcourse.exists (Process.persistent_awake parent.pid)
      (fun _ => Event.harmless_of_mem_map) (hawake hleaves).1 (hawake hleaves).2
  | launch _ _ _ _ | remove _ | schedule | tick | block | wake _ | sleep _ | actOnEvents
  | timer => exact hexits.elim

/-- Ending another process changes nothing about its parent but the list of its children. -/
theorem Operation.ensures_forget (hsound : whole.state.table.Sound)
    (hfamily : whole.state.table.Family) (hchild : child ∈ whole.state.table.processes)
    (hlink : child.parent = some parent.pid) (hparent : parent ∈ whole.state.table.processes)
    (hother : child.pid ≠ whole.state.table.current) :
    ((Operation.kill child.pid).run paging).Ensures whole
      (fun _ whole' => whole'.state.table.find? parent.pid = some (parent.forget child.pid))
      fun _ _ => True := by
  have hkill : (System.kill paging child.pid).Ensures whole.state
      (fun _ system' => system'.table.find? parent.pid = some (parent.forget child.pid))
      fun _ _ => True := by
    refine (System.ensures_kill_other hother).mono_done ?_
    rintro - system' ⟨process, hfind, -, -, hprocessor⟩
    rw [show system'.table = _ from congrArg Processor.table hprocessor]
    exact ProcessTable.find?_of_killed hsound hfamily (fun _ => rfl) hlink hchild hparent hfind
  exact WithEvents.ensures_onState whole hkill

/-- After any run, if a process has a parent that waits, it depends on how the process ends what
becomes of the parent. If the process is current and exits, or is ended in its own turn, or asks for
its end in a system call, then the parent is there afterwards and waits no longer, whatever events
are acted on in the same trap. If it is not current and somebody else ends it, then its parent has
one child less and is otherwise as it was: it still waits. -/
theorem parents_of_ending (h : whole.state.table.Reachable)
    (hchild : child ∈ whole.state.table.processes) (hlink : child.parent = some parent.pid)
    (hparent : parent ∈ whole.state.table.processes) (hblocked : parent.state = .blocked) :
    (child.pid = whole.state.table.current → ∀ operation : Operation, operation.Exits whole →
      (operation.run paging).Ensures whole
        (fun _ whole' => whole'.state.table.Awake parent.pid) fun _ _ => True) ∧
    (child.pid ≠ whole.state.table.current →
      ((Operation.kill child.pid).run paging).Ensures whole
        (fun _ whole' => whole'.state.table.find? parent.pid = some (parent.forget child.pid) ∧
          whole'.state.table.state? parent.pid = some .blocked) fun _ _ => True) := by
  have hsound := sound_of_reachable h
  constructor
  · intro hcurrent operation hexits
    have hfind : whole.state.table.currentProcess? = some child := by
      rw [ProcessTable.currentProcess?, ← hcurrent]
      exact hsound.find?_pid hchild
    exact Operation.ensures_awake hsound hfind hlink hparent hblocked hexits
  · intro hother
    refine (Operation.ensures_forget hsound h.family hchild hlink hparent hother).mono_done ?_
    intro _ whole' hfind
    refine ⟨hfind, ?_⟩
    rw [ProcessTable.state?, hfind]
    exact congrArg some hblocked

end Ending

/-- A process waits for another one that it created. -/
def waitingForChild : List Operation :=
  [.launch "parent" 0 true (some ⟨0⟩), .schedule, .launch "child" 0 true (some ⟨0⟩), .block]

/-- The child is ended in its own turn, and its parent does not wait any more. -/
theorem parents_of_waitingForChild :
    ∃ table whole' journal', ProcessTable.Reachable table ∧ table.current = 3 ∧
      table.state? 2 = some .blocked ∧
      (Operation.kill 3).run default (kernelOnly table default) #[] = .done () whole' journal' ∧
      whole'.state.table.Awake 2 := by
  have hrun : (ProcessTable.ofRun? waitingForChild).any (fun table =>
      (table.find? 2).any fun parent => (table.find? 3).any fun child =>
        ((Operation.kill 3).run default (kernelOnly table default) #[]).passes fun _ _ _ =>
          decide (table.current = 3 ∧ child.parent = some parent.pid ∧
            parent.state = .blocked)) = true := by decide +kernel
  obtain ⟨table, htable, hrun⟩ := (Option.any_eq_true _ _).mp hrun
  obtain ⟨parent, hparent, hrun⟩ := (Option.any_eq_true _ _).mp hrun
  obtain ⟨child, hchild, hrun⟩ := (Option.any_eq_true _ _).mp hrun
  obtain ⟨_, whole', journal', hkill, hfacts⟩ := Outcome.passes_iff.mp hrun
  obtain ⟨hcurrent, hlink, hblocked⟩ := of_decide_eq_true hfacts
  have hreachable := ProcessTable.reachable_of_ofRun? htable
  have hpid : child.pid = table.current := (ProcessTable.pid_of_find? hchild).trans hcurrent.symm
  have hwhole : (kernelOnly table default).state.table.Reachable := hreachable
  have hawake := ((parents_of_ending hwhole (ProcessTable.mem_of_find? hchild) hlink
    (ProcessTable.mem_of_find? hparent) hblocked).1 hpid (.kill 3) hcurrent.symm).of_done hkill
  rw [ProcessTable.pid_of_find? hparent] at hawake
  refine ⟨table, whole', journal', hreachable, hcurrent, ?_, hkill, hawake⟩
  rw [ProcessTable.state?, hparent]
  exact congrArg some hblocked

/-- The child waits as well, and is ended by somebody else. Its parent waits for it before and goes
on waiting. -/
theorem waits_of_kill :
    ∃ table whole' journal', ProcessTable.Reachable table ∧
      (table.find? 3).bind Process.parent = some 2 ∧ table.state? 2 = some .blocked ∧
      (Operation.kill 3).run default (kernelOnly table default) #[] = .done () whole' journal' ∧
      whole'.state.table.state? 2 = some .blocked := by
  have hrun : (ProcessTable.ofRun? (waitingForChild ++ [.block])).any (fun table =>
      ((Operation.kill 3).run default (kernelOnly table default) #[]).passes fun _ whole' _ =>
        decide ((table.find? 3).bind Process.parent = some 2 ∧ table.state? 2 = some .blocked ∧
          whole'.state.table.state? 2 = some .blocked)) = true := by decide +kernel
  obtain ⟨table, htable, hrun⟩ := (Option.any_eq_true _ _).mp hrun
  obtain ⟨_, whole', journal', hkill, hfacts⟩ := Outcome.passes_iff.mp hrun
  obtain ⟨hlink, hblocked, hwaits⟩ := of_decide_eq_true hfacts
  exact ⟨table, whole', journal', ProcessTable.reachable_of_ofRun? htable, hlink, hblocked, hkill,
    hwaits⟩

end KernelResources
