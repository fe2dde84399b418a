import KernelResources.Proofs.Process.Changes
import KernelResources.Proofs.Process.Runs

/-!
# The family of processes

A process has the pid of the one that created it, and the pids of those it created itself. Nothing
but the pids ties the two sides together, so creating and removing a process has to see to both.

* `ProcessTable.Family` says that both sides agree: who names another its parent is listed by that
  one as a child, and by no other.
* `Family.unlink_eq`: in such a table, removing a process amounts to `Process.forget` for all
  others.
* `Move.family`: every move keeps it; all but these two moves keep what a process knows of its
  family.
* `family_of_reachable`: so it holds after every run, and no pid is given out twice.
-/

namespace KernelResources

open Processor

/-- What a process knows of its family. -/
structure Kin where
  /-- The process itself. -/
  pid : Nat
  /-- The process that created it. -/
  parent : Option Nat
  /-- The processes it created. -/
  children : List Nat

namespace Process

def kin (process : Process) : Kin := ⟨process.pid, process.parent, process.children⟩

/-- The process after another one has gone. -/
def forget (pid : Nat) (process : Process) : Process :=
  { process with
    parent := process.parent.filter (· ≠ pid)
    children := process.children.filter (· ≠ pid) }

theorem pid_forget (pid : Nat) (process : Process) : (process.forget pid).pid = process.pid := rfl

end Process

namespace ProcessTable

/-- What the processes know of their family. -/
def kins (table : ProcessTable) : List Kin := table.processes.map Process.kin

/-- Parents and children know each other. -/
structure Family (table : ProcessTable) : Prop where
  /-- A process is a child of the one it names as its parent, and of no other. -/
  listed : ∀ parent ∈ table.processes, ∀ child ∈ table.processes,
    child.pid ∈ parent.children ↔ child.parent = some parent.pid
  /-- Children are in the table. -/
  children_mem : ∀ process ∈ table.processes, ∀ pid ∈ process.children, pid ∈ table.pids
  /-- Parents are in the table. -/
  parent_mem : ∀ process ∈ table.processes, ∀ pid, process.parent = some pid → pid ∈ table.pids
  /-- Children are in the order in which they were created. -/
  ascending : ∀ process ∈ table.processes, process.children.Pairwise (· < ·)
  /-- Parents are older than their children. -/
  parent_lt : ∀ process ∈ table.processes, ∀ pid, process.parent = some pid → pid < process.pid

/-- A process of the one pid is the parent of one of the other. -/
def ParentOf (table : ProcessTable) (parent child : Nat) : Prop :=
  ∃ process ∈ table.processes, process.pid = child ∧ process.parent = some parent

variable {table table' : ProcessTable} {pid : Nat}

/-! ## Moves that do not concern the family -/

theorem kins_updateAll {change : Process → Process}
    (hkin : ∀ process, (change process).kin = process.kin) :
    (table.updateAll change).kins = table.kins := by
  rw [kins, updateAll, List.map_map]
  exact List.map_congr_left fun process _ => hkin process

theorem kins_update {change : Process → Process}
    (hkin : ∀ process, (change process).kin = process.kin) :
    (table.update pid change).kins = table.kins := by
  refine kins_updateAll fun process => ?_
  split
  · exact hkin process
  · rfl

theorem kins_ticking : table.ticking.kins = table.kins := by
  have hwoken : ({ table with clock := table.clock + 1 }.updateAll
      (System.wakeIfDue (table.clock + 1))).kins = table.kins := by
    refine kins_updateAll fun process => ?_
    unfold System.wakeIfDue
    split <;> rfl
  unfold ticking charging
  dsimp only
  split
  · exact hwoken
  · refine Eq.trans (kins_update ?_) hwoken
    exact fun _ => rfl

theorem kins_leaving (leave : Leave) : (table.leaving leave).kins = table.kins := by
  cases leave with
  | stay => rfl
  | block => exact kins_update fun _ => rfl
  | sleep wakeAt =>
    rw [leaving_sleep]
    exact kins_update fun _ => rfl
  | exit code =>
    have hended : (table.update table.current
        ({ · with state := .terminated, exitCode := some code })).kins = table.kins :=
      kins_update fun _ => rfl
    unfold leaving
    dsimp only
    split
    · refine (kins_update fun process => ?_).trans hended
      unfold System.wakeParent
      split <;> rfl
    · exact hended

theorem kins_turn (processor : Processor) : processor.turn.table.kins = processor.table.kins := by
  have hsuspended : (processor.table.update processor.table.current
      (System.suspend processor.cpu)).kins = processor.table.kins := kins_update fun _ => rfl
  unfold turn dispatch
  dsimp only
  split
  · split
    · exact hsuspended
    · refine Eq.trans (kins_update ?_) hsuspended
      exact fun _ => rfl
  · exact kins_update fun _ => rfl

/-- Only what the processes know of their family counts. -/
theorem Family.congr (h : table.Family) (hkins : table'.kins = table.kins) : table'.Family := by
  -- Every process of the one table has a twin in the other that knows the same.
  have horigin (process' : Process) (hmem : process' ∈ table'.processes) :
      ∃ process ∈ table.processes, process.pid = process'.pid ∧
        process.parent = process'.parent ∧ process.children = process'.children := by
    have hmem : process'.kin ∈ table.kins := hkins ▸ List.mem_map_of_mem hmem
    obtain ⟨process, hmem, hkin⟩ := List.mem_map.mp hmem
    exact ⟨process, hmem, congrArg Kin.pid hkin, congrArg Kin.parent hkin,
      congrArg Kin.children hkin⟩
  have hpids : table'.pids = table.pids := by
    have := congrArg (List.map Kin.pid) hkins
    rwa [kins, kins, List.map_map, List.map_map] at this
  refine ⟨fun parent hparent child hchild => ?_, fun process hmem => ?_, fun process hmem => ?_,
    fun process hmem => ?_, fun process hmem => ?_⟩
  · obtain ⟨parent, hparent, hpid, -, hchildren⟩ := horigin parent hparent
    obtain ⟨child, hchild, hpid', hnamed, -⟩ := horigin child hchild
    rw [← hpid, ← hpid', ← hchildren, ← hnamed]
    exact h.listed parent hparent child hchild
  · obtain ⟨process, hmem, -, -, hchildren⟩ := horigin process hmem
    exact hchildren ▸ hpids ▸ h.children_mem process hmem
  · obtain ⟨process, hmem, -, hparent, -⟩ := horigin process hmem
    exact hparent ▸ hpids ▸ h.parent_mem process hmem
  · obtain ⟨process, hmem, -, -, hchildren⟩ := horigin process hmem
    exact hchildren ▸ h.ascending process hmem
  · obtain ⟨process, hmem, hpid, hparent, -⟩ := horigin process hmem
    exact hpid ▸ hparent ▸ h.parent_lt process hmem

/-! ## Removing -/

/-- The parent of a process strikes it off its list, and its children name no parent any more. -/
theorem unlink_eq_updateAll (process : Process) (table : ProcessTable) :
    System.unlink process table = table.updateAll fun other => { other with
      parent := if other.pid ∈ process.children then none else other.parent
      children := if process.parent = some other.pid then
          other.children.filter (· ≠ process.pid)
        else other.children } := by
  unfold System.unlink
  cases process.parent with
  | none =>
    refine congrArg table.updateAll (funext fun other => ?_)
    simp only [reduceCtorEq, if_false]
    split <;> rfl
  | some parent =>
    refine (updateAll_updateAll _ _ _).trans (congrArg table.updateAll (funext fun other => ?_))
    simp only [Function.comp, Option.some.injEq, eq_comm (a := parent)]
    split
    · split <;> rfl
    · split <;> rfl

/-- In a family, a process that is removed is forgotten by all others. -/
theorem Family.unlink_eq (h : table.Family) {process : Process} (hmem : process ∈ table.processes) :
    System.unlink process (table.remove process.pid) =
      (table.remove process.pid).updateAll (Process.forget process.pid) := by
  rw [unlink_eq_updateAll, updateAll, updateAll]
  congr 1
  refine List.map_congr_left fun other hother => ?_
  have hother := List.mem_of_mem_filter hother
  -- Those who are told are the only ones who know it.
  have hparent : (if other.pid ∈ process.children then none else other.parent) =
      other.parent.filter (· ≠ process.pid) := by
    have hnamed := h.listed process hmem other hother
    cases hparent : other.parent with
    | none => simp
    | some pid =>
      by_cases hpid : pid = process.pid <;> simp [hnamed, hparent, hpid, Option.filter_some]
  have hchildren : (if process.parent = some other.pid then
      other.children.filter (· ≠ process.pid) else other.children) =
        other.children.filter (· ≠ process.pid) := by
    split
    · rfl
    · next hstranger =>
      refine (List.filter_eq_self.mpr fun pid hpid => decide_eq_true ?_).symm
      rintro rfl
      exact hstranger ((h.listed other hother process hmem).mp hpid)
  rw [hparent, hchildren]
  rfl

theorem Family.removing (h : table.Family) {process : Process} (hmem : process ∈ table.processes) :
    (System.unlink process (table.remove process.pid)).Family := by
  have hothers {other : Process} (hother : other ∈ (table.remove process.pid).processes) :
      other ∈ table.processes ∧ other.pid ≠ process.pid :=
    ⟨List.mem_of_mem_filter hother, of_decide_eq_true (List.mem_filter.mp hother).2⟩
  have hparent {other : Process} {pid : Nat}
      (hpid : (other.forget process.pid).parent = some pid) :
      other.parent = some pid ∧ pid ≠ process.pid := by
    obtain ⟨hpid, hne⟩ := Option.filter_eq_some_iff.mp hpid
    exact ⟨hpid, of_decide_eq_true hne⟩
  have hpids {pid : Nat} (hpid : pid ∈ table.pids) (hne : pid ≠ process.pid) :
      pid ∈ ((table.remove process.pid).updateAll (Process.forget process.pid)).pids := by
    rw [pids_updateAll (Process.pid_forget process.pid), pids_remove]
    exact List.mem_filter.mpr ⟨hpid, decide_eq_true hne⟩
  rw [h.unlink_eq hmem]
  constructor
  case listed =>
    refine List.forall_mem_map.mpr fun parent hparent' =>
      List.forall_mem_map.mpr fun child hchild => ?_
    obtain ⟨hparent', hne⟩ := hothers hparent'
    obtain ⟨hchild, hne'⟩ := hothers hchild
    show child.pid ∈ parent.children.filter (· ≠ process.pid) ↔
      child.parent.filter (· ≠ process.pid) = some parent.pid
    rw [List.mem_filter, Option.filter_eq_some_iff, h.listed parent hparent' child hchild]
    simp [hne, hne']
  case children_mem =>
    refine List.forall_mem_map.mpr fun other hother pid hpid => ?_
    obtain ⟨hpid, hne⟩ := List.mem_filter.mp hpid
    exact hpids (h.children_mem other (hothers hother).1 pid hpid) (of_decide_eq_true hne)
  case parent_mem =>
    refine List.forall_mem_map.mpr fun other hother pid hpid => ?_
    obtain ⟨hpid, hne⟩ := hparent hpid
    exact hpids (h.parent_mem other (hothers hother).1 pid hpid) hne
  case ascending =>
    exact List.forall_mem_map.mpr fun other hother =>
      (h.ascending other (hothers hother).1).filter _
  case parent_lt =>
    exact List.forall_mem_map.mpr fun other hother pid hpid =>
      h.parent_lt other (hothers hother).1 pid (hparent hpid).1

/-! ## Creating -/

/-- The new process names the current one as its parent, which lists it last. -/
theorem mem_launching {name : String} {context : Registers} {space : ProcessSpace}
    {stack : KernelStack} (hfresh : table.nextPid ≠ table.current) {process : Process}
    (hmem : process ∈ (table.launching name context space stack).processes) :
    (∃ before ∈ table.processes, process.pid = before.pid ∧ process.parent = before.parent ∧
      process.children =
        if before.pid = table.current then before.children ++ [table.nextPid]
        else before.children) ∨
    process.pid = table.nextPid ∧ process.parent = some table.current ∧ process.children = [] := by
  obtain ⟨before, hbefore, rfl⟩ := List.mem_map.mp hmem
  rcases List.mem_append.mp hbefore with hbefore | hbefore
  · refine .inl ⟨before, hbefore, ?_⟩
    split <;> exact ⟨rfl, rfl, rfl⟩
  · obtain rfl := List.mem_singleton.mp hbefore
    rw [Process.create, if_neg hfresh]
    exact .inr ⟨rfl, rfl, rfl⟩

theorem pids_launching (name : String) (context : Registers) (space : ProcessSpace)
    (stack : KernelStack) :
    (table.launching name context space stack).pids = table.pids ++ [table.nextPid] := by
  refine (pids_updateAll fun process => ?_).trans List.map_append
  split <;> rfl

theorem Family.launching (h : table.Family) (hsound : table.Sound) (name : String)
    (context : Registers) (space : ProcessSpace) (stack : KernelStack) :
    (table.launching name context space stack).Family := by
  have hcurrent : table.current < table.nextPid := hsound.below _ hsound.current_mem
  have hcases {process : Process}
      (hmem : process ∈ (table.launching name context space stack).processes) :=
    mem_launching (Nat.ne_of_gt hcurrent) hmem
  -- Whoever is known to a process of the table is in it, so nobody knows the new one yet.
  have hlt {process : Process} (hmem : process ∈ table.processes) : process.pid < table.nextPid :=
    hsound.below _ (List.mem_map_of_mem hmem)
  have hchild {process : Process} (hmem : process ∈ table.processes) :
      ∀ pid ∈ process.children, pid < table.nextPid :=
    fun pid hpid => hsound.below _ (h.children_mem process hmem pid hpid)
  have hold {pid : Nat} (hpid : pid ∈ table.pids) :
      pid ∈ (table.launching name context space stack).pids := by
    rw [pids_launching]
    exact List.mem_append_left _ hpid
  constructor
  case listed =>
    intro parent hparent child hchild'
    rcases hcases hparent with
      ⟨before, hbefore, hpid, -, hchildren⟩ | ⟨hpid, -, hchildren⟩ <;>
      rcases hcases hchild' with ⟨before', hbefore', hpid', hnamed, -⟩ | ⟨hpid', hnamed, -⟩ <;>
      rw [hpid, hpid', hnamed, hchildren]
    -- Both were there before, one of them is the new process, or both are.
    · have hne : before'.pid ≠ table.nextPid := Nat.ne_of_lt (hlt hbefore')
      rw [← h.listed before hbefore before' hbefore']
      split <;> simp [hne]
    · have hnew : table.nextPid ∉ before.children :=
        fun hmem => Nat.lt_irrefl _ (hchild hbefore _ hmem)
      split
      · next heq => simp [heq]
      · next hne => simp [hnew, Ne.symm hne]
    · simp only [List.not_mem_nil, false_iff]
      exact fun heq => Nat.lt_irrefl _ (hsound.below _ (h.parent_mem before' hbefore' _ heq))
    · simpa using Nat.ne_of_lt hcurrent
  case children_mem =>
    intro process hmem pid hpid
    rcases hcases hmem with ⟨before, hbefore, -, -, hchildren⟩ | ⟨-, -, hchildren⟩
    · rw [pids_launching, List.mem_append]
      rw [hchildren] at hpid
      split at hpid
      · exact (List.mem_append.mp hpid).imp (h.children_mem before hbefore pid) id
      · exact .inl (h.children_mem before hbefore pid hpid)
    · rw [hchildren] at hpid
      cases hpid
  case parent_mem =>
    intro process hmem pid hpid
    rcases hcases hmem with ⟨before, hbefore, -, hnamed, -⟩ | ⟨-, hnamed, -⟩
    · exact hold (h.parent_mem before hbefore pid (hnamed ▸ hpid))
    · obtain rfl := Option.some.inj (hnamed.symm.trans hpid)
      exact hold hsound.current_mem
  case ascending =>
    intro process hmem
    rcases hcases hmem with ⟨before, hbefore, -, -, hchildren⟩ | ⟨-, -, hchildren⟩
    · rw [hchildren]
      split
      · refine List.pairwise_append.mpr
          ⟨h.ascending before hbefore, List.pairwise_singleton _ _, ?_⟩
        exact fun pid hpid other hother => List.mem_singleton.mp hother ▸ hchild hbefore pid hpid
      · exact h.ascending before hbefore
    · exact hchildren ▸ List.Pairwise.nil
  case parent_lt =>
    intro process hmem pid hpid
    rcases hcases hmem with ⟨before, hbefore, hsame, hnamed, -⟩ | ⟨hsame, hnamed, -⟩
    · exact hsame ▸ h.parent_lt before hbefore pid (hnamed ▸ hpid)
    · obtain rfl := Option.some.inj (hnamed.symm.trans hpid)
      exact hsame ▸ hcurrent

end ProcessTable

/-! ## Runs -/

section Runs

variable {paging : Paging} {table : ProcessTable} {operation : Operation}
  {whole whole' : WithEvents System} {journal : Journal} {processor processor' : Processor}

theorem Processor.Move.family (hmove : Move processor processor') (hsound : processor.table.Sound)
    (h : processor.table.Family) : processor'.table.Family := by
  cases hmove with
  | launch name context space stack => exact h.launching hsound name context space stack
  | remove hfind => exact h.removing (ProcessTable.mem_of_find? hfind)
  | wake | kill => exact h.congr (ProcessTable.kins_update fun _ => rfl)
  | tick => exact h.congr ProcessTable.kins_ticking
  | turn leave =>
    exact h.congr ((ProcessTable.kins_turn _).trans (ProcessTable.kins_leaving leave))

theorem Processor.Path.family (hpath : Path processor processor') (hsound : processor.table.Sound)
    (h : processor.table.Family) : processor'.table.Family := by
  induction hpath with
  | refl => exact h
  | tail hpath hmove ih => exact hmove.family (Path.sound_carries hpath hsound).1 ih

theorem family_of_bootstrap {stack : Option KernelStack} {journal' : Journal}
    (h : ProcessTable.bootstrap paging stack () journal = .done table () journal') :
    table.Family := by
  cases stack with
  | none => cases h
  | some stack =>
    cases h
    constructor <;> simp [Process.create]

/-- Every reachable table is a family. -/
theorem ProcessTable.Reachable.family (h : table.Reachable) : table.Family := by
  induction h with
  | bootstrap hboot => exact family_of_bootstrap hboot
  | step hreachable hrun ih =>
    -- An operation is a path of moves, and each move keeps the family.
    have hsound := sound_of_reachable hreachable
    exact (Operation.course_of_run hsound hrun).path.family hsound ih

/-! ## Pids -/

/-- An operation turns the one table into the other. -/
def ProcessTable.Becomes (table table' : ProcessTable) : Prop :=
  ∃ paging operation whole whole' journal, whole.state.table = table ∧
    (Operation.run paging operation whole journal).state? = some whole' ∧
      whole'.state.table = table'

/-- Any number of operations turn the one table into the other. -/
abbrev ProcessTable.Leads : ProcessTable → ProcessTable → Prop :=
  Relation.ReflTransGen ProcessTable.Becomes

/-- A process that is gone does not come back, and no other gets its pid. -/
theorem ProcessTable.Leads.pids_subset {later : ProcessTable} (h : table.Leads later)
    (hsound : table.Sound) :
    later.Sound ∧ table.nextPid ≤ later.nextPid ∧
      ∀ pid ∈ later.pids, pid < table.nextPid → pid ∈ table.pids := by
  induction h with
  | refl => exact ⟨hsound, Nat.le_refl _, fun _ hpid _ => hpid⟩
  | tail _ hbecomes ih =>
    obtain ⟨hsound, hle, hpids⟩ := ih
    obtain ⟨_, _, _, _, _, rfl, hrun, rfl⟩ := hbecomes
    obtain ⟨hsound', hcarries⟩ := Operation.sound_carries hsound hrun
    -- A process with an old pid was carried over, so it was in the table before.
    refine ⟨hsound', Nat.le_trans hle hcarries.nextPid_le, fun pid hpid hlt => ?_⟩
    obtain ⟨process', hmem', rfl⟩ := ProcessTable.mem_pids.mp hpid
    obtain ⟨process, hmem, hsame, -⟩ := hcarries.each process' hmem' (Nat.lt_of_lt_of_le hlt hle)
    exact hpids _ (hsame ▸ List.mem_map_of_mem hmem) hlt

/-- Only `launch` creates processes. -/
theorem Operation.launch_or_not_mem (whole : WithEvents System) (operation : Operation) :
    (∃ name entry kernelMode stack, operation = .launch name entry kernelMode stack) ∨
      Deed.launch ∉ operation.deeds whole := by
  have hevents (events : List Event) : Deed.launch ∉ events.map Event.deed := by
    intro hmem
    obtain ⟨event, -, hdeed⟩ := List.mem_map.mp hmem
    cases event <;> cases hdeed
  have hrequest (request : Syscall.Request) : Deed.launch ∉ request.deeds := by
    unfold Syscall.Request.deeds
    split
    · simp
    · split
      · simp
      · exact List.not_mem_nil
  cases operation with
  | launch name entry kernelMode stack => exact .inl ⟨name, entry, kernelMode, stack, rfl⟩
  | remove | schedule | tick | block | wake | sleep | exit => exact .inr (by simp [deeds])
  | kill pid =>
    right
    show Deed.launch ∉ System.killing whole.state.table pid
    unfold System.killing
    split <;> simp
  | actOnEvents | timer => exact .inr (hevents _)
  | serve request => exact .inr (hrequest request)
  | systemCall =>
    exact .inr fun hmem => (List.mem_append.mp hmem).elim (hrequest _) (hevents _)

/-- Creating a process takes the next pid, unless it is refused, and there is one more left then. -/
theorem System.nextPid_launch (name : String) (entry : Nat) (kernelMode : Bool)
    (stack : Option KernelStack) (system : System) :
    (System.launch paging name entry kernelMode stack).Ensures system
      (fun _ system' => system'.table.nextPid = system.table.nextPid + 1 ∧
        system'.table.nextPid < bitRange 32)
      fun _ system' => system'.table.nextPid = system.table.nextPid := by
  have henroll {middle : System} (hmiddle : middle.processor = system.processor) (eip : Nat)
      (stack : KernelStack) (space : ProcessSpace) (context : Registers) :
      (System.enroll name eip kernelMode stack space context).Ensures middle
        (fun _ system' => system'.table.nextPid = system.table.nextPid + 1 ∧
          system'.table.nextPid < bitRange 32)
        fun _ system' => system'.table.nextPid = system.table.nextPid := by
    have hnext : middle.table.nextPid + 1 = system.table.nextPid + 1 :=
      congrArg (·.table.nextPid + 1) hmiddle
    exact ensures_getTable (Action.ensures_bind (Action.ensures_add fun hlt =>
      Action.ensures_bind (ensures_modifyTable (Action.ensures_bind (ensures_modifyTable
        (Action.ensures_bind (Action.ensures_note (Action.ensures_pure ⟨hnext, hlt⟩))))))))
  rw [launch_eq]
  refine Action.ensures_bind (Action.ensures_refuseIf (fun _ => rfl) fun _ => ?_)
  refine Action.ensures_bind (Action.ensures_ofOption (fun _ => rfl) fun stack _ => ?_)
  split
  · exact henroll rfl _ _ _ _
  · exact Action.ensures_bind (ensures_createUserSpace.mono
      (fun _ _ hsame => henroll hsame _ _ _ _) fun _ _ hsame => congrArg (·.table.nextPid) hsame)

/-- What `nextPid_launch` says, of the operation. -/
theorem Operation.nextPid_launch (name : String) (entry : Nat) (kernelMode : Bool)
    (stack : Option KernelStack) (whole : WithEvents System) :
    ((Operation.launch name entry kernelMode stack).run paging).Ensures whole
      (fun _ whole' => whole'.state.table.nextPid = whole.state.table.nextPid + 1 ∧
        whole'.state.table.nextPid < bitRange 32)
      fun _ whole' => whole'.state.table.nextPid = whole.state.table.nextPid :=
  (WithEvents.ensures_onState whole
    (System.nextPid_launch name entry kernelMode stack whole.state)).bind
      fun _ _ hnext => Action.ensures_pure hnext

theorem Operation.nextPid_lt (hsound : whole.state.table.Sound)
    (hrun : (operation.run paging whole journal).state? = some whole')
    (h : whole.state.table.nextPid < bitRange 32) :
    whole'.state.table.nextPid < bitRange 32 := by
  rcases operation.launch_or_not_mem whole with ⟨name, entry, kernelMode, stack, rfl⟩ | hlaunch
  · exact ((Operation.nextPid_launch name entry kernelMode stack whole).mono
      (fun _ _ hdone => hdone.2) fun _ _ hsame => hsame ▸ h).of_state? hrun
  · have hcourse := Operation.course_of_run hsound hrun
    refine hcourse.keeps (fun processor => processor.table.nextPid < bitRange 32) ?_ h
    intro deed hmem _ _ hdoes hlt
    rwa [hdoes.nextPid_eq fun heq => hlaunch (heq ▸ hmem)]

/-- Every pid that is given out fits a register. -/
theorem ProcessTable.Reachable.nextPid_lt (h : table.Reachable) : table.nextPid < bitRange 32 := by
  induction h with
  | @bootstrap _ stack _ _ _ hboot =>
    cases stack with
    | none => cases hboot
    | some stack =>
      cases hboot
      exact (by decide : ProcessTable.bootstrapPid + 1 < bitRange 32)
  | step hreachable hrun ih => exact Operation.nextPid_lt (sound_of_reachable hreachable) hrun ih

/-! ## The forest -/

/-- Nobody has two parents, and nobody is an ancestor of itself. -/
structure IsForest (parentOf : Nat → Nat → Prop) : Prop where
  unique : ∀ parent parent' child, parentOf parent child → parentOf parent' child → parent = parent'
  acyclic : ∀ pid, ¬Relation.TransGen parentOf pid pid

/-- Pids ascend along every line of descent. -/
theorem ProcessTable.Family.lt_of_transGen (h : table.Family) {ancestor pid : Nat}
    (hline : Relation.TransGen table.ParentOf ancestor pid) : ancestor < pid := by
  have hlt {parent child : Nat} (hparent : table.ParentOf parent child) : parent < child := by
    obtain ⟨process, hmem, rfl, hparent⟩ := hparent
    exact h.parent_lt process hmem parent hparent
  induction hline with
  | single hparent => exact hlt hparent
  | tail _ hparent ih => exact Nat.lt_trans ih (hlt hparent)

theorem ProcessTable.Family.isForest (h : table.Family) (hsound : table.Sound) :
    IsForest table.ParentOf where
  unique := by
    rintro parent parent' child ⟨process, hmem, hpid, hparent⟩ ⟨process', hmem', hpid', hparent'⟩
    obtain rfl := hsound.eq_of_pid hmem hmem' (hpid'.trans hpid.symm)
    exact Option.some.inj (hparent.symm.trans hparent')
  acyclic pid hline := Nat.lt_irrefl pid (h.lt_of_transGen hline)

/-- After any run, pids occur once and are below the next one, and no operation brings a pid back
that is not in the table any more. Parents and children know each other, each is in the table, and
the parents make a forest. So the answer to a program that asks for its parent is zero or the pid of
a process in the table. -/
theorem family_of_reachable (h : table.Reachable) :
    table.pids.Nodup ∧ (∀ pid ∈ table.pids, pid < table.nextPid) ∧ table.Family ∧
    IsForest table.ParentOf ∧
    (∀ later, table.Leads later → ∀ pid < table.nextPid, pid ∉ table.pids → pid ∉ later.pids) ∧
    ∀ paging request machine cpu journal, request.number = Syscall.getParentPid →
      ∃ process ∈ table.processes, process.pid = table.current ∧ ∃ result,
        Syscall.serve paging request ⟨machine, table, cpu⟩ journal =
          .done result ⟨machine, table, { cpu with eax := result }⟩ journal ∧
        result.toNat = process.parent.getD 0 ∧ (result ≠ 0 → result.toNat ∈ table.pids) := by
  have hsound := sound_of_reachable h
  have hfamily := h.family
  refine ⟨hsound.nodup, hsound.below, hfamily, hfamily.isForest hsound,
    fun later hleads pid hlt hgone hpid => ?_, fun paging request machine cpu journal hnumber => ?_⟩
  · exact hgone ((hleads.pids_subset hsound).2.2 pid hpid hlt)
  · obtain ⟨process, hmem, hpid, hcurrent⟩ :=
      ProcessTable.exists_currentProcess? hsound.nodup hsound.current_mem
    have hanswer : Syscall.serve paging request ⟨machine, table, cpu⟩ journal =
        .done (UInt32.ofNat (process.parent.getD 0))
          ⟨machine, table, { cpu with eax := UInt32.ofNat (process.parent.getD 0) }⟩ journal := by
      obtain ⟨number, args⟩ := request
      obtain rfl : number = Syscall.getParentPid := hnumber
      rw [← Option.bind_some (f := Process.parent), ← hcurrent]
      rfl
    refine ⟨process, hmem, hpid, _, hanswer, ?_⟩
    cases hparent : process.parent with
    | none => exact ⟨rfl, fun hne => absurd rfl hne⟩
    | some parent =>
      have hmem' := hfamily.parent_mem process hmem parent hparent
      have hlt := Nat.lt_trans (hsound.below parent hmem') h.nextPid_lt
      have hresult : (UInt32.ofNat parent).toNat = parent := UInt32.toNat_ofNat_of_lt hlt
      exact ⟨hresult, fun _ => hresult.symm ▸ hmem'⟩

/-- A process is created by another one, which then ends and is removed with the next pass. -/
def orphaning : List Operation :=
  [.launch "init" 0 true (some ⟨0⟩), .schedule, .launch "child" 0 true (some ⟨0⟩), .exit 0,
    .schedule]

/-- An orphan finds zero in `eax` when it asks for its parent, whose pid never comes back. -/
theorem family_of_orphaning :
    ∃ table, ProcessTable.Reachable table ∧ table.current = 3 ∧
      (∀ later, table.Leads later → 2 ∉ later.pids) ∧
      Syscall.serve default ⟨Syscall.getParentPid, default⟩
        (kernelOnly table { eax := Syscall.getParentPid }).state #[] =
          .done 0 (kernelOnly table { eax := 0 }).state #[] := by
  have hrun : (ProcessTable.ofRun? orphaning).any (fun table =>
      table.current = 3 ∧ 2 < table.nextPid ∧ 2 ∉ table.pids ∧
        ∀ process ∈ table.processes, process.pid = 3 → process.parent = none) = true := by
    decide +kernel
  obtain ⟨table, htable, hchecked⟩ := (Option.any_eq_true _ _).mp hrun
  obtain ⟨hcurrent, hlt, hgone, horphan⟩ := of_decide_eq_true hchecked
  have hreachable := ProcessTable.reachable_of_ofRun? htable
  obtain ⟨-, -, -, -, hnever, hserve⟩ := family_of_reachable hreachable
  obtain ⟨process, hmem, hpid, result, hanswer, hresult, -⟩ :=
    hserve default ⟨Syscall.getParentPid, default⟩ (kernelOnly table default).state.machine
      { eax := Syscall.getParentPid } #[] rfl
  rw [horphan process hmem (hpid.trans hcurrent)] at hresult
  obtain rfl : result = 0 := UInt32.toNat_inj.mp hresult
  exact ⟨table, hreachable, hcurrent, fun later hleads => hnever later hleads 2 hlt hgone, hanswer⟩

end Runs

end KernelResources
