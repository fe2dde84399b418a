import KernelResources.Trap.Entry

/-!
# Operations up to their pass

Many operations end with a pass of the scheduler. What such an operation does before it is its
beginning. Where it depends on the state whether there is a pass at all, the beginning returns
whether one is due.

The equations say that these operations are their beginnings, followed by the pass. So what is shown
of the beginnings and of `schedule` carries over to them.
-/

namespace KernelResources

/-! ## Actions that are never refused -/

namespace Action

variable {ε ε' σ τ α β : Type}

theorem unrefused_bind (first : Total σ α) (next : α → Total σ β) :
    (first >>= next).unrefused =
      (first.unrefused >>= fun value => (next value).unrefused : Action ε σ β) := by
  funext state journal
  rw [unrefused, apply_mapError, apply_bind, apply_bind, unrefused, apply_mapError]
  cases first state journal with
  | done value middle journal' => rfl
  | refused error middle journal' => exact error.elim
  | halted cause journal' => rfl

theorem unrefused_attempt (action : Action ε' σ α) :
    (action.attempt : Total σ (Except ε' α)).unrefused =
      (action.attempt : Action ε σ (Except ε' α)) := by
  funext state journal
  rw [unrefused, apply_mapError, apply_attempt, apply_attempt]
  cases action state journal <;> rfl

theorem unrefused_forM (action : β → Total σ PUnit) (items : List β) :
    (items.forM action).unrefused =
      (items.forM fun item => (action item).unrefused : Action ε σ PUnit) := by
  induction items with
  | nil => rfl
  | cons item rest ih => exact (unrefused_bind _ _).trans (congrArg _ (funext fun _ => ih))

theorem unrefused_add (width a b : Nat) :
    (add width a b : Total σ Nat).unrefused = (add width a b : Action ε σ Nat) := by
  unfold add
  split <;> rfl

/-- An action that cannot be refused succeeds when it is attempted. -/
theorem attempt_unrefused (action : Total σ β) :
    (action.unrefused.attempt : Total σ (Except ε' β)) = Except.ok <$> action := by
  funext state journal
  rw [apply_attempt, unrefused, apply_mapError, apply_map]
  cases action state journal with
  | done | halted => rfl
  | refused error => exact error.elim

/-- Goes on after an attempt that succeeded, and hands on the error of one that did not. -/
def goOn (next : Total σ β) : Except ε' α → Total σ (Except ε' β)
  | .ok _ => Except.ok <$> next
  | .error error => pure (.error error)

/-- Only the first part of this sequence can be refused. -/
theorem attempt_bind_unrefused (first : Action ε' σ α) (next : Total σ β) :
    ((first >>= fun _ => next.unrefused).attempt : Total σ (Except ε' β)) =
      first.attempt >>= goOn next := by
  funext state journal
  rw [apply_attempt, apply_bind, apply_bind, apply_attempt]
  cases first state journal with
  | done value middle journal' =>
    exact congrFun (congrFun (attempt_unrefused next) middle) journal'
  | refused | halted => rfl

end Action

namespace System

open KernelResources.Action

variable {ε : Type} {paging : Paging}

theorem unrefused_loadSpace (space : ProcessSpace) :
    (onMachine (loadSpace paging space) : Total System Unit).unrefused =
      (onMachine (loadSpace paging space) : Action ε System Unit) := by
  cases space <;> rfl

theorem unrefused_dispatch (next : Nat) :
    (dispatch paging next : Total System Unit).unrefused =
      (dispatch paging next : Action ε System Unit) := by
  unfold dispatch
  simp only [unrefused_bind]
  refine bind_congr fun outgoing => bind_congr fun _ => bind_congr fun table => ?_
  split
  · rfl
  · simp only [unrefused_bind]
    refine bind_congr fun _ => bind_congr fun _ => bind_congr fun system => ?_
    split
    · rw [unrefused_bind, unrefused_loadSpace]
      rfl
    · rfl

theorem unrefused_removeOrReport (pid : Nat) :
    (removeOrReport paging pid : Total System Unit).unrefused =
      (removeOrReport paging pid : Action ε System Unit) := by
  unfold removeOrReport
  rw [unrefused_bind, unrefused_attempt]
  refine bind_congr fun result => ?_
  cases result <;> rfl

theorem unrefused_removeEnded (outgoing : Nat) :
    (removeEnded paging outgoing : Total System Unit).unrefused =
      (removeEnded paging outgoing : Action ε System Unit) := by
  unfold removeEnded
  rw [unrefused_bind]
  refine bind_congr fun table => ?_
  simp only [unrefused_forM, unrefused_removeOrReport]

theorem unrefused_schedule :
    (schedule paging : Total System Nat).unrefused =
      (schedule paging : Action ε System Nat) := by
  unfold schedule
  rw [unrefused_bind]
  refine bind_congr fun table => ?_
  dsimp only
  split
  · simp only [unrefused_bind, unrefused_dispatch, unrefused_removeEnded]
    rfl
  · simp only [unrefused_bind, unrefused_removeEnded]
    rfl

theorem unrefused_charge :
    (charge : Total System Bool).unrefused = (charge : Action ε System Bool) := by
  unfold charge
  rw [unrefused_bind]
  refine bind_congr fun table => ?_
  split
  · rfl
  · simp only [unrefused_bind, unrefused_add]
    rfl

/-! ## Beginnings -/

/-- The tick up to the pass. One is due if the turn of the current process is over. -/
def beginTick : Action ε System Bool := do
  let clock ← Action.add 64 (← getTable).clock 1
  modifyTable fun table => { table with clock }.updateAll (wakeIfDue clock)
  let expired ← charge
  let table ← getTable
  return expired ∨ table.current = table.idle

/-- The current process waits, up to the pass. -/
def beginBlock : Action ProcessError System Unit := do
  let process ← waitingCandidate
  modifyProcess process.pid ({ · with state := .blocked })

/-- The current process waits for a number of ticks, up to the pass. -/
def beginSleep (ticks : Nat) : Action ProcessError System Unit := do
  let table ← getTable
  Action.refuseIf (table.current = table.idle) .invalidOperation
  if ticks = 0 then pure ()
  else
    let wakeAt ← Action.add 64 table.clock ticks
    let process ← findProcess table.current
    modifyProcess process.pid ({ · with wakeAt := some wakeAt })
    Action.note (.sleeping process.pid wakeAt)
    beginBlock

/-- The current process ends, up to the pass. -/
def beginExit (code : Int32) : Action ProcessError System Unit := do
  let process ← waitingCandidate
  modifyProcess process.pid ({ · with state := .terminated, exitCode := some code })
  Action.note (.exited process.pid code.toInt)
  match process.parent with
  | some parent => modifyProcess parent wakeParent
  | none => pure ()

/-- A process is ended, up to the pass. One is due if the process is current. -/
def beginKill (paging : Paging) (pid : Nat) : Action ProcessError System Bool := do
  let table ← getTable
  Action.refuseIf (pid = table.idle) .invalidOperation
  if pid = table.current then
    beginExit killedCode
    return true
  else
    let _ ← findProcess pid
    modifyProcess pid ({ · with state := .terminated, exitCode := some killedCode })
    remove paging pid
    return false

theorem unrefused_beginTick :
    (beginTick : Total System Bool).unrefused = (beginTick : Action ε System Bool) := by
  unfold beginTick
  simp only [unrefused_bind, unrefused_add, unrefused_charge]
  rfl

theorem block_eq : block paging = (do
    beginBlock
    schedule paging) := by
  rw [beginBlock, bind_assoc]
  rfl

theorem sleep_eq (ticks : Nat) : sleep paging ticks = (do
    beginSleep ticks
    schedule paging) := by
  unfold sleep beginSleep
  by_cases hticks : ticks = 0
  · simp only [hticks, if_true, bind_assoc, pure_bind]
  · simp only [hticks, if_false, bind_assoc, block_eq]

theorem exit_eq (code : Int32) : exit paging code = (do
    beginExit code
    schedule paging) := by
  unfold exit beginExit
  simp only [bind_assoc]
  refine bind_congr fun process => bind_congr fun _ => bind_congr fun _ => ?_
  cases process.parent <;> rfl

theorem clockTick_eq : (clockTick paging : Action ε System Nat) = (do
    if ← beginTick then schedule paging
    else return (← getTable).current) := by
  unfold clockTick beginTick
  simp only [bind_assoc, pure_bind, decide_eq_true_eq]
  refine bind_congr fun table => bind_congr fun clock => bind_congr fun _ =>
    bind_congr fun expired => ?_
  -- Looking at the table once more makes no difference.
  funext system journal
  show (if expired = true ∨ system.table.current = system.table.idle then schedule paging
      else pure system.table.current : Action ε System Nat) system journal =
    (if expired = true ∨ system.table.current = system.table.idle then schedule paging
      else do return (← getTable).current : Action ε System Nat) system journal
  split <;> rfl

theorem unrefused_clockTick :
    (clockTick paging : Total System Nat).unrefused =
      (clockTick paging : Action ε System Nat) := by
  rw [clockTick_eq, clockTick_eq, unrefused_bind, unrefused_beginTick]
  refine bind_congr fun due => ?_
  cases due with
  | true => exact unrefused_schedule
  | false => rfl

theorem kill_eq (pid : Nat) : kill paging pid = (do
    if ← beginKill paging pid then
      let _ ← schedule paging) := by
  unfold kill beginKill
  simp only [bind_assoc]
  refine bind_congr fun table => bind_congr fun _ => ?_
  split
  · simp only [exit_eq, bind_assoc, pure_bind, if_true]
  · simp only [bind_assoc, pure_bind, Bool.false_eq_true, if_false, bind_pure_unit]

end System

namespace Syscall

variable {paging : Paging}

/-- A system call up to the pass, which is due if the program ends its turn or exits. -/
def beginServe (request : Request) : Total System Bool := do
  if request.number = exit then
    match ← (System.beginExit (request.args[0]?.getD 0).toInt32).attempt with
    | .ok () => return true
    | .error error =>
      Action.note (.exitRefused (← System.getTable).current error)
      let _ ← answer failure
      return false
  else if request.number = getPid then
    let _ ← answer (UInt32.ofNat (← System.getTable).current)
    return false
  else if request.number = getParentPid then
    let parent := (← System.getTable).currentProcess?.bind Process.parent
    let _ ← answer (UInt32.ofNat (parent.getD 0))
    return false
  else if request.number = yield then
    let _ ← answer 0
    return true
  else
    Action.note (.unknownCall request.number.toNat (← System.getTable).current)
    let _ ← answer failure
    return false

theorem serve_eq (request : Request) :
    (do let _ ← serve paging request : Total System Unit) = (do
      if ← beginServe request then
        let _ ← System.schedule paging) := by
  unfold serve beginServe
  -- The calls in the order in which the kernel tells them apart: exit, the pids, yield, others.
  split
  · rw [runExit, System.exit_eq, ← System.unrefused_schedule, Action.attempt_bind_unrefused]
    simp only [bind_assoc]
    refine bind_congr fun result => ?_
    cases result with
    | ok value => simp only [Action.goOn, pure_bind, if_true, bind_map_left]
    | error error => simp only [Action.goOn, bind_assoc, pure_bind, Bool.false_eq_true, if_false]
  · split
    · simp only [bind_assoc, pure_bind, Bool.false_eq_true, if_false]
    · split
      · simp only [bind_assoc, pure_bind, Bool.false_eq_true, if_false]
      · split
        · simp only [bind_assoc, pure_bind, if_true]
        · simp only [bind_assoc, pure_bind, Bool.false_eq_true, if_false]

end Syscall

end KernelResources
