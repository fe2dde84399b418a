import KernelResources.Process.Basic

/-!
# The process table

All processes, in ascending order of their pids, with what the scheduler keeps between two of its
passes. `find?` is how the rest of the kernel looks at the table, and the lemmas say what each
change of the table does to it.
-/

namespace KernelResources

/-- The processes and the state of the scheduler. -/
structure ProcessTable where
  /-- The processes, in ascending order of their pids. -/
  processes : List Process
  /-- The process that has the processor. -/
  current : Nat
  /-- The process that runs when no other can. -/
  idle : Nat
  /-- The last process dispatched that is not the idle one; the next turn goes to one after it. -/
  cursor : Nat
  /-- The pid of the next process. -/
  nextPid : Nat
  /-- Timer ticks since the start. -/
  clock : Nat
deriving DecidableEq, Repr, Inhabited

namespace ProcessTable

/-- The process of a given pid. -/
def find? (table : ProcessTable) (pid : Nat) : Option Process :=
  table.processes.find? (·.pid = pid)

/-- What the process of a given pid is doing. -/
def state? (table : ProcessTable) (pid : Nat) : Option ProcessState :=
  (table.find? pid).map Process.state

/-- The process that has the processor. -/
def currentProcess? (table : ProcessTable) : Option Process := table.find? table.current

/-- The pids in the table. -/
def pids (table : ProcessTable) : List Nat := table.processes.map Process.pid

/-- Changes the process of a given pid. -/
def update (table : ProcessTable) (pid : Nat) (change : Process → Process) : ProcessTable :=
  { table with
    processes := table.processes.map fun process =>
      if process.pid = pid then change process else process }

/-- Changes every process. -/
def updateAll (table : ProcessTable) (change : Process → Process) : ProcessTable :=
  { table with processes := table.processes.map change }

/-- Adds a process with the next pid. -/
def add (table : ProcessTable) (process : Process) : ProcessTable :=
  { table with processes := table.processes ++ [process] }

/-- Removes the process of a given pid. -/
def remove (table : ProcessTable) (pid : Nat) : ProcessTable :=
  { table with processes := table.processes.filter (·.pid ≠ pid) }

/-- The first process that is ready, not idle, and passes a test. -/
def firstReady? (table : ProcessTable) (test : Process → Bool) : Option Nat :=
  (table.processes.find? fun process =>
    test process ∧ process.pid ≠ table.idle ∧ process.state = .ready).map Process.pid

/-- The process whose turn it is: the first ready one behind the cursor, in the order of the pids
and wrapping around. If none is ready, the current process goes on if it can, and the idle process
runs if it cannot. -/
def nextTurn (table : ProcessTable) : Nat :=
  match table.firstReady? fun process => table.cursor < process.pid with
  | some pid => pid
  | none =>
    match table.firstReady? fun process => process.pid ≤ table.cursor with
    | some pid => pid
    | none =>
      if table.state? table.current = some .running then table.current else table.idle

variable {table : ProcessTable} {pid pid' : Nat}

theorem pid_of_find? {process : Process} (h : table.find? pid = some process) :
    process.pid = pid := by
  simpa using List.find?_some h

theorem mem_of_find? {process : Process} (h : table.find? pid = some process) :
    process ∈ table.processes := List.mem_of_find?_eq_some h

/-- A change that keeps pids is seen at the pid it names. -/
theorem find?_update {change : Process → Process}
    (hpid : ∀ process, (change process).pid = process.pid) :
    (table.update pid change).find? pid' =
      if pid' = pid then (table.find? pid').map change else table.find? pid' := by
  have hcongr (process : Process) :
      decide ((if process.pid = pid then change process else process).pid = pid') =
        decide (process.pid = pid') := by
    by_cases h : process.pid = pid
    · rw [if_pos h, hpid]
    · rw [if_neg h]
  unfold find? update
  simp only [List.find?_map, Function.comp_def, hcongr]
  by_cases h : pid' = pid
  · rw [if_pos h]
    cases hfind : table.processes.find? (fun process => decide (process.pid = pid')) with
    | none => rfl
    | some process =>
      have : process.pid = pid := by
        have hp : process.pid = pid' := by simpa using List.find?_some hfind
        exact hp.trans h
      simp [this]
  · rw [if_neg h]
    cases hfind : table.processes.find? (fun process => decide (process.pid = pid')) with
    | none => rfl
    | some process =>
      have : process.pid ≠ pid := by
        have hp : process.pid = pid' := by simpa using List.find?_some hfind
        exact fun h' => h (hp.symm.trans h')
      simp [this]

theorem find?_remove :
    (table.remove pid).find? pid' = if pid' = pid then none else table.find? pid' := by
  unfold find? remove
  by_cases h : pid' = pid
  · subst h
    rw [if_pos rfl, List.find?_eq_none]
    intro process hmem
    simpa using (List.mem_filter.mp hmem).2
  · rw [if_neg h, List.find?_filter]
    congr 1
    funext process
    by_cases hp : process.pid = pid'
    · have : process.pid ≠ pid := fun h' => h (hp.symm.trans h')
      simp [hp, h]
    · simp [hp]

end ProcessTable

end KernelResources
