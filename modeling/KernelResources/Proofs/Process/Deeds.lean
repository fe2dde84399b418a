import KernelResources.Proofs.Process.Moves
import KernelResources.Syscall

/-!
# What the scheduler sets out to do

A move of the scheduler says what happens to the process table, but not why. A deed is what an
operation sets out to do, and it is larger than a move: the pass that takes the processor from a
process also removes processes that have ended, and so does the tick that ends a turn.

* `Processor.Does deed` is what a deed does. It says which processes a pass may remove, and when a
  tick makes a pass.
* `Processor.Course deeds` is what some of the deeds do, one after another. An operation that is
  refused leaves deeds out.
* `Course.keeps`: what every one of the deeds keeps, a course of them keeps.
* `Course.path`: a course consists of moves, so it keeps everything that moves keep.
-/

namespace KernelResources

/-- What an operation sets out to do. -/
inductive Deed where
  /-- A process is created. -/
  | launch
  /-- A process is removed. -/
  | remove (pid : Nat)
  /-- A process that waits is woken. -/
  | wake (pid : Nat)
  /-- A process that does not have the processor is ended. -/
  | kill (pid : Nat)
  /-- A tick passes. -/
  | tick
  /-- The current process gives the processor away. -/
  | pass (leave : Leave)
deriving DecidableEq, Repr

/-- What the system sets out to do when it acts on an event. -/
def Event.deed : Event → Deed
  | .tick => .tick
  | .wake pid => .wake pid

/-- What a program asks for in a system call, as far as other processes are concerned. -/
def Syscall.Request.deeds (request : Request) : List Deed :=
  if request.number = Syscall.exit then [.pass (.exit (request.args.get 0).toInt32)]
  else if request.number = Syscall.yield then [.pass .stay]
  else []

namespace ProcessTable

/-- The table has a process of this pid that has ended. -/
def Ended (table : ProcessTable) (pid : Nat) : Prop :=
  ∃ process ∈ table.processes, process.pid = pid ∧ process.state = .terminated

/-- The turn of the current process is over. The idle process has none. -/
def TurnOver (table : ProcessTable) : Prop :=
  table.current = table.idle ∨
    ∀ process ∈ table.processes, process.pid = table.current → process.remaining = 0

end ProcessTable

namespace Processor

variable {processor middle processor' : Processor} {deeds : List Deed}

/-- A process that does not have the processor is removed. -/
def Removal (pid : Nat) (processor processor' : Processor) : Prop :=
  ∃ process, processor.table.find? pid = some process ∧ pid ≠ processor.table.current ∧
    pid ≠ processor.table.idle ∧
      processor' = { processor with table := System.unlink process (processor.table.remove pid) }

/-- Any number of processes are removed, all of which may be. -/
def Clearing (free : Nat → Prop) : Processor → Processor → Prop :=
  Relation.ReflTransGen fun processor processor' =>
    ∃ pid, free pid ∧ Removal pid processor processor'

/-- The process whose turn it is gets the processor, and then processes that have ended are removed,
but not the one that had the processor before. -/
def Pass (processor : Processor) : Processor → Prop :=
  Clearing (fun pid => pid ≠ processor.table.current ∧ processor.turn.table.Ended pid)
    processor.turn

/-- A tick passes, and there is a pass if it ends the turn of the current process. -/
def Ticks (processor processor' : Processor) : Prop :=
  let ticked := { processor with table := processor.table.ticking }
  processor' = ticked ∨ ticked.table.TurnOver ∧ Pass ticked processor'

/-- What a deed does. -/
inductive Does : Deed → Processor → Processor → Prop where
  | launch {processor : Processor} (name : String) (context : Registers) (space : ProcessSpace)
      (stack : KernelStack) : Does .launch processor
        { processor with table := processor.table.launching name context space stack }
  | remove {processor processor' : Processor} {pid : Nat} : Removal pid processor processor' →
      Does (.remove pid) processor processor'
  | wake {processor : Processor} {process : Process} {pid : Nat} :
      processor.table.find? pid = some process → process.state = .blocked →
        Does (.wake pid) processor { processor with
          table := processor.table.update pid ({ · with state := .ready, wakeAt := none }) }
  | kill {processor : Processor} {pid : Nat} : pid ≠ processor.table.current →
      pid ≠ processor.table.idle → Does (.kill pid) processor { processor with
        table := processor.table.update pid
          ({ · with state := .terminated, exitCode := some System.killedCode }) }
  | tick {processor processor' : Processor} : Ticks processor processor' →
      Does .tick processor processor'
  | pass {processor processor' : Processor} {leave : Leave} :
      leave = .stay ∨ processor.table.current ≠ processor.table.idle →
        (∀ wakeAt, leave = .sleep wakeAt → processor.table.clock < wakeAt) →
          Pass { processor with table := processor.table.leaving leave } processor' →
            Does (.pass leave) processor processor'

/-- What some of the deeds do, one after another. -/
inductive Course : List Deed → Processor → Processor → Prop where
  | nil {processor : Processor} : Course [] processor processor
  | skip {processor processor' : Processor} {deed : Deed} {deeds : List Deed} :
      Course deeds processor processor' → Course (deed :: deeds) processor processor'
  | step {processor middle processor' : Processor} {deed : Deed} {deeds : List Deed} :
      Does deed processor middle → Course deeds middle processor' →
        Course (deed :: deeds) processor processor'

/-! ## Courses -/

/-- Nothing needs to be done. -/
theorem Course.refl (processor : Processor) : (deeds : List Deed) → Course deeds processor processor
  | [] => .nil
  | _ :: rest => .skip (.refl processor rest)

/-- A pass while the current process could go on. -/
theorem Pass.does (h : Pass processor processor') : Does (.pass .stay) processor processor' :=
  .pass (.inl rfl) (fun _ => nofun) h

theorem Does.course {deed : Deed} (h : Does deed processor processor') :
    Course [deed] processor processor' := .step h .nil

theorem Course.append {more : List Deed} (h : Course deeds processor middle)
    (h' : Course more middle processor') : Course (deeds ++ more) processor processor' := by
  induction h with
  | nil => exact h'
  | skip _ ih => exact .skip (ih h')
  | step hdoes _ ih => exact .step hdoes (ih h')

/-- What every one of the deeds keeps, all of them keep. -/
theorem Course.keeps (inv : Processor → Prop)
    (hkeeps : ∀ deed ∈ deeds, ∀ processor processor', Does deed processor processor' →
      inv processor → inv processor')
    (h : Course deeds processor processor') (hinv : inv processor) : inv processor' := by
  induction h with
  | nil => exact hinv
  | skip _ ih => exact ih (fun deed hmem => hkeeps deed (List.mem_cons_of_mem _ hmem)) hinv
  | step hdoes _ ih =>
    exact ih (fun deed hmem => hkeeps deed (List.mem_cons_of_mem _ hmem))
      (hkeeps _ List.mem_cons_self _ _ hdoes hinv)

/-- What every removal that may be keeps, all of them keep. -/
theorem Clearing.keeps {free : Nat → Prop} (inv : Processor → Prop)
    (hkeeps : ∀ pid, free pid → ∀ processor processor', Removal pid processor processor' →
      inv processor → inv processor')
    (h : Clearing free processor processor') (hinv : inv processor) : inv processor' := by
  induction h with
  | refl => exact hinv
  | tail _ hremoval ih =>
    obtain ⟨pid, hfree, hremoval⟩ := hremoval
    exact hkeeps pid hfree _ _ hremoval ih

/-! ## Deeds are moves -/

theorem Removal.move {pid : Nat} (h : Removal pid processor processor') :
    Move processor processor' := by
  obtain ⟨process, hfind, hcurrent, hidle, rfl⟩ := h
  obtain rfl := ProcessTable.pid_of_find? hfind
  exact .remove hfind hcurrent hidle

theorem Clearing.path {free : Nat → Prop} (h : Clearing free processor processor') :
    Path processor processor' :=
  h.keeps (Path processor) (fun _ _ _ _ hremoval hpath => hpath.tail hremoval.move) .refl

theorem Does.path {deed : Deed} (h : Does deed processor processor') :
    Path processor processor' := by
  cases h with
  | launch name context space stack => exact .single (.launch name context space stack)
  | remove hremoval => exact .single hremoval.move
  | wake hfind hblocked =>
    obtain rfl := ProcessTable.pid_of_find? hfind
    exact .single (.wake hfind hblocked)
  | kill hcurrent hidle => exact .single (.kill hcurrent hidle)
  | tick hticks =>
    rcases hticks with rfl | ⟨-, hpass⟩
    · exact .single .tick
    · exact .head .tick (.head (.turn .stay (.inl rfl)) (Clearing.path hpass))
  | pass hidle _ hpass => exact .head (.turn _ hidle) (Clearing.path hpass)

theorem Course.path (h : Course deeds processor processor') : Path processor processor' :=
  h.keeps (Path processor) (fun _ _ _ _ hdoes hpath => hpath.trans hdoes.path) .refl

end Processor

end KernelResources
