import KernelResources.Proofs.Process.Changes

/-!
# Which processes have ended

A process ends when it exits or when another one ends it. Nothing else that the scheduler does ends
a process: if one has ended afterwards, then it had ended before.

* `ProcessTable.NoneEnds` says that nobody has ended in between.
* `Removal.ended`: the process that is removed is not among those that have ended any more.
* `Course.noneEnds`: creating, removing and waking processes ends none; `noneEnds_ticking` says the
  same of a tick.
-/

namespace KernelResources

/-- A deed that ends no process and makes no pass. -/
def Deed.Sparing : Deed → Prop
  | launch | remove _ | wake _ => True
  | kill _ | tick | pass _ => False

namespace ProcessTable

variable {table table' middle : ProcessTable}

/-- Every process that has ended had ended before. -/
def NoneEnds (table table' : ProcessTable) : Prop := ∀ pid, table'.Ended pid → table.Ended pid

theorem NoneEnds.refl (table : ProcessTable) : NoneEnds table table := fun _ hended => hended

theorem NoneEnds.trans (h : NoneEnds table middle) (h' : NoneEnds middle table') :
    NoneEnds table table' :=
  fun pid hended => h pid (h' pid hended)

/-- It is enough to look at the processes one by one. -/
theorem noneEnds_of_forall
    (h : ∀ process ∈ table'.processes, process.state = .terminated → table.Ended process.pid) :
    NoneEnds table table' := by
  rintro _ ⟨process, hmem, rfl, hstate⟩
  exact h process hmem hstate

theorem ended_of_mem {process : Process} (hmem : process ∈ table.processes)
    (hstate : process.state = .terminated) : table.Ended process.pid :=
  ⟨process, hmem, rfl, hstate⟩

/-- No process ends because the processor changes hands, or because it loses its relatives. -/
theorem enduring_ended (table : ProcessTable) :
    Process.Enduring fun process => process.state = .terminated → table.Ended process.pid where
  kin _ _ _ h := h
  refill _ h := h
  resume _ _ _ := nofun
  suspend cpu process h := by
    unfold System.suspend
    dsimp only
    split
    · exact nofun
    · exact h

theorem noneEnds_launching (name : String) (context : Registers) (space : ProcessSpace)
    (stack : KernelStack) : NoneEnds table (table.launching name context space stack) := by
  apply noneEnds_of_forall
  apply forall_launching table.enduring_ended
  · exact nofun
  · exact fun process hmem hstate => ended_of_mem hmem hstate

/-- Waking is no end. -/
theorem noneEnds_waking (pid : Nat) :
    NoneEnds table (table.update pid ({ · with state := .ready, wakeAt := none })) := by
  apply noneEnds_of_forall
  refine List.forall_mem_map.mpr fun process hmem => ?_
  split
  · exact nofun
  · exact fun hstate => ended_of_mem hmem hstate

/-- Whatever is done to one process, another one that has ended afterwards had ended before. -/
theorem ended_of_update {pid other : Nat} {change : Process → Process}
    (hpid : ∀ process, (change process).pid = process.pid) (hne : other ≠ pid)
    (hended : (table.update pid change).Ended other) : table.Ended other := by
  obtain ⟨process, hmem, rfl, hstate⟩ := hended
  obtain ⟨before, hbefore, rfl⟩ := List.mem_map.mp hmem
  by_cases hsame : before.pid = pid
  · rw [if_pos hsame] at hne
    exact absurd ((hpid before).trans hsame) hne
  · rw [if_neg hsame] at hstate ⊢
    exact ended_of_mem hbefore hstate

theorem noneEnds_ticking : NoneEnds table table.ticking := by
  have htakes : Takes (fun process => process.state = .terminated → table.Ended process.pid)
      (fun process => process.state = .terminated → table.Ended process.pid) table table.ticking :=
    takes_ticking (fun _ _ _ => nofun) (fun _ _ h => h) fun _ _ _ h => h
  apply noneEnds_of_forall
  exact htakes.forall fun process hmem hstate => ended_of_mem hmem hstate

end ProcessTable

namespace Processor

open ProcessTable

variable {processor processor' : Processor} {pid : Nat}

/-- A process that has ended after a removal is another one, and had ended before. -/
theorem Removal.ended (h : Removal pid processor processor') {other : Nat}
    (hended : processor'.table.Ended other) : other ≠ pid ∧ processor.table.Ended other := by
  have htakes : Takes
      (fun process => process.state = .terminated →
        process.pid ≠ pid ∧ processor.table.Ended process.pid)
      (fun process => process.state = .terminated →
        process.pid ≠ pid ∧ processor.table.Ended process.pid)
      (processor.table.remove pid) processor'.table := h.takes fun _ _ _ h => h
  obtain ⟨process, hmem, rfl, hstate⟩ := hended
  refine htakes.forall (fun process hmem hstate => ?_) process hmem hstate
  obtain ⟨hmem, hne⟩ := List.mem_filter.mp hmem
  exact ⟨of_decide_eq_true hne, ended_of_mem hmem hstate⟩

theorem Does.noneEnds {deed : Deed} (h : Does deed processor processor') (hdeed : deed.Sparing) :
    NoneEnds processor.table processor'.table := by
  cases h with
  | launch => exact noneEnds_launching _ _ _ _
  | remove hremoval => exact fun _ hended => (hremoval.ended hended).2
  | wake => exact noneEnds_waking _
  | kill | tick | pass => exact hdeed.elim

theorem Course.noneEnds {deeds : List Deed} (h : Course deeds processor processor')
    (hdeeds : ∀ deed ∈ deeds, deed.Sparing) : NoneEnds processor.table processor'.table :=
  h.keeps (fun processor' => NoneEnds processor.table processor'.table)
    (fun deed hmem _ _ hdoes hnone => hnone.trans (hdoes.noneEnds (hdeeds deed hmem))) (.refl _)

end Processor

end KernelResources
