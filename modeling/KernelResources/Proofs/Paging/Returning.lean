import KernelResources.Proofs.Paging.Operations
import KernelResources.Proofs.Returns

/-!
# Address spaces are built and taken down without halting

Operations on address spaces are checked in two ways that could halt the kernel. A frame that is
taken or given back changes the count of free frames, and a table has 1024 entries. The first never
fails as long as that count is right, and the second because slots are made of ten bits of an
address, or lie below the end of the kernel region.

* `Machine.Accurate`: the count of free frames is right. Whatever the tables hold makes no
  difference.
* There is one lemma for each operation that processes are created and removed with; each of them
  survives with this invariant.
-/

namespace KernelResources

open KernelResources.Action

namespace FramePool

theorem survives_allocate : allocate.Survives Consistent := by
  refine fun pool h => returns_of_exists fun journal => ?_
  cases hfree : pool.lowestFree 0 with
  | none =>
    rw [allocate_of_none journal hfree]
    exact ⟨pool, rfl, h⟩
  | some frame =>
    rw [allocate_of_some h journal hfree]
    exact ⟨_, rfl, consistent_taking h (lowestFree_eq_some_iff.mp hfree).2.1⟩

theorem survives_allocate? : allocate?.Survives Consistent :=
  survives_allocate.attempt.bind fun result => by
    cases result <;> exact survives_pure _

theorem survives_free (frame : Nat) : (free frame).Survives Consistent := by
  refine fun pool h => returns_of_exists fun journal => ?_
  by_cases htaken : frame ∈ pool.takenFrames
  · rw [free_eq h journal htaken]
    exact ⟨_, rfl, consistent_releasing h (mem_takenFrames.mp htaken).1⟩
  · rw [free_of_not_mem journal htaken]
    exact ⟨pool, rfl, h⟩

theorem survives_discard (frame : Nat) : (discard frame).Survives Consistent :=
  (survives_free frame).attempt.bind fun _ => survives_pure ()

end FramePool

namespace Machine

variable {ε α : Type}

/-- The count of free frames is right. -/
def Accurate (machine : Machine) : Prop := machine.frames.Consistent

theorem survives_onFrames {action : Action ε FramePool α}
    (h : action.Survives FramePool.Consistent) : (onFrames action).Survives Accurate :=
  h.within (fun _ haccurate => haccurate) fun _ _ _ hpool => hpool

/-- The count of free frames does not depend on what memory holds. -/
theorem survives_onMemory {action : Action ε WordMemory α} (h : action.Survives fun _ => True) :
    (onMemory action).Survives Accurate :=
  h.within (fun _ _ => trivial) fun _ _ haccurate _ => haccurate

theorem survives_takeZeroed : takeZeroed.Survives Accurate :=
  (survives_onFrames (FramePool.survives_allocate?.mapError _)).bind fun found =>
    (survives_ofOption _ found).bind fun frame =>
      Survives.bind (survives_modify fun _ haccurate => haccurate) fun _ => survives_pure frame

theorem survives_discardFrame (frame : Nat) :
    (discardFrame frame : Action ε Machine Unit).Survives Accurate :=
  survives_onFrames ((FramePool.survives_discard frame).mapError _)

theorem survives_checkSlot {slot : Nat} (hslot : slot < entryCount) :
    (Table.checkSlot slot : Action ε WordMemory Unit).Survives fun _ => True := by
  rw [Table.checkSlot, if_pos hslot]
  exact survives_pure ()

theorem survives_entry (frame : Nat) {slot : Nat} (hslot : slot < entryCount) :
    (entry frame slot : Action ε Machine Entry).Survives Accurate :=
  survives_onMemory ((survives_checkSlot hslot).bind fun _ =>
    survives_get fun _ => survives_pure _)

theorem survives_setEntry (frame : Nat) {slot : Nat} (hslot : slot < entryCount) (new : Entry) :
    (setEntry frame slot new : Action ε Machine Unit).Survives Accurate :=
  survives_onMemory ((survives_checkSlot hslot).bind fun _ => survives_modify fun _ => id)

theorem survives_loadDirectory (directory : Nat) :
    (loadDirectory directory : Action ε Machine Unit).Survives Accurate :=
  survives_modify fun _ haccurate => haccurate

end Machine

namespace Paging

open Machine

variable {ε : Type} {paging : Paging}

/-! ## Entering pages -/

theorem survives_tableFor (space : AddressSpace) (address : Nat) (create : Bool) :
    (tableFor space address create).Survives Accurate := by
  have hslot := slotInDirectory_lt address
  refine (survives_entry _ hslot).bind fun upper => ?_
  split
  · exact survives_pure _
  · exact (survives_refuseIf _ _).bind fun _ => survives_takeZeroed.bind fun table =>
      (survives_setEntry _ hslot _).bind fun _ => survives_pure table

theorem survives_openToUser (space : AddressSpace) (address : Nat) (flags : Flags) :
    (openToUser space address flags : Action ε Machine Unit).Survives Accurate := by
  have hslot := slotInDirectory_lt address
  unfold openToUser
  split
  · refine (survives_entry _ hslot).bind fun upper => ?_
    split
    · exact survives_pure ()
    · exact survives_setEntry _ hslot _
  · exact survives_pure ()

theorem survives_enter (space : AddressSpace) (address physical : Nat) (flags : Flags) :
    (paging.enter space address physical flags).Survives Accurate :=
  have hslot := slotInTable_lt address
  (survives_refuseIf _ _).bind fun _ => (survives_tableFor space address true).bind fun table =>
    (survives_entry table hslot).bind fun _ => (survives_refuseIf _ _).bind fun _ =>
      (survives_setEntry table hslot _).bind fun _ => survives_openToUser space address flags

theorem survives_mapFresh (space : AddressSpace) (address : Nat) (flags : Flags) :
    (paging.mapFresh space address flags).Survives Accurate := by
  refine survives_takeZeroed.bind fun frame =>
    (survives_enter space address _ _).attempt.bind fun result => ?_
  cases result with
  | ok value => exact survives_pure frame
  | error error => exact (survives_discardFrame frame).bind fun _ => survives_throw error

/-! ## Whole spaces -/

/-- The kernel region ends below 4 GiB, so its slots exist. -/
theorem survives_createSpace (hlimit : paging.layout.heapLimit < bitRange 32) :
    paging.createSpace.Survives Accurate := by
  refine survives_takeZeroed.bind fun directory => ?_
  refine (Survives.forM fun slot hslot => ?_).bind fun _ => survives_pure _
  have hslot : slot < entryCount :=
    Nat.lt_of_lt_of_le (List.mem_range.mp hslot) (sharedSlots_le hlimit)
  exact (survives_entry _ hslot).bind fun upper => survives_setEntry directory hslot upper

theorem survives_discardLeaf (leaf : Entry) :
    (discardLeaf leaf : Action ε Machine Unit).Survives Accurate := by
  unfold discardLeaf
  split
  · split
    · exact survives_discardFrame _
    · exact survives_pure ()
  · exact survives_pure ()

theorem survives_discardSlot (space : AddressSpace) {slot : Nat} (hslot : slot < entryCount) :
    (discardSlot space slot : Action ε Machine Unit).Survives Accurate := by
  refine (survives_entry _ hslot).bind fun upper => ?_
  split
  · exact survives_pure ()
  · refine survives_get fun machine => ?_
    -- That there are 1024 leaves is better kept out of sight.
    generalize Table.entries machine.memory _ = leaves
    refine (Survives.forM fun leaf _ => survives_discardLeaf leaf).bind fun _ => ?_
    split
    · exact survives_discardFrame _
    · exact survives_pure ()

theorem survives_destroySpace (space : AddressSpace) :
    (paging.destroySpace space).Survives Accurate :=
  survives_get fun _ => (survives_refuseIf _ _).bind fun _ =>
    (Survives.forM fun _ hslot => survives_discardSlot space
      (List.mem_range.mp (List.mem_of_mem_drop hslot))).bind fun _ =>
        survives_discardFrame space.directory

end Paging

end KernelResources
