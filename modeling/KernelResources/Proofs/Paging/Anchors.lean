import KernelResources.Proofs.Paging.Agreement

/-!
# Frames that the kernel space keeps

The kernel space gets its directory and the tables of the kernel region when it is built, and it
never gives one of them back. Pages and tables that it takes later come and go.

* `Paging.Anchored` says that the tables of the kernel region are where they were; every permitted
  request keeps them there.
* `Building.exists_since`: so the frames of the kernel space are those that it was built with, and
  the ones that it has taken since.
-/

namespace KernelResources

namespace Paging

open Machine

variable {paging : Paging} {memory memory' memory'' : WordMemory} {machine : Machine}
  {spaces : List AddressSpace} {others : List Nat} {space : AddressSpace} {request : Request}

/-- In the slots of the kernel region, the kernel space leads to the same tables as before. -/
def Anchored (paging : Paging) (memory memory' : WordMemory) : Prop :=
  ∀ slot < paging.layout.sharedSlots,
    (memory'.entry paging.kernel.directory slot).frame? =
      (memory.entry paging.kernel.directory slot).frame?

theorem Anchored.refl (paging : Paging) (memory : WordMemory) : paging.Anchored memory memory :=
  fun _ _ => rfl

theorem Anchored.trans (h : paging.Anchored memory memory')
    (h' : paging.Anchored memory' memory'') : paging.Anchored memory memory'' :=
  fun slot hslot => (h' slot hslot).trans (h slot hslot)

/-! ## Requests -/

/-- Letting user mode through an entry does not change where it leads. -/
theorem Shown.anchored {ledger : Ledger} (h : Shown paging ledger request machine)
    (hkernel : paging.kernel ∈ ledger.spaces) :
    paging.Anchored ledger.machine.memory machine.memory := by
  intro slot hslot
  rcases h.upper hkernel hslot with hsame | ⟨-, -, hopened⟩
  · rw [hsame]
  · rw [hopened]
    exact Entry.frame?_openToUser _

/-- Whatever is requested, no table of the kernel region is moved. -/
theorem ensures_anchored (h : Consistent paging machine spaces others) (request : Request)
    (hpermits : Ledger.Permits paging ⟨machine, #[], spaces, []⟩ request) :
    (request.run paging).Ensures machine
      (fun _ machine' => paging.Anchored machine.memory machine'.memory)
      fun _ machine' => paging.Anchored machine.memory machine'.memory := by
  let ledger : Ledger := ⟨machine, #[], spaces, []⟩
  have hledger : Consistent paging ledger.machine ledger.spaces others := h
  apply (ensures_shown hledger hpermits).mono
  · intro _ _ hdone
    exact hdone.anchored h.kernel_mem
  · intro _ _ hrefused
    exact hrefused.anchored h.kernel_mem

theorem anchored_createSpace (h : Consistent paging machine spaces others) :
    paging.createSpace.Ensures machine
      (fun _ machine' => paging.Anchored machine.memory machine'.memory)
      fun _ machine' => paging.Anchored machine.memory machine'.memory :=
  Action.ensures_of_return Grant.space (ensures_anchored h .createSpace trivial)

theorem anchored_mapFresh (h : Consistent paging machine spaces others) (hspace : space ∈ spaces)
    (address : Nat) (flags : Flags) :
    (paging.mapFresh space address flags).Ensures machine
      (fun _ machine' => paging.Anchored machine.memory machine'.memory)
      fun _ machine' => paging.Anchored machine.memory machine'.memory :=
  Action.ensures_of_return (fun _ => Grant.nothing)
    (ensures_anchored h (.mapFresh space address flags) hspace)

theorem anchored_destroySpace (h : Consistent paging machine spaces others)
    (hspace : space ∈ spaces) :
    (paging.destroySpace space).Ensures machine
      (fun _ machine' => paging.Anchored machine.memory machine'.memory)
      fun _ machine' => paging.Anchored machine.memory machine'.memory :=
  Action.ensures_of_return (fun _ => Grant.nothing)
    (ensures_anchored h (.destroySpace space) hspace)

/-! ## What the kernel space was built with -/

/-- A space that was just built with the tables of the kernel region never loses a frame. -/
theorem Building.exists_since (h : Building paging machine others)
    (hpresent : ∀ slot < entryCount,
      (machine.memory.entry paging.kernel.directory slot).frame?.isSome =
        decide (slot < paging.layout.sharedSlots))
    (hanchored : paging.Anchored machine.memory memory) :
    ∃ since, (paging.spaceFrames memory paging.kernel).Perm
      (paging.spaceFrames machine.memory paging.kernel ++ since) := by
  have hsubset : paging.spaceFrames machine.memory paging.kernel ⊆
      paging.spaceFrames memory paging.kernel := by
    intro frame hframe
    rcases List.mem_cons.mp hframe with rfl | hframe
    · exact mem_spaceFrames_directory
    -- Apart from the directory, every frame is a table of the kernel region.
    · obtain ⟨slot, hown, hframe⟩ := List.mem_flatMap.mp hframe
      have hslot := (mem_ownSlots.mp hown).1
      cases htable : (machine.memory.entry paging.kernel.directory slot).frame? with
      | none =>
        rw [WordMemory.slotFrames_of_none htable] at hframe
        cases hframe
      | some table =>
        have hclean : machine.memory.ownedLeaves table = [] := by
          rw [WordMemory.ownedLeaves_eq]
          refine List.flatMap_eq_nil_iff.mpr fun leaf hleaf => ?_
          rw [h.clean slot hslot table htable leaf (List.mem_range.mp hleaf)]
          rfl
        rw [WordMemory.slotFrames_of_some htable, hclean, List.mem_singleton] at hframe
        have hshared : slot < paging.layout.sharedSlots := by
          have hsome := hpresent slot hslot
          rw [htable] at hsome
          exact of_decide_eq_true hsome.symm
        apply mem_spaceFrames_of_slot hown
        rw [hframe]
        exact WordMemory.mem_slotFrames_of_some ((hanchored slot hshared).trans htable)
  have hnodup := nodup_spaceFrames h.nodup List.mem_cons_self
  obtain ⟨kept, hkept, hsublist⟩ := List.subperm_of_subset hnodup hsubset
  obtain ⟨since, hsince⟩ := hsublist.exists_perm_append
  exact ⟨since, hsince.trans (hkept.append_right since)⟩

end Paging

end KernelResources
