import KernelResources.Proofs.Frame.FreeSet
import KernelResources.Proofs.Paging.Mapping

/-!
# What requests take from the pool

A request about pages may need frames: for a directory, for a table, for the page itself. The maps
of address spaces do not tell which. Here frames are followed from a state that is left behind to
the one that is reached, whatever happens in between.

* `Machine.Takes machine frames machine'`: `machine'` is `machine` with `frames` taken, and what was
  taken before is what it was. With no frames at all, the request has been undone.
* `AddressSpace.Stands`: a space whose tables are taken translates as before.
* `settles_tableFor_exact`: a table is there already, or is made from the least free frame.
* `takes_createSpace`, `takes_enter`, `takes_mapFresh`: what building a space and backing its first
  page take, and that nothing is taken if they are refused.
-/

namespace KernelResources

/-- The directory of the space, and every table that it leads to, lie in frames that are taken. -/
structure AddressSpace.Stands (space : AddressSpace) (machine : Machine) : Prop where
  directory : space.directory ∈ machine.frames.takenFrames
  table : ∀ slot < entryCount, ∀ table,
    (machine.memory.entry space.directory slot).frame? = some table →
      table ∈ machine.frames.takenFrames

namespace Machine

/-- `machine'` is `machine` after the frames of a list were taken. What was taken before holds what
it held, and the memory management unit has not been told anything. -/
structure Takes (machine : Machine) (frames : List Nat) (machine' : Machine) : Prop where
  /-- The count of free frames is right. -/
  pool : machine'.frames.Consistent
  /-- The pool is as large as before. -/
  total_eq : machine'.frames.total = machine.frames.total
  /-- The frames were free, and they are taken. -/
  taken : machine'.frames.takenFrames.Perm (frames ++ machine.frames.takenFrames)
  /-- Nothing was written to a frame that was taken. -/
  entry_eq : ∀ frame ∈ machine.frames.takenFrames, ∀ slot < entryCount,
    machine'.memory.entry frame slot = machine.memory.entry frame slot
  /-- The same directory is loaded. -/
  active_eq : machine'.active = machine.active
  /-- The memory management unit was left alone. -/
  calls_eq : machine'.calls = machine.calls

namespace Takes

variable {origin machine machine' : Machine} {frames frames' : List Nat} {frame slot : Nat}

theorem refl (hpool : machine.frames.Consistent) : Takes machine [] machine :=
  ⟨hpool, rfl, List.Perm.refl _, fun _ _ _ _ => rfl, rfl, rfl⟩

theorem trans (h : Takes origin frames machine) (h' : Takes machine frames' machine') :
    Takes origin (frames' ++ frames) machine' where
  pool := h'.pool
  total_eq := h'.total_eq.trans h.total_eq
  taken := by
    rw [List.append_assoc]
    exact h'.taken.trans (h.taken.append_left frames')
  entry_eq frame hframe slot hslot := by
    have hmiddle : frame ∈ machine.frames.takenFrames :=
      h.taken.mem_iff.mpr (List.mem_append_right _ hframe)
    rw [h'.entry_eq frame hmiddle slot hslot, h.entry_eq frame hframe slot hslot]
  active_eq := h'.active_eq.trans h.active_eq
  calls_eq := h'.calls_eq.trans h.calls_eq

variable (h : Takes origin frames machine)
include h

theorem nodup : (frames ++ origin.frames.takenFrames).Nodup :=
  h.taken.nodup_iff.mp (FramePool.nodup_takenFrames _)

theorem not_mem_taken (hframe : frame ∈ frames) : frame ∉ origin.frames.takenFrames :=
  fun htaken => (List.nodup_append.mp h.nodup).2.2 frame hframe frame htaken rfl

theorem mem_taken (hframe : frame ∈ frames) : frame ∈ machine.frames.takenFrames :=
  h.taken.mem_iff.mpr (List.mem_append_left _ hframe)

theorem takingZeroed (hfree : machine.frames.lowestFree 0 = some frame) :
    Takes origin (frame :: frames) (machine.takingZeroed frame) := by
  obtain ⟨-, hlt, hmark, -⟩ := FramePool.lowestFree_eq_some_iff.mp hfree
  have htaking : (machine.frames.taking frame (frame + 1)).takenFrames.Perm
      (frame :: machine.frames.takenFrames) := by
    have hfirst (other : Nat) (hle : frame ≤ other) (hlt : other < frame + 1) :
        machine.frames.isTaken other = false := by
      rwa [Nat.le_antisymm (Nat.le_of_lt_succ hlt) hle]
    simpa using FramePool.takenFrames_taking hlt hfirst
  refine ⟨FramePool.consistent_taking h.pool hlt, h.total_eq, ?_, ?_, h.active_eq, h.calls_eq⟩
  · exact htaking.trans (h.taken.cons frame)
  · intro other hother slot hslot
    have hmem : other ∈ machine.frames.takenFrames :=
      h.taken.mem_iff.mpr (List.mem_append_right _ hother)
    rw [entry_takingZeroed hslot, if_neg, h.entry_eq other hother slot hslot]
    -- The frame that is filled was free.
    rintro rfl
    rw [(FramePool.mem_takenFrames.mp hmem).2] at hmark
    cases hmark

theorem entering (hframe : frame ∈ frames) (hslot : slot < entryCount) (entry : Entry) :
    Takes origin frames (machine.entering frame slot entry) where
  pool := h.pool
  total_eq := h.total_eq
  taken := h.taken
  entry_eq other hother slot' hslot' := by
    rw [Machine.entering, WordMemory.entry_setEntry _ _ hslot hslot', if_neg,
      h.entry_eq other hother slot' hslot']
    rintro ⟨rfl, -⟩
    exact h.not_mem_taken hframe hother
  active_eq := h.active_eq
  calls_eq := h.calls_eq

omit h in
theorem releasing (h : Takes origin (frame :: frames) machine) :
    Takes origin frames (machine.releasing frame) where
  pool := FramePool.consistent_releasing h.pool
    (FramePool.mem_takenFrames.mp (h.mem_taken List.mem_cons_self)).1
  total_eq := h.total_eq
  taken := by
    have hgone := FramePool.takenFrames_releasing (h.mem_taken List.mem_cons_self)
    exact (List.perm_cons frame).mp (hgone.symm.trans h.taken)
  entry_eq := h.entry_eq
  active_eq := h.active_eq
  calls_eq := h.calls_eq

theorem subset_freeFrames : frames.toFinset ⊆ origin.frames.freeFrames := by
  intro frame hframe
  rw [List.mem_toFinset] at hframe
  have hlt := (FramePool.mem_takenFrames.mp (h.mem_taken hframe)).1
  exact FramePool.mem_freeFrames_iff.mpr ⟨h.total_eq ▸ hlt, h.not_mem_taken hframe⟩

/-- The frames that were taken are free no longer, and all other free frames still are. -/
theorem freeFrames_eq : machine.frames.freeFrames = origin.frames.freeFrames \ frames.toFinset := by
  ext frame
  rw [Finset.mem_sdiff, FramePool.mem_freeFrames_iff, FramePool.mem_freeFrames_iff, h.total_eq,
    List.mem_toFinset, h.taken.mem_iff, List.mem_append]
  tauto

theorem card_toFinset : frames.toFinset.card = frames.length :=
  List.toFinset_card_of_nodup (List.nodup_append.mp h.nodup).1

/-- As many frames were free as are free now and have been taken. -/
theorem card_freeFrames :
    origin.frames.freeFrames.card = machine.frames.freeFrames.card + frames.length := by
  rw [h.freeFrames_eq, ← h.card_toFinset]
  exact (Finset.card_sdiff_add_card_eq_card h.subset_freeFrames).symm

/-- Taking frames does not show in a space that stands. -/
theorem addressMap_eq {space : AddressSpace} (hstands : space.Stands origin) :
    machine.memory.addressMap space = origin.memory.addressMap space :=
  WordMemory.addressMap_congr (h.entry_eq _ hstands.directory)
    fun slot hslot table htable => h.entry_eq _ (hstands.table slot hslot table htable)

end Takes

end Machine

namespace Paging

open Machine

variable {ε : Type} {paging : Paging} {origin machine machine' : Machine}
  {spaces : List AddressSpace} {others frames : List Nat} {space : AddressSpace}
  {address : Nat}

/-- Live spaces stand. -/
theorem Consistent.stands (h : Consistent paging machine spaces others) (hspace : space ∈ spaces) :
    space.Stands machine where
  directory :=
    h.mem_taken_of_owned (mem_ownedFrames_of_space hspace mem_spaceFrames_directory)
  table _ hslot _ htable :=
    h.mem_taken_of_owned (h.toShared.lends.isTable hspace hslot htable).mem_ownedFrames

/-! ## Tables -/

/-- A table is there already, or it is made from the least free frame. -/
theorem settles_tableFor_exact (hpool : machine.frames.Consistent) (space : AddressSpace)
    (address : Nat) (create : Bool) :
    (tableFor space address create).Settles machine
      (fun table machine' =>
        (machine.memory.entry space.directory (slotInDirectory address)).frame? = some table ∧
            machine' = machine ∨
        (machine.memory.entry space.directory (slotInDirectory address)).frame? = none ∧
          machine.frames.lowestFree 0 = some table ∧
            machine' = (machine.takingZeroed table).entering space.directory
              (slotInDirectory address) (.leadingTo (Frame.address table) Flags.table))
      fun error machine' => machine' = machine ∧
        (machine.memory.entry space.directory (slotInDirectory address)).frame? = none ∧
        (create = false ∧ error = .notMapped ∨
          create = true ∧ error = .outOfMemory ∧ machine.frames.lowestFree 0 = none) := by
  have hslot := slotInDirectory_lt address
  refine Action.settles_bind (settles_entry hslot ?_)
  cases hframe : (machine.memory.entry space.directory (slotInDirectory address)).frame? with
  | some table => exact Action.settles_pure (.inl ⟨rfl, rfl⟩)
  | none =>
    refine Action.settles_bind (Action.settles_refuseIf
      (fun hcreate => ⟨rfl, rfl, .inl ⟨hcreate, rfl⟩⟩) fun hcreate => ?_)
    refine Action.settles_bind (settles_takeZeroed_or hpool (fun table hfree => ?_)
      fun hfull => ⟨rfl, rfl, .inr ⟨Bool.eq_true_of_not_eq_false hcreate, rfl, hfull⟩⟩)
    exact Action.settles_bind (settles_setEntry hslot
      (Action.settles_pure (.inr ⟨rfl, hfree, rfl⟩)))

/-- There is no page yet behind a table that was made just now. -/
theorem entry_newTable {table directory slot leafSlot : Nat} (hne : table ≠ directory)
    (hslot : slot < entryCount) (hleaf : leafSlot < entryCount) (upper : Entry) :
    ((machine.takingZeroed table).entering directory slot upper).memory.entry table leafSlot =
      Entry.unused := by
  rw [entering, WordMemory.entry_setEntry _ _ hslot hleaf, if_neg fun h => hne h.1,
    entry_takingZeroed hleaf, if_pos rfl]

/-- Letting user mode through takes nothing, and shows in the directory entry alone. -/
theorem takes_openToUser {refused : ε → Machine → Prop} (htakes : Takes origin frames machine)
    (hspace : space.directory ∈ frames) {upper : Entry}
    (hupper : machine.memory.entry space.directory (slotInDirectory address) = upper)
    (flags : Flags) :
    (openToUser space address flags : Action ε Machine Unit).Settles machine
      (fun _ machine' => Takes origin frames machine' ∧
        machine'.memory.entry space.directory (slotInDirectory address) =
          if flags.has Flags.user then upper.openedToUser else upper) refused := by
  have hslot := slotInDirectory_lt address
  unfold openToUser
  split
  · refine Action.settles_bind (settles_entry hslot ?_)
    rw [hupper]
    split
    · next huser =>
      rw [Entry.openedToUser_of_user huser]
      exact Action.settles_pure ⟨htakes, hupper⟩
    · refine settles_setEntry hslot ⟨htakes.entering hspace hslot _, ?_⟩
      rw [entering, WordMemory.entry_setEntry _ _ hslot hslot, if_pos ⟨rfl, rfl⟩]
      rfl
  · exact Action.settles_pure ⟨htakes, hupper⟩

/-! ## New spaces -/

/-- A new space takes one frame, for its directory, which is empty outside the kernel region. -/
theorem takes_createSpace (hpool : machine.frames.Consistent)
    (hle : paging.layout.sharedSlots ≤ entryCount) :
    paging.createSpace.Settles machine
      (fun space machine' => Takes machine [space.directory] machine' ∧
        ∀ slot < entryCount, paging.layout.sharedSlots ≤ slot →
          machine'.memory.entry space.directory slot = Entry.unused)
      fun error machine' => machine' = machine ∧ error = .outOfMemory ∧
        machine.frames.freeFrames = ∅ := by
  refine Action.settles_bind (settles_takeZeroed_or hpool (fun directory hfree => ?_)
    fun hfull => ⟨rfl, rfl, FramePool.freeFrames_eq_empty hfull⟩)
  refine (Action.settles_forM (fun _ middle => Takes machine [directory] middle ∧
    ∀ slot < entryCount, paging.layout.sharedSlots ≤ slot →
      middle.memory.entry directory slot = Entry.unused) ?_
    ⟨(Takes.refl hpool).takingZeroed hfree, fun slot hslot _ => ?_⟩).bind
      fun _ _ htakes => Action.settles_pure htakes
  -- Each round writes to one of the shared slots, so the others stay empty.
  · rintro behind slot rest middle hitems ⟨htakes, hempty⟩
    have hmem : slot ∈ List.range paging.layout.sharedSlots := by
      rw [hitems]
      exact List.mem_append_right _ List.mem_cons_self
    have hshared := List.mem_range.mp hmem
    have hslot := Nat.lt_of_lt_of_le hshared hle
    refine Action.settles_bind (settles_entry hslot (settles_setEntry hslot
      ⟨htakes.entering List.mem_cons_self hslot _, fun other hother houtside => ?_⟩))
    rw [entering, WordMemory.entry_setEntry _ _ hslot hother, if_neg, hempty other hother houtside]
    rintro ⟨-, rfl⟩
    exact Nat.not_lt.mpr houtside hshared
  · rw [entry_takingZeroed hslot, if_pos rfl]

section FirstPage

variable (htakes : Takes origin frames machine) (hspace : space.directory ∈ frames)
  (hkernel : space ≠ paging.kernel)
  (hnone : paging.inKernelRegion address = false →
    (machine.memory.entry space.directory (slotInDirectory address)).frame? = none)
include htakes hspace hkernel hnone

/-- The first page behind a directory slot of a new space takes one frame, for a table. If it is
refused, nothing has happened. -/
theorem takes_enter (physical : Nat) (flags : Flags) :
    (paging.enter space address physical flags).Settles machine
      (fun _ machine' => ∃ table, Takes origin (table :: frames) machine' ∧
        machine'.memory.entry space.directory (slotInDirectory address) =
          if flags.has Flags.user then
            (Entry.leadingTo (Frame.address table) Flags.table).openedToUser
          else .leadingTo (Frame.address table) Flags.table)
      fun error machine' => machine' = machine ∧
        (error = .invalidOperation ∧ paging.inKernelRegion address = true ∨
          error = .outOfMemory ∧ machine.frames.freeFrames = ∅) := by
  have hslot := slotInDirectory_lt address
  have hleaf := slotInTable_lt address
  refine Action.settles_bind (Action.settles_refuseIf (fun hshared => ⟨rfl, .inl ⟨rfl, hshared.2⟩⟩)
    fun hallowed => ?_)
  have hregion : paging.inKernelRegion address = false :=
    Bool.eq_false_iff.mpr fun hregion => hallowed ⟨mt directory_inj.mp hkernel, hregion⟩
  refine Action.settles_bind ((settles_tableFor_exact htakes.pool space address true).mono ?_ ?_)
  · rintro table middle (⟨hsome, -⟩ | ⟨-, hfree, rfl⟩)
    · rw [hnone hregion] at hsome
      cases hsome
    have htaking := htakes.takingZeroed hfree
    -- The directory was taken before, so writes to the table do not show in it.
    have hne : table ≠ space.directory := by
      rintro rfl
      exact (List.nodup_cons.mp htaking.nodup).1 (List.mem_append_left _ hspace)
    refine Action.settles_bind (settles_entry hleaf ?_)
    refine Action.settles_bind (Action.settles_refuseIf (fun hpresent => ?_) fun _ => ?_)
    · rw [entry_newTable hne hslot hleaf] at hpresent
      cases hpresent
    refine Action.settles_bind (settles_setEntry hleaf ((takes_openToUser
      ((htaking.entering (List.mem_cons_of_mem _ hspace) hslot _).entering List.mem_cons_self
        hleaf _) (List.mem_cons_of_mem _ hspace) ?_ flags).mono_done
          fun _ _ hdone => ⟨table, hdone⟩))
    rw [entering, WordMemory.entry_setEntry _ _ hleaf hslot, if_neg fun h => hne h.1.symm, entering,
      WordMemory.entry_setEntry _ _ hslot hslot, if_pos ⟨rfl, rfl⟩]
  · rintro error middle ⟨rfl, -, ⟨⟨⟩, -⟩ | ⟨-, rfl, hfull⟩⟩
    exact ⟨rfl, .inr ⟨rfl, FramePool.freeFrames_eq_empty hfull⟩⟩

/-- Backing such a page takes two frames, one for the table and the one that is mapped. If it is
refused, the frame that was to be mapped is free again. -/
theorem takes_mapFresh (flags : Flags) :
    (paging.mapFresh space address flags).Settles machine
      (fun page machine' => ∃ table, Takes origin (table :: page :: frames) machine' ∧
        machine'.memory.entry space.directory (slotInDirectory address) =
          if (fresh flags).has Flags.user then
            (Entry.leadingTo (Frame.address table) Flags.table).openedToUser
          else .leadingTo (Frame.address table) Flags.table)
      fun error machine' => Takes machine [] machine' ∧
        (error = .invalidOperation ∧ paging.inKernelRegion address = true ∨
          error = .outOfMemory ∧ machine.frames.freeFrames.card < 2) := by
  have hslot := slotInDirectory_lt address
  have hrefl := Takes.refl htakes.pool
  refine Action.settles_bind (settles_takeZeroed_or htakes.pool (fun page hfree => ?_) fun hfull =>
    ⟨hrefl, .inr ⟨rfl, ?_⟩⟩)
  -- From `origin` the page is one more frame that was taken; from `machine` it is the only one,
  -- which is given back if there is no table for it.
  · have htaking := htakes.takingZeroed hfree
    have hgiven := hrefl.takingZeroed hfree
    have hdirectory : space.directory ∈ machine.frames.takenFrames := htakes.mem_taken hspace
    have hempty (hregion : paging.inKernelRegion address = false) :
        ((machine.takingZeroed page).memory.entry space.directory
          (slotInDirectory address)).frame? = none := by
      rw [hgiven.entry_eq _ hdirectory _ hslot, hnone hregion]
    refine Action.settles_bind (Action.settles_attempt ((takes_enter htaking
      (List.mem_cons_of_mem _ hspace) hkernel hempty _ _).mono
        (fun _ _ hdone => Action.settles_pure hdone) ?_))
    rintro error middle ⟨rfl, hreason⟩
    refine Action.settles_bind (settles_discardFrame hgiven.pool (hgiven.mem_taken
      List.mem_cons_self) (Action.settles_throw ⟨hgiven.releasing, hreason.imp_right ?_⟩))
    rintro ⟨rfl, hfull⟩
    refine ⟨rfl, ?_⟩
    rw [hgiven.card_freeFrames, hfull]
    simp
  · rw [FramePool.freeFrames_eq_empty hfull]
    decide

end FirstPage

/-- A new space without tables of its own gives its directory back. -/
theorem takes_destroySpace (h : Consistent paging machine spaces others) (hspace : space ∈ spaces)
    (htakes : Takes origin [space.directory] machine)
    (hempty : ∀ slot ∈ paging.ownSlots space,
      (machine.memory.entry space.directory slot).frame? = none) :
    (paging.destroySpace space).Settles machine (fun _ machine' => Takes origin [] machine')
      fun _ machine' => machine' = machine ∧
        (space.directory = paging.kernel.directory ∨ space.directory = machine.active) := by
  have hframes : paging.spaceFrames machine.memory space = [space.directory] := by
    rw [spaceFrames, List.flatMap_eq_nil_iff.mpr]
    exact fun slot hslot => WordMemory.slotFrames_of_none (hempty slot hslot)
  refine (leftWith_destroySpace h hspace (by rw [hframes]; exact htakes.taken)).mono_done ?_
  rintro - machine' ⟨-, hend⟩
  refine ⟨hend.pool, hend.total_eq.trans htakes.total_eq, hend.taken, ?_, ?_, ?_⟩
  · rw [hend.eq]
    exact htakes.entry_eq
  · rw [hend.eq]
    exact htakes.active_eq
  · rw [hend.eq]
    exact htakes.calls_eq

end Paging

end KernelResources
