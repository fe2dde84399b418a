import KernelResources.Proofs.Paging.Refinement
import KernelResources.Proofs.Paging.Takings

/-!
# What remapping gives back

A page that is remapped gives back the frame it owned. It does so whatever it is mapped to next,
also if that is the same frame: then the page leads to a frame that the pool takes to be free and
hands out to somebody else.

* `WordMemory.ownedAt`, `WordMemory.mappedAt`: the frame that a page owns, and the one it leads to.
* `freed_iff_of_remap`: of the frames that were taken, remapping a page frees the one that the page
  owned, and no other. Unless this is the one that the page is to lead to, the page leads to a frame
  that is taken if it was taken before, and no longer to the one that was freed.
* `lost_of_remap`: a page is mapped to its own frame, and leads to a free one from then on.
-/

namespace KernelResources

namespace WordMemory

/-- The frame that a page of a space owns. -/
def ownedAt (memory : WordMemory) (space : AddressSpace) (page : PageNumber) : Option Nat :=
  (memory.addressMap space page).bind Entry.ownedFrame?

/-- The frame that a page of a space leads to. -/
def mappedAt (memory : WordMemory) (space : AddressSpace) (page : PageNumber) : Option Nat :=
  (memory.addressMap space page).bind Entry.frame?

end WordMemory

/-- A leaf that takes no part in translation owns nothing. -/
theorem Entry.bind_leaf? (entry : Entry) : entry.leaf?.bind ownedFrame? = entry.ownedFrame? := by
  by_cases h : entry.isPresent = true
  · rw [leaf?_of_present h]
    rfl
  · rw [leaf?_of_not_present h, ownedFrame?_of_frame?_eq_none (if_neg h)]
    rfl

theorem Entry.lt_of_ownedFrame? {entry : Entry} {frame : Nat} (h : entry.ownedFrame? = some frame) :
    frame < bitRange 20 := by
  have hframe : entry.frame? = some frame := by
    unfold ownedFrame? at h
    split at h
    · exact h
    · cases h
  unfold frame? at hframe
  split at hframe
  · cases hframe
    exact entry.frame.isLt
  · cases hframe

namespace Paging

open Machine

variable {ε : Type} {paging : Paging} {machine : Machine} {spaces : List AddressSpace}
  {others : List Nat} {space : AddressSpace} {address physical : Nat} {flags : Flags}

/-- Letting user mode through writes to memory and does nothing else. -/
theorem writes_openToUser {refused : ε → Machine → Prop} (space : AddressSpace) (address : Nat)
    (flags : Flags) :
    (openToUser space address flags : Action ε Machine Unit).Settles machine
      (fun _ machine' => machine' = { machine with memory := machine'.memory }) refused := by
  have hslot := slotInDirectory_lt address
  unfold openToUser
  split
  · refine Action.settles_bind (settles_entry hslot ?_)
    split
    · exact Action.settles_pure rfl
    · exact settles_setEntry hslot rfl
  · exact Action.settles_pure rfl

/-- Giving up a leaf frees the frame it owned, and does nothing else. -/
theorem isTaken_discardLeaf {refused : ε → Machine → Prop} {leaf : Entry}
    (h : Consistent paging machine spaces (leaf.ownedFrame?.toList ++ others)) :
    (discardLeaf leaf : Action ε Machine Unit).Settles machine
      (fun _ machine' => machine' = { machine with frames := machine'.frames } ∧
        ∀ frame, machine'.frames.isTaken frame =
          (!decide (leaf.ownedFrame? = some frame) && machine.frames.isTaken frame)) refused := by
  unfold discardLeaf
  cases hframe : leaf.frame? with
  | none =>
    rw [Entry.ownedFrame?_of_frame?_eq_none hframe]
    exact Action.settles_pure ⟨rfl, fun frame => by simp⟩
  | some owned =>
    by_cases howned : leaf.isOwned = true
    · rw [Entry.ownedFrame?, if_pos howned, hframe] at h ⊢
      simp only [howned, if_true]
      have htaken := h.mem_taken_of_other List.mem_cons_self
      refine settles_discardFrame h.pool htaken ⟨rfl, fun frame => ?_⟩
      rw [releasing, FramePool.isTaken_releasing (FramePool.mem_takenFrames.mp htaken).1]
      congr 2
      simp only [Option.some.injEq, decide_eq_decide]
      omega
    · rw [Entry.ownedFrame?, if_neg howned]
      simp only [howned]
      exact Action.settles_pure ⟨rfl, fun frame => by simp⟩

/-- What the memory management unit is told when the translation of a page is given up. -/
def forgetting (paging : Paging) (machine : Machine) (space : AddressSpace) (address : Nat)
    (leaf : Entry) : List MmuCall :=
  if space.directory = machine.active ∨ paging.inKernelRegion address ∨
      leaf.flags.has Flags.global then
    [.invalidate (roundDown address pageSize)]
  else []

/-- `machine'` is `machine` after a leaf that an address translated to was given up. -/
structure Retires (paging : Paging) (space : AddressSpace) (address : Nat) (leaf : Entry)
    (machine machine' : Machine) : Prop where
  /-- The same directory is loaded. -/
  active : machine'.active = machine.active
  /-- The frame that the leaf owned is free, and no other. -/
  isTaken : ∀ frame, machine'.frames.isTaken frame =
    (!decide (leaf.ownedFrame? = some frame) && machine.frames.isTaken frame)
  /-- What is cached of the page is forgotten where it could be used. -/
  calls : machine'.calls.toList =
    machine.calls.toList ++ paging.forgetting machine space address leaf

theorem retires_retire {refused : ε → Machine → Prop} {previous : Entry}
    (h : Consistent paging machine spaces (previous.ownedFrame?.toList ++ others)) :
    (paging.retire space address previous : Action ε Machine Unit).Settles machine
      (fun _ machine' => Retires paging space address previous machine machine') refused := by
  refine (isTaken_discardLeaf h).bind ?_
  rintro - discarded ⟨hsame, htaken⟩
  have hactive : discarded.active = machine.active := (congrArg Machine.active hsame :)
  have hcalls : discarded.calls = machine.calls := (congrArg Machine.calls hsame :)
  refine Action.settles_get ?_
  split
  case isTrue hused =>
    refine Action.settles_modify ⟨hactive, htaken, ?_⟩
    rw [forgetting, if_pos (hactive ▸ hused), ← hcalls]
    exact Array.toList_push
  case isFalse hunused =>
    refine Action.settles_pure ⟨hactive, htaken, ?_⟩
    rw [forgetting, if_neg (hactive ▸ hunused), hcalls, List.append_nil]

/-- Asking for a table frees nothing. -/
theorem isTaken_tableFor (hpool : machine.frames.Consistent) (space : AddressSpace)
    (address : Nat) :
    (tableFor space address true).Settles machine
      (fun _ machine' => ∀ frame, machine.frames.isTaken frame = true →
        machine'.frames.isTaken frame = true) fun _ machine' => machine' = machine := by
  refine (settles_tableFor_exact hpool space address true).mono ?_ fun _ _ hrefused => hrefused.1
  rintro table machine' (⟨-, rfl⟩ | ⟨-, -, rfl⟩) frame htaken
  · exact htaken
  · show (machine.frames.taking table (table + 1)).isTaken frame = true
    rw [FramePool.isTaken_taking, htaken, Bool.or_true]

/-- Of the frames that were taken, remapping a page frees the one that the page owned. If it is
refused, nothing has happened. -/
theorem isTaken_remap (h : Consistent paging machine spaces others) (hspace : space ∈ spaces) :
    (paging.remap space address physical flags).Settles machine
      (fun _ machine' => ∀ frame, machine.frames.isTaken frame = true →
        (machine'.frames.isTaken frame = false ↔
          machine.memory.ownedAt space (.ofAddress address) = some frame))
      fun _ machine' => machine' = machine := by
  have hleaf := slotInTable_lt address
  refine Action.settles_bind (settles_refuseShared rfl fun hslot => ?_)
  refine Action.settles_bind (((settles_tableFor_shown h (shows_viewOf machine.memory) hspace
    address true).and (isTaken_tableFor h.pool space address).ensures).mono ?_
      fun _ _ hrefused => hrefused.2)
  rintro table middle ⟨⟨hmiddle, -, htable, hmap⟩, hkept⟩
  refine Action.settles_bind (settles_entry hleaf (Action.settles_bind (settles_setEntry hleaf ?_)))
  -- What the former leaf owned belongs to the others until it is given back.
  have hset := (hmiddle.lending physical flags).settingLeaf _ hspace hslot htable hleaf
  have howned : machine.memory.ownedAt space (.ofAddress address) =
      (middle.memory.entry table (slotInTable address)).ownedFrame? := by
    rw [WordMemory.ownedAt, ← Entry.bind_leaf?, ← hmap]
    rfl
  rw [howned]
  refine ((settles_openToUser hset hspace hslot (borrowed flags)).also
    (writes_openToUser space address (borrowed flags)).ensures).bind ?_
  rintro - opened ⟨hopened, hwrites⟩
  have hframes := congrArg Machine.frames hwrites
  split
  case isTrue hfound =>
    refine (retires_retire hopened).bind fun _ retired hretired => Action.settles_pure ?_
    intro frame htaken
    rw [hretired.isTaken, hframes, entering, hkept frame htaken]
    simp
  case isFalse habsent =>
    refine Action.settles_pure fun frame htaken => ?_
    rw [Entry.ownedFrame?_of_frame?_eq_none (if_neg habsent), hframes, entering,
      hkept frame htaken]
    simp

/-! ## Runs -/

/-- After any run, remapping a page of a live space has it lead where it was told to, and of the
frames that were taken it frees the one that the page owned and no other. So if this is not the
frame that the page is to lead to, that frame is taken if it was taken before, and the page does not
lead to a frame that was freed. If the request is refused, nothing has happened. -/
theorem freed_iff_of_remap {layout : Layout} {start : Machine} {journal : Journal} {ledger : Ledger}
    (hpool : start.frames.Reachable) (htotal : start.frames.total ≤ bitRange 20)
    (h : Ledger.Reachable layout start journal paging ledger) (hspace : space ∈ ledger.spaces)
    (address physical : Nat) (flags : Flags) :
    (paging.remap space address physical flags).Settles ledger.machine
      (fun _ machine' =>
        machine'.memory.addressMap space (.ofAddress address) =
          some (.leadingTo physical (borrowed flags)) ∧
        (∀ frame, ledger.machine.frames.isTaken frame = true →
          (machine'.frames.isTaken frame = false ↔
            ledger.machine.memory.ownedAt space (.ofAddress address) = some frame)) ∧
        (ledger.machine.memory.ownedAt space (.ofAddress address) ≠
            some (Entry.leadingTo physical (borrowed flags)).frame.toNat →
          (ledger.machine.frames.isTaken (Frame.containing physical) = true →
            machine'.frames.isTaken (Frame.containing physical) = true) ∧
          ∀ frame, ledger.machine.frames.isTaken frame = true →
            machine'.frames.isTaken frame = false →
              machine'.memory.mappedAt space (.ofAddress address) ≠ some frame))
      fun _ machine' => machine' = ledger.machine := by
  have hconsistent := (consistent_of_reachable hpool htotal h).1
  refine ((isTaken_remap hconsistent hspace).and (shows_remap hconsistent (shows_viewOf _)
    hspace).ensures).mono ?_ fun _ _ hrefused => hrefused.1
  rintro previous machine' ⟨hfreed, -, -, hshows⟩
  have hmap : machine'.memory.addressMap space (.ofAddress address) =
      some (.leadingTo physical (borrowed flags)) := by
    rw [hshows.realizes_of_openSlot space hspace]
    exact if_pos ⟨rfl, .inl rfl⟩
  refine ⟨hmap, hfreed, fun hother => ⟨fun htaken => ?_, fun frame htaken hfree hmapped => ?_⟩⟩
  · by_contra hlost
    have howned := (hfreed _ htaken).mp (Bool.eq_false_iff.mpr hlost)
    -- Only a frame that an entry has room for can be owned.
    obtain ⟨leaf, -, hleaf⟩ := Option.bind_eq_some_iff.mp howned
    refine hother (howned.trans (congrArg some ?_))
    exact (Nat.mod_eq_of_lt (Entry.lt_of_ownedFrame? hleaf)).symm
  · refine hother (((hfreed frame htaken).mp hfree).trans ?_)
    rw [← hmapped, WordMemory.mappedAt, hmap]
    exact if_pos (present_borrowed flags)

/-- In eight frames there is room for a kernel space and for another one with a page of its own.
That page can be mapped to the frame it owns, or to another one. -/
theorem exists_ownedPage_of_smallMachine :
    ∃ paging ledger, Ledger.Reachable smallLayout smallMachine #[] paging ledger ∧
      ⟨2⟩ ∈ ledger.spaces ∧ ledger.machine.frames.isTaken 3 = true ∧
      ledger.machine.memory.ownedAt ⟨2⟩ (.ofAddress userSpaceStart) = some 3 ∧
      (∃ machine' journal', paging.remap ⟨2⟩ userSpaceStart 0x3000 Flags.writable ledger.machine
          ledger.journal = .done (some 0x3000) machine' journal' ∧
        machine'.frames.isTaken 3 = false ∧
        machine'.memory.mappedAt ⟨2⟩ (.ofAddress userSpaceStart) = some 3) ∧
      ∃ machine' journal', paging.remap ⟨2⟩ userSpaceStart 0x1000 Flags.writable ledger.machine
        ledger.journal = .done (some 0x3000) machine' journal' := by
  have hrun : (Ledger.ofRun? smallLayout smallMachine
      [.createSpace, .mapFresh ⟨2⟩ userSpaceStart Flags.writable]).any (fun run =>
        decide (⟨2⟩ ∈ run.2.spaces ∧ run.2.machine.frames.isTaken 3 = true ∧
          run.2.machine.memory.ownedAt ⟨2⟩ (.ofAddress userSpaceStart) = some 3) &&
        (run.1.remap ⟨2⟩ userSpaceStart 0x3000 Flags.writable run.2.machine run.2.journal).passes
          (fun previous machine' _ => decide (previous = some 0x3000 ∧
            machine'.frames.isTaken 3 = false ∧
            machine'.memory.mappedAt ⟨2⟩ (.ofAddress userSpaceStart) = some 3)) &&
        (run.1.remap ⟨2⟩ userSpaceStart 0x1000 Flags.writable run.2.machine run.2.journal).passes
          fun previous _ _ => decide (previous = some 0x3000)) = true := by decide +kernel
  obtain ⟨⟨paging, ledger⟩, hledger, hrun⟩ := (Option.any_eq_true _ _).mp hrun
  obtain ⟨hrun, hother⟩ := Bool.and_eq_true_iff.mp hrun
  obtain ⟨hfacts, hown⟩ := Bool.and_eq_true_iff.mp hrun
  obtain ⟨hspace, htaken, howned⟩ := of_decide_eq_true hfacts
  obtain ⟨_, machine', journal', hremap, hmachine⟩ := Outcome.passes_iff.mp hown
  obtain ⟨rfl, hlost⟩ := of_decide_eq_true hmachine
  obtain ⟨_, machine'', journal'', hremap', hprevious⟩ := Outcome.passes_iff.mp hother
  obtain rfl := of_decide_eq_true hprevious
  exact ⟨paging, ledger, Ledger.reachable_of_ofRun? hledger, hspace, htaken, howned,
    ⟨machine', journal', hremap, hlost⟩, machine'', journal'', hremap'⟩

/-- A page that is mapped to the frame it owned frees this frame, and leads to it from then on. -/
theorem lost_of_remap :
    ∃ paging ledger, Ledger.Reachable smallLayout smallMachine #[] paging ledger ∧
      ⟨2⟩ ∈ ledger.spaces ∧ ledger.machine.frames.isTaken (Frame.containing 0x3000) = true ∧
      ∃ machine' journal', paging.remap ⟨2⟩ userSpaceStart 0x3000 Flags.writable ledger.machine
          ledger.journal = .done (some 0x3000) machine' journal' ∧
        machine'.frames.isTaken (Frame.containing 0x3000) = false ∧
        machine'.memory.mappedAt ⟨2⟩ (.ofAddress userSpaceStart) =
          some (Frame.containing 0x3000) := by
  obtain ⟨paging, ledger, hreachable, hspace, htaken, -, hown, -⟩ :=
    exists_ownedPage_of_smallMachine
  exact ⟨paging, ledger, hreachable, hspace, htaken, hown⟩

/-- In that run, mapping the page to a frame of the kernel image frees the one that it owned, and
the page does not lead there any more. -/
theorem freed_of_smallMachine :
    ∃ paging ledger, Ledger.Reachable smallLayout smallMachine #[] paging ledger ∧
      ∃ machine' journal', paging.remap ⟨2⟩ userSpaceStart 0x1000 Flags.writable ledger.machine
          ledger.journal = .done (some 0x3000) machine' journal' ∧
        machine'.frames.isTaken 3 = false ∧
        machine'.memory.mappedAt ⟨2⟩ (.ofAddress userSpaceStart) ≠ some 3 := by
  obtain ⟨paging, ledger, hreachable, hspace, htaken, howned, -, machine', journal', hremap⟩ :=
    exists_ownedPage_of_smallMachine
  obtain ⟨-, hfreed, hkept⟩ := (freed_iff_of_remap (.allFree (by decide)) (by decide) hreachable
    hspace userSpaceStart 0x1000 Flags.writable).of_done hremap
  have hfree := (hfreed 3 htaken).mpr howned
  have hother : ledger.machine.memory.ownedAt ⟨2⟩ (.ofAddress userSpaceStart) ≠
      some (Entry.leadingTo 0x1000 (borrowed Flags.writable)).frame.toNat := by
    rw [howned]
    decide
  exact ⟨paging, ledger, hreachable, machine', journal', hremap, hfree,
    (hkept hother).2 3 htaken hfree⟩

end Paging

end KernelResources
