import KernelResources.Proofs.Paging.Refinement

/-!
# Agreement of the kernel region

Every space gets its directory entries of the kernel region from the kernel space when it is built,
and nobody writes to them afterwards. The kernel space writes to its own: its entry lets user mode
through as soon as there is a page for user mode behind it. From then on the spaces that were built
before lead to the same table, but do not let user mode through.

* `Entry.Lags` says that an entry is the kernel's, or would be if it let user mode through.
* `upper_of_step`: a request changes at most one directory entry of the kernel region, in the
  kernel space, to let user mode through, and copies all of them into a new space.
* `lags_of_reachable`: after any run, the entries of all spaces agree with those of the kernel
  space up to letting user mode through; it also says which requests make them differ.
* `uppers_differ_of_smallMachine`: a run after which they differ.
-/

namespace KernelResources

/-- The entry is the kernel's, or would be if it let user mode through. -/
def Entry.Lags (entry kernel : Entry) : Prop := kernel = entry ∨ kernel = entry.openedToUser

theorem Entry.openedToUser_openedToUser (entry : Entry) :
    entry.openedToUser.openedToUser = entry.openedToUser := by
  simp [openedToUser, BitVec.or_assoc]

/-- Letting user mode through the kernel's entry leaves the others behind, but no further. -/
theorem Entry.Lags.openedToUser {entry kernel : Entry} (h : entry.Lags kernel) :
    entry.Lags kernel.openedToUser := by
  rcases h with rfl | rfl
  · exact .inr rfl
  · exact .inr (openedToUser_openedToUser entry)

namespace Paging

open Machine

variable {paging : Paging} {machine : Machine} {spaces : List AddressSpace} {others : List Nat}
  {space other : AddressSpace} {slot : Nat} {flags : Flags} {view : View}
  {ledger ledger' : Ledger} {request : Request}

/-- In the kernel region, the directory entries of live spaces are what they were, except that the
kernel's own entry in the slot of the request may let user mode through then. -/
theorem Shown.upper (h : Shown paging ledger request machine) (hother : other ∈ ledger.spaces)
    (hslot : slot < paging.layout.sharedSlots) :
    machine.memory.entry other.directory slot =
        ledger.machine.memory.entry other.directory slot ∨
      other = paging.kernel ∧ request.opened? = some (other, slot) ∧
        machine.memory.entry other.directory slot =
          (ledger.machine.memory.entry other.directory slot).openedToUser := by
  rcases h with hsame | ⟨space, address, leaf?, flags, -, hown, hopened, hseen⟩
  · exact .inl (hsame.uppers other hother slot hslot)
  · have hupper := hseen.uppers other hother slot hslot
    by_cases huser : flags.has Flags.user = true
    · simp only [View.openSlot, huser, if_true, View.setUpper, View.setPage] at hupper
      split at hupper
      case isTrue heq =>
        obtain ⟨rfl, rfl⟩ := heq
        rw [PageNumber.directorySlot_ofAddress] at hown
        -- Of all live spaces, only the kernel space owns a slot of the kernel region.
        have hkernel := (mem_ownSlots.mp hown).2.resolve_right (Nat.not_le.mpr hslot)
        exact .inr ⟨hkernel, hopened huser, hupper⟩
      case isFalse => exact .inl hupper
    · rw [View.openSlot, if_neg huser] at hupper
      exact .inl hupper

/-- A space that is alive after a request was alive before or is new. -/
theorem Ledger.mem_or_created_of_step (hstep : ledger.step paging request = some ledger')
    (hspace : space ∈ ledger'.spaces) :
    space ∈ ledger.spaces ∨
      paging.createSpace ledger.machine ledger.journal =
        .done space ledger'.machine ledger'.journal := by
  unfold Ledger.step at hstep
  cases hout : request.run paging ledger.machine ledger.journal with
  | done grant machine journal =>
    rw [hout] at hstep
    cases hstep
    cases request with
    | createSpace =>
      obtain ⟨new, middle, journalMiddle, hcreate, hrest⟩ := Action.bind_eq_done.mp hout
      cases hrest
      rcases List.mem_cons.mp hspace with rfl | hmem
      · exact .inr hcreate
      · exact .inl hmem
    | destroySpace other =>
      obtain ⟨_, _, _, -, hrest⟩ := Action.bind_eq_done.mp hout
      cases hrest
      exact .inl (List.mem_of_mem_erase hspace)
    | _ =>
      obtain ⟨_, _, _, -, hrest⟩ := Action.bind_eq_done.mp hout
      cases hrest
      exact .inl hspace
  | refused error machine journal =>
    rw [hout] at hstep
    cases hstep
    exact .inl hspace
  | halted cause journal =>
    rw [hout] at hstep
    cases hstep

/-- What becomes of a directory entry in the kernel region by a request: it is the kernel's, or it
stays while the kernel's stays as well or has user mode let through. -/
theorem upper_of_step (h : Consistent paging ledger.machine ledger.spaces others)
    (hpermits : ledger.Permits paging request) (hstep : ledger.step paging request = some ledger')
    (hspace : space ∈ ledger'.spaces) (hslot : slot < paging.layout.sharedSlots) :
    ledger'.machine.memory.entry paging.kernel.directory slot =
        ledger'.machine.memory.entry space.directory slot ∨
      space ∈ ledger.spaces ∧ space ≠ paging.kernel ∧
        ledger'.machine.memory.entry space.directory slot =
          ledger.machine.memory.entry space.directory slot ∧
        (ledger'.machine.memory.entry paging.kernel.directory slot =
            ledger.machine.memory.entry paging.kernel.directory slot ∨
          request.opened? = some (paging.kernel, slot) ∧
            ledger'.machine.memory.entry paging.kernel.directory slot =
              (ledger.machine.memory.entry paging.kernel.directory slot).openedToUser) := by
  rcases Ledger.mem_or_created_of_step hstep hspace with hold | hcreate
  · have hshown := (ensures_shown h hpermits).of_state? (Ledger.state?_of_step hstep)
    by_cases hkernel : space = paging.kernel
    · exact .inl (by rw [hkernel])
    refine .inr ⟨hold, hkernel, ?_, (hshown.upper h.kernel_mem hslot).imp_right And.right⟩
    exact (hshown.upper hold hslot).resolve_right fun hopened => hkernel hopened.1
  · -- The entries of a new space are copies.
    have hview : Shows paging ledger.machine.memory ledger.spaces others
        (viewOf ledger.machine.memory) := shows_viewOf _
    obtain ⟨hnew, hseen⟩ := (shows_createSpace h hview).of_done hcreate
    have hkernel := (hseen.of_addSpace hnew).uppers paging.kernel h.kernel_mem slot hslot
    have hcopied := hseen.uppers space List.mem_cons_self slot hslot
    simp only [View.addSpace, if_true] at hcopied
    exact .inl (hkernel.trans hcopied.symm)

/-- After any run, in every slot of the kernel region the directory entry of a live space is the
kernel's, or would be if it let user mode through. Entries that are equal, or are copied just then,
differ after a request only if the request enters a page for user mode through the kernel space in
this slot. -/
theorem lags_of_reachable {layout : Layout} {start : Machine} {journal : Journal}
    (hpool : start.frames.Reachable) (htotal : start.frames.total ≤ bitRange 20)
    (h : Ledger.Reachable layout start journal paging ledger) :
    (∀ space ∈ ledger.spaces, ∀ slot < paging.layout.sharedSlots,
      (ledger.machine.memory.entry space.directory slot).Lags
        (ledger.machine.memory.entry paging.kernel.directory slot)) ∧
    ∀ request ledger', ledger.Permits paging request → ledger.step paging request = some ledger' →
      ∀ space ∈ ledger'.spaces, ∀ slot < paging.layout.sharedSlots,
        (space ∈ ledger.spaces → ledger.machine.memory.entry paging.kernel.directory slot =
          ledger.machine.memory.entry space.directory slot) →
        ledger'.machine.memory.entry paging.kernel.directory slot ≠
          ledger'.machine.memory.entry space.directory slot →
        request.opened? = some (paging.kernel, slot) := by
  constructor
  · induction h with
    | create hcreate =>
      intro space hspace slot _
      rw [List.mem_singleton.mp hspace]
      exact .inl rfl
    | @step ledger ledger' request hreachable hpermits hstep ih =>
      obtain ⟨hconsistent, -⟩ := consistent_of_reachable hpool htotal hreachable
      intro space hspace slot hslot
      rcases upper_of_step hconsistent hpermits hstep hspace hslot with
        hsame | ⟨hold, -, hstays, hkernel | ⟨-, hkernel⟩⟩
      · exact .inl hsame
      · rw [hstays, hkernel]
        exact ih space hold slot hslot
      · rw [hstays, hkernel]
        exact (ih space hold slot hslot).openedToUser
  · intro request ledger' hpermits hstep space hspace slot hslot hagree hdiffer
    obtain ⟨hconsistent, -⟩ := consistent_of_reachable hpool htotal h
    rcases upper_of_step hconsistent hpermits hstep hspace hslot with
      hsame | ⟨hold, -, hstays, hkernel | ⟨hopened, -⟩⟩
    · exact absurd hsame hdiffer
    · exact absurd (by rw [hkernel, hstays, hagree hold]) hdiffer
    · exact hopened

/-- In eight frames there is room for a kernel space, for a space built next, and then for a page
for user mode in the kernel region. -/
theorem exists_userPage_of_smallMachine :
    ∃ paging ledger, Ledger.Reachable smallLayout smallMachine #[] paging ledger ∧
      (⟨2⟩ ∈ ledger.spaces ∧ 0 < paging.layout.sharedSlots) ∧
      (ledger.machine.memory.entry paging.kernel.directory 0).flags.has Flags.user = true ∧
      (ledger.machine.memory.entry 2 0).flags.has Flags.user = false := by
  have hrun : (Ledger.ofRun? smallLayout smallMachine
      [.createSpace, .map ⟨0⟩ 0x3000 0x5000 Flags.user]).any (fun run => decide
        ((⟨2⟩ ∈ run.2.spaces ∧ 0 < run.1.layout.sharedSlots) ∧
          (run.2.machine.memory.entry run.1.kernel.directory 0).flags.has Flags.user = true ∧
          (run.2.machine.memory.entry 2 0).flags.has Flags.user = false)) = true := by
    decide +kernel
  obtain ⟨⟨paging, ledger⟩, hledger, hfacts⟩ := (Option.any_eq_true _ _).mp hrun
  exact ⟨paging, ledger, Ledger.reachable_of_ofRun? hledger, of_decide_eq_true hfacts⟩

/-- If a page for user mode is mapped in the kernel region after a space was built, the directory
entries differ: the kernel's lets user mode through, that of the space does not. -/
theorem uppers_differ_of_smallMachine :
    ∃ paging ledger, Ledger.Reachable smallLayout smallMachine #[] paging ledger ∧
      ∃ space ∈ ledger.spaces, ∃ slot < paging.layout.sharedSlots,
        ledger.machine.memory.entry space.directory slot ≠
          ledger.machine.memory.entry paging.kernel.directory slot := by
  obtain ⟨paging, ledger, hreachable, ⟨hspace, hslot⟩, hkernel, huser⟩ :=
    exists_userPage_of_smallMachine
  refine ⟨paging, ledger, hreachable, ⟨2⟩, hspace, 0, hslot, fun heq => ?_⟩
  rw [heq, hkernel] at huser
  cases huser

/-- In that run the kernel's entry is that of the space with user mode let through. -/
theorem lags_of_smallMachine :
    ∃ paging ledger, Ledger.Reachable smallLayout smallMachine #[] paging ledger ∧
      ledger.machine.memory.entry paging.kernel.directory 0 =
        (ledger.machine.memory.entry 2 0).openedToUser := by
  have hpool : smallMachine.frames.Reachable := .allFree (by decide)
  obtain ⟨paging, ledger, hreachable, ⟨hspace, hslot⟩, hkernel, huser⟩ :=
    exists_userPage_of_smallMachine
  have hlags := (lags_of_reachable hpool (by decide) hreachable).1 ⟨2⟩ hspace 0 hslot
  refine ⟨paging, ledger, hreachable, hlags.resolve_left fun heq => ?_⟩
  rw [heq, huser] at hkernel
  cases hkernel

end Paging

end KernelResources
