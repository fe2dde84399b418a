import KernelResources.Proofs.Mirrors
import KernelResources.Proofs.Paging.Refinement

/-!
# Addresses that page tables do not tell apart

Ten bits of an address select a table and ten more an entry of it, and an entry has room for twenty
bits of a frame number. The bits above these, of an address as well as of the physical address it is
to lead to, are dropped, and nobody asks whether they were zero. So a mapping concerns all addresses
that have the same lower 32 bits but for the place in the page, and what they lead to lies in the
first 4 GiB of physical memory.

* `Indistinct` says of two addresses that page tables do not tell them apart.
* `Paging.Enters` is what mapping a page or mapping it again comes to, for all addresses.
* `Paging.Obeys` is what was asked for, where only some addresses are looked at.
* `written_of_reachable`: what was asked for is done as far as addresses have 32 bits.
-/

namespace KernelResources

/-- Two addresses with the same twenty bits above the place in a page. -/
def Indistinct (address other : Nat) : Prop :=
  address % bitRange 32 / pageSize = other % bitRange 32 / pageSize

instance (address other : Nat) : Decidable (Indistinct address other) :=
  inferInstanceAs (Decidable (_ = _))

theorem ofAddress_eq_iff_indistinct {address other : Nat} :
    PageNumber.ofAddress address = .ofAddress other ↔ Indistinct address other := by
  simp only [PageNumber.ofAddress, ← BitVec.toNat_inj, BitVec.toNat_ofNat, Indistinct, pageSize,
    bitRange_32]
  omega

/-- Addresses of 32 bits are told apart if they lie in different pages. -/
theorem indistinct_iff {address other : Nat} (h : address < bitRange 32)
    (hother : other < bitRange 32) :
    Indistinct address other ↔ address / pageSize = other / pageSize := by
  rw [Indistinct, Nat.mod_eq_of_lt h, Nat.mod_eq_of_lt hother]

/-- An entry keeps the lower 32 bits of the physical address of a page. -/
theorem Entry.address_leadingTo (physical : Nat) (flags : Flags) :
    (leadingTo physical flags).address = physical % bitRange 32 / pageSize * pageSize := by
  simp only [address, leadingTo, Frame.address, Frame.containing, Frame.size,
    BitVec.toNat_ofNat, pageSize, bitRange_32]
  omega

namespace Paging

/-- The address translates to this physical address, with these flags. -/
def TranslatesTo (space : AddressSpace) (machine : Machine) (address physical : Nat)
    (flags : Flags) : Prop :=
  ∀ journal, translate space address machine journal = .done (physical, flags) machine journal

/-- The address translates as it did before, or still does not translate. -/
def TranslatesAlike (space : AddressSpace) (machine machine' : Machine) (address : Nat) : Prop :=
  ∀ journal, translate space address machine' journal =
    (translate space address machine journal).viewed fun _ => machine'

/-- What becomes of all addresses when a page is entered into the tables. -/
structure Enters (space : AddressSpace) (address physical : Nat) (flags : Flags)
    (machine machine' : Machine) : Prop where
  /-- Addresses that are not told apart from the given one lead into the page of the lower 32 bits
  of the physical address. -/
  here : ∀ other, Indistinct other address → TranslatesTo space machine' other
    (physical % bitRange 32 / pageSize * pageSize + other % pageSize) (borrowed flags)
  /-- Nothing changes for other addresses. -/
  elsewhere : ∀ other, ¬Indistinct other address → TranslatesAlike space machine machine' other

/-- What is asked for when a page is to be entered into the tables, as far as it can be seen from
some of the addresses. -/
structure Obeys (visible : Nat → Prop) (space : AddressSpace) (address physical : Nat)
    (flags : Flags) (machine machine' : Machine) : Prop where
  /-- The given address leads into the page of the physical address. -/
  here : TranslatesTo space machine' address
    (physical / pageSize * pageSize + address % pageSize) (borrowed flags)
  /-- Nothing changes for the addresses in other pages. -/
  elsewhere : ∀ other, visible other → other / pageSize ≠ address / pageSize →
    TranslatesAlike space machine machine' other

variable {paging : Paging} {machine machine' : Machine} {spaces : List AddressSpace}
  {space : AddressSpace} {address physical : Nat} {flags : Flags}

theorem translatesTo_of_addressMap {leaf : Entry}
    (h : machine.memory.addressMap space (.ofAddress address) = some leaf) :
    TranslatesTo space machine address (leaf.address + address % pageSize) leaf.flags := by
  intro journal
  rw [translate_eq, AddressMap.translate?, h]
  rfl

theorem translatesAlike_of_addressMap
    (h : machine'.memory.addressMap space (.ofAddress address) =
      machine.memory.addressMap space (.ofAddress address)) :
    TranslatesAlike space machine machine' address := by
  intro journal
  rw [translate_eq, translate_eq, AddressMap.translate?, AddressMap.translate?, h]
  cases machine.memory.addressMap space (.ofAddress address) <;> rfl

theorem translatesAlike_of_realizes (hspace : space ∈ spaces)
    (h : Realizes machine'.memory spaces machine.memory.addressMap) (address : Nat) :
    TranslatesAlike space machine machine' address :=
  translatesAlike_of_addressMap (congrFun (h space hspace) _)

/-- A change of one page in the map of a space is what a mapping comes to. -/
theorem enters_of_realizes (hspace : space ∈ spaces)
    (h : Realizes machine'.memory spaces (AddressMaps.set machine.memory.addressMap paging space
      (.ofAddress address) (some (.leadingTo physical (borrowed flags))))) :
    Enters space address physical flags machine machine' := by
  -- Seen from the space itself, the change is not about which other spaces it reaches.
  have hmap (other : Nat) : machine'.memory.addressMap space (.ofAddress other) =
      if Indistinct other address then some (.leadingTo physical (borrowed flags))
      else machine.memory.addressMap space (.ofAddress other) := by
    rw [h space hspace, AddressMaps.set]
    refine if_congr ?_ rfl rfl
    rw [← ofAddress_eq_iff_indistinct]
    exact and_iff_left (.inl rfl)
  refine ⟨fun other hsame => ?_, fun other hne => ?_⟩
  · rw [← Entry.address_leadingTo physical (borrowed flags)]
    exact translatesTo_of_addressMap ((hmap other).trans (if_pos hsame))
  · exact translatesAlike_of_addressMap ((hmap other).trans (if_neg hne))

/-- With addresses of 32 bits, a mapping is the one asked for. -/
theorem Enters.obeys (h : Enters space address physical flags machine machine')
    (haddress : address < bitRange 32) (hphysical : physical < bitRange 32) :
    Obeys (· < bitRange 32) space address physical flags machine machine' where
  here := by
    have hhere := h.here address rfl
    rwa [Nat.mod_eq_of_lt hphysical] at hhere
  elsewhere other hother hne :=
    h.elsewhere other fun hsame => hne ((indistinct_iff hother haddress).mp hsame)

/-- The action enters a page into the tables, or it is refused and all addresses translate as they
did. It does not halt. -/
def Writes {α : Type} (action : Action MemoryError Machine α) (space : AddressSpace)
    (address physical : Nat) (flags : Flags) (machine : Machine) : Prop :=
  action.Settles machine
    (fun _ machine' => Enters space address physical flags machine machine' ∧
      (address < bitRange 32 → physical < bitRange 32 →
        Obeys (· < bitRange 32) space address physical flags machine machine'))
    fun _ machine' => ∀ other, TranslatesAlike space machine machine' other

section Runs

variable {layout : Layout} {start : Machine} {journal : Journal} {ledger : Ledger}

/-- After any run, mapping a page of a live space and mapping it again do the same to the
translations of that space. All addresses with the lower 32 bits of the given one, up to the place
in the page, lead into the page that the lower 32 bits of the physical address name, with the flags
asked for; no other address translates otherwise than before. So for addresses of 32 bits, what is
done is what was asked for, and longer ones are taken for their lower 32 bits. If the page is
refused, then no address translates otherwise. -/
theorem writes_of_reachable (hpool : start.frames.Reachable)
    (htotal : start.frames.total ≤ bitRange 20)
    (h : Ledger.Reachable layout start journal paging ledger) (hspace : space ∈ ledger.spaces)
    (address physical : Nat) (flags : Flags) :
    Writes (paging.map space address physical flags) space address physical flags ledger.machine ∧
    Writes (paging.remap space address physical flags) space address physical flags
      ledger.machine := by
  obtain ⟨hconsistent, -⟩ := consistent_of_reachable hpool htotal h
  have hrefines := hconsistent.refines
  have hdone {machine' : Machine} (hmaps : Realizes machine'.memory ledger.spaces
      (AddressMaps.set ledger.machine.memory.addressMap paging space (.ofAddress address)
        (some (.leadingTo physical (borrowed flags))))) :
      Enters space address physical flags ledger.machine machine' ∧
        (address < bitRange 32 → physical < bitRange 32 →
          Obeys (· < bitRange 32) space address physical flags ledger.machine machine') :=
    have henters := enters_of_realizes hspace hmaps
    ⟨henters, henters.obeys⟩
  constructor
  · exact (hrefines.map space hspace address physical flags).mono
      (fun _ _ hmapped => hdone hmapped.2.2)
      fun _ _ hrefused => translatesAlike_of_realizes hspace hrefused.2
  · exact (hrefines.remap space hspace address physical flags).mono
      (fun _ _ hmapped => hdone hmapped.2.2)
      fun _ _ hrefused => translatesAlike_of_realizes hspace hrefused.2

end Runs

/-! ## Addresses of more than 32 bits -/

/-- In eight frames there is room for a kernel space and for another one. A page of that can be
mapped to a physical address of 33 bits, by an address of 33 bits, and by one of 32 bits. -/
theorem exists_longMappings_of_smallMachine :
    ∃ paging ledger, Ledger.Reachable smallLayout smallMachine #[] paging ledger ∧
      ⟨2⟩ ∈ ledger.spaces ∧
      ledger.machine.memory.addressMap ⟨2⟩ (.ofAddress userSpaceStart) = none ∧
      ∀ address ∈ [userSpaceStart, bitRange 32 + userSpaceStart],
        ∀ physical ∈ [0x5000, bitRange 32 + 0x5000], ∃ machine' journal',
          paging.map ⟨2⟩ address physical Flags.writable ledger.machine ledger.journal =
            .done () machine' journal' ∧
          machine'.memory.addressMap ⟨2⟩ (.ofAddress userSpaceStart) =
            some ⟨5, borrowed Flags.writable⟩ := by
  have hrun : (Ledger.ofRun? smallLayout smallMachine [.createSpace]).any (fun run =>
      decide (⟨2⟩ ∈ run.2.spaces ∧
        run.2.machine.memory.addressMap ⟨2⟩ (.ofAddress userSpaceStart) = none) &&
      [userSpaceStart, bitRange 32 + userSpaceStart].all fun address =>
        [0x5000, bitRange 32 + 0x5000].all fun physical =>
          (run.1.map ⟨2⟩ address physical Flags.writable run.2.machine run.2.journal).passes
            fun _ machine' _ => decide (machine'.memory.addressMap ⟨2⟩
              (.ofAddress userSpaceStart) = some ⟨5, borrowed Flags.writable⟩)) = true := by
    decide +kernel
  obtain ⟨⟨paging, ledger⟩, hledger, hrun⟩ := (Option.any_eq_true _ _).mp hrun
  obtain ⟨hfacts, hall⟩ := Bool.and_eq_true_iff.mp hrun
  obtain ⟨hspace, hnone⟩ := of_decide_eq_true hfacts
  refine ⟨paging, ledger, Ledger.reachable_of_ofRun? hledger, hspace, hnone,
    fun address haddress physical hphysical => ?_⟩
  obtain ⟨_, machine', journal', hmap, hentry⟩ := Outcome.passes_iff.mp
    (List.all_eq_true.mp (List.all_eq_true.mp hall address haddress) physical hphysical)
  exact ⟨machine', journal', hmap, of_decide_eq_true hentry⟩

/-- A page that is mapped through an address of 33 bits is found at the address of 32 bits, too, and
a physical address of 33 bits leads where the one of 32 bits does. -/
theorem writes_of_smallMachine :
    ∃ paging ledger, Ledger.Reachable smallLayout smallMachine #[] paging ledger ∧
      ∃ machine' journal',
        paging.map ⟨2⟩ (bitRange 32 + userSpaceStart) (bitRange 32 + 0x5000) Flags.writable
          ledger.machine ledger.journal = .done () machine' journal' ∧
        TranslatesTo ⟨2⟩ machine' (userSpaceStart + 8) 0x5008 (borrowed Flags.writable) ∧
        TranslatesAlike ⟨2⟩ ledger.machine machine' (userSpaceStart + pageSize) := by
  obtain ⟨paging, ledger, hreachable, hspace, -, hmaps⟩ := exists_longMappings_of_smallMachine
  obtain ⟨machine', journal', hmap, -⟩ := hmaps (bitRange 32 + userSpaceStart) (by decide)
    (bitRange 32 + 0x5000) (by decide)
  obtain ⟨henters, -⟩ := (writes_of_reachable (.allFree (by decide)) (by decide) hreachable hspace
    (bitRange 32 + userSpaceStart) (bitRange 32 + 0x5000) Flags.writable).1.of_done hmap
  exact ⟨paging, ledger, hreachable, machine', journal', hmap, henters.here _ (by decide),
    henters.elsewhere _ (by decide)⟩

/-- Mapping a page to a physical address of 33 bits is done, and the page leads somewhere else. And
mapping one through an address of 33 bits has another address translate that did not. -/
theorem not_obeys_of_longAddress :
    ∃ paging ledger, Ledger.Reachable smallLayout smallMachine #[] paging ledger ∧
      ⟨2⟩ ∈ ledger.spaces ∧
      (∃ machine' journal', bitRange 32 + 0x5000 < bitRange 52 ∧
        paging.map ⟨2⟩ userSpaceStart (bitRange 32 + 0x5000) Flags.writable ledger.machine
          ledger.journal = .done () machine' journal' ∧
        TranslatesTo ⟨2⟩ machine' userSpaceStart 0x5000 (borrowed Flags.writable) ∧
        ¬Obeys (isCanonical ·) ⟨2⟩ userSpaceStart (bitRange 32 + 0x5000) Flags.writable
          ledger.machine machine') ∧
      ∃ machine' journal', isCanonical (bitRange 32 + userSpaceStart) ∧
        paging.map ⟨2⟩ (bitRange 32 + userSpaceStart) 0x5000 Flags.writable ledger.machine
          ledger.journal = .done () machine' journal' ∧
        ¬TranslatesAlike ⟨2⟩ ledger.machine machine' userSpaceStart ∧
        ¬Obeys (isCanonical ·) ⟨2⟩ (bitRange 32 + userSpaceStart) 0x5000 Flags.writable
          ledger.machine machine' := by
  obtain ⟨paging, ledger, hreachable, hspace, hnone, hmaps⟩ := exists_longMappings_of_smallMachine
  obtain ⟨far, journal', hfar, hentry⟩ := hmaps userSpaceStart (by decide)
    (bitRange 32 + 0x5000) (by decide)
  obtain ⟨near, journal'', hnear, hentry'⟩ := hmaps (bitRange 32 + userSpaceStart) (by decide)
    0x5000 (by decide)
  have hleads : TranslatesTo ⟨2⟩ far userSpaceStart 0x5000 (borrowed Flags.writable) :=
    translatesTo_of_addressMap hentry
  -- The address of 32 bits did not translate before, and now it does.
  have hchanged : ¬TranslatesAlike ⟨2⟩ ledger.machine near userSpaceStart := by
    intro halike
    have hbefore := halike #[]
    rw [translatesTo_of_addressMap hentry' #[], translate_eq, AddressMap.translate?, hnone]
      at hbefore
    cases hbefore
  refine ⟨paging, ledger, hreachable, hspace, ⟨far, journal', by decide, hfar, hleads, ?_⟩,
    near, journal'', by decide, hnear, hchanged, ?_⟩
  · intro hobeys
    have hasked := (hleads #[]).symm.trans (hobeys.here #[])
    injection hasked with hvalue
    exact absurd (congrArg Prod.fst hvalue) (by decide)
  · exact fun hobeys => hchanged (hobeys.elsewhere userSpaceStart (by decide) (by decide))

end Paging

end KernelResources
