import KernelResources.Proofs.Paging.Coherence
import KernelResources.Proofs.Paging.Lasting

/-!
# No stale translations

The memory management unit translates with what it has cached. This file follows runs of requests
together with the cache, and shows that the cache never holds a translation that the loaded
directory does not have, no matter what was cached when.

* `Request.ConfinesGlobal` says which requests ask for global translations as they should.
* `ensures_globalsShared`: then there are global translations in the kernel region only.
* `secures_request`: no page is stale after a request.
* `Ledger.Cached` are the runs, with any cache that may have come about; `Ledger.Coherent` is the
  invariant, `Ledger.Coherent.step` that a request keeps it.
* `cached_of_reachable`: what is cached after a run is what a walk finds.
-/

namespace KernelResources

theorem Flags.has_global (flags : Flags) : flags.has global = flags.getLsbD 8 :=
  has_twoPow (by decide)

namespace Paging

open Machine Routine

variable {paging : Paging} {machine machine' : Machine} {spaces : List AddressSpace}
  {others : List Nat} {space : AddressSpace} {ledger ledger' : Ledger} {request : Request}
  {journal : Journal} {stale : Set PageNumber} {memory : WordMemory} {maps : AddressMaps}

/-- Global translations are asked for through the kernel space only, and in the kernel region. -/
def Request.ConfinesGlobal (paging : Paging) : Request → Prop
  | .map space address _ flags | .remap space address _ flags | .mapFresh space address flags =>
    flags.has Flags.global → space = paging.kernel ∧ paging.inKernelRegion address
  | _ => True

/-! ## Global translations -/

theorem has_global_borrowed (flags : Flags) :
    (borrowed flags).has Flags.global = flags.has Flags.global := by
  rw [Flags.has_global, Flags.has_global]
  simp [borrowed, Flags.owned, Flags.present]

theorem has_global_fresh (flags : Flags) :
    (fresh flags).has Flags.global = flags.has Flags.global := by
  rw [Flags.has_global, Flags.has_global]
  simp [fresh, Flags.owned, Flags.present]

/-- A page that is asked for as a global one lies in the kernel region. -/
theorem isShared_of_confined {address : Nat} {leaf : Entry} {flags : Flags}
    (hconfined : flags.has Flags.global → space = paging.kernel ∧ paging.inKernelRegion address)
    (hflags : leaf.flags.has Flags.global = flags.has Flags.global) :
    ∀ leaf', some leaf = some leaf' → leaf'.flags.has Flags.global →
      (PageNumber.ofAddress address).IsShared paging.layout := by
  rintro _ ⟨⟩ hflag
  rw [PageNumber.IsShared, PageNumber.directorySlot_ofAddress]
  exact of_decide_eq_true (hconfined (hflags ▸ hflag)).2

/-- A page that is changed keeps global translations in the kernel region, unless it is global
itself and lies elsewhere. -/
theorem globalsShared_set {page : PageNumber} {leaf? : Option Entry}
    (h : GlobalsShared paging machine.memory spaces)
    (hleaf : ∀ leaf, leaf? = some leaf → leaf.flags.has Flags.global → page.IsShared paging.layout)
    (hmaps : Realizes memory spaces
      (AddressMaps.set machine.memory.addressMap paging space page leaf?)) :
    GlobalsShared paging memory spaces := by
  intro other hother page' leaf hfound hflag
  rw [hmaps other hother] at hfound
  unfold AddressMaps.set at hfound
  split at hfound
  case isTrue hpage => exact hpage.1 ▸ hleaf leaf hfound hflag
  case isFalse => exact h other hother page' leaf hfound hflag

theorem globalsShared_of_realizes (h : GlobalsShared paging machine.memory spaces)
    (hmaps : Realizes memory spaces machine.memory.addressMap) :
    GlobalsShared paging memory spaces := by
  intro other hother page leaf hfound
  rw [hmaps other hother] at hfound
  exact h other hother page leaf hfound

/-- A new space has pages in the kernel region only. -/
theorem globalsShared_addSpace (h : GlobalsShared paging machine.memory spaces)
    (hmaps : Realizes memory (space :: spaces)
      (AddressMaps.addSpace machine.memory.addressMap paging space)) :
    GlobalsShared paging memory (space :: spaces) := by
  intro other hother page leaf hfound hflag
  rw [hmaps other hother] at hfound
  unfold AddressMaps.addSpace at hfound
  split at hfound
  case isTrue =>
    unfold AddressMap.sharedPart at hfound
    split at hfound
    · assumption
    · cases hfound
  case isFalse hne =>
    exact h other ((List.mem_cons.mp hother).resolve_left hne) page leaf hfound hflag

/-- What is written outside the tables changes no translation. -/
theorem realizes_write {address value : Nat}
    (h : Consistent paging ledger.machine ledger.spaces others)
    (hpermits : ledger.Permits paging (.write address value)) :
    Realizes (ledger.machine.memory.setWordAt address value) ledger.spaces
      ledger.machine.memory.addressMap := by
  have hshown : Shown paging ledger (.write address value)
      { ledger.machine with memory := ledger.machine.memory.setWordAt address value } :=
    ensures_shown h hpermits #[]
  intro other hother
  funext page
  by_contra hne
  obtain ⟨_, hpage, -⟩ := hshown.reaches hother hne
  cases hpage

/-- Where requests ask for global translations in the kernel region only, there are no others. -/
theorem ensures_globalsShared (h : Consistent paging ledger.machine ledger.spaces others)
    (hglobal : GlobalsShared paging ledger.machine.memory ledger.spaces)
    (hpermits : ledger.Permits paging request) (hconfines : request.ConfinesGlobal paging) :
    (request.run paging).Ensures ledger.machine
      (fun grant machine' => GlobalsShared paging machine'.memory
        (Ledger.spacesAfter ledger.spaces request grant))
      fun _ machine' => GlobalsShared paging machine'.memory ledger.spaces := by
  have hrefines := h.refines
  cases request with
  | createSpace =>
    exact (hrefines.createSpace.ensures.mono
      (fun _ _ hdone => globalsShared_addSpace hglobal hdone.2)
      fun _ _ hrefused => globalsShared_of_realizes hglobal hrefused.2).bind
        fun _ _ hdone => Action.ensures_pure hdone
  | destroySpace space =>
    refine ((hrefines.destroySpace space hpermits).ensures.mono
      (fun _ _ hdone => globalsShared_of_realizes hglobal hdone)
      fun _ _ hrefused => globalsShared_of_realizes hglobal hrefused).bind
        fun _ _ hdone => Action.ensures_pure ?_
    exact fun other hother => hdone other (List.mem_of_mem_erase hother)
  | map space address physical flags =>
    exact ((hrefines.map space hpermits address physical flags).ensures.mono
      (fun _ _ hdone => globalsShared_set hglobal
        (isShared_of_confined hconfines (has_global_borrowed flags)) hdone.2.2)
      fun _ _ hrefused => globalsShared_of_realizes hglobal hrefused.2).bind
        fun _ _ hdone => Action.ensures_pure hdone
  | remap space address physical flags =>
    exact ((hrefines.remap space hpermits address physical flags).ensures.mono
      (fun _ _ hdone => globalsShared_set hglobal
        (isShared_of_confined hconfines (has_global_borrowed flags)) hdone.2.2)
      fun _ _ hrefused => globalsShared_of_realizes hglobal hrefused.2).bind
        fun _ _ hdone => Action.ensures_pure hdone
  | mapFresh space address flags =>
    exact ((hrefines.mapFresh space hpermits address flags).ensures.mono
      (fun _ _ hdone => globalsShared_set hglobal
        (isShared_of_confined hconfines (has_global_fresh flags)) hdone.2.2.2.2)
      fun _ _ hrefused => globalsShared_of_realizes hglobal hrefused.2).bind
        fun _ _ hdone => Action.ensures_pure hdone
  | unmap space address =>
    refine ((hrefines.unmap MemoryError space hpermits address).ensures.mono ?_
      fun _ _ hrefused => hrefused.elim).bind fun _ _ hdone => Action.ensures_pure hdone
    rintro found machine' (⟨-, hmaps, -⟩ | ⟨leaf, -, -, -, hmaps⟩)
    · exact globalsShared_of_realizes hglobal hmaps
    · exact globalsShared_set hglobal (fun _ hnone => absurd hnone (Option.some_ne_none _).symm)
        hmaps
  | tableFor space address create =>
    exact ((hrefines.tableFor space hpermits address create).ensures.mono
      (fun _ _ hdone => globalsShared_of_realizes hglobal hdone)
      fun _ _ hrefused => globalsShared_of_realizes hglobal hrefused.2).bind
        fun _ _ hdone => Action.ensures_pure hdone
  | activate | activateKernel =>
    exact Action.ensures_bind (Action.ensures_modify (Action.ensures_pure hglobal))
  | allocate | allocateRun | free =>
    exact ((keepsMemory_onFrames _ ledger.machine rfl).mono
      (fun _ _ hmemory => hmemory ▸ hglobal) fun _ _ hmemory => hmemory ▸ hglobal).bind
        fun _ _ hdone => Action.ensures_pure hdone
  | write address value =>
    exact Action.ensures_bind (Action.ensures_modify (Action.ensures_pure
      (globalsShared_of_realizes hglobal (realizes_write h hpermits))))

/-! ## A single request -/

/-- After a request no page is stale, whatever was cached when, and a live space is loaded. Where
global translations are matters only if another directory is loaded. -/
theorem secures_request (h : Consistent paging ledger.machine ledger.spaces others)
    (hglobal : request.Loads → GlobalsShared paging ledger.machine.memory ledger.spaces)
    (hactive : ⟨ledger.machine.active⟩ ∈ ledger.spaces) (hpermits : ledger.Permits paging request) :
    (request.routine paging).Secures ledger.machine journal ∅
      (fun grant machine' stale => stale = ∅ ∧
        ⟨machine'.active⟩ ∈ Ledger.spacesAfter ledger.spaces request grant)
      fun _ machine' stale => stale = ∅ ∧ ⟨machine'.active⟩ ∈ ledger.spaces := by
  have hkept {machine' : Machine} {stale : Set PageNumber}
      (hsame : stale = ∅ ∧ machine'.active = ledger.machine.active) :
      stale = ∅ ∧ ⟨machine'.active⟩ ∈ ledger.spaces := ⟨hsame.1, hsame.2 ▸ hactive⟩
  have hsteady {machine' : Machine} {stale : Set PageNumber}
      (hsame : stale = ∅ ∧ Steady ledger.machine machine') :
      stale = ∅ ∧ ⟨machine'.active⟩ ∈ ledger.spaces := hkept ⟨hsame.1, hsame.2.active⟩
  cases request with
  | createSpace =>
    refine (secures_createSpace h hactive).mono ?_ (fun _ _ _ => hsteady) |>.bind
      fun _ _ _ hdone journal => hdone
    exact fun _ _ _ hdone => ⟨(hsteady hdone).1, List.mem_cons_of_mem _ (hsteady hdone).2⟩
  | destroySpace space =>
    refine (secures_destroySpace space).mono ?_ (fun _ _ _ => hsteady) |>.bind
      fun _ _ _ hdone journal => hdone
    rintro - machine' _ ⟨rfl, hsame, hother⟩
    refine ⟨rfl, (List.mem_erase_of_ne fun heq => hother ?_).mpr (hsame.active ▸ hactive)⟩
    rw [← heq, hsame.active]
  | map space address physical flags =>
    refine (secures_enter (h.lending physical flags) hactive hpermits address).mono
      (fun _ _ _ => hkept) (fun _ _ _ => hkept) |>.bind fun _ _ _ hdone journal => hdone
  | remap space address physical flags =>
    exact (secures_remap h hactive hpermits address).mono (fun _ _ _ => hkept)
      (fun _ _ _ => hkept) |>.bind fun _ _ _ hdone journal => hdone
  | mapFresh space address flags =>
    exact (secures_mapFresh h hactive hpermits address).mono (fun _ _ _ => hkept)
      (fun _ _ _ => hkept) |>.bind fun _ _ _ hdone journal => hdone
  | unmap space address =>
    exact (secures_unmap h hactive hpermits address).mono (fun _ _ _ => hkept)
      (fun _ _ _ hrefused => hrefused) |>.bind fun _ _ _ hdone journal => hdone
  | tableFor space address create =>
    exact (secures_tableFor h hactive hpermits address create).mono (fun _ _ _ => hsteady)
      (fun _ _ _ => hsteady) |>.bind fun _ _ _ hdone journal => hdone
  | activate space =>
    refine secures_bind (secures_load h.toShared (hglobal trivial) hactive hpermits ?_)
    exact fun machine' hloaded journal => ⟨rfl, hloaded ▸ hpermits⟩
  | activateKernel =>
    refine secures_bind (secures_load h.toShared (hglobal trivial) hactive h.kernel_mem ?_)
    exact fun machine' hloaded journal => ⟨rfl, hloaded ▸ h.kernel_mem⟩
  | allocate | allocateRun | free =>
    exact (spares_onFrames _).secures.mono (fun _ _ _ => hsteady) (fun _ _ _ => hsteady) |>.bind
      fun _ _ _ hdone journal => hdone
  | write address value =>
    have hwalks : (ledger.machine.memory.setWordAt address value).addressMap
        ⟨ledger.machine.active⟩ = ledger.machine.memory.addressMap ⟨ledger.machine.active⟩ :=
      realizes_write h hpermits _ hactive
    refine secures_bind (secures_act rfl (Instruction.carries_of_walks_eq rfl ?_)
      fun journal => ⟨rfl, hactive⟩)
    exact Set.ext fun pair => by
      show (ledger.machine.memory.setWordAt address value).addressMap _ _ = _ ↔ _
      rw [hwalks]
      rfl

/-! ## Runs -/

/-- At first the kernel space is loaded, and it has pages in the kernel region only. -/
theorem loaded_of_create {layout : Layout} {journal' : Journal}
    (hpool : machine.frames.Consistent) (htotal : machine.frames.total ≤ bitRange 20)
    (h : create layout machine journal = .done paging machine' journal') :
    machine'.active = paging.kernel.directory ∧
      ∀ slot < entryCount, (machine'.memory.entry paging.kernel.directory slot).frame?.isSome →
        slot < paging.layout.sharedSlots := by
  have hlimit := heapLimit_lt_of_create h
  have hle := sharedSlots_le hlimit
  have hcreate : (create layout).Settles machine (fun paging machine' =>
      machine'.active = paging.kernel.directory ∧
        ∀ slot < entryCount, (machine'.memory.entry paging.kernel.directory slot).frame?.isSome →
          slot < paging.layout.sharedSlots) fun _ _ => True := by
    refine Action.settles_bind (settles_takeZeroed hpool (fun directory hfree => ?_) trivial)
    rw [Layout.heapEnd_eq_pure hlimit, pure_bind]
    obtain ⟨hstart, hempty⟩ : Building { layout, kernel := ⟨directory⟩ } _ _ ∧ _ :=
      building_takingZeroed hpool htotal hfree
    refine (hstart.settles_addSharedTables hle hempty).bind ?_
    rintro - tables ⟨htables, hpresent⟩
    refine (htables.settles_mapIdentities _).bind ?_
    rintro - pages ⟨-, hsame⟩
    refine Action.settles_bind (Action.settles_modify (Action.settles_bind
      (Action.settles_note rfl (Action.settles_pure ⟨rfl, fun slot hslot hsome => ?_⟩))))
    rw [hsame slot hslot, hpresent slot hslot] at hsome
    exact List.mem_range.mp (of_decide_eq_true hsome)
  exact hcreate.of_done h

/-- The ledgers that a run leads to, with the caches that the memory management unit may have by
then. A cache is filled at any time, between requests and in the middle of them. -/
inductive Ledger.Cached (layout : Layout) (start : Machine) (journal : Journal) (paging : Paging) :
    Ledger → TranslationCache → Prop where
  | create {machine : Machine} {journal' : Journal} :
      Paging.create layout start journal = .done paging machine journal' →
        Cached layout start journal paging ⟨machine, journal', [paging.kernel], []⟩ ∅
  | fill {ledger : Ledger} {cache cache' : TranslationCache} :
      Cached layout start journal paging ledger cache → cache' ⊆ cache ∪ ledger.machine.walks →
        Cached layout start journal paging ledger cache'
  | step {ledger ledger' : Ledger} {cache : TranslationCache} {request : Request}
      {moment : Moment MemoryError Grant} :
      Cached layout start journal paging ledger cache → ledger.Permits paging request →
        request.ConfinesGlobal paging → ledger.step paging request = some ledger' →
          Relation.ReflTransGen Moment.Next
            ⟨request.routine paging, ledger.machine, ledger.journal, cache⟩ moment →
          moment.Over → Cached layout start journal paging ledger' moment.cache
  | invalidate {ledger : Ledger} {cache : TranslationCache} {address : Nat} {machine : Machine}
      {journal' : Journal} :
      Cached layout start journal paging ledger cache →
        (Machine.invalidate address : Total Machine Unit) ledger.machine ledger.journal =
          .done () machine journal' →
        Cached layout start journal paging { ledger with machine, journal := journal' }
          ((MmuCall.invalidate (roundDown address pageSize)).applyTo cache)

/-- Between two requests, all that is cached is what a walk finds. -/
structure Ledger.Coherent (paging : Paging) (others : List Nat) (ledger : Ledger)
    (cache : TranslationCache) : Prop where
  /-- Frames and tables agree. -/
  consistent : Consistent paging ledger.machine ledger.spaces (others ++ ledger.held)
  /-- Global translations are those of the kernel region. -/
  globals : GlobalsShared paging ledger.machine.memory ledger.spaces
  /-- A live space is loaded. -/
  active : ⟨ledger.machine.active⟩ ∈ ledger.spaces
  /-- The cache is right. -/
  cached : cache ⊆ ledger.machine.walks

theorem fresh_empty_iff {cache : TranslationCache} :
    machine.Fresh ∅ cache ↔ cache ⊆ machine.walks :=
  forall₂_congr fun _ _ => or_iff_right (Set.notMem_empty _)

/-- A request that is over has left behind what the ledger says. -/
theorem Ledger.step_of_over {moment : Moment MemoryError Grant} {cache : TranslationCache}
    (hpath : Relation.ReflTransGen Moment.Next
      ⟨request.routine paging, ledger.machine, ledger.journal, cache⟩ moment)
    (hover : moment.Over) (hstep : ledger.step paging request = some ledger') :
    moment.machine = ledger'.machine ∧
      ((∃ grant, moment.rest = .done grant ∧
        ledger'.spaces = spacesAfter ledger.spaces request grant) ∨
      ∃ error, moment.rest = .refused error ∧ ledger'.spaces = ledger.spaces) := by
  have hout : moment.outcome = request.run paging ledger.machine ledger.journal := by
    rw [Moment.outcome_eq_of_path hpath, Moment.outcome, Request.run_routine]
  obtain ⟨rest, machine, journal, cache'⟩ := moment
  unfold Ledger.step at hstep
  rw [← hout] at hstep
  cases rest with
  | done grant =>
    cases hstep
    exact ⟨rfl, .inl ⟨grant, rfl, rfl⟩⟩
  | refused error =>
    cases hstep
    exact ⟨rfl, .inr ⟨error, rfl, rfl⟩⟩
  | step instruction next => exact hover.elim

/-- What a request secures holds of what it has left behind when it is over. -/
theorem Ledger.secured_of_over {moment : Moment MemoryError Grant} {cache : TranslationCache}
    (post : Machine → Set PageNumber → List AddressSpace → Prop)
    (hpath : Relation.ReflTransGen Moment.Next
      ⟨request.routine paging, ledger.machine, ledger.journal, cache⟩ moment)
    (hover : moment.Over) (hstep : ledger.step paging request = some ledger')
    (hsecures : moment.rest.Secures moment.machine moment.journal stale
      (fun grant machine' stale => post machine' stale (spacesAfter ledger.spaces request grant))
      fun _ machine' stale => post machine' stale ledger.spaces) :
    post ledger'.machine stale ledger'.spaces := by
  obtain ⟨hmachine, hrest⟩ := step_of_over hpath hover hstep
  rw [← hmachine]
  rcases hrest with ⟨grant, hrest, hspaces⟩ | ⟨error, hrest, hspaces⟩
  · rw [hrest] at hsecures
    exact hspaces ▸ hsecures
  · rw [hrest] at hsecures
    exact hspaces ▸ hsecures

theorem Ledger.Coherent.step {cache : TranslationCache} {moment : Moment MemoryError Grant}
    (h : ledger.Coherent paging others cache) (hpermits : ledger.Permits paging request)
    (hconfines : request.ConfinesGlobal paging) (hstep : ledger.step paging request = some ledger')
    (hpath : Relation.ReflTransGen Moment.Next
      ⟨request.routine paging, ledger.machine, ledger.journal, cache⟩ moment)
    (hover : moment.Over) : ledger'.Coherent paging others moment.cache := by
  obtain ⟨stale, hfresh, hsecures⟩ := secures_of_path hpath (fresh_empty_iff.mpr h.cached)
    ((secures_request h.consistent (fun _ => h.globals) h.active hpermits).and (by
      rw [Request.run_routine]
      exact ensures_globalsShared h.consistent h.globals hpermits hconfines))
  obtain ⟨⟨rfl, hactive⟩, hglobals⟩ := secured_of_over (fun machine stale spaces =>
    (stale = ∅ ∧ ⟨machine.active⟩ ∈ spaces) ∧ GlobalsShared paging machine.memory spaces)
      hpath hover hstep hsecures
  rw [(step_of_over hpath hover hstep).1] at hfresh
  exact ⟨(consistent_of_step h.consistent hpermits hstep).1, hglobals, hactive,
    fresh_empty_iff.mp hfresh⟩

section Runs

variable {layout : Layout} {start : Machine} {cache : TranslationCache}

/-- A run goes on with every request that returns, and it may do so with the memory management unit
finding nothing meanwhile. -/
theorem Ledger.Cached.exists_step (h : Ledger.Cached layout start journal paging ledger cache)
    (hstep : ledger.step paging request = some ledger') (hpermits : ledger.Permits paging request)
    (hconfines : request.ConfinesGlobal paging) :
    ∃ calls, ledger'.machine.calls.toList = ledger.machine.calls.toList ++ calls ∧
      Ledger.Cached layout start journal paging ledger' (calls.foldl MmuCall.applyTo cache) := by
  have hrun := Ledger.state?_of_step hstep
  rw [← Request.run_routine] at hrun
  obtain ⟨moment, calls, hpath, hover, hcalls, hcache⟩ := Moment.exists_path hrun cache
  refine ⟨calls, hcalls, ?_⟩
  rw [← hcache]
  exact h.step hpermits hconfines hstep hpath hover

/-- After any run, all that is cached is what a walk finds. -/
theorem Ledger.Cached.coherent (hpool : start.frames.Reachable)
    (htotal : start.frames.total ≤ bitRange 20)
    (h : Ledger.Cached layout start journal paging ledger cache) :
    ledger.Coherent paging start.frames.takenFrames cache := by
  induction h with
  | create hcreate =>
    have hframes := FramePool.consistent_of_reachable hpool
    obtain ⟨hactive, hslots⟩ := loaded_of_create hframes htotal hcreate
    have hconsistent := (consistent_of_create hframes htotal hcreate).1
    refine ⟨by rwa [List.append_nil], fun space hspace page leaf hfound _ => ?_, ?_,
      Set.empty_subset _⟩
    · rw [List.mem_singleton.mp hspace] at hfound
      refine hslots _ page.directorySlot_lt (Option.isSome_iff_ne_none.mpr fun hnone => ?_)
      rw [WordMemory.addressMap, WordMemory.behind_of_none hnone] at hfound
      cases hfound
    · rw [hactive]
      exact List.mem_cons_self
  | fill _ hfill ih =>
    exact { ih with cached := hfill.trans (Set.union_subset ih.cached subset_rfl) }
  | step _ hpermits hconfines hstep hpath hover ih =>
    exact ih.step hpermits hconfines hstep hpath hover
  | invalidate _ hrun ih =>
    cases hrun
    exact ⟨ih.consistent.congr rfl rfl, ih.globals, ih.active,
      fun pair hpair => ih.cached hpair.1⟩

/-- No stale translations: after any run of requests, whatever the memory management unit cached
between any two instructions, what it has cached of a page is what a walk of the loaded directory
finds for that page now. Global translations have to be asked for through the kernel space, and in
the kernel region only. -/
theorem cached_of_reachable (hpool : start.frames.Reachable)
    (htotal : start.frames.total ≤ bitRange 20)
    (h : Ledger.Cached layout start journal paging ledger cache) :
    (∀ request : Request, (request.routine paging).run = request.run paging) ∧
      ∀ pair ∈ cache,
        ledger.machine.memory.addressMap ⟨ledger.machine.active⟩ pair.1 = some pair.2 :=
  ⟨Request.run_routine paging, (h.coherent hpool htotal).cached⟩

end Runs

/-- In eight frames there is room for a space with a page of its own. If that page is cached and
unmapped then, it is forgotten, while a page of the kernel region stays cached. -/
theorem cached_of_smallMachine :
    ∃ paging loaded ledger cache,
      Ledger.Cached smallLayout smallMachine #[] paging loaded loaded.machine.walks ∧
      (.ofAddress userSpaceStart, ⟨3, fresh Flags.user⟩) ∈ loaded.machine.walks ∧
      loaded.step paging (.unmap ⟨2⟩ userSpaceStart) = some ledger ∧
      Ledger.Cached smallLayout smallMachine #[] paging ledger cache ∧
      (.ofAddress 0x1000, ⟨1, Flags.kernelPage⟩) ∈ cache ∧
      ledger.machine.memory.addressMap ⟨ledger.machine.active⟩ (.ofAddress 0x1000) =
        some ⟨1, Flags.kernelPage⟩ ∧
      ∀ leaf, (.ofAddress userSpaceStart, leaf) ∉ cache := by
  have hpool : smallMachine.frames.Reachable := .allFree (by decide)
  have hrun : (match create smallLayout smallMachine #[] with
      | .done paging machine journal =>
        match Ledger.step paging .createSpace ⟨machine, journal, [paging.kernel], []⟩ with
        | some built =>
          match built.step paging (.mapFresh ⟨2⟩ userSpaceStart Flags.user) with
          | some mapped =>
            match mapped.step paging (.activate ⟨2⟩) with
            | some loaded =>
              match loaded.step paging (.unmap ⟨2⟩ userSpaceStart) with
              | some ledger => decide ((⟨2⟩ ∈ built.spaces ∧ ⟨2⟩ ∈ mapped.spaces ∧
                  ⟨2⟩ ∈ loaded.spaces) ∧
                  loaded.machine.memory.addressMap ⟨loaded.machine.active⟩
                    (.ofAddress userSpaceStart) = some ⟨3, fresh Flags.user⟩ ∧
                  loaded.machine.memory.addressMap ⟨loaded.machine.active⟩ (.ofAddress 0x1000) =
                    some ⟨1, Flags.kernelPage⟩ ∧
                  ledger.machine.memory.addressMap ⟨ledger.machine.active⟩
                    (.ofAddress userSpaceStart) = none ∧
                  ledger.machine.calls.toList =
                    loaded.machine.calls.toList ++ [.invalidate userSpaceStart])
              | none => false
            | none => false
          | none => false
        | none => false
      | _ => false) = true := by decide +kernel
  split at hrun
  case h_1 paging machine journal hcreate =>
    split at hrun
    case h_1 built hbuilt =>
      split at hrun
      case h_1 mapped hmapped =>
        split at hrun
        case h_1 loaded hloaded =>
          split at hrun
          case h_1 ledger hunmapped =>
            obtain ⟨⟨hin, hin', hin''⟩, huser, hkernel, hgone, hcalls⟩ := of_decide_eq_true hrun
            obtain ⟨_, -, hbuilt⟩ :=
              (Ledger.Cached.create hcreate).exists_step hbuilt trivial trivial
            obtain ⟨_, -, hmapped⟩ := hbuilt.exists_step hmapped hin
              fun hflag => absurd hflag (by decide)
            obtain ⟨_, -, hloaded⟩ := hmapped.exists_step hloaded hin' trivial
            -- The memory management unit caches whatever there is before the page is unmapped.
            have hfilled : Ledger.Cached smallLayout smallMachine #[] paging loaded
                loaded.machine.walks := hloaded.fill Set.subset_union_right
            obtain ⟨calls, hcalls', hfinal⟩ := hfilled.exists_step hunmapped hin'' trivial
            obtain rfl : calls = [.invalidate userSpaceStart] :=
              List.append_cancel_left (hcalls'.symm.trans hcalls)
            have hcached := (cached_of_reachable hpool (by decide) hfinal).2
            have hkept : (.ofAddress 0x1000, ⟨1, Flags.kernelPage⟩) ∈
                (MmuCall.invalidate userSpaceStart).applyTo loaded.machine.walks :=
              ⟨hkernel, by decide⟩
            have hfound := hcached (.ofAddress 0x1000, ⟨1, Flags.kernelPage⟩) hkept
            refine ⟨paging, loaded, ledger, _, hfilled, huser, hunmapped, hfinal, hkept, hfound,
              fun leaf hleaf => ?_⟩
            rw [hcached (.ofAddress userSpaceStart, leaf) hleaf] at hgone
            cases hgone
          case h_2 => cases hrun
        case h_2 => cases hrun
      case h_2 => cases hrun
    case h_2 => cases hrun
  case h_2 => cases hrun

end Paging

end KernelResources
