import KernelResources.Proofs.Paging.Dismantling
import KernelResources.Proofs.Paging.Freshness

/-!
# What destroyed spaces leave in the cache

A global translation stays cached when another directory is loaded, wherever its page lies. As long
as its space is alive, unmapping or remapping the page has it forgotten. But a space is destroyed
without having anything forgotten, so the global pages that it still has may stay in the cache, and
lead to frames that are free by then.

* `Ledger.FreelyCached` are the runs, with any cache that may have come about. Unlike in
  `Ledger.Cached`, global translations may be asked for anywhere.
* `Ledger.rightful` is what may rightly be cached, `Ledger.abandoned` what a destroyed space leaves
  behind. `Ledger.FreelyCached.explains`: nothing else is ever cached.
* `remnants_of_destroySpace` compares the two ways to take a space down: what may stay in the cache
  are the pages that unmapping them would have had forgotten.
* `stale_of_destroyedSpace`: such a page stays, and its frame is free.
-/

namespace KernelResources

/-! ## What stays in a cache -/

namespace MmuCall

variable {cache : TranslationCache} {pair : PageNumber × Entry}

/-- A request to the memory management unit does not have a cached translation forgotten. -/
def Keeps (pair : PageNumber × Entry) : MmuCall → Prop
  | load _ => pair.2.flags.has Flags.global
  | invalidate page => pair.1 ≠ .ofAddress page

theorem mem_applyTo_iff {call : MmuCall} :
    pair ∈ call.applyTo cache ↔ pair ∈ cache ∧ call.Keeps pair := by
  cases call <;> rfl

theorem mem_foldl_applyTo_iff {calls : List MmuCall} :
    pair ∈ calls.foldl applyTo cache ↔ pair ∈ cache ∧ ∀ call ∈ calls, call.Keeps pair := by
  induction calls generalizing cache with
  | nil => simp
  | cons call rest ih =>
    rw [List.foldl_cons, ih, mem_applyTo_iff, List.forall_mem_cons, and_assoc]

end MmuCall

namespace Moment

variable {ε α : Type} {rest : Routine ε α} {machine : Machine} {journal : Journal}
  {cache found old : TranslationCache} {moment' : Moment ε α}

/-- A path may be taken with part of the cache left out: the rest goes its way, and the part that is
left out stays cached until it is forgotten. -/
theorem exists_path_of_subset
    (hpath : Relation.ReflTransGen Next ⟨rest, machine, journal, cache⟩ moment')
    (hsplit : cache ⊆ found ∪ old) :
    ∃ cache' calls, Relation.ReflTransGen Next ⟨rest, machine, journal, found⟩
        ⟨moment'.rest, moment'.machine, moment'.journal, cache'⟩ ∧
      moment'.machine.calls.toList = machine.calls.toList ++ calls ∧
      moment'.cache ⊆ cache' ∪ calls.foldl MmuCall.applyTo old := by
  induction hpath with
  | refl => exact ⟨found, [], .refl, (List.append_nil _).symm, hsplit⟩
  | tail _ hnext ih =>
    obtain ⟨cache', calls, hpath, hcalls, hsubset⟩ := ih
    cases hnext with
    -- Whatever is found goes to the part that is followed.
    | @fill _ middle _ _ _ hfill =>
      refine ⟨cache' ∪ middle.walks, calls, hpath.tail (.fill subset_rfl), hcalls, ?_⟩
      exact hfill.trans (Set.union_subset (hsubset.trans
        (Set.union_subset_union_left _ Set.subset_union_left))
        (Set.subset_union_of_subset_left Set.subset_union_right _))
    | @execute _ instruction _ _ _ _ _ _ _ hrun =>
      refine ⟨instruction.calls.foldl MmuCall.applyTo cache', calls ++ instruction.calls,
        hpath.tail (.execute hrun), ?_, fun pair hpair => ?_⟩
      · rw [(Instruction.effect_of_run hrun).calls, hcalls, List.append_assoc]
      · obtain ⟨hcached, hkept⟩ := MmuCall.mem_foldl_applyTo_iff.mp hpair
        rw [List.foldl_append]
        exact (hsubset hcached).imp (fun h => MmuCall.mem_foldl_applyTo_iff.mpr ⟨h, hkept⟩)
          fun h => MmuCall.mem_foldl_applyTo_iff.mpr ⟨h, hkept⟩

/-- When a directory is loaded, what was cached before and what was found until then stays cached
if it is global. -/
theorem cache_of_load {directory : Nat} {value : α} {moment : Moment ε α}
    (hpath : Relation.ReflTransGen Next
      ⟨.step (.load directory) fun _ => .done value, machine, journal, cache⟩ moment)
    (hover : moment.Over) {pair : PageNumber × Entry} (hpair : pair ∈ moment.cache) :
    pair ∈ moment.machine.walks ∨
      pair.2.flags.has Flags.global ∧ (pair ∈ cache ∨ pair ∈ machine.walks) := by
  -- Either the directory is still to be loaded, or the routine is over.
  suffices h : moment = ⟨.step (.load directory) fun _ => .done value, machine, journal,
        moment.cache⟩ ∧ moment.cache ⊆ cache ∪ machine.walks ∨
      moment.rest = .done value ∧ ∀ pair ∈ moment.cache, pair ∈ moment.machine.walks ∨
        pair.2.flags.has Flags.global ∧ (pair ∈ cache ∨ pair ∈ machine.walks) by
    rcases h with ⟨heq, -⟩ | ⟨-, hall⟩
    · rw [heq] at hover
      exact hover.elim
    · exact hall pair hpair
  clear hover hpair
  induction hpath with
  | refl => exact .inl ⟨rfl, Set.subset_union_left⟩
  | tail _ hnext ih =>
    rcases ih with ⟨heq, hsubset⟩ | ⟨hrest, hall⟩
    · rw [heq] at hnext
      cases hnext with
      | fill hfill =>
        exact .inl ⟨rfl, hfill.trans (Set.union_subset hsubset Set.subset_union_right)⟩
      | execute hrun =>
        cases hrun
        refine .inr ⟨rfl, fun pair hpair => .inr ?_⟩
        exact ⟨hpair.2, hsubset hpair.1⟩
    · cases hnext with
      | fill hfill =>
        refine .inr ⟨hrest, fun pair hpair => ?_⟩
        exact (hfill hpair).elim (hall pair) .inl
      | execute _ => cases hrest

end Moment

namespace Paging

open Machine

variable {paging : Paging} {ledger ledger' : Ledger} {request : Request} {others others' : List Nat}
  {space : AddressSpace} {page : PageNumber} {leaf : Entry} {cache lost : TranslationCache}
  {journal : Journal} {moment : Moment MemoryError Grant} {pages : List PageNumber}

/-- The request may be over at a moment, if a ledger and a cache are what it begins with. -/
def Request.EndsAt (paging : Paging) (request : Request) (ledger : Ledger)
    (cache : TranslationCache) (moment : Moment MemoryError Grant) : Prop :=
  Relation.ReflTransGen Moment.Next
    ⟨request.routine paging, ledger.machine, ledger.journal, cache⟩ moment ∧ moment.Over

/-! ## What is forgotten in time -/

/-- Whatever is requested about a global page that is mapped, either all spaces translate as before
or the page is forgotten. -/
theorem ensures_forgotten (h : Consistent paging ledger.machine ledger.spaces others)
    (hpermits : ledger.Permits paging request) (hpage : request.page? = some (space, page))
    (hslot : page.directorySlot ∈ paging.ownSlots space)
    (hleaf : ledger.machine.memory.addressMap space page = some leaf)
    (hglobal : leaf.flags.has Flags.global = true) :
    let forgotten (machine' : Machine) :=
      Realizes machine'.memory ledger.spaces ledger.machine.memory.addressMap ∨
        ∃ calls, machine'.calls.toList = ledger.machine.calls.toList ++ calls ∧
          ∃ call ∈ calls, ¬call.Keeps (page, leaf)
    (request.run paging).Ensures ledger.machine (fun _ machine' => forgotten machine')
      fun _ machine' => forgotten machine' := by
  have hrefines := h.refines
  have htold (address : Nat) : ∃ call ∈ paging.forgetting ledger.machine space address leaf,
      ¬call.Keeps (.ofAddress address, leaf) :=
    ⟨_, mem_forgetting hglobal, fun hkeeps => hkeeps (ofAddress_roundDown address).symm⟩
  cases request with
  | map space address physical flags =>
    cases hpage
    exact ((hrefines.map space hpermits address physical flags).ensures.mono
      (fun _ _ hdone => absurd (hdone.2.1.symm.trans hleaf) (Option.some_ne_none _).symm)
      fun _ _ hrefused => .inl hrefused.2).bind fun _ _ hdone => Action.ensures_pure hdone
  | mapFresh space address flags =>
    cases hpage
    exact ((hrefines.mapFresh space hpermits address flags).ensures.mono
      (fun _ _ hdone => absurd (hdone.2.1.symm.trans hleaf) (Option.some_ne_none _).symm)
      fun _ _ hrefused => .inl hrefused.2).bind fun _ _ hdone => Action.ensures_pure hdone
  | remap space address physical flags =>
    cases hpage
    exact ((forgets_remap h hpermits hleaf).ensures.mono
      (fun _ _ hcalls => .inr ⟨_, hcalls, htold address⟩)
      fun _ _ hsame => .inl (hsame ▸ fun _ _ => rfl)).bind
        fun _ _ hdone => Action.ensures_pure hdone
  | unmap space address =>
    cases hpage
    exact ((retires_unmap h hpermits hslot hleaf).ensures.mono_done
      fun _ _ hretires => .inr ⟨_, hretires.calls, htold address⟩).bind
        fun _ _ hdone => Action.ensures_pure hdone
  | _ => cases hpage

/-! ## What is cached after a request -/

/-- What may rightly be cached: what the loaded space translates, and what is global in any other
space that is alive. -/
def Ledger.rightful (ledger : Ledger) : TranslationCache :=
  {pair | ∃ space ∈ ledger.spaces, ledger.machine.memory.addressMap space pair.1 = some pair.2 ∧
    (space.directory = ledger.machine.active ∨ pair.2.flags.has Flags.global)}

/-- The global pages of the spaces that are gone in `ledger'`, as far as they are not shared. -/
def Ledger.abandoned (paging : Paging) (ledger ledger' : Ledger) : TranslationCache :=
  {pair | pair.2.flags.has Flags.global ∧ ¬pair.1.IsShared paging.layout ∧
    ∃ space ∈ ledger.spaces, space ∉ ledger'.spaces ∧
      ledger.machine.memory.addressMap space pair.1 = some pair.2}

/-- What a walk finds may rightly be cached. -/
theorem Ledger.walks_subset (hactive : ⟨ledger.machine.active⟩ ∈ ledger.spaces) :
    ledger.machine.walks ⊆ ledger.rightful := fun _ hwalk => ⟨_, hactive, hwalk, .inl rfl⟩

/-- A global page that is not forgotten by a request is mapped as before, unless its space is
destroyed. -/
theorem Ledger.mem_rightful_of_kept (h : Consistent paging ledger.machine ledger.spaces others)
    (hpermits : ledger.Permits paging request) (hstep : ledger.step paging request = some ledger')
    (h' : Consistent paging ledger'.machine ledger'.spaces others')
    (hspace : space ∈ ledger.spaces)
    (hleaf : ledger.machine.memory.addressMap space page = some leaf)
    (hglobal : leaf.flags.has Flags.global = true) {calls : List MmuCall}
    (hcalls : ledger'.machine.calls.toList = ledger.machine.calls.toList ++ calls)
    (hkept : ∀ call ∈ calls, call.Keeps (page, leaf)) :
    (page, leaf) ∈ ledger'.rightful ∪ ledger.abandoned paging ledger' := by
  -- A shared page is one of the kernel space, which is never destroyed.
  obtain ⟨owner, howner, hleaf, hkernel⟩ : ∃ owner ∈ ledger.spaces,
      ledger.machine.memory.addressMap owner page = some leaf ∧
        (page.IsShared paging.layout → owner = paging.kernel) := by
    by_cases hshared : page.IsShared paging.layout
    · exact ⟨paging.kernel, h.kernel_mem,
        (h.toShared.addressMap_eq hspace hshared).symm.trans hleaf, fun _ => rfl⟩
    · exact ⟨space, hspace, hleaf, fun hpage => absurd hpage hshared⟩
  have hrun := Ledger.state?_of_step hstep
  by_cases hsame : ledger'.machine.memory.addressMap owner page = some leaf
  · by_cases halive : owner ∈ ledger'.spaces
    · exact .inl ⟨owner, halive, hsame, .inr hglobal⟩
    · refine .inr ⟨hglobal, fun hshared => halive ?_, owner, howner, halive, hleaf⟩
      exact hkernel hshared ▸ h'.kernel_mem
  · -- The page has changed, so the request is about it and has it forgotten.
    obtain ⟨through, hpage, hslot, hreaches⟩ := ((ensures_shown h hpermits).of_state?
      hrun).reaches howner (hleaf ▸ hsame)
    have hthrough : ledger.machine.memory.addressMap through page = some leaf :=
      (h.toShared.addressMap_eq_of_reaches howner hreaches).symm.trans hleaf
    rcases (ensures_forgotten h hpermits hpage hslot hthrough hglobal).of_state? hrun with
      hrealizes | ⟨calls', hcalls', call, hcall, hforgets⟩
    · exact absurd ((congrFun (hrealizes owner howner) page).trans hleaf) hsame
    · obtain rfl := List.append_cancel_left (hcalls'.symm.trans hcalls)
      exact absurd (hkept call hcall) hforgets

/-- Between two requests, all that is cached may rightly be cached, or was left behind. -/
structure Ledger.Explains (paging : Paging) (others : List Nat) (ledger : Ledger)
    (cache lost : TranslationCache) : Prop where
  /-- Frames and tables agree. -/
  consistent : Consistent paging ledger.machine ledger.spaces (others ++ ledger.held)
  /-- A live space is loaded. -/
  active : ⟨ledger.machine.active⟩ ∈ ledger.spaces
  /-- There is a reason for all that is cached. -/
  cached : cache ⊆ ledger.rightful ∪ lost

section Step

variable (h : ledger.Explains paging others cache lost) (hpermits : ledger.Permits paging request)
  (hstep : ledger.step paging request = some ledger')
  (hends : request.EndsAt paging ledger cache moment)
include h hpermits hstep hends

/-- What is global stays rightly cached when another space is loaded. -/
theorem Ledger.Explains.step_of_loads (hloads : request.Loads) :
    ledger'.Explains paging others moment.cache (lost ∪ ledger.abandoned paging ledger') := by
  obtain ⟨hpath, hover⟩ := hends
  have hmachine := (step_of_over hpath hover hstep).1
  obtain ⟨target, htarget, hroutine, rfl⟩ : ∃ target ∈ ledger.spaces,
      request.routine paging = .step (.load target.directory) (fun _ => .done .nothing) ∧
      ledger' = { ledger with
        machine := { ledger.machine with
          active := target.directory
          calls := ledger.machine.calls.push (.load (Frame.address target.directory)) } } := by
    cases request with
    | activate space =>
      cases hstep
      exact ⟨space, hpermits, rfl, rfl⟩
    | activateKernel =>
      cases hstep
      exact ⟨paging.kernel, h.consistent.kernel_mem, rfl, rfl⟩
    | _ => exact hloads.elim
  rw [hroutine] at hpath
  refine ⟨h.consistent.congr rfl rfl, htarget, fun pair hpair => ?_⟩
  rcases Moment.cache_of_load hpath hover hpair with hwalk | ⟨hglobal, hcached | hwalk⟩
  · exact .inl (walks_subset htarget (hmachine ▸ hwalk))
  · rcases h.cached hcached with ⟨space, hspace, hmap, -⟩ | hlost
    · exact .inl ⟨space, hspace, hmap, .inr hglobal⟩
    · exact .inr (.inl hlost)
  · exact .inl ⟨_, h.active, hwalk, .inr hglobal⟩

/-- While no other space is loaded, a page of a space that stays alive is forgotten before it is
mapped otherwise. -/
theorem Ledger.Explains.step_of_not_loads (hloads : ¬request.Loads) :
    ledger'.Explains paging others moment.cache (lost ∪ ledger.abandoned paging ledger') := by
  have hconsistent := (consistent_of_step h.consistent hpermits hstep).1
  obtain ⟨hpath, hover⟩ := hends
  -- What the loaded space translates is followed through the request, the rest only drops out.
  have hsplit : cache ⊆ {pair ∈ cache | pair ∈ ledger.machine.walks} ∪
      {pair ∈ cache | pair ∉ ledger.machine.walks} := fun pair hpair =>
    (em (pair ∈ ledger.machine.walks)).imp (⟨hpair, ·⟩) (⟨hpair, ·⟩)
  obtain ⟨cache', calls, hpath', hcalls, hsubset⟩ := Moment.exists_path_of_subset hpath hsplit
  obtain ⟨stale, hfresh, hsecures⟩ := Routine.secures_of_path hpath'
    (fresh_empty_iff.mpr fun _ hpair => hpair.2)
    (secures_request h.consistent (fun hload => absurd hload hloads) h.active hpermits)
  obtain ⟨rfl, hactive⟩ := secured_of_over (fun machine stale spaces =>
    stale = ∅ ∧ ⟨machine.active⟩ ∈ spaces) hpath hover hstep hsecures
  rw [(step_of_over hpath hover hstep).1] at hfresh hcalls
  refine ⟨hconsistent, hactive, fun pair hpair => ?_⟩
  rcases hsubset hpair with hfound | hold
  · exact .inl (walks_subset hactive (fresh_empty_iff.mp hfresh hfound))
  obtain ⟨⟨hcached, hunseen⟩, hkept⟩ := MmuCall.mem_foldl_applyTo_iff.mp hold
  rcases h.cached hcached with ⟨space, hspace, hmap, hused⟩ | hlost
  · have hglobal : pair.2.flags.has Flags.global = true :=
      hused.resolve_left fun hloaded => hunseen (by
        show ledger.machine.memory.addressMap ⟨ledger.machine.active⟩ pair.1 = some pair.2
        rw [← hloaded]
        exact hmap)
    exact (mem_rightful_of_kept h.consistent hpermits hstep hconsistent hspace hmap hglobal hcalls
      hkept).imp_right .inr
  · exact .inr (.inl hlost)

theorem Ledger.Explains.step :
    ledger'.Explains paging others moment.cache (lost ∪ ledger.abandoned paging ledger') := by
  by_cases hloads : request.Loads
  · exact h.step_of_loads hpermits hstep hends hloads
  · exact h.step_of_not_loads hpermits hstep hends hloads

end Step

/-! ## Runs -/

/-- The ledgers that a run leads to, with the caches that the memory management unit may have by
then and the pages that destroyed spaces left behind. A cache is filled at any time, between
requests and in the middle of them, and every request may ask for global translations. -/
inductive Ledger.FreelyCached (layout : Layout) (start : Machine) (journal : Journal)
    (paging : Paging) : Ledger → TranslationCache → TranslationCache → Prop where
  | create {machine : Machine} {journal' : Journal} :
      Paging.create layout start journal = .done paging machine journal' →
        FreelyCached layout start journal paging ⟨machine, journal', [paging.kernel], []⟩ ∅ ∅
  | fill {ledger : Ledger} {cache cache' lost : TranslationCache} :
      FreelyCached layout start journal paging ledger cache lost →
        cache' ⊆ cache ∪ ledger.machine.walks →
          FreelyCached layout start journal paging ledger cache' lost
  | step {ledger ledger' : Ledger} {cache lost : TranslationCache} {request : Request}
      {moment : Moment MemoryError Grant} :
      FreelyCached layout start journal paging ledger cache lost →
        ledger.Permits paging request → ledger.step paging request = some ledger' →
          request.EndsAt paging ledger cache moment →
            FreelyCached layout start journal paging ledger' moment.cache
              (lost ∪ ledger.abandoned paging ledger')
  | invalidate {ledger : Ledger} {cache lost : TranslationCache} {address : Nat}
      {machine : Machine} {journal' : Journal} :
      FreelyCached layout start journal paging ledger cache lost →
        (Machine.invalidate address : Total Machine Unit) ledger.machine ledger.journal =
          .done () machine journal' →
        FreelyCached layout start journal paging { ledger with machine, journal := journal' }
          ((MmuCall.invalidate (roundDown address pageSize)).applyTo cache) lost

section Runs

variable {layout : Layout} {start : Machine}

/-- A run goes on with every request that returns, and it may do so with the memory management unit
finding nothing meanwhile. -/
theorem Ledger.FreelyCached.exists_step
    (h : Ledger.FreelyCached layout start journal paging ledger cache lost)
    (hpermits : ledger.Permits paging request) (hstep : ledger.step paging request = some ledger') :
    ∃ calls, ledger'.machine.calls.toList = ledger.machine.calls.toList ++ calls ∧
      Ledger.FreelyCached layout start journal paging ledger'
        (calls.foldl MmuCall.applyTo cache) (lost ∪ ledger.abandoned paging ledger') := by
  have hrun := Ledger.state?_of_step hstep
  rw [← Request.run_routine] at hrun
  obtain ⟨moment, calls, hpath, hover, hcalls, hcache⟩ := Moment.exists_path hrun cache
  refine ⟨calls, hcalls, ?_⟩
  rw [← hcache]
  exact h.step hpermits hstep ⟨hpath, hover⟩

/-- Every state that can be reached is reached with some cache. -/
theorem Ledger.Reachable.exists_freelyCached
    (h : Ledger.Reachable layout start journal paging ledger) :
    ∃ cache lost, Ledger.FreelyCached layout start journal paging ledger cache lost := by
  induction h with
  | create hcreate => exact ⟨∅, ∅, .create hcreate⟩
  | step _ hpermits hstep ih =>
    obtain ⟨cache, lost, hcached⟩ := ih
    obtain ⟨calls, -, hnext⟩ := hcached.exists_step hpermits hstep
    exact ⟨_, _, hnext⟩

/-- After any run there is a reason for all that is cached. -/
theorem Ledger.FreelyCached.explains (hpool : start.frames.Reachable)
    (htotal : start.frames.total ≤ bitRange 20)
    (h : Ledger.FreelyCached layout start journal paging ledger cache lost) :
    ledger.Explains paging start.frames.takenFrames cache lost := by
  induction h with
  | create hcreate =>
    have hframes := FramePool.consistent_of_reachable hpool
    have hconsistent := (consistent_of_create hframes htotal hcreate).1
    refine ⟨by rwa [List.append_nil], ?_, Set.empty_subset _⟩
    rw [(loaded_of_create hframes htotal hcreate).1]
    exact List.mem_cons_self
  | fill _ hfill ih =>
    refine { ih with cached := hfill.trans (Set.union_subset ih.cached ?_) }
    exact (walks_subset ih.active).trans Set.subset_union_left
  | step _ hpermits hstep hends ih => exact ih.step hpermits hstep hends
  | invalidate _ hrun ih =>
    cases hrun
    exact ⟨ih.consistent.congr rfl rfl, ih.active, fun pair hpair => ih.cached hpair.1⟩

/-- A space that is neither the kernel's nor loaded can be destroyed, which concerns the frame pool
only. -/
theorem exists_step_destroySpace
    (h : Consistent paging ledger.machine ledger.spaces others) (hspace : space ∈ ledger.spaces)
    (hkernel : space ≠ paging.kernel) (hactive : space.directory ≠ ledger.machine.active) :
    ∃ ledger', ledger.step paging (.destroySpace space) = some ledger' ∧
      ledger'.spaces = ledger.spaces.erase space ∧
      ledger'.machine = { ledger.machine with frames := ledger'.machine.frames } ∧
      ∀ frame, ledger'.machine.frames.isTaken frame = true ↔
        ledger.machine.frames.isTaken frame = true ∧
          frame ∉ paging.spaceFrames ledger.machine.memory space := by
  have hdestroy := settles_destroySpace_exact h hspace ledger.journal
  cases hout : paging.destroySpace space ledger.machine ledger.journal with
  | done value machine journal' =>
    rw [hout] at hdestroy
    have hrun : (Request.destroySpace space).run paging ledger.machine ledger.journal =
        .done .nothing machine journal' := Action.bind_of_done hout
    exact ⟨_, by rw [Ledger.step, hrun], rfl, hdestroy.2⟩
  | refused error machine journal' =>
    rw [hout] at hdestroy
    exact (hdestroy.2.2.elim (fun heq => hkernel (directory_inj.mp heq)) hactive).elim
  | halted cause journal' =>
    rw [hout] at hdestroy
    exact hdestroy.elim

/-- The frames of a space that is not the kernel's are its tables and what its private pages own. -/
theorem Lists.mem_spaceFrames_iff {memory : WordMemory} {frame : Nat}
    (hpages : Lists paging memory space pages) (hkernel : space ≠ paging.kernel) :
    frame ∈ paging.spaceFrames memory space ↔ paging.IsTable memory [space] frame ∨
      ∃ page ∈ pages, memory.ownedAt space page = some frame := by
  rw [Paging.mem_spaceFrames_iff]
  refine or_congr_right (exists_congr fun page => and_congr_left fun howned => ?_)
  have hmapped : memory.addressMap space page ≠ none := fun hnone => by
    rw [WordMemory.ownedAt, hnone] at howned
    cases howned
  rw [hpages.mem_iff, mem_ownSlots, and_iff_left hmapped, and_iff_right page.directorySlot_lt,
    or_iff_right hkernel]
  exact Nat.not_lt.symm

/-- After any run, a space that is neither the kernel's nor loaded can be taken down in two ways.
Unmapping its pages outside the kernel region, in whatever order, frees the frames that they own and
has the global ones forgotten. Destroying it frees the same frames, its tables and its directory,
but has nothing forgotten, so that all that is cached may stay. Whatever was cached before and is
cached meanwhile, what is cached afterwards may rightly be cached, unless it was left behind by a
space that was destroyed before or is one of the pages that unmapping would have had forgotten. -/
theorem remnants_of_destroySpace (hpool : start.frames.Reachable)
    (htotal : start.frames.total ≤ bitRange 20)
    (h : Ledger.FreelyCached layout start journal paging ledger cache lost)
    (hspace : space ∈ ledger.spaces) (hkernel : space ≠ paging.kernel)
    (hactive : space.directory ≠ ledger.machine.active)
    (hpages : Lists paging ledger.machine.memory space pages) :
    ∃ unmapped journal' ledger',
      (paging.unmapPages space pages : Total Machine PUnit) ledger.machine ledger.journal =
        .done ⟨⟩ unmapped journal' ∧
      ledger.step paging (.destroySpace space) = some ledger' ∧
      ledger'.spaces = ledger.spaces.erase space ∧
      (∀ page ∈ pages, unmapped.memory.addressMap space page = none) ∧
      (∀ frame, unmapped.frames.isTaken frame = true ↔
        ledger.machine.frames.isTaken frame = true ∧
          ∀ page ∈ pages, ledger.machine.memory.ownedAt space page ≠ some frame) ∧
      (∀ frame, ledger'.machine.frames.isTaken frame = true ↔
        unmapped.frames.isTaken frame = true ∧
          ¬paging.IsTable ledger.machine.memory [space] frame) ∧
      unmapped.calls.toList = ledger.machine.calls.toList ++
        (pages.filter (ledger.machine.memory.isGlobalAt space)).map
          (fun page => .invalidate page.address) ∧
      ledger'.machine.calls = ledger.machine.calls ∧
      (∃ moment, (Request.destroySpace space).EndsAt paging ledger cache moment ∧
        moment.cache = cache) ∧
      ∀ moment, (Request.destroySpace space).EndsAt paging ledger cache moment →
        moment.machine = ledger'.machine ∧
          ∀ pair ∈ moment.cache, pair ∈ ledger'.rightful ∨ pair ∈ lost ∨
            pair.1 ∈ pages.filter (ledger.machine.memory.isGlobalAt space) ∧
              ledger.machine.memory.addressMap space pair.1 = some pair.2 := by
  have hexplains := h.explains hpool htotal
  have hpermits : ledger.Permits paging (.destroySpace space) := hspace
  obtain ⟨⟨⟩, unmapped, journal', hdone, -, hunmaps⟩ := (settles_unmapPages hexplains.consistent
    hspace hactive hpages).exists_done ledger.journal
  obtain ⟨ledger', hstep, hspaces, hmachine, htaken⟩ :=
    exists_step_destroySpace hexplains.consistent hspace hkernel hactive
  have hcalls : ledger'.machine.calls = ledger.machine.calls :=
    (congrArg Machine.calls hmachine :)
  refine ⟨unmapped, journal', ledger', hdone, hstep, hspaces, fun page hpage => ?_,
    hunmaps.isTaken, fun frame => ?_, hunmaps.calls, hcalls, ?_,
    fun moment hends => ⟨(Ledger.step_of_over hends.1 hends.2 hstep).1, fun pair hpair => ?_⟩⟩
  · rw [hunmaps.addressMap, if_pos hpage]
  · rw [htaken, hunmaps.isTaken, hpages.mem_spaceFrames_iff hkernel]
    simp only [not_or, not_exists, not_and, and_assoc]
    exact and_congr_right' and_comm
  · have hrun := Ledger.state?_of_step hstep
    rw [← Request.run_routine] at hrun
    obtain ⟨moment, calls, hpath, hover, htold, hcache⟩ := Moment.exists_path hrun cache
    rw [hcalls, List.self_eq_append_right] at htold
    exact ⟨moment, ⟨hpath, hover⟩, by rw [hcache, htold]; rfl⟩
  · rcases (hexplains.step hpermits hstep hends).cached hpair with
      hrightful | hlost | ⟨hglobal, hprivate, other, hother, hgone, hmap⟩
    · exact .inl hrightful
    · exact .inr (.inl hlost)
    -- No other space is gone.
    · obtain rfl : other = space := by
        by_contra hne
        exact hgone (hspaces ▸ (List.mem_erase_of_ne hne).mpr hother)
      refine .inr (.inr ⟨List.mem_filter.mpr ⟨(hpages.mem_iff _).mpr ⟨hprivate, ?_⟩, ?_⟩, hmap⟩)
      · rw [hmap]
        exact Option.some_ne_none _
      · rw [WordMemory.isGlobalAt, hmap]
        exact hglobal

end Runs

/-- In eight frames there is room for a kernel space and for another one with a global page of its
own. While that space is loaded the page is cached, and it stays cached when the kernel space is
loaded in its place. -/
theorem exists_globalPage_of_smallMachine :
    ∃ paging ledger cache lost,
      Ledger.FreelyCached smallLayout smallMachine #[] paging ledger cache lost ∧
      (.ofAddress userSpaceStart, ⟨3, fresh Flags.global⟩) ∈ cache ∧
      (⟨2⟩ ∈ ledger.spaces ∧ ⟨2⟩ ≠ paging.kernel ∧ 2 ≠ ledger.machine.active) ∧
      ¬(PageNumber.ofAddress userSpaceStart).IsShared paging.layout ∧
      ledger.machine.memory.addressMap ⟨2⟩ (.ofAddress userSpaceStart) =
        some ⟨3, fresh Flags.global⟩ ∧
      ledger.machine.frames.isTaken 3 = true ∧
      ∃ unmapped, ledger.step paging (.unmap ⟨2⟩ userSpaceStart) = some unmapped ∧
        unmapped.machine.calls.toList =
          ledger.machine.calls.toList ++ [.invalidate userSpaceStart] := by
  have hrun : (Ledger.ofRun? smallLayout smallMachine
      [.createSpace, .mapFresh ⟨2⟩ userSpaceStart Flags.global, .activate ⟨2⟩]).any (fun run =>
        decide (run.2.machine.memory.addressMap ⟨run.2.machine.active⟩
          (.ofAddress userSpaceStart) = some ⟨3, fresh Flags.global⟩) &&
        (run.2.step run.1 .activateKernel).any fun ledger =>
          decide (ledger.machine.calls.toList = run.2.machine.calls.toList ++ [.load 0] ∧
            (⟨2⟩ ∈ ledger.spaces ∧ ⟨2⟩ ≠ run.1.kernel ∧ 2 ≠ ledger.machine.active) ∧
            ¬(PageNumber.ofAddress userSpaceStart).IsShared run.1.layout ∧
            ledger.machine.memory.addressMap ⟨2⟩ (.ofAddress userSpaceStart) =
              some ⟨3, fresh Flags.global⟩ ∧
            ledger.machine.frames.isTaken 3 = true) &&
          (ledger.step run.1 (.unmap ⟨2⟩ userSpaceStart)).any fun unmapped =>
            decide (unmapped.machine.calls.toList =
              ledger.machine.calls.toList ++ [.invalidate userSpaceStart])) = true := by
    decide +kernel
  obtain ⟨⟨paging, loaded⟩, hloaded, hrun⟩ := (Option.any_eq_true _ _).mp hrun
  obtain ⟨hwalk, hrun⟩ := Bool.and_eq_true_iff.mp hrun
  have hfound : loaded.machine.memory.addressMap ⟨loaded.machine.active⟩
      (.ofAddress userSpaceStart) = some ⟨3, fresh Flags.global⟩ := of_decide_eq_true hwalk
  obtain ⟨ledger, hstep, hrun⟩ := (Option.any_eq_true _ _).mp hrun
  obtain ⟨hfacts, hrun⟩ := Bool.and_eq_true_iff.mp hrun
  obtain ⟨hload, hspace, hprivate, hmap, htaken⟩ := of_decide_eq_true hfacts
  obtain ⟨unmapped, hunmap, htold⟩ := (Option.any_eq_true _ _).mp hrun
  obtain ⟨cache, lost, hcached⟩ := (Ledger.reachable_of_ofRun? hloaded).exists_freelyCached
  -- The memory management unit caches whatever there is before the kernel space is loaded.
  have hfilled := hcached.fill (Set.subset_union_right : loaded.machine.walks ⊆ _)
  have hpermits : loaded.Permits paging .activateKernel := trivial
  obtain ⟨calls, hcalls, hkept⟩ := hfilled.exists_step hpermits hstep
  obtain rfl := List.append_cancel_left (hcalls.symm.trans hload)
  exact ⟨paging, ledger, _, _, hkept, ⟨hfound, by decide⟩, hspace, hprivate, hmap,
    htaken, unmapped, hunmap, of_decide_eq_true htold⟩

/-- When the space of that page is destroyed, the page is still cached, and its frame is free. If it
had been unmapped, it would have been forgotten. -/
theorem stale_of_destroyedSpace :
    ∃ paging ledger ledger' unmapped cache lost lost',
      Ledger.FreelyCached smallLayout smallMachine #[] paging ledger cache lost ∧
      (⟨2⟩ ∈ ledger.spaces ∧ ⟨2⟩ ≠ paging.kernel ∧ 2 ≠ ledger.machine.active) ∧
      ledger.machine.memory.addressMap ⟨2⟩ (.ofAddress userSpaceStart) =
        some ⟨3, fresh Flags.global⟩ ∧
      ledger.machine.frames.isTaken 3 = true ∧
      ledger.step paging (.unmap ⟨2⟩ userSpaceStart) = some unmapped ∧
      unmapped.machine.calls.toList =
        ledger.machine.calls.toList ++ [.invalidate userSpaceStart] ∧
      ledger.step paging (.destroySpace ⟨2⟩) = some ledger' ∧
      ledger'.machine.calls = ledger.machine.calls ∧
      ledger'.machine.frames.isTaken 3 = false ∧
      Ledger.FreelyCached smallLayout smallMachine #[] paging ledger' cache lost' ∧
      (.ofAddress userSpaceStart, ⟨3, fresh Flags.global⟩) ∈ cache := by
  obtain ⟨paging, ledger, cache, lost, hcached, hpair, ⟨hspace, hkernel, hactive⟩, hprivate, hmap,
    htaken, unmapped, hunmap, htold⟩ := exists_globalPage_of_smallMachine
  have hconsistent := (hcached.explains (.allFree (by decide)) (by decide)).consistent
  obtain ⟨ledger', hstep, -, hmachine, hfree⟩ :=
    exists_step_destroySpace hconsistent hspace hkernel hactive
  have hsame : ledger'.machine.calls = ledger.machine.calls :=
    (congrArg Machine.calls hmachine :)
  -- Nothing is forgotten, so whatever was cached may stay.
  have hpermits : ledger.Permits paging (.destroySpace ⟨2⟩) := hspace
  obtain ⟨calls, hcalls, hnext⟩ := hcached.exists_step hpermits hstep
  rw [hsame, List.self_eq_append_right] at hcalls
  subst hcalls
  have howned : 3 ∈ paging.spaceFrames ledger.machine.memory ⟨2⟩ :=
    mem_spaceFrames_iff.mpr (.inr ⟨.ofAddress userSpaceStart,
      PageNumber.mem_ownSlots_of_not_isShared hprivate ⟨2⟩, by
        rw [WordMemory.ownedAt, hmap]
        rfl⟩)
  have hgone : ledger'.machine.frames.isTaken 3 = false :=
    Bool.eq_false_iff.mpr fun hkept => ((hfree 3).mp hkept).2 howned
  exact ⟨paging, ledger, ledger', unmapped, cache, lost, _, hcached, ⟨hspace, hkernel, hactive⟩,
    hmap, htaken, hunmap, htold, hstep, hsame, hgone, hnext, hpair⟩

/-- Both ways to take down the space of that page free its frame, and one of them has the page
forgotten. -/
theorem remnants_of_smallMachine :
    ∃ paging ledger cache lost pages unmapped journal' ledger',
      Ledger.FreelyCached smallLayout smallMachine #[] paging ledger cache lost ∧
      Lists paging ledger.machine.memory ⟨2⟩ pages ∧
      (paging.unmapPages ⟨2⟩ pages : Total Machine PUnit) ledger.machine ledger.journal =
        .done ⟨⟩ unmapped journal' ∧
      ledger.step paging (.destroySpace ⟨2⟩) = some ledger' ∧
      unmapped.frames.isTaken 3 = false ∧ ledger'.machine.frames.isTaken 3 = false ∧
      .invalidate (PageNumber.ofAddress userSpaceStart).address ∈ unmapped.calls.toList ∧
      ledger'.machine.calls = ledger.machine.calls := by
  obtain ⟨paging, ledger, cache, lost, hcached, -, ⟨hspace, hkernel, hactive⟩, hprivate, hmap,
    -⟩ := exists_globalPage_of_smallMachine
  obtain ⟨pages, hpages⟩ := exists_lists paging ledger.machine.memory ⟨2⟩
  obtain ⟨unmapped, journal', ledger', hunmapped, hstep, -, -, hfreed, hfreed', htold, hsame, -⟩ :=
    remnants_of_destroySpace (.allFree (by decide)) (by decide) hcached hspace hkernel hactive
      hpages
  have hpage : PageNumber.ofAddress userSpaceStart ∈ pages :=
    (hpages.mem_iff _).mpr ⟨hprivate, hmap ▸ Option.some_ne_none _⟩
  have howned : ledger.machine.memory.ownedAt ⟨2⟩ (.ofAddress userSpaceStart) = some 3 := by
    rw [WordMemory.ownedAt, hmap]
    rfl
  have hglobal : ledger.machine.memory.isGlobalAt ⟨2⟩ (.ofAddress userSpaceStart) = true := by
    rw [WordMemory.isGlobalAt, hmap]
    decide
  have hgone : unmapped.frames.isTaken 3 = false :=
    Bool.eq_false_iff.mpr fun hkept => ((hfreed 3).mp hkept).2 _ hpage howned
  refine ⟨paging, ledger, cache, lost, pages, unmapped, journal', ledger', hcached, hpages,
    hunmapped, hstep, hgone, Bool.eq_false_iff.mpr fun hkept => ?_, ?_, hsame⟩
  · rw [((hfreed' 3).mp hkept).1] at hgone
    cases hgone
  · rw [htold]
    exact List.mem_append_right _
      (List.mem_map_of_mem (List.mem_filter.mpr ⟨hpage, hglobal⟩))

end Paging

end KernelResources
