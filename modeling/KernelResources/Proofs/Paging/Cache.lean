import KernelResources.Proofs.Paging.Instructions
import KernelResources.Proofs.Paging.Refinement
import Mathlib.Data.Set.Basic
import Mathlib.Logic.Relation

/-!
# Cached translations

The memory management unit keeps translations that it has found, and uses them without looking at
the tables again. What it keeps is up to it: between any two instructions it may walk the loaded
directory and keep what it finds there, or drop something. It is told to forget by the requests
that are made to it, and by nothing else.

* `Moment` is a routine under way, with the machine and the cache it has come to; `Moment.Next`
  executes an instruction or lets the memory management unit fill its cache.
* `Routine.Secures` follows which pages may be stale in the cache, whatever was cached when.
* `secures_request`: after a request no page is stale.
* `cached_of_reachable`: after any run, all that is cached is what a walk of the loaded directory
  finds.
-/

namespace KernelResources

/-- Pages in the cache, with the leaf entries they were found to translate to. -/
abbrev TranslationCache := Set (PageNumber × Entry)

/-- What a walk of the loaded directory finds, for every page. -/
def Machine.walks (machine : Machine) : TranslationCache :=
  {pair | machine.memory.addressMap ⟨machine.active⟩ pair.1 = some pair.2}

/-- What a request to the memory management unit leaves in the cache. -/
def MmuCall.applyTo (cache : TranslationCache) : MmuCall → TranslationCache
  | load _ => {pair ∈ cache | pair.2.flags.has Flags.global}
  | invalidate page => {pair ∈ cache | pair.1 ≠ .ofAddress page}

/-! ## A routine under way -/

/-- What is left of a routine, and what it has come to so far. -/
structure Moment (ε α : Type) where
  /-- The instructions to come. -/
  rest : Routine ε α
  /-- The machine. -/
  machine : Machine
  /-- The notices so far. -/
  journal : Journal
  /-- What the memory management unit has cached. -/
  cache : TranslationCache

namespace Moment

variable {ε α : Type}

/-- From one moment to the next, either the memory management unit finds something in the tables of
the loaded directory or drops something from its cache, or an instruction is executed. -/
inductive Next : Moment ε α → Moment ε α → Prop where
  | fill {rest : Routine ε α} {machine : Machine} {journal : Journal}
      {cache cache' : TranslationCache} :
      cache' ⊆ cache ∪ machine.walks →
        Next ⟨rest, machine, journal, cache⟩ ⟨rest, machine, journal, cache'⟩
  | execute {β : Type} {instruction : Instruction β} {next : β → Routine ε α}
      {machine machine' : Machine} {journal journal' : Journal} {cache : TranslationCache}
      {value : β} :
      (instruction.run : Action ε Machine β) machine journal = .done value machine' journal' →
        Next ⟨.step instruction next, machine, journal, cache⟩
          ⟨next value, machine', journal', instruction.calls.foldl MmuCall.applyTo cache⟩

/-- No instruction is left. -/
def Over (moment : Moment ε α) : Prop :=
  match moment.rest with
  | .step _ _ => False
  | _ => True

/-- How the routine ends if it is not interrupted any more. -/
def outcome (moment : Moment ε α) : Outcome ε Machine α :=
  moment.rest.run moment.machine moment.journal

variable {moment moment' : Moment ε α}

/-- What the memory management unit does makes no difference to how a routine ends. -/
theorem Next.outcome_eq (h : moment.Next moment') : moment'.outcome = moment.outcome := by
  cases h with
  | fill _ => rfl
  | execute hrun =>
    refine Eq.symm ?_
    rw [outcome, Routine.run]
    exact Action.bind_of_done hrun

theorem outcome_eq_of_path (h : Relation.ReflTransGen Next moment moment') :
    moment'.outcome = moment.outcome := by
  induction h with
  | refl => rfl
  | tail _ hnext ih => exact hnext.outcome_eq.trans ih

/-- A routine that returns if it is executed without a break may be over with the memory management
unit finding nothing in between. -/
theorem exists_path {routine : Routine ε α} {machine machine' : Machine} {journal : Journal}
    (h : (routine.run machine journal).state? = some machine') (cache : TranslationCache) :
    ∃ moment calls, Relation.ReflTransGen Next ⟨routine, machine, journal, cache⟩ moment ∧
      moment.Over ∧ machine'.calls.toList = machine.calls.toList ++ calls ∧
      moment.cache = calls.foldl MmuCall.applyTo cache := by
  induction routine generalizing machine journal cache with
  | done value =>
    cases h
    exact ⟨_, [], .refl, trivial, (List.append_nil _).symm, rfl⟩
  | refused error =>
    cases h
    exact ⟨_, [], .refl, trivial, (List.append_nil _).symm, rfl⟩
  | step instruction next ih =>
    rw [Routine.run] at h
    rcases instruction.run_cases machine journal with
      ⟨value, middle, journalMiddle, hfirst⟩ | ⟨cause, journal', hhalted⟩
    · rw [Action.bind_of_done hfirst] at h
      obtain ⟨moment, calls, hpath, hover, hcalls, hcache⟩ :=
        ih value h (instruction.calls.foldl MmuCall.applyTo cache)
      refine ⟨moment, instruction.calls ++ calls, hpath.head (.execute hfirst), hover, ?_, ?_⟩
      · rw [hcalls, (Instruction.effect_of_run hfirst (ε := ε)).calls, List.append_assoc]
      · rw [hcache, List.foldl_append]
    · rw [Action.apply_bind, hhalted] at h
      cases h

end Moment

/-! ## Stale pages -/

/-- Whatever is cached of a page that is not stale is what a walk finds. -/
def Machine.Fresh (machine : Machine) (stale : Set PageNumber) (cache : TranslationCache) : Prop :=
  ∀ pair ∈ cache, pair.1 ∈ stale ∨ pair ∈ machine.walks

/-- Whatever is cached before the instruction, the stale pages are among `stale'` behind it. -/
def Instruction.Carries {β : Type} (instruction : Instruction β) (machine : Machine)
    (stale : Set PageNumber) (machine' : Machine) (stale' : Set PageNumber) : Prop :=
  ∀ cache, machine.Fresh stale cache →
    machine'.Fresh stale' (instruction.calls.foldl MmuCall.applyTo cache)

section Carries

variable {β : Type} {instruction : Instruction β} {machine machine' : Machine}
  {stale stale' : Set PageNumber}

/-- Where nothing is forgotten, the pages become stale that translate to something else than
before. -/
theorem Instruction.carries_of_walks (hcalls : instruction.calls = [])
    (hwalks : ∀ pair ∈ machine.walks, pair.1 ∈ stale' ∨ pair ∈ machine'.walks)
    (hle : stale ⊆ stale') : instruction.Carries machine stale machine' stale' := by
  intro cache hfresh
  rw [hcalls]
  intro pair hpair
  rcases hfresh pair hpair with hstale | hwalk
  · exact .inl (hle hstale)
  · exact hwalks pair hwalk

theorem Instruction.carries_of_walks_eq (hcalls : instruction.calls = [])
    (hwalks : machine'.walks = machine.walks) :
    instruction.Carries machine stale machine' stale := by
  refine carries_of_walks hcalls (fun pair hwalk => .inr ?_) subset_rfl
  rw [hwalks]
  exact hwalk

end Carries

namespace Routine

variable {ε ε' α β : Type}

/-- From a machine with some stale pages, the routine leads to one that satisfies `done` or
`refused`, unless it halts, and to pages that may be stale by then. -/
def Secures : Routine ε α → Machine → Journal → Set PageNumber →
    (α → Machine → Set PageNumber → Prop) → (ε → Machine → Set PageNumber → Prop) → Prop
  | .done value, machine, _, stale, post, _ => post value machine stale
  | .refused error, machine, _, stale, _, post => post error machine stale
  | .step (β := β) instruction next, machine, journal, stale, post, post' =>
    ∀ value machine' journal',
      (instruction.run : Action ε Machine β) machine journal = .done value machine' journal' →
        ∃ stale', instruction.Carries machine stale machine' stale' ∧
          (next value).Secures machine' journal' stale' post post'

variable {machine : Machine} {journal : Journal} {stale : Set PageNumber}
  {done : α → Machine → Set PageNumber → Prop} {refused : ε → Machine → Set PageNumber → Prop}

/-- Whatever the memory management unit caches when, no other pages are stale than those that were
followed. -/
theorem secures_of_next {moment moment' : Moment ε α} (hnext : moment.Next moment')
    (h : ∃ stale, moment.machine.Fresh stale moment.cache ∧
      moment.rest.Secures moment.machine moment.journal stale done refused) :
    ∃ stale, moment'.machine.Fresh stale moment'.cache ∧
      moment'.rest.Secures moment'.machine moment'.journal stale done refused := by
  obtain ⟨stale, hfresh, hsecures⟩ := h
  cases hnext with
  | fill hfill =>
    refine ⟨stale, fun pair hpair => ?_, hsecures⟩
    rcases hfill hpair with hcached | hwalk
    · exact hfresh pair hcached
    · exact .inr hwalk
  | execute hrun =>
    obtain ⟨stale', hcarries, hrest⟩ := hsecures _ _ _ hrun
    exact ⟨stale', hcarries _ hfresh, hrest⟩

theorem secures_of_path {moment moment' : Moment ε α}
    (hpath : Relation.ReflTransGen Moment.Next moment moment')
    (hfresh : moment.machine.Fresh stale moment.cache)
    (h : moment.rest.Secures moment.machine moment.journal stale done refused) :
    ∃ stale, moment'.machine.Fresh stale moment'.cache ∧
      moment'.rest.Secures moment'.machine moment'.journal stale done refused := by
  induction hpath with
  | refl => exact ⟨stale, hfresh, h⟩
  | tail _ hnext ih => exact secures_of_next hnext ih

/-! ### Rules -/

theorem Secures.mono {routine : Routine ε α} {done' : α → Machine → Set PageNumber → Prop}
    {refused' : ε → Machine → Set PageNumber → Prop}
    (h : routine.Secures machine journal stale done refused)
    (hdone : ∀ value machine stale, done value machine stale → done' value machine stale)
    (hrefused : ∀ error machine stale, refused error machine stale → refused' error machine stale) :
    routine.Secures machine journal stale done' refused' := by
  induction routine generalizing machine journal stale with
  | done value => exact hdone _ _ _ h
  | refused error => exact hrefused _ _ _ h
  | step instruction next ih =>
    intro value machine' journal' hrun
    obtain ⟨stale', hcarries, hrest⟩ := h value machine' journal' hrun
    exact ⟨stale', hcarries, ih value hrest⟩

/-- What is ensured of executing the routine may be added. -/
theorem Secures.and {routine : Routine ε α} {done' : α → Machine → Prop}
    {refused' : ε → Machine → Prop} (h : routine.Secures machine journal stale done refused)
    (h' : routine.run.Ensures machine done' refused') :
    routine.Secures machine journal stale
      (fun value machine stale => done value machine stale ∧ done' value machine)
      fun error machine stale => refused error machine stale ∧ refused' error machine := by
  -- The induction needs the outcome from this journal only.
  replace h' := h' journal
  induction routine generalizing machine journal stale with
  | done value => exact ⟨h, h'⟩
  | refused error => exact ⟨h, h'⟩
  | step instruction next ih =>
    intro value machine' journal' hrun
    obtain ⟨stale', hcarries, hrest⟩ := h value machine' journal' hrun
    refine ⟨stale', hcarries, ih value hrest ?_⟩
    rwa [run, Action.bind_of_done hrun] at h'

theorem secures_bind {first : Routine ε α} {next : α → Routine ε β}
    {done : β → Machine → Set PageNumber → Prop}
    (h : first.Secures machine journal stale (fun value machine stale =>
      ∀ journal, (next value).Secures machine journal stale done refused) refused) :
    (first >>= next).Secures machine journal stale done refused := by
  induction first generalizing machine journal stale with
  | done value => exact h journal
  | refused error => exact h
  | step instruction rest ih =>
    intro value machine' journal' hrun
    obtain ⟨stale', hcarries, hrest⟩ := h value machine' journal' hrun
    exact ⟨stale', hcarries, ih value hrest⟩

/-- The rule of sequence for a first part of which something is known. -/
theorem Secures.bind {first : Routine ε α} {next : α → Routine ε β}
    {between : α → Machine → Set PageNumber → Prop} {done : β → Machine → Set PageNumber → Prop}
    (h : first.Secures machine journal stale between refused)
    (hnext : ∀ value machine stale, between value machine stale →
      ∀ journal, (next value).Secures machine journal stale done refused) :
    (first >>= next).Secures machine journal stale done refused :=
  secures_bind (h.mono hnext fun _ _ _ hrefused => hrefused)

theorem secures_refuseIf {condition : Prop} [Decidable condition] {error : ε}
    {done : Unit → Machine → Set PageNumber → Prop}
    (hrefused : condition → refused error machine stale)
    (hdone : ¬condition → done () machine stale) :
    (refuseIf condition error).Secures machine journal stale done refused := by
  unfold refuseIf
  split
  · exact hrefused ‹_›
  · exact hdone ‹_›

theorem secures_attempt {routine : Routine ε α}
    {done : Except ε α → Machine → Set PageNumber → Prop}
    {refused : ε' → Machine → Set PageNumber → Prop}
    (h : routine.Secures machine journal stale (fun value => done (.ok value))
      fun error => done (.error error)) :
    (routine.attempt : Routine ε' (Except ε α)).Secures machine journal stale done refused := by
  induction routine generalizing machine journal stale with
  | done value => exact h
  | refused error => exact h
  | step instruction next ih =>
    intro value machine' journal' hrun
    rcases instruction.run_cases machine journal with
      ⟨value', middle, journalMiddle, hdone⟩ | ⟨cause, journalMiddle, hhalted⟩
    · rw [hdone] at hrun
      cases hrun
      obtain ⟨stale', hcarries, hrest⟩ := h _ _ _ hdone
      exact ⟨stale', hcarries, ih _ hrest⟩
    · rw [hhalted] at hrun
      cases hrun

theorem secures_forM {action : α → Routine ε PUnit} {items : List α}
    (inv : Machine → Set PageNumber → Prop)
    (hround : ∀ item ∈ items, ∀ machine journal stale, inv machine stale →
      (action item).Secures machine journal stale (fun _ => inv) refused)
    (hstart : inv machine stale) :
    (items.forM action).Secures machine journal stale (fun _ => inv) refused := by
  induction items generalizing machine journal stale with
  | nil => exact hstart
  | cons item rest ih =>
    refine (hround item List.mem_cons_self machine journal stale hstart).bind
      fun _ machine stale hinv journal => ih ?_ hinv
    exact fun other hother => hround other (List.mem_cons_of_mem _ hother)

/-- An instruction of which one knows what it does. -/
theorem secures_act {instruction : Instruction α} {value : α} {machine' : Machine}
    {journal' : Journal} {stale' : Set PageNumber}
    (hrun : (instruction.run : Action ε Machine α) machine journal = .done value machine' journal')
    (hcarries : instruction.Carries machine stale machine' stale')
    (hdone : done value machine' stale') :
    (act instruction : Routine ε α).Secures machine journal stale done refused := by
  intro value'' machine'' journal'' hrun'
  rw [hrun] at hrun'
  cases hrun'
  exact ⟨stale', hcarries, hdone⟩

theorem secures_entry {frame slot : Nat} {done : Entry → Machine → Set PageNumber → Prop}
    (hslot : slot < entryCount) (hdone : done (machine.memory.entry frame slot) machine stale) :
    (act (.entry frame slot) : Routine ε Entry).Secures machine journal stale done refused :=
  secures_act (Instruction.run_entry hslot) (Instruction.carries_of_walks_eq rfl rfl) hdone

theorem secures_look {done : Machine → Machine → Set PageNumber → Prop}
    (hdone : done machine machine stale) :
    (act .look : Routine ε Machine).Secures machine journal stale done refused :=
  secures_act rfl (Instruction.carries_of_walks_eq rfl rfl) hdone

theorem secures_setEntry {frame slot : Nat} {new : Entry} {stale' : Set PageNumber}
    {done : Unit → Machine → Set PageNumber → Prop} (hslot : slot < entryCount)
    (hwalks : ∀ pair ∈ machine.walks,
      pair.1 ∈ stale' ∨ pair ∈ (machine.entering frame slot new).walks)
    (hle : stale ⊆ stale') (hdone : done () (machine.entering frame slot new) stale') :
    (act (.setEntry frame slot new) : Routine ε Unit).Secures machine journal stale done refused :=
  secures_act (Instruction.run_setEntry hslot) (Instruction.carries_of_walks rfl hwalks hle) hdone

/-- Actions on the frame pool concern no translation. -/
theorem secures_onFrames {action : Total FramePool α}
    (hdone : ∀ value frames, done value { machine with frames } stale) :
    (act (.onFrames action) : Routine ε α).Secures machine journal stale done refused := by
  intro value machine' journal' hrun
  cases hout : action machine.frames journal with
  | done value frames journal'' =>
    rw [Instruction.run_onFrames_of_done hout] at hrun
    cases hrun
    exact ⟨stale, Instruction.carries_of_walks_eq rfl rfl, hdone _ _⟩
  | refused error _ _ => exact error.elim
  | halted cause journal'' =>
    rw [Instruction.run_onFrames_of_halted hout] at hrun
    cases hrun

end Routine

end KernelResources
