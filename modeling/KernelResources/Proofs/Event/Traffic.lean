import KernelResources.Proofs.Event.Draining

/-!
# Traffic between interrupt handlers and drains

Interrupt handlers record events at any time, also between any two steps of a drain: after it has
taken an event out of the line and before it hands it over, after it has found the line empty and
before it takes the count of ticks, and while it hands over the ticks that it has taken.

`Traffic` is the queue together with the drain that is under way and with the history of both.
The events are numbered in the order in which they are recorded. The numbers are for the record
only: no step depends on them, but they tell events apart that are alike.

* `Traffic.Tracked` is the invariant: every event that was accepted is in exactly one place, and
  between two drains the events that wait are in the order in which they were recorded.
* `handed_of_drained`: a drain during which nothing is recorded hands over all of them in this
  order.
* `events_of_reachable`: so no event is lost, handed over twice, or, if none is recorded during the
  drain, out of order.
-/

namespace KernelResources

/-- Where a drain stands. -/
inductive Drain where
  /-- None is under way. -/
  | idle
  /-- It is about to take the next event out of the line. -/
  | popping
  /-- It is about to hand over an event from the line. -/
  | holding (event : Event)
  /-- It has found the line empty, and is about to take the count of ticks. -/
  | taking
  /-- It has taken the count of ticks, and is about to hand over as many as are left of them. -/
  | replaying (count : Nat)
deriving DecidableEq, Repr

namespace Drain

/-- The events taken out of the queue and not handed over yet. -/
def taken : Drain → List Event
  | idle | popping | taking => []
  | holding event => [event]
  | replaying count => List.replicate count .tick

/-- It takes nothing more out of the queue. -/
def Settled : Drain → Prop
  | idle | replaying _ => True
  | popping | holding _ | taking => False

end Drain

/-- The queue, the drain under way, and what became of the events so far. -/
structure Traffic where
  /-- The queue. -/
  queue : EventQueue
  /-- The drain under way. -/
  drain : Drain
  /-- The events recorded and whether they were accepted, oldest first. The number of an event is
  its place here. -/
  recorded : List (Event × Bool)
  /-- The numbered events in the line, oldest first. -/
  line : List (Nat × Event)
  /-- The numbered ticks that found the line full, oldest first. -/
  counted : List (Nat × Event)
  /-- The numbered events taken out of the queue and not handed over yet, oldest first. -/
  taken : List (Nat × Event)
  /-- The numbered events handed over, in this order. -/
  handed : List (Nat × Event)
deriving DecidableEq, Repr

namespace Traffic

/-- Nothing has been recorded. -/
def ofCapacity (capacity : Nat) : Traffic where
  queue := .ofCapacity capacity
  drain := .idle
  recorded := []
  line := []
  counted := []
  taken := []
  handed := []

/-- The numbered events that were accepted, oldest first. -/
def accepted (traffic : Traffic) : List (Nat × Event) :=
  traffic.recorded.zipIdx.filterMap fun entry =>
    if entry.1.2 then some (entry.2, entry.1.1) else none

/-- The numbered events that were accepted and not handed over yet, oldest first. -/
def outstanding (traffic : Traffic) : List (Nat × Event) :=
  traffic.accepted.filter (· ∉ traffic.handed)

/-- An event was recorded, which left `queue` behind. -/
def recording (traffic : Traffic) (event : Event) (accepted : Bool) (queue : EventQueue) :
    Traffic :=
  let entry := (traffic.recorded.length, event)
  { traffic with
    queue
    recorded := traffic.recorded ++ [(event, accepted)]
    line := if traffic.queue.HasRoom then traffic.line ++ [entry] else traffic.line
    counted :=
      if accepted ∧ ¬traffic.queue.HasRoom then traffic.counted ++ [entry] else traffic.counted }

/-- A step of a drain. -/
inductive Drains : Traffic → Traffic → Prop where
  /-- The oldest event is taken out of the line. -/
  | pop {traffic : Traffic} {event : Event} {queue : EventQueue} {entry : Nat × Event}
      {line : List (Nat × Event)} : traffic.drain = .popping →
        traffic.queue.pop? = some (event, queue) → traffic.line = entry :: line →
          Drains traffic { traffic with queue, drain := .holding event, line, taken := [entry] }
  /-- It is handed over. -/
  | hand {traffic : Traffic} {event : Event} {entry : Nat × Event} :
      traffic.drain = .holding event → traffic.taken = [entry] →
        Drains traffic { traffic with
          drain := .popping, taken := [], handed := traffic.handed ++ [(entry.1, event)] }
  /-- The line is found empty. -/
  | exhaust {traffic : Traffic} : traffic.drain = .popping → traffic.queue.pop? = none →
      Drains traffic { traffic with drain := .taking }
  /-- The count of ticks is taken. -/
  | take {traffic : Traffic} {count : Nat} {queue : EventQueue} : traffic.drain = .taking →
      traffic.queue.takeOverflow = (count, queue) →
        Drains traffic { traffic with
          queue, drain := .replaying count, counted := [], taken := traffic.counted }
  /-- One of the ticks taken is handed over. -/
  | replay {traffic : Traffic} {count : Nat} {entry : Nat × Event} {taken : List (Nat × Event)} :
      traffic.drain = .replaying (count + 1) → traffic.taken = entry :: taken →
        Drains traffic { traffic with
          drain := .replaying count, taken, handed := traffic.handed ++ [(entry.1, .tick)] }
  /-- No ticks are left. -/
  | finish {traffic : Traffic} : traffic.drain = .replaying 0 →
      Drains traffic { traffic with drain := .idle }

/-- A step of an interrupt handler or of a drain. -/
inductive Step : Traffic → Traffic → Prop where
  | record {traffic : Traffic} {event : Event} {accepted : Bool} {queue : EventQueue}
      {journal journal' : Journal} : (event = .tick → traffic.queue.CanCount) →
        EventQueue.record event traffic.queue journal = .done accepted queue journal' →
          Step traffic (traffic.recording event accepted queue)
  | start {traffic : Traffic} : traffic.drain = .idle →
      Step traffic { traffic with drain := .popping }
  | drain {traffic traffic' : Traffic} : Drains traffic traffic' → Step traffic traffic'

/-- Any number of steps from the start lead to this traffic. -/
def Reachable (capacity : Nat) (traffic : Traffic) : Prop :=
  Relation.ReflTransGen Step (ofCapacity capacity) traffic

/-- Where a drain has led that started when none was under way, when it has come to its end and
nothing was recorded in the meantime. -/
def Drained (traffic traffic' : Traffic) : Prop :=
  traffic.drain = .idle ∧
    Relation.ReflTransGen Drains { traffic with drain := .popping } traffic' ∧
      traffic'.drain = .idle

/-! ## Numbers -/

variable {traffic traffic' : Traffic} {event : Event} {isAccepted : Bool} {queue : EventQueue}

/-- An event that finds room is recorded in the line. -/
theorem recording_of_hasRoom (hroom : traffic.queue.HasRoom) :
    traffic.recording event isAccepted queue = { traffic with
      queue
      recorded := traffic.recorded ++ [(event, isAccepted)]
      line := traffic.line ++ [(traffic.recorded.length, event)] } := by
  simp [recording, hroom]

/-- An event that finds no room is recorded behind the line, or not at all. -/
theorem recording_of_not_hasRoom (hroom : ¬traffic.queue.HasRoom) :
    traffic.recording event isAccepted queue = { traffic with
      queue
      recorded := traffic.recorded ++ [(event, isAccepted)]
      counted := if isAccepted then traffic.counted ++ [(traffic.recorded.length, event)]
        else traffic.counted } := by
  simp [recording, hroom]

theorem accepted_recording (traffic : Traffic) (event : Event) (isAccepted : Bool)
    (queue : EventQueue) : (traffic.recording event isAccepted queue).accepted =
      traffic.accepted ++ if isAccepted then [(traffic.recorded.length, event)] else [] := by
  simp only [accepted, recording, List.zipIdx_append, List.filterMap_append, List.zipIdx_cons,
    List.zipIdx_nil, List.filterMap_cons, List.filterMap_nil, Nat.zero_add]
  cases isAccepted <;> rfl

theorem mem_accepted {entry : Nat × Event} :
    entry ∈ traffic.accepted ↔ traffic.recorded[entry.1]? = some (entry.2, true) := by
  simp only [accepted, List.mem_filterMap, Prod.exists, List.mem_zipIdx_iff_getElem?]
  constructor
  · rintro ⟨event, isAccepted, number, hnumber, hentry⟩
    cases isAccepted with
    | true =>
      obtain rfl := Option.some.inj hentry
      exact hnumber
    | false => cases hentry
  · intro hentry
    exact ⟨entry.2, true, entry.1, hentry, rfl⟩

theorem accepted_lt {entry : Nat × Event} (h : entry ∈ traffic.accepted) :
    entry.1 < traffic.recorded.length := by
  obtain ⟨hlt, -⟩ := List.getElem?_eq_some_iff.mp (mem_accepted.mp h)
  exact hlt

/-- Numbers ascend. -/
theorem accepted_sorted (traffic : Traffic) :
    traffic.accepted.Pairwise fun entry later => entry.1 < later.1 := by
  have hnumbers : traffic.recorded.zipIdx.Pairwise fun entry later => entry.2 < later.2 := by
    rw [← List.pairwise_map (f := Prod.snd), List.zipIdx_map_snd]
    exact List.pairwise_lt_range'
  refine hnumbers.filterMap _ fun entry later hlt numbered hnumbered numbered' hnumbered' => ?_
  obtain ⟨-, heq⟩ := Option.ite_none_right_eq_some.mp hnumbered
  obtain ⟨-, heq'⟩ := Option.ite_none_right_eq_some.mp hnumbered'
  rwa [← Option.some.inj heq, ← Option.some.inj heq']

theorem accepted_nodup (traffic : Traffic) : traffic.accepted.Nodup :=
  traffic.accepted_sorted.imp fun hlt heq => Nat.ne_of_lt hlt (congrArg Prod.fst heq)

theorem outstanding_sublist (traffic : Traffic) :
    traffic.outstanding.Sublist traffic.accepted := List.filter_sublist

/-! ## The invariant -/

/-- Every event that was accepted is in one place, and the queue and the drain hold what the record
says they hold. -/
structure Tracked (traffic : Traffic) : Prop where
  /-- The record of the line. -/
  line : traffic.line.map Prod.snd = traffic.queue.line
  /-- The record of the ticks that found the line full. -/
  counted : traffic.counted.map Prod.snd = List.replicate traffic.queue.overflow .tick
  /-- The record of what the drain has taken. -/
  taken : traffic.taken.map Prod.snd = traffic.drain.taken
  /-- What was accepted is in one place. -/
  perm : (traffic.handed ++ (traffic.taken ++ (traffic.line ++ traffic.counted))).Perm
    traffic.accepted
  /-- The line is in the order of recording. -/
  line_sorted : traffic.line.Pairwise fun entry later => entry.1 < later.1
  /-- Once the drain takes nothing more out of the queue, ticks are counted only behind a full
  line. -/
  settled : traffic.drain.Settled →
    (traffic.line ++ traffic.counted).Pairwise (fun entry later => entry.1 < later.1) ∧
      (traffic.counted = [] ∨ ¬traffic.queue.HasRoom)
  /-- Every tick is accepted. -/
  ticks_accepted : ∀ entry ∈ traffic.recorded, entry.1 = .tick → entry.2 = true
  /-- Every timer interrupt is counted. -/
  ticks : traffic.queue.ticks = traffic.recorded.countP (·.1 = .tick) % bitRange 64

namespace Tracked

variable {journal journal' : Journal}

theorem mem_accepted_of_line (h : traffic.Tracked) {entry : Nat × Event}
    (hentry : entry ∈ traffic.line ++ traffic.counted) : entry ∈ traffic.accepted :=
  h.perm.subset (List.mem_append_right _ (List.mem_append_right _ hentry))

/-- A new event has a higher number than those in the queue. -/
theorem sorted_append (h : traffic.Tracked) {entries : List (Nat × Event)}
    (hsorted : entries.Pairwise fun entry later => entry.1 < later.1)
    (hsubset : entries ⊆ traffic.line ++ traffic.counted) (event : Event) :
    (entries ++ [(traffic.recorded.length, event)]).Pairwise
      fun entry later => entry.1 < later.1 := by
  refine List.pairwise_append.mpr ⟨hsorted, List.pairwise_singleton _ _, ?_⟩
  intro entry hentry later hlater
  rw [List.mem_singleton.mp hlater]
  exact accepted_lt (h.mem_accepted_of_line (hsubset hentry))

theorem ticks_accepted_append (h : traffic.Tracked)
    (haccepted : event = .tick → isAccepted = true) :
    ∀ entry ∈ traffic.recorded ++ [(event, isAccepted)], entry.1 = .tick → entry.2 = true := by
  intro entry hentry htick
  rcases List.mem_append.mp hentry with hentry | hentry
  · exact h.ticks_accepted entry hentry htick
  · obtain rfl := List.mem_singleton.mp hentry
    exact haccepted htick

theorem ticksAfter_eq (h : traffic.Tracked) (event : Event) (isAccepted : Bool) :
    traffic.queue.ticksAfter event =
      (traffic.recorded ++ [(event, isAccepted)]).countP (·.1 = .tick) % bitRange 64 := by
  rw [List.countP_append, List.countP_singleton]
  cases event with
  | tick =>
    rw [EventQueue.ticksAfter, h.ticks, Nat.mod_add_mod]
    rfl
  | wake pid => exact h.ticks

/-- A new event that is accepted has its place behind all others. -/
theorem perm_append (h : traffic.Tracked) {waiting : List (Nat × Event)} {entry : Nat × Event}
    (hwaiting : waiting.Perm (traffic.line ++ traffic.counted ++ [entry])) :
    (traffic.handed ++ (traffic.taken ++ waiting)).Perm (traffic.accepted ++ [entry]) := by
  refine ((hwaiting.append_left _).append_left _).trans ?_
  rw [← List.append_assoc, ← List.append_assoc, List.append_assoc traffic.handed]
  exact h.perm.append_right _

/-- An interrupt handler that finds room puts the event behind all others in the line. -/
theorem record_of_hasRoom (h : traffic.Tracked) (hroom : traffic.queue.HasRoom) (event : Event) :
    (traffic.recording event true { traffic.queue with
      line := traffic.queue.line ++ [event]
      ticks := traffic.queue.ticksAfter event }).Tracked := by
  have haccepted := accepted_recording traffic event true { traffic.queue with
      line := traffic.queue.line ++ [event]
      ticks := traffic.queue.ticksAfter event }
  rw [recording_of_hasRoom hroom] at haccepted ⊢
  refine ⟨?_, h.counted, h.taken, ?_, ?_, fun hsettled => ?_,
    h.ticks_accepted_append fun _ => rfl, h.ticksAfter_eq event true⟩
  · rw [List.map_append, h.line]
    rfl
  · rw [haccepted]
    refine h.perm_append ?_
    rw [List.append_assoc, List.append_assoc]
    exact List.perm_append_comm.append_left _
  · exact h.sorted_append h.line_sorted (List.subset_append_left _ _) event
  -- Nothing is counted as long as there is room.
  · obtain ⟨-, hcounted⟩ := h.settled hsettled
    have hnone := hcounted.resolve_right (not_not_intro hroom)
    rw [hnone, List.append_nil]
    exact ⟨h.sorted_append h.line_sorted (List.subset_append_left _ _) event, .inl rfl⟩

/-- An interrupt handler that finds no room counts a tick. -/
theorem record_tick (h : traffic.Tracked) (hroom : ¬traffic.queue.HasRoom) :
    (traffic.recording .tick true { traffic.queue with
      overflow := traffic.queue.overflow + 1
      ticks := traffic.queue.ticksAfter .tick }).Tracked := by
  have haccepted := accepted_recording traffic .tick true { traffic.queue with
      overflow := traffic.queue.overflow + 1
      ticks := traffic.queue.ticksAfter .tick }
  rw [recording_of_not_hasRoom hroom] at haccepted ⊢
  refine ⟨h.line, ?_, h.taken, ?_, h.line_sorted, fun hsettled => ?_,
    h.ticks_accepted_append fun _ => rfl, h.ticksAfter_eq .tick true⟩
  · rw [if_pos rfl, List.map_append, h.counted, List.replicate_succ']
    rfl
  · rw [haccepted]
    refine h.perm_append ?_
    rw [if_pos rfl, List.append_assoc]
  · rw [if_pos rfl, ← List.append_assoc]
    exact ⟨h.sorted_append (h.settled hsettled).1 (List.Subset.refl _) .tick, .inr hroom⟩

/-- A wake-up that finds no room leaves no trace. -/
theorem record_lost (h : traffic.Tracked) (hroom : ¬traffic.queue.HasRoom)
    (hwake : event ≠ .tick) : (traffic.recording event false traffic.queue).Tracked := by
  have haccepted := accepted_recording traffic event false traffic.queue
  rw [recording_of_not_hasRoom hroom] at haccepted ⊢
  simp only [Bool.false_eq_true, if_false, List.append_nil] at haccepted ⊢
  refine ⟨h.line, h.counted, h.taken, haccepted ▸ h.perm, h.line_sorted, h.settled,
    h.ticks_accepted_append fun htick => absurd htick hwake, ?_⟩
  rw [← h.ticksAfter_eq event false]
  cases event with
  | tick => exact absurd rfl hwake
  | wake pid => rfl

/-- An interrupt handler keeps track. -/
theorem record (h : traffic.Tracked) (hcount : event = .tick → traffic.queue.CanCount)
    (hrecord : EventQueue.record event traffic.queue journal = .done isAccepted queue journal') :
    (traffic.recording event isAccepted queue).Tracked := by
  rcases EventQueue.record_cases hcount hrecord with
    ⟨hroom, rfl, rfl⟩ | ⟨hroom, rfl, rfl, rfl⟩ | ⟨hroom, hwake, rfl, rfl⟩
  · exact h.record_of_hasRoom hroom event
  · exact h.record_tick hroom
  · exact h.record_lost hroom hwake

theorem taken_eq_nil (h : traffic.Tracked) (hdrain : traffic.drain.taken = []) :
    traffic.taken = [] := List.map_eq_nil_iff.mp (h.taken.trans hdrain)

/-- The event that is about to be handed over is the one that was recorded. -/
theorem eq_of_taken (h : traffic.Tracked) {entry : Nat × Event} {taken : List (Nat × Event)}
    {events : List Event} (hdrain : traffic.drain.taken = event :: events)
    (htaken : traffic.taken = entry :: taken) :
    (entry.1, event) = entry ∧ taken.map Prod.snd = events := by
  have hsame := h.taken
  rw [hdrain, htaken, List.map_cons, List.cons.injEq] at hsame
  exact ⟨Prod.ext rfl hsame.1.symm, hsame.2⟩

/-- A step of a drain keeps track. -/
theorem drain (h : traffic.Tracked) (hstep : Drains traffic traffic') : traffic'.Tracked := by
  have hperm := h.perm
  have hsorted := h.line_sorted
  have hline := h.line
  have htaken := h.taken
  cases hstep with
  | @pop event queue entry line hdrain hpop hentry =>
    obtain ⟨hfront, hqueue⟩ := EventQueue.eq_of_pop? hpop
    rw [h.taken_eq_nil (by rw [hdrain]; rfl), hentry] at hperm
    rw [hentry] at hsorted
    rw [hfront, hentry, List.map_cons, List.cons.injEq] at hline
    refine ⟨hline.2, ?_, ?_, hperm, hsorted.of_cons, False.elim, h.ticks_accepted, ?_⟩
    · rw [hqueue]
      exact h.counted
    · rw [List.map_singleton, hline.1]
      rfl
    · rw [hqueue]
      exact h.ticks
  | @hand event entry hdrain hentry =>
    obtain ⟨hsame, -⟩ := h.eq_of_taken (by rw [hdrain]; rfl) hentry
    rw [hentry] at hperm
    refine ⟨hline, h.counted, rfl, ?_, hsorted, False.elim, h.ticks_accepted, h.ticks⟩
    rw [hsame, List.append_assoc]
    exact hperm
  | exhaust hdrain hpop =>
    refine ⟨hline, h.counted, ?_, hperm, hsorted, False.elim, h.ticks_accepted, h.ticks⟩
    rw [htaken, hdrain]
    rfl
  | @take count queue hdrain htake =>
    cases htake
    rw [h.taken_eq_nil (by rw [hdrain]; rfl)] at hperm
    refine ⟨hline, rfl, h.counted, ?_, hsorted, fun _ => ⟨?_, .inl rfl⟩, h.ticks_accepted, h.ticks⟩
    · refine List.Perm.trans (List.Perm.append_left _ ?_) hperm
      rw [List.append_nil]
      exact List.perm_append_comm
    · rw [List.append_nil]
      exact hsorted
  | @replay count entry taken hdrain hentry =>
    obtain ⟨hsame, hrest⟩ := h.eq_of_taken (by rw [hdrain]; exact List.replicate_succ) hentry
    rw [hentry] at hperm
    refine ⟨hline, h.counted, hrest, ?_, hsorted, fun _ => h.settled (by rw [hdrain]; trivial),
      h.ticks_accepted, h.ticks⟩
    rw [hsame, List.append_assoc]
    exact hperm
  | finish hdrain =>
    refine ⟨hline, h.counted, ?_, hperm, hsorted, fun _ => h.settled (by rw [hdrain]; trivial),
      h.ticks_accepted, h.ticks⟩
    rw [htaken, hdrain]
    rfl

theorem start (h : traffic.Tracked) (hdrain : traffic.drain = .idle) :
    Tracked { traffic with drain := .popping } := by
  refine ⟨h.line, h.counted, ?_, h.perm, h.line_sorted, False.elim, h.ticks_accepted, h.ticks⟩
  rw [h.taken, hdrain]
  rfl

end Tracked

theorem tracked_ofCapacity (capacity : Nat) : (ofCapacity capacity).Tracked :=
  ⟨rfl, rfl, rfl, .nil, .nil, fun _ => ⟨.nil, .inl rfl⟩, fun _ => nofun, rfl⟩

/-- Every step keeps track. -/
theorem Step.tracked (hstep : Step traffic traffic') (h : traffic.Tracked) : traffic'.Tracked := by
  cases hstep with
  | record hcount hrecord => exact h.record hcount hrecord
  | start hdrain => exact h.start hdrain
  | drain hdrains => exact h.drain hdrains

theorem tracked_of_reachable {capacity : Nat} (h : Reachable capacity traffic) :
    traffic.Tracked := by
  induction h with
  | refl => exact tracked_ofCapacity capacity
  | tail _ hstep ih => exact hstep.tracked ih

/-- The queue keeps its capacity. -/
theorem capacity_of_reachable {capacity : Nat} (h : Reachable capacity traffic) :
    traffic.queue.capacity = capacity := by
  induction h with
  | refl => rfl
  | tail _ hstep ih =>
    rw [← ih]
    cases hstep with
    | record hcount hrecord =>
      rcases EventQueue.record_cases hcount hrecord with
        ⟨-, -, rfl⟩ | ⟨-, -, -, rfl⟩ | ⟨-, -, -, rfl⟩ <;> rfl
    | start => rfl
    | drain hdrains =>
      cases hdrains with
      | pop _ hpop => rw [(EventQueue.eq_of_pop? hpop).2]
      | take _ htake =>
        cases htake
        rfl
      | hand | exhaust | replay | finish => rfl

/-! ## Undisturbed drains -/

theorem Tracked.outstanding_perm (h : traffic.Tracked) :
    traffic.outstanding.Perm (traffic.taken ++ (traffic.line ++ traffic.counted)) := by
  have hnodup := (List.nodup_append.mp (h.perm.nodup_iff.mpr traffic.accepted_nodup))
  refine (h.perm.symm.filter _).trans (List.Perm.of_eq ?_)
  rw [List.filter_append, List.filter_eq_nil_iff.mpr, List.filter_eq_self.mpr, List.nil_append]
  · exact fun entry hentry => decide_eq_true fun hhanded => hnodup.2.2 _ hhanded _ hentry rfl
  · exact fun entry hentry => by simpa using hentry

/-- Between two drains, the events that wait are in the order in which they were recorded. -/
theorem Tracked.outstanding_eq (h : traffic.Tracked) (hidle : traffic.drain = .idle) :
    traffic.outstanding = traffic.line ++ traffic.counted := by
  have hperm := h.outstanding_perm
  rw [h.taken_eq_nil (by rw [hidle]; rfl)] at hperm
  refine hperm.eq_of_pairwise (fun entry later _ _ hlt hgt => absurd hlt (Nat.lt_asymm hgt)) ?_
    (h.settled (by rw [hidle]; trivial)).1
  exact traffic.accepted_sorted.sublist traffic.outstanding_sublist

theorem Tracked.waiting_eq (h : traffic.Tracked) (hidle : traffic.drain = .idle) :
    traffic.queue.waiting = traffic.outstanding.map Prod.snd := by
  rw [h.outstanding_eq hidle, List.map_append, h.line, h.counted]
  rfl

/-- How far a drain has come that started when `before` was the case and went on undisturbed. -/
structure Underway (before traffic : Traffic) : Prop where
  tracked : traffic.Tracked
  /-- Apart from the events that wait, the queue stays as it is. -/
  emptied_eq : traffic.queue.emptied = before.queue.emptied
  /-- The events keep their order. -/
  handed_eq : traffic.handed ++ (traffic.taken ++ (traffic.line ++ traffic.counted)) =
    before.handed ++ (before.line ++ before.counted)
  /-- The count of ticks is not taken before the line is empty. -/
  line_eq : traffic.drain = .taking ∨ traffic.drain.Settled → traffic.line = []
  /-- The ticks are not handed over before their count is taken. -/
  counted_eq : traffic.drain.Settled → traffic.counted = []

theorem underway_start (h : traffic.Tracked) (hidle : traffic.drain = .idle) :
    Underway traffic { traffic with drain := .popping } := by
  refine ⟨h.start hidle, rfl, ?_, fun hdrain => hdrain.elim nofun False.elim, False.elim⟩
  rw [h.taken_eq_nil (by rw [hidle]; rfl)]
  rfl

theorem Underway.drain {before : Traffic} (h : Underway before traffic)
    (hstep : Drains traffic traffic') : Underway before traffic' := by
  have htracked := h.tracked.drain hstep
  have hhanded := h.handed_eq
  cases hstep with
  | @pop event queue entry line hdrain hpop hentry =>
    obtain ⟨-, hqueue⟩ := EventQueue.eq_of_pop? hpop
    rw [h.tracked.taken_eq_nil (by rw [hdrain]; rfl), hentry] at hhanded
    refine ⟨htracked, ?_, hhanded, fun hdrain => hdrain.elim nofun False.elim, False.elim⟩
    rw [← h.emptied_eq, hqueue]
    rfl
  | @hand event entry hdrain hentry =>
    obtain ⟨hsame, -⟩ := h.tracked.eq_of_taken (by rw [hdrain]; rfl) hentry
    rw [hentry] at hhanded
    refine ⟨htracked, h.emptied_eq, ?_, fun hdrain => hdrain.elim nofun False.elim, False.elim⟩
    rw [hsame, List.append_assoc]
    exact hhanded
  | exhaust hdrain hpop =>
    have hline := h.tracked.line
    rw [EventQueue.line_of_pop?_eq_none hpop] at hline
    exact ⟨htracked, h.emptied_eq, hhanded, fun _ => List.map_eq_nil_iff.mp hline, False.elim⟩
  | @take count queue hdrain htake =>
    cases htake
    have hline := h.line_eq (.inl hdrain)
    rw [h.tracked.taken_eq_nil (by rw [hdrain]; rfl), hline] at hhanded
    refine ⟨htracked, h.emptied_eq, ?_, fun _ => hline, fun _ => rfl⟩
    rw [hline, List.append_nil, List.append_nil]
    exact hhanded
  | @replay count entry taken hdrain hentry =>
    have hsettled : traffic.drain.Settled := by rw [hdrain]; trivial
    obtain ⟨hsame, -⟩ := h.tracked.eq_of_taken (by rw [hdrain]; exact List.replicate_succ) hentry
    rw [hentry] at hhanded
    refine ⟨htracked, h.emptied_eq, ?_, fun _ => h.line_eq (.inr hsettled),
      fun _ => h.counted_eq hsettled⟩
    rw [hsame, List.append_assoc]
    exact hhanded
  | finish hdrain =>
    have hsettled : traffic.drain.Settled := by rw [hdrain]; trivial
    exact ⟨htracked, h.emptied_eq, hhanded, fun _ => h.line_eq (.inr hsettled),
      fun _ => h.counted_eq hsettled⟩

/-- A drain during which nothing is recorded hands over all that was accepted before, in the order
in which it was recorded, and leaves nothing behind. -/
theorem handed_of_drained (h : traffic.Tracked) (hdrained : Drained traffic traffic') :
    traffic'.handed = traffic.handed ++ traffic.outstanding ∧
      traffic'.queue = traffic.queue.emptied := by
  obtain ⟨hidle, hsteps, hidle'⟩ := hdrained
  have hunderway : Underway traffic traffic' := by
    clear hidle'
    induction hsteps with
    | refl => exact underway_start h hidle
    | tail _ hstep ih => exact ih.drain hstep
  have hsettled : traffic'.drain.Settled := by rw [hidle']; trivial
  have htracked := hunderway.tracked
  have hline := hunderway.line_eq (.inr hsettled)
  have hcounted := hunderway.counted_eq hsettled
  constructor
  · have hhanded := hunderway.handed_eq
    rwa [htracked.taken_eq_nil (by rw [hidle']; rfl), hline, hcounted, List.append_nil,
      List.append_nil, List.append_nil, ← h.outstanding_eq hidle] at hhanded
  · rw [← hunderway.emptied_eq, EventQueue.emptied]
    have hempty : traffic'.queue.line = [] := by rw [← htracked.line, hline]; rfl
    have hnone : traffic'.queue.overflow = 0 := by
      have hreplicate := htracked.counted
      rw [hcounted] at hreplicate
      simpa using hreplicate.symm
    rw [← hempty, ← hnone]

/-- The steps that a drain has before it, if nothing is recorded any more. -/
def remaining (traffic : Traffic) : Nat :=
  match traffic.drain with
  | .idle => 0
  | .replaying count => count + 1
  | .taking => traffic.queue.overflow + 2
  | .popping => 2 * traffic.queue.line.length + traffic.queue.overflow + 3
  | .holding _ => 2 * traffic.queue.line.length + traffic.queue.overflow + 4

/-- A drain never gets stuck, and every step brings it nearer to its end. -/
theorem Tracked.exists_drains (h : traffic.Tracked) (hbusy : traffic.drain ≠ .idle) :
    ∃ traffic', Drains traffic traffic' ∧ traffic'.remaining < traffic.remaining := by
  have hline := h.line
  have htaken := h.taken
  cases hdrain : traffic.drain with
  | idle => exact absurd hdrain hbusy
  | popping =>
    cases hfront : traffic.queue.line with
    | nil =>
      refine ⟨_, .exhaust hdrain (by rw [EventQueue.pop?, hfront]), ?_⟩
      simp only [remaining, hdrain, hfront]
      omega
    | cons event rest =>
      rw [hfront] at hline
      obtain ⟨entry, line, hentry, -, -⟩ := List.map_eq_cons_iff.mp hline
      refine ⟨_, .pop hdrain (by rw [EventQueue.pop?, hfront]) hentry, ?_⟩
      simp only [remaining, hdrain, hfront, List.length_cons]
      omega
  | holding event =>
    rw [hdrain] at htaken
    obtain ⟨entry, hentry, -⟩ := List.map_eq_singleton_iff.mp htaken
    refine ⟨_, .hand hdrain hentry, ?_⟩
    simp only [remaining, hdrain]
    omega
  | taking =>
    refine ⟨_, .take hdrain rfl, ?_⟩
    simp only [remaining, hdrain]
    omega
  | replaying count =>
    cases count with
    | zero =>
      refine ⟨_, .finish hdrain, ?_⟩
      simp only [remaining, hdrain]
      omega
    | succ count =>
      rw [hdrain, Drain.taken, List.replicate_succ] at htaken
      obtain ⟨entry, taken, hentry, -, -⟩ := List.map_eq_cons_iff.mp htaken
      refine ⟨_, .replay hdrain hentry, ?_⟩
      simp only [remaining, hdrain]
      omega

/-- A drain comes to its end if nothing is recorded any more. -/
theorem Tracked.exists_finished {traffic : Traffic} (h : traffic.Tracked) :
    ∃ traffic', Relation.ReflTransGen Drains traffic traffic' ∧ traffic'.drain = .idle := by
  by_cases hbusy : traffic.drain = .idle
  · exact ⟨traffic, .refl, hbusy⟩
  · obtain ⟨middle, hstep, hless⟩ := h.exists_drains hbusy
    obtain ⟨traffic', hsteps, hidle⟩ := (h.drain hstep).exists_finished
    exact ⟨traffic', .head hstep hsteps, hidle⟩
termination_by traffic.remaining

/-! ## Every event once -/

theorem Tracked.perm_outstanding (h : traffic.Tracked) :
    (traffic.handed ++ traffic.outstanding).Perm traffic.accepted :=
  (h.outstanding_perm.append_left _).trans h.perm

/-- An event is in one place if it was accepted, and nowhere if it was not. -/
theorem Tracked.count_number (h : traffic.Tracked) {number : Nat}
    (hrecorded : traffic.recorded[number]? = some (event, isAccepted)) :
    (traffic.handed.map Prod.fst).count number + (traffic.outstanding.map Prod.fst).count number =
      if isAccepted then 1 else 0 := by
  rw [← List.count_append, ← List.map_append, (h.perm_outstanding.map _).count_eq]
  have hnodup : (traffic.accepted.map Prod.fst).Nodup :=
    (List.pairwise_map.mpr traffic.accepted_sorted).imp Nat.ne_of_lt
  cases isAccepted with
  | true =>
    have hmem : (number, event) ∈ traffic.accepted := mem_accepted.mpr hrecorded
    exact List.count_eq_one_of_mem hnodup (List.mem_map_of_mem hmem)
  | false =>
    refine List.count_eq_zero.mpr fun hmem => ?_
    obtain ⟨entry, hentry, rfl⟩ := List.mem_map.mp hmem
    cases (mem_accepted.mp hentry).symm.trans hrecorded

theorem accepted_map_snd (traffic : Traffic) : traffic.accepted.map Prod.snd =
    traffic.recorded.filterMap fun entry => if entry.2 then some entry.1 else none := by
  rw [accepted, List.map_filterMap, ← List.zipIdx_map_fst 0 traffic.recorded, List.filterMap_map,
    List.zipIdx_map_fst]
  refine List.filterMap_congr fun entry _ => ?_
  dsimp only [Function.comp]
  split <;> rfl

/-- No tick is lost or handed over twice. -/
theorem Tracked.count_tick (h : traffic.Tracked) :
    (traffic.handed.map Prod.snd ++ traffic.drain.taken ++ traffic.queue.waiting).count .tick =
      traffic.recorded.countP (·.1 = .tick) := by
  have hplaces : traffic.handed.map Prod.snd ++ traffic.drain.taken ++ traffic.queue.waiting =
      (traffic.handed ++ (traffic.taken ++ (traffic.line ++ traffic.counted))).map Prod.snd := by
    simp only [List.map_append, h.line, h.counted, h.taken, EventQueue.waiting, List.append_assoc]
  rw [hplaces, (h.perm.map _).count_eq, accepted_map_snd, List.count, List.countP_filterMap]
  refine List.countP_congr fun entry hentry => ?_
  cases haccepted : entry.2 with
  | true => simp
  | false =>
    have hwake : entry.1 ≠ .tick := fun htick =>
      Bool.false_ne_true (haccepted.symm.trans (h.ticks_accepted entry hentry htick))
    simp [hwake]

end Traffic

open Traffic

/-- Whatever the capacity is, however recording events and the steps of drains are interleaved, and
as long as the ticks that find the line full can be counted:

* The ticks handed over, those in the line, those counted and those taken and not handed over yet
  are all timer interrupts there have been, modulo `bitRange 64`.
* What is handed over was accepted, and every event that was accepted, so every wake-up for which
  there was room, is handed over once, or it is still in the queue or in the hands of the drain. An
  event that was not accepted is never handed over.
* Between two drains, a drain that goes on undisturbed comes to its end, and then it has handed over
  everything that was accepted before, in the order in which it was recorded. So acting on the
  events that wait ends as acting on each of them as soon as it is recorded would have ended. -/
theorem events_of_reachable {capacity : Nat} (hcapacity : 0 < capacity) {traffic : Traffic}
    (h : Traffic.Reachable capacity traffic) :
    (traffic.handed.map Prod.snd ++ traffic.drain.taken ++ traffic.queue.waiting).count .tick %
      bitRange 64 = traffic.queue.ticks ∧
    (∀ entry ∈ traffic.handed, traffic.recorded[entry.1]? = some (entry.2, true)) ∧
    (∀ number event isAccepted, traffic.recorded[number]? = some (event, isAccepted) →
      (traffic.handed.map Prod.fst).count number +
        (traffic.outstanding.map Prod.fst).count number = if isAccepted then 1 else 0) ∧
    (traffic.outstanding.map Prod.snd).Perm (traffic.drain.taken ++ traffic.queue.waiting) ∧
    (traffic.drain = .idle →
      (∃ traffic', Drained traffic traffic') ∧
      (∀ traffic', Drained traffic traffic' →
        traffic'.handed = traffic.handed ++ traffic.outstanding ∧
          traffic'.queue = traffic.queue.emptied) ∧
      ∀ paging system journal,
        ((do let _ ← System.actOnEvents paging : Total (WithEvents System) Unit)
          ⟨traffic.queue, system⟩ journal).viewed WithEvents.state =
        (System.actAfterEach paging (traffic.outstanding.map Prod.snd)
          ⟨traffic.queue.emptied, system⟩ journal).viewed WithEvents.state) := by
  have htracked := tracked_of_reachable h
  refine ⟨?_, fun entry hentry => ?_, fun _ _ _ => htracked.count_number, ?_, fun hidle =>
    ⟨?_, fun _ => handed_of_drained htracked, fun paging system journal => ?_⟩⟩
  · rw [htracked.count_tick, htracked.ticks]
  · exact mem_accepted.mp (htracked.perm.subset (List.mem_append_left _ hentry))
  · have hperm := htracked.outstanding_perm.map Prod.snd
    rwa [List.map_append, List.map_append, htracked.line, htracked.counted, htracked.taken]
      at hperm
  · obtain ⟨traffic', hsteps, hidle'⟩ := (htracked.start hidle).exists_finished
    exact ⟨traffic', hidle, hsteps, hidle'⟩
  · rw [System.actAfterEach_apply _ _ _ (capacity_of_reachable h ▸ hcapacity),
      System.actOnEvents_apply, ← htracked.waiting_eq hidle]
    cases traffic.queue.waiting.forM (System.actOn paging) system journal <;> rfl

/-- A line with one place: the second tick is counted, and the wake-up is lost. Both ticks are
handed over. -/
theorem events_of_fullLine :
    ∃ traffic traffic', Traffic.Reachable 1 traffic ∧ 0 < 1 ∧
      traffic.recorded = [(.tick, true), (.tick, true), (.wake 2, false)] ∧
        Drained traffic traffic' ∧ traffic'.handed = [(0, .tick), (1, .tick)] := by
  let first := (ofCapacity 1).recording .tick true
    { capacity := 1, line := [.tick], overflow := 0, ticks := 1 }
  let second := first.recording .tick true
    { capacity := 1, line := [.tick], overflow := 1, ticks := 2 }
  let third := second.recording (.wake 2) false second.queue
  have hfirst : Step (ofCapacity 1) first := .record (fun _ => .inl (by decide))
    (show EventQueue.record .tick (ofCapacity 1).queue #[] = .done true _ #[] from rfl)
  have hsecond : Step first second := .record (fun _ => .inr (by decide))
    (show EventQueue.record .tick first.queue #[] = .done true _ #[] from rfl)
  have hthird : Step second third := .record nofun
    (show EventQueue.record (.wake 2) second.queue #[] = .done false _ #[.wakeDropped 2] from rfl)
  have hreachable : Traffic.Reachable 1 third :=
    ((Relation.ReflTransGen.single hfirst).tail hsecond).tail hthird
  obtain ⟨-, -, -, -, hidle⟩ := events_of_reachable Nat.one_pos hreachable
  obtain ⟨⟨traffic', hdrained⟩, hhanded, -⟩ := hidle rfl
  exact ⟨third, traffic', hreachable, Nat.one_pos, rfl, hdrained,
    (hhanded traffic' hdrained).1.trans (by decide)⟩

end KernelResources
