import KernelResources.Proofs.Paging.Ledger
import KernelResources.Proofs.Yields

/-!
# Invariants of operations on address spaces

An operation on address spaces is made of a few kinds of access: it takes a frame or gives one back,
it reads and writes entries, and it has cached translations forgotten. So an invariant that none of
these breaks is kept by all operations, whichever arguments they are given and whatever the tables
say.

* `Paging.Lasting`: no single access breaks the invariant. There is one lemma for each operation.
* `Lasting.create` and `Lasting.run`: building the kernel space and carrying out a request do not
  break it either, if directories may be loaded.
-/

namespace KernelResources

namespace Machine

variable {ε : Type}

/-- Looking for a free frame is asking for one and putting up with a refusal. -/
theorem onFrames_allocate? :
    (onFrames FramePool.allocate?.unrefused : Action ε Machine (Option Nat)) = do
      match ← (onFrames FramePool.allocate).attempt with
      | .ok frame => return some frame
      | .error _ => return none := by
  funext machine journal
  simp only [onFrames, FramePool.allocate?, Action.unrefused, Action.apply_within,
    Action.apply_mapError, Action.apply_bind, Action.apply_attempt]
  cases FramePool.allocate machine.frames journal <;> rfl

/-- Giving a frame back is trying to free it. -/
theorem discardFrame_eq (frame : Nat) :
    (discardFrame frame : Action ε Machine Unit) =
      (do let _ ← (onFrames (FramePool.free frame)).attempt) := by
  funext machine journal
  simp only [discardFrame, onFrames, FramePool.discard, Action.unrefused, Action.apply_within,
    Action.apply_mapError, Action.apply_bind, Action.apply_attempt]
  cases FramePool.free frame machine.frames journal <;> rfl

/-- An invariant of the pool is one of the machine. -/
theorem keeps_onFrames {α : Type} {inv : FramePool → Prop} {action : Action ε FramePool α}
    (h : action.Keeps fun pool _ => inv pool) :
    (onFrames action).Keeps fun machine _ => inv machine.frames :=
  fun machine journal hinv => Action.yields_within (h machine.frames journal hinv)

end Machine

namespace Paging

open Machine

/-- None of the accesses that an operation is made of breaks the invariant. -/
structure Lasting (inv : Machine → Journal → Prop) : Prop where
  /-- A frame may be taken. -/
  allocate : (onFrames FramePool.allocate).Keeps inv
  /-- So may a run of frames. -/
  allocateRun : ∀ count, (onFrames (FramePool.allocateRun count)).Keeps inv
  /-- A frame may be given back. -/
  free : ∀ frame, (onFrames (FramePool.free frame)).Keeps inv
  /-- Memory may change. -/
  memory : ∀ {machine : Machine} {journal : Journal} (memory : WordMemory),
    inv machine journal → inv { machine with memory } journal
  /-- A cached translation may be forgotten. -/
  invalidate : ∀ {machine : Machine} {journal : Journal} (page : Nat), inv machine journal →
    inv { machine with calls := machine.calls.push (.invalidate page) } journal
  /-- It may be reported that the kernel region was not to be changed. -/
  note : ∀ {machine : Machine} {journal : Journal} (address : Nat),
    inv machine journal → inv machine (journal.push (.sharedUnmapRefused address))

/-- The invariant does not break when a directory is loaded. -/
def Loadable (inv : Machine → Journal → Prop) : Prop :=
  ∀ (machine : Machine) (journal : Journal) (directory : Nat), inv machine journal →
    inv { machine with
      active := directory
      calls := machine.calls.push (.load (Frame.address directory)) } journal

/-- Whether a request has a directory loaded. -/
def Request.Loads : Request → Prop
  | activate _ | activateKernel => True
  | _ => False

namespace Lasting

variable {ε α : Type} {paging : Paging} {space : AddressSpace} {address physical : Nat}
  {flags : Flags} {inv : Machine → Journal → Prop} (h : Lasting inv)
include h

/-! ## Frames and entries -/

theorem onMemory {action : Action ε WordMemory α}
    (hquiet : ∀ journal, action.Keeps fun _ journal' => journal' = journal) :
    (Machine.onMemory action).Keeps inv := by
  intro machine journal hinv
  refine Action.yields_within ((hquiet journal _ _ rfl).mono ?_ ?_)
  · rintro _ memory _ rfl
    exact h.memory memory hinv
  · rintro _ memory _ rfl
    exact h.memory memory hinv

theorem entry (frame slot : Nat) : (Machine.entry frame slot : Action ε Machine Entry).Keeps inv :=
  h.onMemory fun _ => Action.Keeps.bind (Action.keeps_ite_halt _ _ _) fun _ =>
    Action.keeps_get fun _ => Action.keeps_pure _

theorem setEntry (frame slot : Nat) (new : Entry) :
    (Machine.setEntry frame slot new : Action ε Machine Unit).Keeps inv :=
  h.onMemory fun _ => Action.Keeps.bind (Action.keeps_ite_halt _ _ _) fun _ =>
    Action.keeps_modify fun _ _ hsame => hsame

theorem takeZeroed : Machine.takeZeroed.Keeps inv := by
  unfold Machine.takeZeroed
  rw [onFrames_allocate?]
  refine (h.allocate.attempt.bind fun found => ?_).bind fun found =>
    (Action.keeps_ofOption _ _).bind fun frame => ?_
  · cases found with
    | ok frame => exact Action.keeps_pure _
    | error error => exact Action.keeps_pure _
  · exact Action.Keeps.bind (Action.keeps_modify fun _ _ hinv => h.memory _ hinv)
      fun _ => Action.keeps_pure _

theorem discardFrame (frame : Nat) :
    (Machine.discardFrame frame : Action ε Machine Unit).Keeps inv := by
  rw [discardFrame_eq]
  exact Action.Keeps.bind (h.free frame).attempt fun _ => Action.keeps_pure _

theorem tableFor (create : Bool) : (Paging.tableFor space address create).Keeps inv := by
  refine (h.entry _ _).bind fun upper => ?_
  cases upper.frame? with
  | some table => exact Action.keeps_pure _
  | none =>
    exact (Action.keeps_refuseIf _ _).bind fun _ => h.takeZeroed.bind fun table =>
      (h.setEntry _ _ _).bind fun _ => Action.keeps_pure _

theorem discardLeaf (leaf : Entry) :
    (Paging.discardLeaf leaf : Action ε Machine Unit).Keeps inv := by
  unfold Paging.discardLeaf
  split
  · split
    · exact h.discardFrame _
    · exact Action.keeps_pure _
  · exact Action.keeps_pure _

theorem openToUser : (Paging.openToUser space address flags : Action ε Machine Unit).Keeps inv := by
  unfold Paging.openToUser
  split
  · refine (h.entry _ _).bind fun upper => ?_
    split
    · exact Action.keeps_pure _
    · exact h.setEntry _ _ _
  · exact Action.keeps_pure _

theorem retire (previous : Entry) :
    (paging.retire space address previous : Action ε Machine Unit).Keeps inv := by
  refine (h.discardLeaf previous).bind fun _ => Action.keeps_get fun machine => ?_
  split
  · exact Action.keeps_modify fun _ _ hinv => h.invalidate _ hinv
  · exact Action.keeps_pure _

/-! ## Operations -/

theorem createSpace : paging.createSpace.Keeps inv := by
  refine h.takeZeroed.bind fun directory => ?_
  refine (Action.Keeps.forM (fun slot => ?_) _).bind fun _ => Action.keeps_pure _
  exact (h.entry _ _).bind fun upper => h.setEntry _ _ upper

theorem discardSlot (slot : Nat) :
    (Paging.discardSlot space slot : Action ε Machine Unit).Keeps inv := by
  refine (h.entry _ _).bind fun upper => ?_
  split
  · exact Action.keeps_pure _
  · intro machine journal hinv
    refine Action.yields_get ?_
    -- That there are 1024 leaves is better kept out of sight.
    generalize Table.entries machine.memory _ = leaves
    refine (Action.Keeps.forM h.discardLeaf leaves).bind (fun _ => ?_) machine journal hinv
    split
    · exact h.discardFrame _
    · exact Action.keeps_pure _

theorem destroySpace : (paging.destroySpace space).Keeps inv :=
  Action.keeps_get fun _ => (Action.keeps_refuseIf _ _).bind fun _ =>
    (Action.Keeps.forM h.discardSlot _).bind fun _ => h.discardFrame _

theorem enter : (paging.enter space address physical flags).Keeps inv :=
  (Action.keeps_refuseIf _ _).bind fun _ => (h.tableFor true).bind fun _ =>
    (h.entry _ _).bind fun _ => (Action.keeps_refuseIf _ _).bind fun _ =>
      (h.setEntry _ _ _).bind fun _ => h.openToUser

theorem map : (paging.map space address physical flags).Keeps inv := h.enter

theorem remap : (paging.remap space address physical flags).Keeps inv := by
  refine (Action.keeps_refuseIf _ _).bind fun _ => (h.tableFor true).bind fun _ => ?_
  refine (h.entry _ _).bind fun previous => (h.setEntry _ _ _).bind fun _ =>
    h.openToUser.bind fun _ => ?_
  split
  · exact (h.retire previous).bind fun _ => Action.keeps_pure _
  · exact Action.keeps_pure _

theorem mapFresh : (paging.mapFresh space address flags).Keeps inv := by
  refine h.takeZeroed.bind fun frame => h.enter.attempt.bind fun result => ?_
  cases result with
  | ok value => exact Action.keeps_pure _
  | error error => exact (h.discardFrame frame).bind fun _ => Action.keeps_throw _

theorem unmap : (paging.unmap space address : Action ε Machine (Option Nat)).Keeps inv := by
  refine (Action.keeps_refuseIf _ _).attempt.bind fun allowed => ?_
  cases allowed with
  | error error =>
    intro machine journal hinv
    exact Action.yields_bind (Action.yields_note (Action.yields_pure (h.note address hinv)))
  | ok value =>
    refine (h.tableFor false).attempt.bind fun found => ?_
    cases found with
    | error error => exact Action.keeps_pure _
    | ok table =>
      refine (h.entry _ _).bind fun previous => ?_
      cases previous.frame? with
      | none => exact Action.keeps_pure _
      | some frame =>
        exact (h.setEntry _ _ _).bind fun _ => (h.retire previous).bind fun _ =>
          Action.keeps_pure _

/-- Building the kernel space has its directory loaded, and that is reported. -/
theorem create (hload : Loadable inv)
    (hready : ∀ {machine : Machine} {journal : Journal} (directory slots : Nat),
      inv machine journal → inv machine (journal.push (.kernelSpaceReady directory slots)))
    (layout : Layout) : (Paging.create layout).Keeps inv := by
  refine h.takeZeroed.bind fun directory =>
    Action.Keeps.bind (Action.keeps_ite_halt _ _ _) fun _ => ?_
  refine (Action.Keeps.forM (fun slot => ?_) _).bind fun _ => ?_
  · exact h.takeZeroed.bind fun table => h.setEntry _ _ _
  refine (Action.Keeps.forM (fun address => ?_) _).bind fun _ => ?_
  · exact (h.tableFor false).bind fun table => h.setEntry _ _ _
  refine Action.Keeps.bind (Action.keeps_modify fun _ _ hinv => hload _ _ directory hinv)
    fun _ => ?_
  exact fun _ _ hinv =>
    Action.yields_bind (Action.yields_note (Action.yields_pure (hready _ _ hinv)))

/-- A request keeps the invariant, if it has no directory loaded or is free to. -/
theorem run {request : Request} (hload : request.Loads → Loadable inv) :
    (request.run paging).Keeps inv := by
  cases request with
  | createSpace => exact h.createSpace.bind fun _ => Action.keeps_pure _
  | destroySpace => exact h.destroySpace.bind fun _ => Action.keeps_pure _
  | map => exact h.map.bind fun _ => Action.keeps_pure _
  | remap => exact h.remap.bind fun _ => Action.keeps_pure _
  | mapFresh => exact h.mapFresh.bind fun _ => Action.keeps_pure _
  | unmap => exact h.unmap.bind fun _ => Action.keeps_pure _
  | tableFor => exact (h.tableFor _).bind fun _ => Action.keeps_pure _
  | activate | activateKernel =>
    exact Action.Keeps.bind (Action.keeps_modify fun machine journal =>
      hload trivial machine journal _) fun _ => Action.keeps_pure _
  | allocate => exact h.allocate.bind fun _ => Action.keeps_pure _
  | allocateRun count => exact (h.allocateRun count).bind fun _ => Action.keeps_pure _
  | free frame => exact (h.free frame).bind fun _ => Action.keeps_pure _
  | write address value =>
    exact Action.Keeps.bind (Action.keeps_modify fun _ _ hinv => h.memory _ hinv)
      fun _ => Action.keeps_pure _

end Lasting

end Paging

end KernelResources
