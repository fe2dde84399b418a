import KernelResources.Paging.Table
import KernelResources.Process.Registers

/-!
# Register files in trap frames

A trap turns the frame that it left into a register file, and resuming a process turns a register
file into a frame. The two are laid out differently: a frame has a whole word for each selector, and
it has the stack of the interrupted program only if that was in user mode. What is lost on the way
is nothing that a resumed process could see.

* `TrapFrame.restored` is what a frame puts into the registers when a process is resumed from it.
* `TrapFrame.StandsFor` says which registers these are: those whose own frame restores the same.
* `Registers.ofFrame_eq_done_iff`: a trap finds the registers that its frame stands for.
* `Registers.roundTrips_eq`: which processes come back as they were if a trap interrupts them at
  once, and which of them cannot.
* `Registers.conversion_lossless`: nothing is lost in either direction.
-/

namespace KernelResources

/-! ## Selectors in words -/

theorem toNat_and_mask (word : UInt32) {mask : UInt32} {width : Nat}
    (h : mask.toNat = bitRange width - 1) :
    (word &&& mask).toNat = word.toNat % bitRange width := by
  rw [bitRange, Nat.one_shiftLeft] at h ⊢
  rw [UInt32.toNat_and, h, Nat.and_two_pow_sub_one_eq_mod]

/-- Only one selector has the same lower half as a word, and that is this half. -/
theorem toUInt32_and_eq_iff {selector : UInt16} {word : UInt32} :
    selector.toUInt32 &&& 0xFFFF = word &&& 0xFFFF ↔ selector = word.toUInt16 := by
  have hmask : (0xFFFF : UInt32).toNat = bitRange 16 - 1 := rfl
  have hlt : selector.toNat < bitRange 16 := selector.toNat_lt
  have hhalf : word.toUInt16.toNat = word.toNat % bitRange 16 := UInt32.toNat_toUInt16 word
  rw [← UInt32.toNat_inj, toNat_and_mask _ hmask, toNat_and_mask _ hmask, UInt16.toNat_toUInt32,
    Nat.mod_eq_of_lt hlt, ← hhalf, UInt16.toNat_inj]

/-- The ring is in the lower half of a word. -/
theorem toUInt16_and_eq_iff {word : UInt32} : word.toUInt16 &&& 3 = 3 ↔ word &&& 3 = 3 := by
  have hmask : (3 : UInt32).toNat = bitRange 2 - 1 := rfl
  have hhalf : word.toUInt16.toUInt32.toNat = word.toNat % bitRange 16 :=
    UInt32.toNat_toUInt16 word
  rw [← UInt16.toUInt32_inj, UInt16.toUInt32_and]
  show word.toUInt16.toUInt32 &&& 3 = 3 ↔ _
  rw [← UInt32.toNat_inj, ← UInt32.toNat_inj, toNat_and_mask _ hmask, toNat_and_mask _ hmask,
    hhalf, Nat.mod_mod_of_dvd _ (by decide)]

theorem and_allBits (word : UInt32) : word &&& 0xFFFFFFFF = word := UInt32.and_neg_one

/-! ## What a frame restores -/

namespace TrapFrame

/-- The bits of a word that are put into a register. A segment register takes a selector, which is
the lower half. The stack pointer that was pushed with the other registers is passed over. -/
def restoredBits (name : String) : UInt32 :=
  if name = "kernel_esp" then 0
  else if name ∈ ["gs", "fs", "es", "ds", "cs", "user_ss"] then 0xFFFF
  else 0xFFFFFFFF

/-- What the first bytes of a frame put into the registers, lowest address first. -/
def restored (frame : TrapFrame) (length : Nat) : List (String × UInt32) :=
  (frame.fields.take (length / WordMemory.wordSize)).map fun (name, word) =>
    (name, word &&& restoredBits name)

/-- The frame at an address stands for these registers of the program that was interrupted. -/
structure StandsFor (frame : TrapFrame) (address cr3 : UInt32) (registers : Registers) :
    Prop where
  /-- The directory is not in the frame. It is the one that is loaded. -/
  cr3_eq : registers.cr3 = cr3
  /-- The frame that resumes the program restores the same, as far as it reaches. -/
  restored_eq : registers.toFrame.restored registers.frameLength =
    frame.restored registers.frameLength
  /-- If the program was in the kernel, its stack begins right behind the frame. -/
  stack : registers.isUser = false →
    registers.ss = kernelData ∧ registers.esp.toNat = address.toNat + shortLength

/-- The registers in a frame, with a directory and a stack. -/
def registersWith (frame : TrapFrame) (cr3 esp : UInt32) (ss : UInt16) : Registers where
  eax := frame.eax
  ebx := frame.ebx
  ecx := frame.ecx
  edx := frame.edx
  esi := frame.esi
  edi := frame.edi
  ebp := frame.ebp
  esp
  eip := frame.eip
  eflags := frame.eflags
  cs := frame.cs.toUInt16
  ss
  ds := frame.ds.toUInt16
  es := frame.es.toUInt16
  fs := frame.fs.toUInt16
  gs := frame.gs.toUInt16
  cr3

variable {frame : TrapFrame} {registers : Registers}

theorem restored_shortLength (frame : TrapFrame) : frame.restored shortLength =
    [("gs", frame.gs &&& 0xFFFF), ("fs", frame.fs &&& 0xFFFF), ("es", frame.es &&& 0xFFFF),
      ("ds", frame.ds &&& 0xFFFF), ("edi", frame.edi &&& 0xFFFFFFFF),
      ("esi", frame.esi &&& 0xFFFFFFFF), ("ebp", frame.ebp &&& 0xFFFFFFFF),
      ("kernel_esp", frame.kernelEsp &&& 0), ("ebx", frame.ebx &&& 0xFFFFFFFF),
      ("edx", frame.edx &&& 0xFFFFFFFF), ("ecx", frame.ecx &&& 0xFFFFFFFF),
      ("eax", frame.eax &&& 0xFFFFFFFF), ("eip", frame.eip &&& 0xFFFFFFFF),
      ("cs", frame.cs &&& 0xFFFF), ("eflags", frame.eflags &&& 0xFFFFFFFF)] := rfl

theorem restored_fullLength (frame : TrapFrame) : frame.restored fullLength =
    frame.restored shortLength ++
      [("user_esp", frame.userEsp &&& 0xFFFFFFFF), ("user_ss", frame.userSs &&& 0xFFFF)] := rfl

/-- A short frame restores all of the registers but the directory and the stack. -/
theorem restored_shortLength_eq_iff :
    registers.toFrame.restored shortLength = frame.restored shortLength ↔
      registers = frame.registersWith registers.cr3 registers.esp registers.ss := by
  obtain ⟨eax, ebx, ecx, edx, esi, edi, ebp, esp, eip, eflags, cs, ss, ds, es, fs, gs, cr3⟩ :=
    registers
  simp only [restored_shortLength, Registers.toFrame, registersWith, List.cons.injEq,
    Prod.mk.injEq, Registers.mk.injEq, true_and, and_true, toUInt32_and_eq_iff, and_allBits,
    UInt32.and_zero]
  -- The equations are the same, here in the order of the frame and there in that of the registers.
  constructor <;> intro h <;> simp only [h, and_self]

/-- A full frame restores all of the registers but the directory. -/
theorem restored_fullLength_eq_iff :
    registers.toFrame.restored fullLength = frame.restored fullLength ↔
      registers = frame.registersWith registers.cr3 frame.userEsp frame.userSs.toUInt16 := by
  have hstack : [("user_esp", registers.toFrame.userEsp &&& 0xFFFFFFFF),
        ("user_ss", registers.toFrame.userSs &&& 0xFFFF)] =
      [("user_esp", frame.userEsp &&& 0xFFFFFFFF), ("user_ss", frame.userSs &&& 0xFFFF)] ↔
      registers.esp = frame.userEsp ∧ registers.ss = frame.userSs.toUInt16 := by
    simp only [Registers.toFrame, List.cons.injEq, Prod.mk.injEq, true_and, and_true,
      toUInt32_and_eq_iff, and_allBits]
  rw [restored_fullLength, restored_fullLength]
  constructor
  · intro h
    obtain ⟨hshort, hrest⟩ := List.append_inj h rfl
    obtain ⟨hesp, hss⟩ := hstack.mp hrest
    rw [← hesp, ← hss]
    exact restored_shortLength_eq_iff.mp hshort
  · intro h
    have hesp : registers.esp = frame.userEsp := congrArg Registers.esp h
    have hss : registers.ss = frame.userSs.toUInt16 := congrArg Registers.ss h
    have hshort : registers = frame.registersWith registers.cr3 registers.esp registers.ss := by
      rwa [hesp, hss]
    rw [hstack.mpr ⟨hesp, hss⟩, restored_shortLength_eq_iff.mpr hshort]

theorem isUser_registersWith (frame : TrapFrame) (cr3 esp : UInt32) (ss : UInt16) :
    (frame.registersWith cr3 esp ss).isUser = frame.fromUser :=
  decide_eq_decide.mpr toUInt16_and_eq_iff

end TrapFrame

namespace Registers

open TrapFrame

variable {registers : Registers} {address : UInt32}

theorem frameLength_of_user (h : registers.isUser = true) :
    registers.frameLength = fullLength :=
  if_pos h

theorem frameLength_of_kernel (h : registers.isUser = false) :
    registers.frameLength = shortLength :=
  if_neg (Bool.eq_false_iff.mp h)

/-- The frame that resumes a process comes from the ring that the process was in. -/
theorem fromUser_toFrame (registers : Registers) :
    registers.toFrame.fromUser = registers.isUser := by
  have hring := @toUInt16_and_eq_iff registers.cs.toUInt32
  rw [UInt16.toUInt16_toUInt32] at hring
  exact decide_eq_decide.mpr hring.symm

/-- The frame that resumes a process stands for its registers. If the process is in the kernel, the
frame has to be placed right below its stack. -/
theorem standsFor_toFrame (hstack : registers.isUser = false →
      registers.ss = kernelData ∧ registers.esp.toNat = address.toNat + shortLength) :
    registers.toFrame.StandsFor address registers.cr3 registers :=
  ⟨rfl, rfl, hstack⟩

end Registers

/-! ## What a frame stands for -/

namespace TrapFrame

open Registers

variable {frame : TrapFrame} {registers : Registers} {address cr3 : UInt32}

/-- What is restored tells the ring. -/
theorem StandsFor.isUser_eq (h : frame.StandsFor address cr3 registers) :
    registers.isUser = frame.fromUser := by
  have hrestored := h.restored_eq
  -- How much is restored depends on the ring of the registers, but the ring is in either part.
  cases hring : registers.isUser with
  | true =>
    rw [frameLength_of_user hring] at hrestored
    rw [← hring, restored_fullLength_eq_iff.mp hrestored, isUser_registersWith]
  | false =>
    rw [frameLength_of_kernel hring] at hrestored
    rw [← hring, restored_shortLength_eq_iff.mp hrestored, isUser_registersWith]

theorem StandsFor.frameLength_eq (h : frame.StandsFor address cr3 registers) :
    registers.frameLength = if frame.fromUser then fullLength else shortLength := by
  rw [frameLength, h.isUser_eq]

theorem standsFor_iff_of_user (h : frame.fromUser = true) :
    frame.StandsFor address cr3 registers ↔
      registers = frame.registersWith cr3 frame.userEsp frame.userSs.toUInt16 := by
  constructor
  · intro hstands
    have hrestored := hstands.restored_eq
    rwa [frameLength_of_user (hstands.isUser_eq.trans h), restored_fullLength_eq_iff,
      hstands.cr3_eq] at hrestored
  · rintro rfl
    have hring : (frame.registersWith cr3 frame.userEsp frame.userSs.toUInt16).isUser = true :=
      (isUser_registersWith frame _ _ _).trans h
    refine ⟨rfl, ?_, fun hkernel => ?_⟩
    · rw [frameLength_of_user hring, restored_fullLength_eq_iff]
      rfl
    · rw [hring] at hkernel
      cases hkernel

/-- A frame of the kernel stands for no registers if it lies so high that there is no address
behind it. -/
theorem standsFor_iff_of_kernel (h : frame.fromUser = false) :
    frame.StandsFor address cr3 registers ↔
      address.toNat + shortLength < bitRange 32 ∧ registers =
        frame.registersWith cr3 (UInt32.ofNat (address.toNat + shortLength)) kernelData := by
  constructor
  · intro hstands
    have hring : registers.isUser = false := hstands.isUser_eq.trans h
    have hrestored := hstands.restored_eq
    -- The stack pointer is a number of 32 bits, and so is the address behind the frame.
    obtain ⟨hss, hesp⟩ := hstands.stack hring
    rw [frameLength_of_kernel hring, restored_shortLength_eq_iff, hstands.cr3_eq, hss]
      at hrestored
    rw [← hesp, UInt32.ofNat_toNat]
    exact ⟨registers.esp.toNat_lt, hrestored⟩
  · rintro ⟨hfits, rfl⟩
    refine ⟨rfl, ?_, fun _ => ⟨rfl, UInt32.toNat_ofNat_of_lt' hfits⟩⟩
    rw [frameLength_of_kernel ((isUser_registersWith frame _ _ _).trans h),
      restored_shortLength_eq_iff]
    rfl

/-- All other frames do stand for registers. -/
theorem exists_standsFor (cr3 : UInt32)
    (hroom : frame.fromUser = true ∨ address.toNat + shortLength < bitRange 32) :
    ∃ registers, frame.StandsFor address cr3 registers := by
  cases hring : frame.fromUser with
  | true => exact ⟨_, (standsFor_iff_of_user hring).mpr rfl⟩
  | false =>
    have hfits := hroom.resolve_left (Bool.eq_false_iff.mp hring)
    exact ⟨_, (standsFor_iff_of_kernel hring).mpr ⟨hfits, rfl⟩⟩

end TrapFrame

/-! ## What a trap finds -/

namespace Registers

open TrapFrame

variable {ε σ : Type} {frame : TrapFrame} {address cr3 : UInt32} {registers : Registers}

theorem ofFrame_of_user (h : frame.fromUser = true) :
    (ofFrame frame address cr3 : Action ε σ Registers) =
      pure (frame.registersWith cr3 frame.userEsp frame.userSs.toUInt16) := by
  rw [ofFrame, if_pos h]
  rfl

theorem ofFrame_of_kernel (h : frame.fromUser = false)
    (hfits : address.toNat + shortLength < bitRange 32) :
    (ofFrame frame address cr3 : Action ε σ Registers) =
      pure (frame.registersWith cr3 (UInt32.ofNat (address.toNat + shortLength)) kernelData) := by
  rw [ofFrame, if_neg (Bool.eq_false_iff.mp h), Action.add_eq_pure hfits]
  rfl

theorem ofFrame_of_overflow (h : frame.fromUser = false)
    (hover : bitRange 32 ≤ address.toNat + shortLength) :
    (ofFrame frame address cr3 : Action ε σ Registers) = Action.halt .addOverflow := by
  rw [ofFrame, if_neg (Bool.eq_false_iff.mp h), Action.add, if_neg (Nat.not_lt.mpr hover)]
  rfl

theorem ofFrame_of_standsFor (h : frame.StandsFor address cr3 registers) :
    (ofFrame frame address cr3 : Action ε σ Registers) = pure registers := by
  cases hring : frame.fromUser with
  | true => rw [ofFrame_of_user hring, ← (standsFor_iff_of_user hring).mp h]
  | false =>
    obtain ⟨hfits, hregisters⟩ := (standsFor_iff_of_kernel hring).mp h
    rw [ofFrame_of_kernel hring hfits, ← hregisters]

/-- A trap finds the registers that its frame stands for and no others. So it makes no difference
what is in the parts of a frame that are not restored, nor what lies behind a short one. -/
theorem ofFrame_eq_done_iff (state : σ) (journal : Journal) :
    (ofFrame frame address cr3 : Action ε σ Registers) state journal =
      .done registers state journal ↔ frame.StandsFor address cr3 registers := by
  constructor
  · intro hdone
    by_cases hroom : frame.fromUser = true ∨ address.toNat + shortLength < bitRange 32
    · -- The trap finds some registers that the frame stands for, and finds nothing else.
      obtain ⟨other, hother⟩ := exists_standsFor cr3 hroom
      rw [ofFrame_of_standsFor hother] at hdone
      cases hdone
      exact hother
    · obtain ⟨hring, hover⟩ := not_or.mp hroom
      rw [ofFrame_of_overflow (Bool.eq_false_iff.mpr hring) (Nat.not_lt.mp hover)] at hdone
      cases hdone
  · intro h
    rw [ofFrame_of_standsFor h]
    rfl

/-! ## Processes that are resumed and interrupted at once -/

/-- The registers that a trap finds if it interrupts a process as soon as it is resumed. The frame
was placed right below the stack pointer, which has to leave room for it. -/
def resumeAndTrap (registers : Registers) : Action ε σ Registers := do
  let address ← Action.subtract registers.esp.toNat registers.frameLength
  ofFrame registers.toFrame (UInt32.ofNat address) registers.cr3

theorem ofFrame_toFrame_of_user (h : registers.isUser = true) :
    (ofFrame registers.toFrame address registers.cr3 : Action ε σ Registers) =
      pure registers := by
  refine ofFrame_of_standsFor (standsFor_toFrame fun hkernel => ?_)
  rw [h] at hkernel
  cases hkernel

theorem resumeAndTrap_of_kernel (h : registers.isUser = false) (hss : registers.ss = kernelData)
    (hroom : shortLength ≤ registers.esp.toNat) :
    (resumeAndTrap registers : Action ε σ Registers) = pure registers := by
  have hlt : registers.esp.toNat - shortLength < UInt32.size :=
    Nat.lt_of_le_of_lt (Nat.sub_le _ _) registers.esp.toNat_lt
  rw [resumeAndTrap, frameLength_of_kernel h, Action.subtract_eq_pure hroom, pure_bind]
  refine ofFrame_of_standsFor (standsFor_toFrame fun _ => ⟨hss, ?_⟩)
  rw [UInt32.toNat_ofNat_of_lt' hlt, Nat.sub_add_cancel hroom]

/-- The stack segment of a process in the kernel is not in its frame. It is taken for that of the
kernel. -/
theorem registersWith_toFrame_eq_iff :
    registers.toFrame.registersWith registers.cr3 registers.esp kernelData = registers ↔
      registers.ss = kernelData := by
  have hself : registers =
      registers.toFrame.registersWith registers.cr3 registers.esp registers.ss :=
    restored_shortLength_eq_iff.mp rfl
  constructor
  · intro h
    exact (congrArg Registers.ss h).symm
  · intro hss
    rw [← hss, ← hself]

/-- A process in user mode always comes back as it was, and one in the kernel does so if it has the
stack segment of the kernel. Where there is no room below the stack pointer, the address of the
frame wraps around, and then there is no address behind the frame. -/
theorem roundTrips_eq (registers : Registers) : (registers.roundTrips : Action ε σ Bool) =
    if registers.isUser = true ∨ shortLength ≤ registers.esp.toNat then
      pure (decide (registers.isUser = true ∨ registers.ss = kernelData))
    else Action.halt .addOverflow := by
  cases hring : registers.isUser with
  | true =>
    rw [roundTrips, ofFrame_toFrame_of_user hring, pure_bind]
    simp
  | false =>
    have hkernel : registers.toFrame.fromUser = false := (fromUser_toFrame registers).trans hring
    have hlength : (UInt32.ofNat shortLength).toNat = shortLength := rfl
    have hlt : registers.esp.toNat < bitRange 32 := registers.esp.toNat_lt
    simp only [roundTrips, frameLength_of_kernel hring, Bool.false_eq_true, false_or]
    split
    case isTrue hroom =>
      have hbehind : (registers.esp - UInt32.ofNat shortLength).toNat + shortLength =
          registers.esp.toNat := by
        rw [UInt32.toNat_sub_of_le _ _ hroom, hlength, Nat.sub_add_cancel hroom]
      rw [ofFrame_of_kernel hkernel (hbehind ▸ hlt), hbehind, UInt32.ofNat_toNat, pure_bind]
      simp only [registersWith_toFrame_eq_iff]
    case isFalse hroom =>
      -- The difference wraps around, so the sum that takes it back is too large.
      have hover : bitRange 32 ≤
          (registers.esp - UInt32.ofNat shortLength).toNat + shortLength := by
        rw [UInt32.toNat_sub, hlength]
        simp only [shortLength, bitRange_32] at hroom ⊢
        omega
      rw [ofFrame_of_overflow hkernel hover]
      rfl

/-! ## No loss -/

/-- Registers and frames are turned into each other without loss. A process in user mode is found as
it was, wherever its frame lies. So is a process in the kernel, if it has the stack segment of the
kernel and room for its frame below its stack pointer. And if a trap leaves any frame at all, but
not so high in memory that a frame of the kernel has no address behind it, then registers are found,
and the frame that resumes these restores the same as the one that was left. The frame, the
registers and the number of bytes that are restored are always of the same ring. -/
theorem conversion_lossless (registers : Registers) (frame : TrapFrame) (address cr3 : UInt32) :
    (registers.isUser = true →
      (ofFrame registers.toFrame address registers.cr3 : Action ε σ Registers) =
        pure registers) ∧
    (registers.isUser = false → registers.ss = kernelData →
      shortLength ≤ registers.esp.toNat →
        (resumeAndTrap registers : Action ε σ Registers) = pure registers) ∧
    registers.toFrame.fromUser = registers.isUser ∧
    (frame.fromUser = true ∨ address.toNat + shortLength < bitRange 32 →
      ∃ found, (ofFrame frame address cr3 : Action ε σ Registers) = pure found ∧
        frame.StandsFor address cr3 found ∧ found.isUser = frame.fromUser ∧
        found.frameLength = if frame.fromUser then fullLength else shortLength) := by
  refine ⟨ofFrame_toFrame_of_user, resumeAndTrap_of_kernel, fromUser_toFrame registers,
    fun hroom => ?_⟩
  obtain ⟨found, hfound⟩ := exists_standsFor cr3 hroom
  exact ⟨found, ofFrame_of_standsFor hfound, hfound, hfound.isUser_eq, hfound.frameLength_eq⟩

/-- A frame of the kernel, with something in all the parts that are not restored. -/
def litteredFrame : TrapFrame :=
  { (forKernel 0x200000 0x502000 0x104000).toFrame with
    gs := 0xABCD0010, cs := 0xFFFF0008, kernelEsp := 0x501FE0, userEsp := 7, userSs := 9 }

/-- Two fresh processes, one in each ring, are found as they were. A frame of the kernel that is not
one that resumes a process stands for registers all the same. -/
theorem conversion_lossless_of_freshProcesses :
    ((forUser 0x200000 0xBFFFFEF0 0x40001234).isUser = true ∧
      (ofFrame (forUser 0x200000 0xBFFFFEF0 0x40001234).toFrame 0xDEAD0000 0x200000 :
        Total Unit Registers) = pure (forUser 0x200000 0xBFFFFEF0 0x40001234)) ∧
    ((forKernel 0x200000 0x502000 0x104000).isUser = false ∧
      (forKernel 0x200000 0x502000 0x104000).ss = kernelData ∧
      shortLength ≤ (forKernel 0x200000 0x502000 0x104000).esp.toNat ∧
      (resumeAndTrap (forKernel 0x200000 0x502000 0x104000) : Total Unit Registers) =
        pure (forKernel 0x200000 0x502000 0x104000)) ∧
    litteredFrame.fromUser = false ∧ (0x501FC4 : UInt32).toNat + shortLength < bitRange 32 ∧
    ∃ found, (ofFrame litteredFrame 0x501FC4 0x200000 : Total Unit Registers) = pure found ∧
      litteredFrame.StandsFor 0x501FC4 0x200000 found ∧ found.frameLength = shortLength ∧
      found.toFrame ≠ litteredFrame := by
  have hlossless (registers : Registers) :=
    @conversion_lossless Empty Unit registers litteredFrame
  obtain ⟨huser, -⟩ := hlossless (forUser 0x200000 0xBFFFFEF0 0x40001234) 0xDEAD0000 0
  obtain ⟨-, hkernel, -, hframe⟩ :=
    hlossless (forKernel 0x200000 0x502000 0x104000) 0x501FC4 0x200000
  obtain ⟨found, hfound, hstands, -, hlength⟩ := hframe (.inr (by decide))
  refine ⟨⟨by decide, huser (by decide)⟩, ⟨by decide, by decide, by decide,
    hkernel (by decide) (by decide) (by decide)⟩, by decide, by decide,
    found, hfound, hstands, hlength, fun hsame => ?_⟩
  -- The word that is passed over is left empty in the frame that resumes a process.
  exact absurd (congrArg TrapFrame.kernelEsp hsame) (by decide : (0 : UInt32) ≠ 0x501FE0)

end Registers

end KernelResources
