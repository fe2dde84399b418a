import KernelResources.Arithmetic
import KernelResources.Text.Hex

/-!
# Register files and trap frames

A process that does not run is held as a register file. A trap leaves the registers on the kernel
stack as a frame, and returning from a trap takes them from one. A frame ends with the stack pointer
and stack segment of the interrupted program only if that program ran in user mode; otherwise the
interrupted stack pointer is the address right behind the shorter frame.
-/

namespace KernelResources

/-- The selector of a segment: its place in the descriptor table and a privilege ring. -/
def selector (index ring : Nat) : UInt16 := UInt16.ofNat (8 * index + ring)

/-- Code segment of the kernel. -/
def kernelCode : UInt16 := selector 1 0

/-- Data segment of the kernel. -/
def kernelData : UInt16 := selector 2 0

/-- Code segment of user programs. -/
def userCode : UInt16 := selector 3 3

/-- Data segment of user programs. -/
def userData : UInt16 := selector 4 3

/-- The flags register of a fresh process: interrupts let in, and the bit that is always set. -/
def initialFlags : UInt32 := 0x202

/-- The registers of a process that does not run. -/
structure Registers where
  eax : UInt32 := 0
  ebx : UInt32 := 0
  ecx : UInt32 := 0
  edx : UInt32 := 0
  esi : UInt32 := 0
  edi : UInt32 := 0
  ebp : UInt32 := 0
  esp : UInt32 := 0
  eip : UInt32 := 0
  eflags : UInt32 := 0
  cs : UInt16 := 0
  ss : UInt16 := 0
  ds : UInt16 := 0
  es : UInt16 := 0
  fs : UInt16 := 0
  gs : UInt16 := 0
  /-- Physical address of the page directory. -/
  cr3 : UInt32 := 0
deriving DecidableEq, Repr, Inhabited

/-- What a trap leaves on the kernel stack, lowest address first. -/
structure TrapFrame where
  gs : UInt32 := 0
  fs : UInt32 := 0
  es : UInt32 := 0
  ds : UInt32 := 0
  edi : UInt32 := 0
  esi : UInt32 := 0
  ebp : UInt32 := 0
  /-- The stack pointer while the registers were being pushed; not taken back. -/
  kernelEsp : UInt32 := 0
  ebx : UInt32 := 0
  edx : UInt32 := 0
  ecx : UInt32 := 0
  eax : UInt32 := 0
  eip : UInt32 := 0
  cs : UInt32 := 0
  eflags : UInt32 := 0
  /-- Only there if the trap came from user mode. -/
  userEsp : UInt32 := 0
  /-- Only there if the trap came from user mode. -/
  userSs : UInt32 := 0
deriving DecidableEq, Repr, Inhabited

namespace TrapFrame

/-- Bytes in a frame left by a trap from user mode. -/
def fullLength : Nat := 68

/-- Bytes in a frame left by a trap from the kernel. -/
def shortLength : Nat := 60

/-- Whether the trap came from user mode: the two lowest bits of the code segment are its ring. -/
def fromUser (frame : TrapFrame) : Bool := frame.cs &&& 3 = 3

/-- The words of a frame with their names, lowest address first. -/
def fields (frame : TrapFrame) : List (String × UInt32) :=
  [("gs", frame.gs), ("fs", frame.fs), ("es", frame.es), ("ds", frame.ds), ("edi", frame.edi),
    ("esi", frame.esi), ("ebp", frame.ebp), ("kernel_esp", frame.kernelEsp), ("ebx", frame.ebx),
    ("edx", frame.edx), ("ecx", frame.ecx), ("eax", frame.eax), ("eip", frame.eip),
    ("cs", frame.cs), ("eflags", frame.eflags), ("user_esp", frame.userEsp),
    ("user_ss", frame.userSs)]

/-- The frame made of the given words, lowest address first. -/
def ofWords (word : Nat → UInt32) : TrapFrame where
  gs := word 0
  fs := word 1
  es := word 2
  ds := word 3
  edi := word 4
  esi := word 5
  ebp := word 6
  kernelEsp := word 7
  ebx := word 8
  edx := word 9
  ecx := word 10
  eax := word 11
  eip := word 12
  cs := word 13
  eflags := word 14
  userEsp := word 15
  userSs := word 16

theorem ofWords_fields (frame : TrapFrame) :
    ofWords (fun index => (frame.fields.map Prod.snd).getD index 0) = frame := rfl

/-- The written form of a frame. -/
def text (frame : TrapFrame) : String :=
  let field (name : String) (value : UInt32) := s!"{name}: {value.toNat}"
  let written := frame.fields.map fun (name, value) => field name value
  "TrapFrame \x7b " ++ String.intercalate ", " written ++ " \x7d"

end TrapFrame

namespace Registers

variable {ε σ : Type}

/-- The registers of a fresh process in the kernel, which starts on its kernel stack. -/
def forKernel (cr3 esp eip : UInt32) : Registers where
  esp := esp
  ebp := esp
  eip := eip
  eflags := initialFlags
  cs := kernelCode
  ss := kernelData
  ds := kernelData
  es := kernelData
  fs := kernelData
  gs := kernelData
  cr3 := cr3

/-- The registers of a fresh process in user mode. -/
def forUser (cr3 esp eip : UInt32) : Registers where
  esp := esp
  ebp := esp
  eip := eip
  eflags := initialFlags
  cs := userCode
  ss := userData
  ds := userData
  es := userData
  fs := userData
  gs := userData
  cr3 := cr3

/-- Whether the process was in user mode. -/
def isUser (registers : Registers) : Bool := registers.cs &&& 3 = 3

/-- Bytes of the frame that resumes a process. -/
def frameLength (registers : Registers) : Nat :=
  if registers.isUser then TrapFrame.fullLength else TrapFrame.shortLength

/-- The registers of the interrupted program, from the frame at `address`. -/
def ofFrame (frame : TrapFrame) (address cr3 : UInt32) : Action ε σ Registers := do
  let (esp, ss) ←
    if frame.fromUser then pure (frame.userEsp, frame.userSs.toUInt16)
    else do
      let esp ← Action.add 32 address.toNat TrapFrame.shortLength
      pure (UInt32.ofNat esp, kernelData)
  return {
    eax := frame.eax
    ebx := frame.ebx
    ecx := frame.ecx
    edx := frame.edx
    esi := frame.esi
    edi := frame.edi
    ebp := frame.ebp
    esp
    eip := frame.eip
    eflags := frame.eflags
    cs := frame.cs.toUInt16
    ss
    ds := frame.ds.toUInt16
    es := frame.es.toUInt16
    fs := frame.fs.toUInt16
    gs := frame.gs.toUInt16
    cr3 }

/-- The frame that resumes a process. -/
def toFrame (registers : Registers) : TrapFrame where
  gs := registers.gs.toUInt32
  fs := registers.fs.toUInt32
  es := registers.es.toUInt32
  ds := registers.ds.toUInt32
  edi := registers.edi
  esi := registers.esi
  ebp := registers.ebp
  kernelEsp := 0
  ebx := registers.ebx
  edx := registers.edx
  ecx := registers.ecx
  eax := registers.eax
  eip := registers.eip
  cs := registers.cs.toUInt32
  eflags := registers.eflags
  userEsp := registers.esp
  userSs := registers.ss.toUInt32

/-- Whether a process comes back unchanged if it is resumed and interrupted at once. The frame lies
right below its stack pointer. -/
def roundTrips (registers : Registers) : Action ε σ Bool := do
  let address := registers.esp - UInt32.ofNat registers.frameLength
  let captured ← ofFrame registers.toFrame address registers.cr3
  return captured = registers

/-- The written form of a register file. -/
def text (registers : Registers) : String :=
  let wide (name : String) (value : UInt32) := s!"{name}: {Text.hexPadded 8 value.toNat}"
  let narrow (name : String) (value : UInt16) := s!"{name}: {Text.hexPadded 4 value.toNat}"
  let fields := [
    wide "eax" registers.eax, wide "ebx" registers.ebx, wide "ecx" registers.ecx,
    wide "edx" registers.edx, wide "esi" registers.esi, wide "edi" registers.edi,
    wide "ebp" registers.ebp, wide "esp" registers.esp, wide "eip" registers.eip,
    wide "eflags" registers.eflags, narrow "cs" registers.cs, narrow "ss" registers.ss,
    narrow "ds" registers.ds, wide "cr3" registers.cr3]
  "Context \x7b " ++ String.intercalate ", " fields ++ " \x7d"

end Registers

end KernelResources
