import KernelResources.Error
import KernelResources.Heap.Fault
import KernelResources.Trap.FaultCode

/-!
# Journal

Everything the kernel reports while it works. A `Notice` says what happened; its level and its
wording are functions of it, so statements about a run can speak of the events themselves. The
journal keeps every notice in order, and `Journal.lines` writes those that a maximal level admits.
-/

namespace KernelResources

/-- Importance of a notice. -/
inductive Level where
  | error
  | warn
  | info
  | debug
  | trace
deriving DecidableEq, Repr, Inhabited

namespace Level

/-- Rank of a level: the more verbose, the higher. -/
def rank : Level → Nat
  | error => 1
  | warn => 2
  | info => 3
  | debug => 4
  | trace => 5

/-- How a level is written. -/
def name : Level → String
  | error => "ERROR"
  | warn => "WARN"
  | info => "INFO"
  | debug => "DEBUG"
  | trace => "TRACE"

/-- Whether a maximal level lets a notice pass; without one, everything is dropped. -/
def admitted (maximum : Option Level) (level : Level) : Bool :=
  maximum.any fun bound => level.rank ≤ bound.rank

/-- How a maximal level is written. -/
def maximumName : Option Level → String
  | none => "OFF"
  | some level => level.name

/-- The maximal level the kernel starts with. -/
def initial : Level := debug

end Level

/-- Something the kernel reports. Processes appear by pid, blocks and pages by address. -/
inductive Notice where
  /-- A memory map was read: the top of usable memory and the size of the frame bitmap. -/
  | memoryTop (top frames words : Nat)
  /-- A frame that is not taken was given back. -/
  | strayFrame (address : Nat)
  /-- A pointer that no heap block can own. -/
  | outsideArena (pointer : Nat)
  /-- A damaged guard in front of a payload. -/
  | damagedGuard (guardWord block : Nat)
  /-- A payload that is already free was given back. -/
  | doubleFree (pointer : Nat)
  /-- Verification found a fault at a block. -/
  | heapFault (fault : Heap.Fault) (block : Nat)
  /-- The block list ends too early. -/
  | heapShort (covered size : Nat)
  /-- Heading of a dump of the block list. -/
  | arenaDump (start size : Nat)
  /-- One block of a dump. -/
  | blockDump (block size : Nat) (free : Bool) (guardWord : Nat)
  /-- The kernel heap is ready. -/
  | heapReady (start size : Nat)
  /-- The kernel address space is loaded. -/
  | kernelSpaceReady (directory sharedSlots : Nat)
  /-- A process space may not unmap a page of the kernel region. -/
  | sharedUnmapRefused (page : Nat)
  /-- The first process runs. -/
  | bootstrapRunning (pid : Nat)
  /-- A process was created. -/
  | processCreated (pid : Nat) (name : String) (entry : Nat) (kernelMode : Bool)
  /-- A process was removed from the table. -/
  | processDestroyed (pid : Nat) (name : String)
  /-- The processor went from one process to another. -/
  | switched (outgoing incoming : Nat)
  /-- A terminated process could not be removed. -/
  | reapFailed (pid : Nat) (error : ProcessError)
  /-- A process waits for a tick of the clock. -/
  | sleeping (pid tick : Nat)
  /-- A process ended by itself. -/
  | exited (pid : Nat) (code : Int)
  /-- A wake-up had no one to wake. -/
  | wakeIgnored (pid : Nat) (error : ProcessError)
  /-- A wake-up did not fit into the event queue. -/
  | wakeDropped (pid : Nat)
  /-- A process made a system call that does not exist. -/
  | unknownCall (number pid : Nat)
  /-- A process may not exit. -/
  | exitRefused (pid : Nat) (error : ProcessError)
  /-- How much memory the boot memory map left free. -/
  | framesFree (free total : Nat)
  /-- The kernel's own logger was not installed because there is one already. -/
  | loggerPresent
  /-- Start of the boot sequence. -/
  | booting
  /-- End of the boot sequence. -/
  | booted
  /-- A page fault, with the process that was running if there is one. -/
  | pageFault (address code : Nat) (pid : Option Nat)
deriving DecidableEq, Repr, Inhabited

namespace Notice

/-- The importance of a notice. -/
def level : Notice → Level
  | outsideArena .. | damagedGuard .. | doubleFree .. | heapFault .. | heapShort ..
  | pageFault .. => .error
  | strayFrame .. | sharedUnmapRefused .. | reapFailed .. | wakeDropped .. | unknownCall ..
  | exitRefused .. | loggerPresent => .warn
  | heapReady .. | kernelSpaceReady .. | bootstrapRunning .. | framesFree .. | booting
  | booted => .info
  | memoryTop .. | arenaDump .. | blockDump .. | processCreated .. | processDestroyed ..
  | exited .. | wakeIgnored .. => .debug
  | switched .. | sleeping .. => .trace

open Text (hex)

/-- A pid that may be missing. -/
private def pidText : Option Nat → String
  | none => "None"
  | some pid => s!"Some({pid})"

/-- The wording of a notice. -/
def text : Notice → String
  | memoryTop top frames words =>
    s!"top of physical memory {hex top}, {frames} frames, {words} bitmap words"
  | strayFrame address => s!"free of unallocated frame {hex address}"
  | outsideArena pointer => s!"heap: pointer {hex pointer} is outside the arena"
  | damagedGuard guardWord block => s!"heap: bad guard {hex guardWord} at block {hex block}"
  | doubleFree pointer => s!"heap: double free of {hex pointer}"
  | heapFault fault block => s!"heap: {fault.message} at {hex block}"
  | heapShort covered size => s!"heap: blocks cover {hex covered} of {hex size} bytes"
  | arenaDump start size => s!"heap arena {hex start}+{hex size}"
  | blockDump block size free guardWord =>
    let use := if free then "free" else "used"
    s!"  {hex block} size={hex size} {use} magic={hex guardWord}"
  | heapReady start size => s!"kernel heap at {hex start}, {hex size} bytes"
  | kernelSpaceReady directory sharedSlots =>
    s!"kernel address space at {hex directory}, {sharedSlots} shared directory entries"
  | sharedUnmapRefused page => s!"refusing to unmap shared kernel page {hex page}"
  | bootstrapRunning pid => s!"bootstrap process {pid} running"
  | processCreated pid name entry kernelMode =>
    let mode := if kernelMode then "kernel" else "user"
    s!"created process {pid} ({name}) at {hex entry}, {mode} mode"
  | processDestroyed pid name => s!"destroyed process {pid} ({name})"
  | switched outgoing incoming => s!"switch {outgoing} -> {incoming}"
  | reapFailed pid error => s!"could not reap process {pid}: {error.message}"
  | sleeping pid tick => s!"process {pid} sleeps until tick {tick}"
  | exited pid code => s!"process {pid} exited with {code}"
  | wakeIgnored pid error => s!"ignoring wake-up for {pid}: {error.message}"
  | wakeDropped pid => s!"event queue full, wake-up for pid {pid} dropped"
  | unknownCall number pid => s!"Unknown syscall {number} from process {pid}"
  | exitRefused pid error => s!"exit from process {pid} refused: {error.message}"
  | framesFree free total => s!"{free} of {total} frames free"
  | loggerPresent => "logger already installed"
  | booting => "Booting kernel core..."
  | booted => "Kernel core initialized"
  | pageFault address code pid =>
    s!"page fault at {hex address} ({FaultCode.text code}) in process {pidText pid}"

/-- A notice as one line: its level and its wording. -/
def line (notice : Notice) : String := s!"{notice.level.name} {notice.text}"

end Notice

/-- The notices of a run, oldest first. -/
abbrev Journal := Array Notice

/-- First input and output address of the serial line that the journal is written to. -/
def Journal.serialAddress : Nat := 0x3F8

/-- The written lines of the notices that `maximum` admits. -/
def Journal.lines (maximum : Option Level) (journal : Journal) : List String :=
  (journal.toList.filter fun notice => notice.level.admitted maximum).map Notice.line

end KernelResources
