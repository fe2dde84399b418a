import KernelResources.Action

/-!
# Interrupt masking

On one processor, masking interrupts is the only mutual exclusion the kernel needs. A section that
must not be interrupted runs inside `masked`, which puts the mask back as it was, so such sections
nest.
-/

namespace KernelResources

/-- A state that holds the interrupt flag of the processor. -/
class HasInterruptFlag (σ : Type) where
  /-- Whether interrupts are delivered. -/
  enabled : σ → Bool
  /-- Sets the flag. -/
  setEnabled : Bool → σ → σ

namespace Interrupts

open HasInterruptFlag (enabled setEnabled)

variable {ε σ α : Type} [HasInterruptFlag σ]

/-- Lets interrupts in. -/
def enable : Action ε σ Unit := modify (setEnabled true)

/-- Keeps interrupts out. -/
def disable : Action ε σ Unit := modify (setEnabled false)

/-- Runs an action with interrupts kept out, whether it is refused or not, and lets them in again
if they were let in before. -/
def masked (action : Action ε σ α) : Action ε σ α := fun state journal =>
  if enabled state then
    match action (setEnabled false state) journal with
    | .done value state journal => .done value (setEnabled true state) journal
    | .refused error state journal => .refused error (setEnabled true state) journal
    | .halted cause journal => .halted cause journal
  else action state journal

instance : HasInterruptFlag Bool where
  enabled := id
  setEnabled := fun flag _ => flag

/-- A step of a program that plays with the interrupt flag. -/
inductive Instruction where
  /-- Let interrupts in. -/
  | enable
  /-- Keep interrupts out. -/
  | disable
  /-- Wait for the next interrupt. -/
  | halt
  /-- Steps that run with interrupts kept out. -/
  | guarded (body : List Instruction)

mutual

/-- Runs one step. The result lists the flag after the step; for guarded steps, also on entry and
after each step inside. -/
def Instruction.run : Instruction → Total Bool (List Bool)
  | .enable => do
    Interrupts.enable
    return [← get]
  | .disable => do
    Interrupts.disable
    return [← get]
  | .halt => return [← get]
  | .guarded body => do
    let inside ← masked do
      let entry ← get
      return entry :: (← runAll body)
    return inside ++ [← get]

/-- Runs the steps of a program in order. -/
def runAll : List Instruction → Total Bool (List Bool)
  | [] => return []
  | step :: rest => do
    let first ← step.run
    return first ++ (← runAll rest)

end

end Interrupts

end KernelResources
