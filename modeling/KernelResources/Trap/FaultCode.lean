import KernelResources.Text.FlagNames

/-!
# Page fault error codes

The word the processor pushes on a page fault. Each bit that the architecture defines has a name;
the others carry no meaning and are dropped.
-/

namespace KernelResources.FaultCode

/-- The bits the architecture defines, in ascending order. -/
def names : List Text.FlagName :=
  [⟨0, "PROTECTION_VIOLATION"⟩, ⟨1, "CAUSED_BY_WRITE"⟩, ⟨2, "USER_MODE"⟩,
    ⟨3, "MALFORMED_TABLE"⟩, ⟨4, "INSTRUCTION_FETCH"⟩, ⟨5, "PROTECTION_KEY"⟩,
    ⟨6, "SHADOW_STACK"⟩, ⟨7, "HLAT"⟩, ⟨15, "SGX"⟩, ⟨31, "RMP"⟩]

/-- The written form of an error code. -/
def text (code : Nat) : String := s!"PageFaultErrorCode({Text.flagNames names code})"

end KernelResources.FaultCode
