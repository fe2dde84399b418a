import KernelResources.Kernel.Start
import KernelResources.Kernel.Interrupt
import KernelResources.Paging.Inspect
import KernelResources.Proofs.Frame.FreeSet
import KernelResources.Proofs.Heap.Resizing
import KernelResources.Proofs.Heap.Rejection
import KernelResources.Proofs.Paging.Agreement
import KernelResources.Proofs.Paging.Freshness
import KernelResources.Proofs.Process.Survival
import KernelResources.Proofs.Process.Deadlines
import KernelResources.Proofs.Process.Family
import KernelResources.Proofs.Process.Loading
import KernelResources.Proofs.Event.Traffic
import KernelResources.Proofs.Process.Turns
import KernelResources.Proofs.Process.Charges
import KernelResources.Proofs.Process.Holdings
import KernelResources.Proofs.Paging.Remapping
import KernelResources.Proofs.Process.Awakening
import KernelResources.Proofs.Process.Refusals
import KernelResources.Proofs.Process.Launching
import KernelResources.Proofs.Process.Sleep
import KernelResources.Proofs.Process.Preemption
import KernelResources.Proofs.Paging.Refusals
import KernelResources.Proofs.Heap.Damage
import KernelResources.Proofs.Frame.Runs
import KernelResources.Proofs.Frame.Classification
import KernelResources.Proofs.Paging.Remnants
import KernelResources.Proofs.Heap.Supply
import KernelResources.Proofs.Heap.Reversal
import KernelResources.Proofs.Heap.Circles
import KernelResources.Proofs.Paging.Boot
import KernelResources.Proofs.Frame.Overlaps
import KernelResources.Proofs.Frame.Overflow
import KernelResources.Proofs.Process.Overflow
import KernelResources.Proofs.Paging.Aliasing
import KernelResources.Proofs.Process.TrapFrames
