import Mathlib.Data.Nat.Notation

/-!
# Kernel stacks

A thread runs its kernel code on a block of the pool (`kernel/ke/thread.c`), with no guard page below
it. How many bytes a call takes is the compiler's choice, so how many calls fit is a parameter of
what recurses; each pushes its return address on a stack that is aligned to 16 bytes.
-/

namespace Proskrnl.Ke

/-- `KI_KERNEL_STACK_SIZE` -/
def kiKernelStackSize : ℕ := 16 * 1024

def frameBytes : ℕ := 16

/-- More calls than this fit on no kernel stack. -/
def kernelStackFrames : ℕ := kiKernelStackSize / frameBytes

end Proskrnl.Ke
