import Proskrnl.Library.Chains
import Proskrnl.Library.Tilings
import Proskrnl.Library.WordMemory
import Proskrnl.Mm.KernelTables

/-!
# The kernel pool

`kernel/mm/pool.c`: blocks with a header of their own, a free list in the order of addresses that is
threaded through the free blocks, and a heap that grows page by page. The headers are words of the memory
that the blocks are in.
-/

namespace Proskrnl.Mm.Pool

open Outcome WordMemory

def miPoolBase : Nat := 0xFFFFA00000000000

def miKasanShadowBase : Nat := 0xFFFFB00000000000

def miPoolAllocatedMagic : Nat := 0x504F4F4C41

def miPoolFreeMagic : Nat := 0x504F4F4C46

def miPoolAlign : Nat := 16

def miPoolMinSplit : Nat := 32

def pageSize : Nat := 4096

/-- The pool: the memory of the heap, the variables of `pool.c`, the first shadow byte that is not mapped,
and what `MiAllocatePage` and `MiMapPage` work on. -/
structure Heap where
  memory : Memory
  freeList : Nat
  poolEnd : Nat
  bytesInUse : Nat
  shadowMapped : Nat
  paging : Paging

namespace Heap

variable (s : Heap) (block v : Nat)

def size : Nat := word s.memory block

def magic : Nat := word s.memory (block + 8)

def nextFree : Nat := word s.memory (block + 16)

def setSize : Heap := { s with memory := setWord s.memory block v }

def setMagic : Heap := { s with memory := setWord s.memory (block + 8) v }

def setNextFree : Heap := { s with memory := setWord s.memory (block + 16) v }

/-- What a link holds: the head of the free list, or the link in the body of a free block. -/
def link : Option Nat → Nat
  | none => s.freeList
  | some block => s.nextFree block

def setLink (l : Option Nat) : Heap :=
  match l with
  | none => { s with freeList := v }
  | some block => s.setNextFree block v

end Heap

/-- `MiInsertFreeBlock`: the link that the block goes behind. -/
def findLink (s : Heap) (block : Nat) : Nat → Option Nat → Except KernelPanic (Option Nat)
  | 0, _ => .error .spin
  | fuel + 1, l =>
    if s.link l ≠ 0 ∧ s.link l < block then findLink s block fuel (some (s.link l)) else .ok l

/-- `block` takes in the free block behind it. -/
def absorb (s : Heap) (block next : Nat) : Heap :=
  let s := s.setSize block ((s.size block + s.size next) % 2 ^ 64)
  let s := s.setNextFree block (s.nextFree next)
  s.setMagic next 0

/-- `MiInsertFreeBlock`: coalesce forward. -/
def coalesceForward (s : Heap) (block : Nat) : Heap :=
  if s.nextFree block ≠ 0 ∧ (block + s.size block) % 2 ^ 64 = s.nextFree block then
    absorb s block (s.nextFree block)
  else s

/-- `MiInsertFreeBlock`: coalesce with the previous block of the free list. -/
def coalesceBackward (s : Heap) (l : Option Nat) (block : Nat) : Heap :=
  match l with
  | none => s
  | some previous =>
    if (previous + s.size previous) % 2 ^ 64 = block then absorb s previous block else s

def miInsertFreeBlock (s : Heap) (block : Nat) : Except KernelPanic Heap := do
  if ¬ (miPoolMinSplit ≤ s.size block ∧ s.size block % miPoolAlign = 0) then .error .assertion
  else if ¬ (miPoolBase ≤ block ∧ (block + s.size block) % 2 ^ 64 ≤ s.poolEnd) then .error .assertion
  else
    let s := s.setMagic block miPoolFreeMagic
    let l ← findLink s block (s.poolEnd - miPoolBase + 1) none
    let s := s.setNextFree block (s.link l)
    let s := s.setLink block l
    .ok (coalesceBackward (coalesceForward s block) l block)

@[irreducible] def miKasanShadowFor (address : Nat) : Nat :=
  miKasanShadowBase + (address + 2 ^ 64 - miPoolBase) % 2 ^ 64 / 8

/-- `MiKasanCoverPool`: the loop over the pages of the shadow. -/
def coverShadow (shadowEnd : Nat) (s : Heap) : Except KernelPanic Heap :=
  if s.shadowMapped < shadowEnd then
    match miAllocatePage s.paging.frames with
    | none => .error .shadow
    | some frames =>
      match miMapPage { s.paging with frames := frames } s.shadowMapped with
      | .error e => .error e
      | .ok k => coverShadow shadowEnd { s with paging := k, shadowMapped := s.shadowMapped + pageSize }
  else .ok s
termination_by shadowEnd - s.shadowMapped
decreasing_by
  have hpage : 0 < pageSize := Nat.succ_pos _
  change shadowEnd - (s.shadowMapped + pageSize) < shadowEnd - s.shadowMapped
  omega

def miKasanCoverPool (s : Heap) (poolEnd : Nat) : Except KernelPanic Heap :=
  coverShadow (miKasanShadowFor poolEnd) s

/-- `MiExpandPool`: the loop over the pages, with the pages that were mapped. -/
def expandPages : Nat → Heap → Except KernelPanic (Nat × Heap)
  | 0, s => .ok (0, s)
  | pages + 1, s =>
    match miAllocatePage s.paging.frames with
    | none => .ok (0, s)
    | some frames => do
      let k ← miMapPage { s.paging with frames := frames } s.poolEnd
      let poolEnd := (s.poolEnd + pageSize) % 2 ^ 64
      let s ← miKasanCoverPool { s with paging := k, poolEnd := poolEnd } poolEnd
      let (mapped, s) ← expandPages pages s
      .ok (mapped + 1, s)

/-- `MiExpandPool`: the pages that are asked for. -/
def pagesNeeded (bytesNeeded : Nat) : Nat := (bytesNeeded + pageSize - 1) % 2 ^ 64 / pageSize

def miExpandPool (s : Heap) (bytesNeeded : Nat) : Except KernelPanic (Bool × Heap) := do
  let (mapped, s') ← expandPages (pagesNeeded bytesNeeded) s
  if mapped = 0 then .ok (false, s')
  else
    let grown ← miInsertFreeBlock (s'.setSize s.poolEnd (mapped * pageSize % 2 ^ 64)) s.poolEnd
    .ok (mapped == pagesNeeded bytesNeeded, grown)

/-- `MiAllocatePool`: the first block that is large enough, with the link to it. -/
def firstFit (s : Heap) (needed : Nat) : Nat → Option Nat → Except KernelPanic (Option (Option Nat × Nat))
  | 0, _ => .error .spin
  | fuel + 1, l =>
    let block := s.link l
    if block = 0 then .ok none
    else if s.magic block ≠ miPoolFreeMagic then .error .corruptFreeList
    else if needed ≤ s.size block then .ok (some (l, block))
    else firstFit s needed fuel (some block)

/-- `MiAllocatePool`: the header of the rest of a block. -/
def writeRest (s : Heap) (block rest needed : Nat) : Heap :=
  let s := s.setSize rest (s.size block - needed)
  let s := s.setMagic rest miPoolFreeMagic
  s.setNextFree rest (s.nextFree block)

/-- `MiAllocatePool`: the block leaves the free list, without the rest that is large enough to stay. -/
def unlinkBlock (s : Heap) (l : Option Nat) (block needed : Nat) : Heap :=
  if miPoolMinSplit ≤ s.size block - needed then
    let rest := (block + needed) % 2 ^ 64
    ((writeRest s block rest needed).setLink rest l).setSize block needed
  else s.setLink (s.nextFree block) l

/-- `MiAllocatePool`: the block is handed out. `memset` faults where the heap ends. -/
def handOut (s : Heap) (l : Option Nat) (block needed numberOfBytes : Nat) : Except KernelPanic (Nat × Heap) :=
  let s := unlinkBlock s l block needed
  let s := s.setMagic block miPoolAllocatedMagic
  let s := { s with bytesInUse := (s.bytesInUse + s.size block) % 2 ^ 64 }
  let data := (block + miPoolAlign) % 2 ^ 64
  if s.poolEnd < data + numberOfBytes then .error .fault
  else .ok (data, { s with memory := fill s.memory data numberOfBytes 0 })

/-- `MiAllocatePool`: the attempts. -/
def attempts (numberOfBytes needed : Nat) : Nat → Heap → Except KernelPanic (Nat × Heap)
  | 0, s => .ok (0, s)
  | attempt + 1, s => do
    match ← firstFit s needed (s.poolEnd - miPoolBase + 1) none with
    | some (l, block) => handOut s l block needed numberOfBytes
    | none =>
      let (grown, s) ← miExpandPool s needed
      if grown then attempts numberOfBytes needed attempt s else .ok (0, s)

/-- `MiAllocatePool`: the bytes of the block for a request. -/
def neededBytes (numberOfBytes : Nat) : Nat :=
  max ((miPoolAlign + (numberOfBytes + miPoolAlign - 1) % 2 ^ 64 / miPoolAlign * miPoolAlign) % 2 ^ 64)
    miPoolMinSplit

/-- The address of the block's data, 0 where there is none. -/
def miAllocatePool (s : Heap) (numberOfBytes : Nat) : Except KernelPanic (Nat × Heap) :=
  if numberOfBytes = 0 then .error .zeroBytes
  else attempts numberOfBytes (neededBytes numberOfBytes) 2 s

def miFreePool (s : Heap) (pointer : Nat) : Except KernelPanic Heap :=
  if pointer = 0 then .error .nullPointer
  else
    let block := (pointer + 2 ^ 64 - miPoolAlign) % 2 ^ 64
    if s.magic block ≠ miPoolAllocatedMagic then .error .badBlock
    else if s.bytesInUse < s.size block then .error .assertion
    else miInsertFreeBlock { s with bytesInUse := s.bytesInUse - s.size block } block

/-- The pool at the start, whatever the frames hold that the heap is made of. -/
def miInitializePool (memory : Memory) (paging : Paging) : Heap where
  memory := memory
  freeList := 0
  poolEnd := miPoolBase
  bytesInUse := 0
  shadowMapped := miKasanShadowBase
  paging := paging

end Proskrnl.Mm.Pool
