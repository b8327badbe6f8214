import Proskrnl.Library.Bytes
import Proskrnl.Mm.Virtual

/-!
# Reading and writing user memory

How the kernel reaches the bytes of an address space: the walk of the page tables
(`MipFindUserEntry` and `MiTranslateUserPage` of `arch/x86_64/mmu.c`), the probe of a user buffer
(`kernel/syscall/uaccess.c`), and the copy out to a user buffer (`kernel/mm/virtual.c`).

The upper half of the page tables is walked as it stands in memory, since it belongs to the kernel
and holds 2 MiB pages, which the walk takes for tables.
-/

namespace Proskrnl.Mm

def tableEntry (phys : Physical) (frame index : Nat) : Nat :=
  Bytes.ofLe ((List.range 8).map fun k => phys.memory frame (8 * index + k))

/-- `entry & PTE_PRESENT` -/
def entryPresent (entry : Nat) : Bool := entry % 2 == 1

/-- `entry & PTE_ADDRESS`, as a frame. -/
def entryFrame (entry : Nat) : Nat := entry / 2 ^ 12 % 2 ^ 40

/-- `MipFindUserEntry` in the upper half, and the entry it finds. -/
def kernelEntry (m : Machine) (va : Nat) : Option Nat :=
  let pml4e := m.kernelPml4 (va / 2 ^ 39 % 512)
  if !entryPresent pml4e then none
  else
    let pdpte := tableEntry m.phys (entryFrame pml4e) (va / 2 ^ 30 % 512)
    if !entryPresent pdpte then none
    else
      let pde := tableEntry m.phys (entryFrame pdpte) (va / 2 ^ 21 % 512)
      if !entryPresent pde then none
      else some (tableEntry m.phys (entryFrame pde) (va / 2 ^ 12 % 512))

/-- The walk uses bits 12 to 47 of the address and no others. -/
def miTranslateUserPage (m : Machine) (space : Space) (va : Nat) : Option Pte :=
  let page := miRoundDown (va % 2 ^ 48) pageSize
  if page < 2 ^ 47 then space.table page
  else ((kernelEntry m va).filter (entryFrame · ≠ 0)).map fun entry =>
    { frame := entryFrame entry
      present := entryPresent entry
      writable := entry / 2 % 2 == 1
      executable := entry / 2 ^ 63 % 2 == 0 }

def kiIsUserRange (base size : Nat) : Bool :=
  size == 0 || (!decide (uint64 (base + size) < base) &&
    decide (uint64 (base + size) ≤ kiUserSpaceLimit))

def probePages (forWrite : Bool) (p : Nat) : Nat → Nat → Machine → Except Halt (Machine × NtStatus)
  | _, 0, m => .ok (m, statusSuccess)
  | page, n + 1, m =>
    match m.space p with
    | none => .ok (m, statusAccessViolation)
    | some space =>
      match miTranslateUserPage m space page with
      | none => .ok (m, statusAccessViolation)
      | some pte =>
        if !pte.present then .ok (m, statusAccessViolation)
        else if forWrite ∧ !pte.writable then do
          let (m, resolved) ← miResolveWriteFault m p space page
          match resolved with
          | none => .ok (m, statusAccessViolation)
          | some status =>
            if ntSuccess status then probePages forWrite p (page + pageSize) n m
            else .ok (m, status)
        else probePages forWrite p (page + pageSize) n m

def kiProbeRange (m : Machine) (p start length alignment : Nat) (forWrite : Bool) :
    Except Halt (Machine × NtStatus) :=
  if length = 0 then .ok (m, statusSuccess)
  else if start % alignment ≠ 0 then .ok (m, statusDatatypeMisalignment)
  else if !kiIsUserRange start length then .ok (m, statusAccessViolation)
  else
    let page := miRoundDown start pageSize
    probePages forWrite p page ((start + length - page + pageSize - 1) / pageSize) m

/-- How much of a copy stays in the page at an address. -/
def chunkAt (va left : Nat) : Nat := min (pageSize - va % pageSize) left

/-- `memcpy` into a frame of bytes of the source, from its byte `done` on. -/
def copyIn (source : Machine → Nat → UInt8) (frame offset done : Nat) : Nat → Machine → Machine
  | 0, m => m
  | n + 1, m =>
    copyIn source frame (offset + 1) (done + 1) n
      { m with phys := m.phys.store frame offset (source m done) }

/-- The leaf a checked copy writes through: a page that is only hardware read-only is resolved as a
store to it would be. -/
def writableLeaf (m : Machine) (p : Nat) (space : Space) (page : Nat) :
    Except Halt (Machine × Option Pte) :=
  match miTranslateUserPage m space page with
  | none => .ok (m, none)
  | some pte =>
    if pte.present ∧ !pte.writable then do
      let (m, resolved) ← miResolveWriteFault m p space page
      match resolved with
      | none => .ok (m, none)
      | some status =>
        if ntSuccess status then
          .ok (m, (m.space p).bind (miTranslateUserPage m · page) |>.filter fun pte =>
            pte.present && pte.writable)
        else .ok (m, none)
    else .ok (m, if pte.present ∧ pte.writable then some pte else none)

/-- The loop of `MiCopyToUserRangeChecked`. -/
def copyToLoop (source : Machine → Nat → UInt8) (p userBase length : Nat) :
    Nat → Nat → Machine → Except Halt (Machine × Nat)
  | 0, written, m => .ok (m, written)
  | fuel + 1, written, m =>
    if length ≤ written then .ok (m, written)
    else
      let va := uint64 (userBase + written)
      let chunk := chunkAt va (length - written)
      match m.space p with
      | none => .ok (m, written)
      | some space => do
        let (m, leaf) ← writableLeaf m p space (miRoundDown va pageSize)
        match leaf with
        | none => .ok (m, written)
        | some pte =>
          copyToLoop source p userBase length fuel (written + chunk)
            (copyIn source pte.frame (va % pageSize) written chunk m)

def miCopyToUserRangeChecked (source : Machine → Nat → UInt8) (m : Machine)
    (p userBase length : Nat) : Except Halt (Machine × Nat) :=
  copyToLoop source p userBase length length 0 m

end Proskrnl.Mm
