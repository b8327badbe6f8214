import Proskrnl.Abi.Status

/-!
# Page protections

The protection words of `kernel/mm/virtual.c`: what of a caller's word is stored, which words a
private page may carry, what access a word asks for, when a view may be given another one, and which
bits of a page-table entry it stands for.
-/

namespace Proskrnl.Mm

def ulong (n : Nat) : Nat := n % 2 ^ 32

/-- A `uint64_t` after arithmetic. -/
def uint64 (n : Nat) : Nat := n % 2 ^ 64

def hasFlag (word flag : Nat) : Bool := word &&& flag != 0

def pageNoAccess : Nat := 0x01
def pageReadOnly : Nat := 0x02
def pageReadWrite : Nat := 0x04
def pageWriteCopy : Nat := 0x08
def pageExecute : Nat := 0x10
def pageExecuteRead : Nat := 0x20
def pageExecuteReadWrite : Nat := 0x40
def pageExecuteWriteCopy : Nat := 0x80
def pageGuard : Nat := 0x100
def pageNoCache : Nat := 0x200

/-- `protect & 0xff` -/
def baseProtect (protect : Nat) : Nat := protect % 0x100

/-- `protect & PAGE_GUARD` -/
def isGuarded (protect : Nat) : Bool := protect / 0x100 % 2 == 1

def isWriteCopy (protect : Nat) : Bool :=
  baseProtect protect == pageWriteCopy || baseProtect protect == pageExecuteWriteCopy

/-- The two words that ask for plain writing. -/
def isReadWrite (protect : Nat) : Bool :=
  baseProtect protect == pageReadWrite || baseProtect protect == pageExecuteReadWrite

/-- What of a caller's word is kept: the base protection and the guard. -/
def miStoredPageProtect (protect : Nat) : Nat :=
  baseProtect protect + if isGuarded protect then pageGuard else 0

/-- `MiReportedPageProtect` for the `noCache` of a reservation. -/
def miReportedPageProtect (noCache : Bool) (stored : Nat) : Nat :=
  if stored == 0 || !noCache then stored else stored ||| pageNoCache

/-- The words private memory may be committed with. -/
def miCheckPageProtect (protect : Nat) : NtStatus :=
  if baseProtect protect ∈ [pageNoAccess, pageReadOnly, pageReadWrite, pageExecute,
      pageExecuteRead, pageExecuteReadWrite] then statusSuccess
  else statusInvalidPageProtection

/-- `MI_ACCESS_READ`, `MI_ACCESS_WRITE` and `MI_ACCESS_EXEC`. -/
structure Access where
  read : Bool := false
  write : Bool := false
  exec : Bool := false
  deriving DecidableEq

/-- `(granted & wanted) == wanted` -/
def Access.grants (granted wanted : Access) : Bool :=
  (granted.read || !wanted.read) && (granted.write || !wanted.write) &&
    (granted.exec || !wanted.exec)

/-- The access a word asks for; on an image a writable word asks for a private copy, which is no
access of its own. -/
def miVprotAccess (protect : Nat) (image : Bool) : Option Access :=
  match baseProtect protect with
  | 0x01 => some {}
  | 0x02 => some { read := true }
  | 0x08 => some { read := true }
  | 0x04 => some { read := true, write := !image }
  | 0x10 => some { exec := true }
  | 0x20 => some { read := true, exec := true }
  | 0x80 => some { read := true, exec := true }
  | 0x40 => some { read := true, write := !image, exec := true }
  | _ => none

/-- The bits of a page-table entry that a stored word stands for. -/
structure PteBits where
  present : Bool
  writable : Bool
  executable : Bool
  deriving DecidableEq

def miProtectToPteBits (protect : Nat) : PteBits where
  present := baseProtect protect != pageNoAccess && !isGuarded protect
  writable := isReadWrite protect || isWriteCopy protect
  executable := baseProtect protect == pageExecute || baseProtect protect == pageExecuteRead ||
    baseProtect protect == pageExecuteReadWrite || baseProtect protect == pageExecuteWriteCopy

def pageSize : Nat := 0x1000
def miAllocationGranularity : Nat := 0x10000
def miLowestUserAddress : Nat := 0x10000
def kiUserSpaceLimit : Nat := 0x7fffffff0000

def miRoundDown (value align : Nat) : Nat := value / align * align

def miRoundUp (value align : Nat) : Nat := uint64 (value + align - 1) / align * align

theorem miRoundDown_le (n : Nat) : miRoundDown n pageSize ≤ n := Nat.div_mul_le_self n pageSize

end Proskrnl.Mm
