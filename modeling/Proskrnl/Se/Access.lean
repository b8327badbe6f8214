import Proskrnl.Library.Bytes
import Proskrnl.Se.Token

/-!
# Access-control lists and the access check

`kernel/se/sd.c` and `kernel/se/access.c`. A list is the bytes of an `ACL`: a header of eight bytes
with the size and the number of entries, and entries of a type, flags, a size, a mask and a `SID`.
-/

namespace Proskrnl.Se

def byteAt (acl : List UInt8) (offset : Nat) : Nat := (acl.getD offset 0).toNat

/-- A `WORD` -/
def wordAt (acl : List UInt8) (offset : Nat) : Nat :=
  byteAt acl offset + 0x100 * byteAt acl (offset + 1)

/-- An `ACCESS_MASK` -/
def maskAt (acl : List UInt8) (offset : Nat) : Mask :=
  BitVec.ofNat 32 (wordAt acl offset + 0x10000 * wordAt acl (offset + 2))

/-- The `SID` at an offset. -/
def sidAt (acl : List UInt8) (offset : Nat) : Sid where
  bytes := (List.range (8 + 4 * byteAt acl (offset + 1))).map fun i => acl.getD (offset + i) 0
  length_eq := by
    have hget : ((List.range (8 + 4 * byteAt acl (offset + 1))).map
        fun i => acl.getD (offset + i) 0).getD 1 0 = acl.getD (offset + 1) 0 := by
      rw [List.getD_eq_getElem?_getD, List.getElem?_map, List.getElem?_range (by omega)]
      rfl
    rw [hget, List.length_map, List.length_range]
    rfl

def aclRevision (acl : List UInt8) : Nat := byteAt acl 0
def aclSize (acl : List UInt8) : Nat := wordAt acl 2
def aceCount (acl : List UInt8) : Nat := wordAt acl 4

def aceType (acl : List UInt8) (offset : Nat) : Nat := byteAt acl offset
def aceFlags (acl : List UInt8) (offset : Nat) : Nat := byteAt acl (offset + 1)
def aceSize (acl : List UInt8) (offset : Nat) : Nat := wordAt acl (offset + 2)
def aceMask (acl : List UInt8) (offset : Nat) : Mask := maskAt acl (offset + 4)
def aceSid (acl : List UInt8) (offset : Nat) : Sid := sidAt acl (offset + 8)

def accessAllowedAceType : Nat := 0x0
def accessDeniedAceType : Nat := 0x1
def systemAuditAceType : Nat := 0x2
def systemAlarmAceType : Nat := 0x3
def systemMandatoryLabelAceType : Nat := 0x11

/-- `AceFlags & INHERIT_ONLY_ACE` -/
def isInheritOnly (acl : List UInt8) (offset : Nat) : Bool := aceFlags acl offset / 8 % 2 == 1

def sepMaxAclLength : Nat := 65535
def sidMaxSubAuthorities : Nat := 15

/-- `SepIsValidSid` for the `SID` at an offset. -/
def sepIsValidSid (acl : List UInt8) (offset availableLength : Nat) : Bool :=
  8 ≤ availableLength && byteAt acl offset == 1 &&
    byteAt acl (offset + 1) ≤ sidMaxSubAuthorities &&
    8 + 4 * byteAt acl (offset + 1) ≤ availableLength

/-- The entries of a list that `SepIsValidAcl` looks at, from one on. -/
def validAces (acl : List UInt8) : Nat → Nat → Bool
  | 0, _ => true
  | n + 1, offset =>
    offset + 4 ≤ aclSize acl && 4 ≤ aceSize acl offset && offset + aceSize acl offset ≤ aclSize acl &&
    aceType acl offset ∈ [accessAllowedAceType, accessDeniedAceType, systemAuditAceType,
      systemAlarmAceType, systemMandatoryLabelAceType] &&
    16 ≤ aceSize acl offset && sepIsValidSid acl (offset + 8) (aceSize acl offset - 8) &&
    validAces acl n (offset + aceSize acl offset)

def sepIsValidAcl (acl : List UInt8) (availableLength : Nat) : Bool :=
  8 ≤ availableLength && availableLength ≤ sepMaxAclLength &&
    2 ≤ aclRevision acl && aclRevision acl ≤ 4 &&
    8 ≤ aclSize acl && aclSize acl ≤ availableLength && validAces acl (aceCount acl) 8

def genericRead : Mask := 0x80000000
def genericWrite : Mask := 0x40000000
def genericExecute : Mask := 0x20000000
def genericAll : Mask := 0x10000000
def maximumAllowed : Mask := 0x02000000
def accessSystemSecurity : Mask := 0x01000000
def standardRightsRequired : Mask := 0x000f0000
def synchronize : Mask := 0x00100000

def genericBits : Mask := genericRead ||| genericWrite ||| genericExecute ||| genericAll

def seSecurityPrivilege : UInt64 := 8

structure GenericMapping where
  read : Mask
  write : Mask
  execute : Mask
  all : Mask
  deriving DecidableEq

def sepMapAccess (access : Mask) (mapping : GenericMapping) : Mask :=
  let access := if access.has genericRead then access ||| mapping.read else access
  let access := if access.has genericWrite then access ||| mapping.write else access
  let access := if access.has genericExecute then access ||| mapping.execute else access
  let access := if access.has genericAll then access ||| mapping.all else access
  access &&& ~~~genericBits

def seDaclPresent : BitVec 16 := 0x0004
def seSaclPresent : BitVec 16 := 0x0010
def seSelfRelative : BitVec 16 := 0x8000

/-- `SEP_SECURITY_DESCRIPTOR` with its parts; a list of no bytes is none. -/
structure Descriptor where
  control : BitVec 16
  owner : Option Sid
  group : Option Sid
  sacl : List UInt8
  dacl : List UInt8
  deriving DecidableEq

def Descriptor.daclPresent (sd : Descriptor) : Bool := sd.control &&& seDaclPresent != 0
def Descriptor.saclPresent (sd : Descriptor) : Bool := sd.control &&& seSaclPresent != 0

structure Tally where
  current : Mask
  denied : Mask
  deriving DecidableEq

/-- One entry that is not inherit-only: the tally, and whether the walk ends here. -/
def checkAce (token : Token) (acl : List UInt8) (mapping : GenericMapping) (desired : Mask)
    (offset : Nat) (t : Tally) : Tally × Bool :=
  let access := sepMapAccess (aceMask acl offset) mapping
  if aceType acl offset = accessDeniedAceType ∧
      sepTokenSidPresent token (aceSid acl offset) true then
    if desired.has maximumAllowed then ({ t with denied := t.denied ||| access }, false)
    else ({ t with denied := t.denied ||| (access &&& ~~~t.current) }, desired.has access)
  else if aceType acl offset = accessAllowedAceType ∧
      sepTokenSidPresent token (aceSid acl offset) false then
    if desired.has maximumAllowed then ({ t with current := t.current ||| access }, false)
    else ({ t with current := t.current ||| (access &&& ~~~t.denied) }, false)
  else (t, false)

/-- The walk over so many entries from an offset on. Nothing has been granted while it runs, so that
its last test is one for no access at all. -/
def walkAces (token : Token) (acl : List UInt8) (mapping : GenericMapping) (desired : Mask) :
    Nat → Nat → Tally → Tally
  | 0, _, t => t
  | n + 1, offset, t =>
    let next := offset + aceSize acl offset
    if isInheritOnly acl offset then walkAces token acl mapping desired n next t
    else
      let (t, ends) := checkAce token acl mapping desired offset t
      if ends ∨ desired = 0 then t else walkAces token acl mapping desired n next t

/-- What `SepTokenAccessCheck` answers; the access status counts where the call succeeds. -/
structure AccessResult where
  status : NtStatus
  accessStatus : NtStatus := statusSuccess
  granted : Mask := 0
  /-- The privileges that were used. -/
  privileges : List PrivilegeEntry := []
  deriving DecidableEq

def tallied (desired : Mask) (privileges : List PrivilegeEntry) (t : Tally) : AccessResult :=
  let granted := if desired.has maximumAllowed then t.current &&& ~~~t.denied
    else if t.current &&& desired = desired then t.current &&& desired else 0
  { status := statusSuccess
    accessStatus := if granted ≠ 0 then statusSuccess else statusAccessDenied
    granted
    privileges }

/-- The check from the owner on, with the access that a privilege has given. -/
def checkOwner (token : Token) (owner : Sid) (acl : List UInt8) (desired : Mask)
    (mapping : GenericMapping) (privileges : List PrivilegeEntry) (current : Mask) : AccessResult :=
  let owned := sepTokenSidPresent token owner false
  let current := if owned then current ||| standardRightsRequired ||| synchronize else current
  if owned ∧ desired = current then
    { status := statusSuccess, granted := current, privileges }
  else tallied desired privileges
    (walkAces token acl mapping desired (aceCount acl) 8 ⟨current, 0⟩)

/-- `room` says that the caller has room for a privilege. -/
def sepTokenAccessCheck (token : Token) (sd : Descriptor) (desired : Mask) (mapping : GenericMapping)
    (room : Bool) : AccessResult :=
  if desired.has genericBits then { status := statusGenericNotMapped }
  else match sd.owner, sd.group with
    | some owner, some _ =>
      if !sd.daclPresent ∨ sd.dacl.length = 0 then
        { status := statusSuccess
          granted := if desired.has maximumAllowed then mapping.all else desired }
      else if desired.has accessSystemSecurity then
        if sepTokenCheckPrivileges token true [seSecurityPrivilege] then
          if !room then { status := statusBufferTooSmall }
          else
            let privileges := [⟨seSecurityPrivilege, sePrivilegeUsedForAccess⟩]
            if desired = accessSystemSecurity then
              { status := statusSuccess, granted := accessSystemSecurity, privileges }
            else checkOwner token owner sd.dacl desired mapping privileges accessSystemSecurity
        else { status := statusSuccess, accessStatus := statusPrivilegeNotHeld }
      else checkOwner token owner sd.dacl desired mapping [] 0
    | _, _ => { status := statusInvalidSecurityDescr }

def AccessResult.grants (r : AccessResult) : Bool :=
  r.status == statusSuccess && r.accessStatus == statusSuccess

end Proskrnl.Se
