import Proskrnl.Se.Access

/-!
# Security descriptors and the default DACL

`kernel/se/sd.c`, `kernel/se/secobj.c` and the two token services that read and write the default
DACL: what is captured of a caller's descriptor, what an object's descriptor becomes, and what a
token takes for objects that name no DACL. User memory is the bytes that can be read from a pointer
on; a copy of more bytes than these faults.
-/

namespace Proskrnl.Se

def kiCopyFromUser (memory : List UInt8) (length : Nat) : Except NtStatus (List UInt8) :=
  if length ≤ memory.length then .ok (memory.take length) else .error statusAccessViolation

def sepCaptureSid (memory : List UInt8) : Except NtStatus Sid := do
  let _ ← kiCopyFromUser memory 8
  if byteAt memory 0 ≠ 1 ∨ sidMaxSubAuthorities < byteAt memory 1 then .error statusAccessViolation
  else do
    let _ ← kiCopyFromUser memory (8 + 4 * byteAt memory 1)
    .ok (sidAt memory 0)

def sepCaptureAcl (memory : List UInt8) : Except NtStatus (List UInt8) := do
  let _ ← kiCopyFromUser memory 8
  if aclSize memory < 8 then .error statusAccessViolation
  else do
    let acl ← kiCopyFromUser memory (aclSize memory)
    if sepIsValidAcl acl (aclSize memory) then .ok acl else .error statusAccessViolation

/-- The parts of a caller's `SECURITY_DESCRIPTOR`, of either form. -/
structure UserDescriptor where
  revision : Nat
  control : BitVec 16
  owner : Option (List UInt8) := none
  group : Option (List UInt8) := none
  sacl : Option (List UInt8) := none
  dacl : Option (List UInt8) := none

def captureOption {α : Type} (f : List UInt8 → Except NtStatus α) :
    Option (List UInt8) → Except NtStatus (Option α)
  | none => .ok none
  | some memory => (f memory).map some

def sepCaptureSecurityDescriptor (user : UserDescriptor) : Except NtStatus Descriptor := do
  if user.revision ≠ 1 then .error statusUnknownRevision
  else do
    let owner ← captureOption sepCaptureSid user.owner
    let group ← captureOption sepCaptureSid user.group
    let sacl ← captureOption sepCaptureAcl
      (if user.control &&& seSaclPresent ≠ 0 then user.sacl else none)
    let dacl ← captureOption sepCaptureAcl
      (if user.control &&& seDaclPresent ≠ 0 then user.dacl else none)
    .ok { control := user.control &&& ~~~seSelfRelative
          owner
          group
          sacl := sacl.getD []
          dacl := dacl.getD [] }

structure SecurityInformation where
  owner : Bool
  group : Bool
  dacl : Bool
  sacl : Bool
  label : Bool := false
  deriving DecidableEq

/-- `SepTokenGroupSid(token, token->primaryGroupIndex)` -/
def primaryGroupSid (token : Token) : Sid :=
  (token.groups.get ⟨token.primaryGroupIndex, token.primary_lt⟩).sid

/-- A list of a new descriptor, and its bit: that of the incoming descriptor where it is asked for,
else the stored one. -/
structure Part where
  present : Bool
  acl : List UInt8
  deriving DecidableEq

def mergedSacl (stored : Option Descriptor) (info : SecurityInformation) (incoming : Descriptor) :
    Part :=
  if info.sacl ∧ incoming.saclPresent then ⟨true, incoming.sacl⟩
  else match stored with
    | some sd => if sd.saclPresent then ⟨true, sd.sacl⟩ else ⟨false, []⟩
    | none => ⟨false, []⟩

/-- The default DACL is cut to the length of the inline slot. -/
def mergedDacl (token : Token) (stored : Option Descriptor) (info : SecurityInformation)
    (incoming : Descriptor) : Part :=
  if info.dacl ∧ incoming.daclPresent then ⟨true, incoming.dacl⟩
  else match stored.filter Descriptor.daclPresent with
    | some sd => ⟨true, sd.dacl⟩
    | none => match sepTokenDefaultDacl token with
      | some dacl => ⟨true, dacl.take token.defaultDacl.length⟩
      | none => ⟨false, []⟩

def sepApplySecurityDescriptor (token : Token) (stored : Option Descriptor)
    (info : SecurityInformation) (incoming : Descriptor) : Descriptor :=
  let owner := if info.owner ∧ incoming.owner.isSome then incoming.owner
    else (stored.bind Descriptor.owner).or (some (primaryGroupSid token))
  let group := if info.group ∧ incoming.group.isSome then incoming.group
    else (stored.bind Descriptor.group).or (some (primaryGroupSid token))
  let sacl := mergedSacl stored info incoming
  let dacl := mergedDacl token stored info incoming
  { control := incoming.control &&& ~~~seSelfRelative &&& ~~~(seSaclPresent ||| seDaclPresent) |||
      (if sacl.present then seSaclPresent else 0) ||| (if dacl.present then seDaclPresent else 0)
    owner
    group
    sacl := sacl.acl
    dacl := dacl.acl }

/-- `NtSetSecurityObject` on an object that the handle gives access to. -/
def ntSetSecurityObject (token : Token) (stored : Option Descriptor) (info : SecurityInformation)
    (user : UserDescriptor) : Except NtStatus Descriptor := do
  let incoming ← sepCaptureSecurityDescriptor user
  if info.owner ∧ incoming.owner.isNone then .error statusInvalidSecurityDescr
  else if info.group ∧ incoming.group.isNone then .error statusInvalidSecurityDescr
  else
    let control := incoming.control ||| (if info.sacl ∨ info.label then seSaclPresent else 0) |||
      (if info.dacl then seDaclPresent else 0)
    .ok (sepApplySecurityDescriptor token stored info { incoming with control })

/-- `SeCaptureObjectSecurity` for a new object; one without a descriptor has none. -/
def seCaptureObjectSecurity (token : Token) (user : Option UserDescriptor) :
    Except NtStatus (Option Descriptor) :=
  match user with
  | none => .ok none
  | some user => do
    let incoming ← sepCaptureSecurityDescriptor user
    .ok (some (sepApplySecurityDescriptor token none
      { owner := true, group := true, dacl := true, sacl := true } incoming))

/-- `sizeof(TOKEN_DEFAULT_DACL)` -/
def tokenDefaultDaclSize : Nat := 8

def sepQueryReplyMax : Nat := 512

/-- `NtSetInformationToken(TokenDefaultDacl)`: a buffer of a length, and what its pointer leads to. -/
def ntSetDefaultDacl (luid : UInt64) (token : Token) (length : Nat) (acl : Option (List UInt8)) :
    Except NtStatus Token :=
  if length < tokenDefaultDaclSize then .error statusInfoLengthMismatch
  else do
    let newDacl ← match acl with
      | none => .ok none
      | some memory => do
        let _ ← kiCopyFromUser memory 8
        if aclSize memory < 8 ∨ sepMaxAclLength < aclSize memory then .error statusInvalidAcl
        else (kiCopyFromUser memory (aclSize memory)).map some
    .ok { token with
      defaultDaclOverride := newDacl
      defaultDacl := []
      modifiedId := luid }

/-- What `NtQueryInformationToken(TokenDefaultDacl)` does. -/
inductive QueryReply
  | status (status : NtStatus)
  /-- The pointer is null where there is no DACL. -/
  | reply (dacl : Option (List UInt8))
  /-- The reply is assembled past the end of its buffer. -/
  | overrun
  deriving DecidableEq

/-- `NtQueryInformationToken(TokenDefaultDacl)` for a buffer that can be written. -/
def ntQueryDefaultDacl (token : Token) (length : Nat) : QueryReply :=
  let daclLength := sepTokenDefaultDaclLength token
  let needed := tokenDefaultDaclSize + daclLength
  if length < needed then .status statusBufferTooSmall
  else if sepQueryReplyMax < needed then .overrun
  else .reply (if daclLength ≠ 0 then sepTokenDefaultDacl token else none)

end Proskrnl.Se
