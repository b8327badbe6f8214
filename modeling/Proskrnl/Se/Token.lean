import Proskrnl.Abi.Status
import Proskrnl.Library.Bytes

/-!
# Tokens

`kernel/se/token.c`: the token object and the services that derive one token from another or change
one in place. A `SID` is its bytes. Handles are resolved before the services below start; the replies
to the caller other than the token are left out, except for its default DACL.
-/

namespace Proskrnl.Se
open List

abbrev Mask := BitVec 32

/-- `mask & bits` -/
def Mask.has (mask bits : Mask) : Bool := mask &&& bits != 0

/-- A `SID`: eight bytes, and four for each sub-authority; their number is the second byte. -/
structure Sid where
  bytes : List UInt8
  length_eq : bytes.length = 8 + 4 * (bytes.getD 1 0).toNat
  deriving DecidableEq

def sepSidLength (sid : Sid) : Nat := sid.bytes.length

def seGroupMandatory : Mask := 0x00000001
def seGroupEnabledByDefault : Mask := 0x00000002
def seGroupEnabled : Mask := 0x00000004
def seGroupUseForDenyOnly : Mask := 0x00000010

def sePrivilegeEnabled : Mask := 0x00000002
def sePrivilegeRemoved : Mask := 0x00000004
def sePrivilegeUsedForAccess : Mask := 0x80000000

def securityAnonymous : Int := 0
def securityDelegation : Int := 3

structure Group where
  sid : Sid
  attributes : Mask
  deriving DecidableEq

/-- `SEP_PRIVILEGE` -/
structure Privilege where
  luid : UInt64
  enabled : Bool
  enabledByDefault : Bool
  deriving DecidableEq

/-- `TOKEN`. An inline default DACL of no bytes is none. -/
structure Token where
  tokenId : UInt64
  modifiedId : UInt64
  primary : Bool
  impersonationLevel : Int
  sessionId : UInt32
  elevationType : Int
  user : Sid
  groups : List Group
  privileges : List Privilege
  primaryGroupIndex : Nat
  defaultDacl : List UInt8
  defaultDaclOverride : Option (List UInt8)
  /-- Tokens descend from two that the kernel mints, and these name no privilege twice. -/
  distinct : (privileges.map Privilege.luid).Nodup
  /-- `SepTokenGroupSid`: `index < token->groupCount` -/
  primary_lt : primaryGroupIndex < groups.length

def Group.counts (group : Group) (deny : Bool) : Bool :=
  group.attributes.has seGroupEnabled && (deny || !group.attributes.has seGroupUseForDenyOnly)

def sepTokenSidPresent (token : Token) (sid : Sid) (deny : Bool) : Bool :=
  token.user == sid || token.groups.any fun group => group.counts deny && group.sid == sid

def sepTokenFindPrivilege (token : Token) (luid : UInt64) : Option Privilege :=
  token.privileges.find? (·.luid == luid)

def holdsPrivilege (token : Token) (luid : UInt64) : Bool :=
  (sepTokenFindPrivilege token luid).any (·.enabled)

def sepTokenCheckPrivileges (token : Token) (allRequired : Bool) (required : List UInt64) : Bool :=
  let enabledCount := required.countP (holdsPrivilege token)
  if allRequired then enabledCount == required.length else enabledCount > 0

/-- The effective default DACL; `none` is none. -/
def sepTokenDefaultDacl (token : Token) : Option (List UInt8) :=
  match token.defaultDaclOverride with
  | some dacl => some dacl
  | none => if token.defaultDacl.length ≠ 0 then some token.defaultDacl else none

def sepTokenDefaultDaclLength (token : Token) : Nat :=
  match token.defaultDaclOverride with
  | some dacl => dacl.length
  | none => token.defaultDacl.length

/-- `SepCreateToken` for the contents of a source; `luid` is what `SepAllocateLuid` answers next. -/
def sepCreateToken (luid : UInt64) (primary : Bool) (impersonationLevel : Int) (source : Token)
    (groups : List Group) (privileges : List Privilege) (modifiedId : Option UInt64)
    (distinct : (privileges.map Privilege.luid).Nodup)
    (primary_lt : source.primaryGroupIndex < groups.length) : Token where
  tokenId := luid
  modifiedId := modifiedId.getD (luid + 1)
  primary
  impersonationLevel := if primary then -1 else impersonationLevel
  sessionId := source.sessionId
  elevationType := source.elevationType
  user := source.user
  groups
  privileges
  primaryGroupIndex := source.primaryGroupIndex
  defaultDacl := (sepTokenDefaultDacl source).getD []
  defaultDaclOverride := none
  distinct
  primary_lt

def sepDuplicateToken (luid : UInt64) (source : Token) (primary : Bool) (impersonationLevel : Int) :
    Except NtStatus Token :=
  if !primary ∧ (impersonationLevel < securityAnonymous ∨ securityDelegation < impersonationLevel ∨
      (!source.primary ∧ source.impersonationLevel < impersonationLevel)) then
    .error statusBadImpersonationLevel
  else
    let modifiedId := if primary ∨ impersonationLevel = source.impersonationLevel then
      some source.modifiedId else none
    .ok (sepCreateToken luid primary impersonationLevel source source.groups source.privileges
      modifiedId source.distinct source.primary_lt)

def Group.disabled (group : Group) : Group :=
  { group with attributes :=
      group.attributes &&& ~~~(seGroupEnabled ||| seGroupEnabledByDefault) ||| seGroupUseForDenyOnly }

theorem distinct_sublist {l l' : List Privilege} (h : (l.map Privilege.luid).Nodup)
    (hs : l'.Sublist l) : (l'.map Privilege.luid).Nodup :=
  h.sublist (hs.map _)

def sepFilterToken (luid : UInt64) (source : Token) (disableSids : List Sid)
    (deleteLuids : List UInt64) : Token :=
  sepCreateToken luid source.primary source.impersonationLevel source
    (source.groups.map fun group => if disableSids.any (· == group.sid) then group.disabled else group)
    (source.privileges.filter fun privilege => !deleteLuids.any (· == privilege.luid))
    (some source.modifiedId) (distinct_sublist source.distinct filter_sublist)
    (by rw [length_map]; exact source.primary_lt)

def sepMaxSidLength : Nat := 8 + 4 * 15
def sepMaxGroups : Nat := 256
def sepMaxPrivileges : Nat := 256
def sepAdjustMaxPrivileges : Nat := 1024

/-- The `SID`s of a list of groups that are captured: those that are there and not too long. -/
def capturedSids (groups : List (Option Sid)) : List Sid :=
  groups.filterMap fun sid => sid.filter fun sid => sepSidLength sid ≤ sepMaxSidLength

/-- A list of the caller, where its count is within a bound; a longer one counts as none. -/
def withinCap {α : Type} (cap : Nat) (list : Option (List α)) : List α :=
  (list.filter fun l => decide (l.length ≤ cap)).getD []

def ntFilterToken (luid : UInt64) (source : Token) (sidsToDisable : Option (List (Option Sid)))
    (privilegesToDelete : Option (List UInt64)) : Token :=
  sepFilterToken luid source (capturedSids (withinCap sepMaxGroups sidsToDisable))
    (withinCap sepMaxPrivileges privilegesToDelete)

/-- A `LUID_AND_ATTRIBUTES` of `NtAdjustPrivilegesToken`. -/
structure PrivilegeEntry where
  luid : UInt64
  attributes : Mask
  deriving DecidableEq

/-- One entry of `NtAdjustPrivilegesToken`. -/
def adjustPrivilege (privileges : List Privilege) (entry : PrivilegeEntry) : List Privilege :=
  match privileges.findIdx? (·.luid == entry.luid) with
  | none => privileges
  | some i =>
    if entry.attributes.has sePrivilegeRemoved then privileges.eraseIdx i
    else privileges.modify i fun privilege =>
      { privilege with enabled := entry.attributes.has sePrivilegeEnabled }

theorem map_luid_modify (privileges : List Privilege) (i : Nat) (enabled : Bool) :
    (privileges.modify i fun privilege => { privilege with enabled }).map Privilege.luid =
      privileges.map Privilege.luid := by
  induction privileges generalizing i with
  | nil => rw [modify_nil]
  | cons privilege privileges ih =>
    cases i with
    | zero => rfl
    | succ i =>
      rw [modify_succ_cons, map_cons, map_cons, ih]

theorem distinct_adjustPrivilege {privileges : List Privilege} (entry : PrivilegeEntry)
    (h : (privileges.map Privilege.luid).Nodup) :
    ((adjustPrivilege privileges entry).map Privilege.luid).Nodup := by
  unfold adjustPrivilege
  split
  · exact h
  · split
    · exact distinct_sublist h (eraseIdx_sublist _ _)
    · rw [map_luid_modify]; exact h

theorem distinct_foldl_adjustPrivilege {privileges : List Privilege} (entries : List PrivilegeEntry)
    (h : (privileges.map Privilege.luid).Nodup) :
    ((entries.foldl adjustPrivilege privileges).map Privilege.luid).Nodup := by
  induction entries generalizing privileges with
  | nil => exact h
  | cons entry entries ih => exact ih (distinct_adjustPrivilege entry h)

/-- The status of a call that names a privilege the token lacks says so,
and the others are adjusted. -/
def ntAdjustPrivilegesToken (luid : UInt64) (token : Token) (disableAll : Bool)
    (newState : List PrivilegeEntry) : Except NtStatus Token :=
  if disableAll then
    .ok { token with
      modifiedId := luid
      privileges := token.privileges.map fun privilege => { privilege with enabled := false }
      distinct := by
        rw [List.map_map]
        exact token.distinct }
  else if sepAdjustMaxPrivileges < newState.length then .error statusInvalidParameter
  else
    .ok { token with
      modifiedId := luid
      privileges := newState.foldl adjustPrivilege token.privileges
      distinct := distinct_foldl_adjustPrivilege newState token.distinct }

/-- A `SID_AND_ATTRIBUTES` of `NtAdjustGroupsToken`. -/
structure GroupEntry where
  sid : Option Sid
  attributes : Mask
  deriving DecidableEq

/-- Is the `SID` of an entry captured? -/
def GroupEntry.captured (entry : GroupEntry) : Bool :=
  (entry.sid.filter fun sid => decide (sepSidLength sid ≤ sepMaxSidLength)).isSome

/-- The pairs of `SID` and attributes that `NtAdjustGroupsToken` works on. An entry that is not
captured leaves its place in the array of attributes as the pool had it, and takes none in the array
of `SID`s, whose end is read as the pool had it. -/
def adjustedPairs (pool : Nat → Sid × Mask) (entries : List GroupEntry) : List (Sid × Mask) :=
  let sids := capturedSids (entries.map GroupEntry.sid)
  entries.mapIdx fun i entry =>
    (sids.getD i (pool i).1, if entry.captured then entry.attributes else (pool i).2)

def sepTokenFindGroup (groups : List Group) (sid : Sid) : Option Nat :=
  groups.findIdx? (·.sid == sid)

def disablesMandatory (groups : List Group) (pair : Sid × Mask) : Bool :=
  ((sepTokenFindGroup groups pair.1).bind (groups[·]?)).any fun group =>
    group.attributes.has seGroupMandatory && !pair.2.has seGroupEnabled

def adjustGroup (groups : List Group) (pair : Sid × Mask) : List Group :=
  match sepTokenFindGroup groups pair.1 with
  | none => groups
  | some i => groups.modify i fun group =>
      { group with attributes :=
          if pair.2.has seGroupEnabled then group.attributes ||| seGroupEnabled
          else group.attributes &&& ~~~seGroupEnabled }

theorem length_foldl_adjustGroup (pairs : List (Sid × Mask)) (groups : List Group) :
    (pairs.foldl adjustGroup groups).length = groups.length := by
  induction pairs generalizing groups with
  | nil => rfl
  | cons pair pairs ih =>
    rw [foldl_cons, ih, adjustGroup]
    split
    · rfl
    · rw [length_modify]

/-- `ResetToDefault` for one group. -/
def Group.reset (group : Group) : Group :=
  let cleared := group.attributes &&& ~~~seGroupEnabled
  { group with attributes :=
      if cleared.has seGroupEnabledByDefault then cleared ||| seGroupEnabled else cleared }

def ntAdjustGroupsToken (luid : UInt64) (token : Token) (resetToDefault : Bool)
    (newState : List GroupEntry) (pool : Nat → Sid × Mask) : Except NtStatus Token :=
  if resetToDefault then
    .ok { token with
      modifiedId := luid
      groups := token.groups.map Group.reset
      primary_lt := by rw [length_map]; exact token.primary_lt }
  else if sepMaxGroups < newState.length then .error statusInvalidParameter
  else
    let pairs := adjustedPairs pool newState
    if pairs.any (disablesMandatory token.groups) then .error statusCantDisableMandatory
    else .ok { token with
      modifiedId := luid
      groups := pairs.foldl adjustGroup token.groups
      primary_lt := by rw [length_foldl_adjustGroup]; exact token.primary_lt }

def sepSid (authority : UInt8) (subAuthorities : List Nat)
    (h : subAuthorities.length < 256 := by decide) : Sid where
  bytes := [1, UInt8.ofNat subAuthorities.length, 0, 0, 0, 0, 0, authority] ++
    subAuthorities.flatMap (Bytes.le 4)
  length_eq := by
    have hlen : (subAuthorities.flatMap (Bytes.le 4)).length = 4 * subAuthorities.length := by
      clear h
      induction subAuthorities with
      | nil => rfl
      | cons a l ih =>
        rw [flatMap_cons, length_append, ih, Bytes.length_le, length_cons]
        omega
    have hcount : (UInt8.ofNat subAuthorities.length).toNat = subAuthorities.length := by
      rw [UInt8.toNat_ofNat']
      exact Nat.mod_eq_of_lt h
    rw [length_append, hlen]
    change 8 + 4 * subAuthorities.length = 8 + 4 * (UInt8.ofNat subAuthorities.length).toNat
    rw [hcount]

def sepWorldSid : Sid := sepSid 1 [0]
def sepLocalSid : Sid := sepSid 2 [0]
def sepInteractiveSid : Sid := sepSid 5 [4]
def sepAuthenticatedUserSid : Sid := sepSid 5 [11]
def sepLocalSystemSid : Sid := sepSid 5 [18]
def sepLocalUserSid : Sid := sepSid 5 [21, 0, 0, 0, 1000]
def sepDomainUsersSid : Sid := sepSid 5 [21, 0, 0, 0, 513]
def sepBuiltinAdminsSid : Sid := sepSid 5 [32, 544]
def sepBuiltinUsersSid : Sid := sepSid 5 [32, 545]
def sepLogonSid : Sid := sepSid 5 [5, 0, 0]
def sepAnonymousLogonSid : Sid := sepSid 5 [7]

def seGroupOwner : Mask := 0x00000008
def seGroupLogonId : Mask := 0xC0000000

def mandatoryGroup : Mask := seGroupEnabled ||| seGroupEnabledByDefault ||| seGroupMandatory

def allowAllAce (sid : Sid) : List UInt8 :=
  [0, 0] ++ Bytes.le 2 (8 + sid.bytes.length) ++ Bytes.le 4 0x10000000 ++ sid.bytes

def adminDefaultDacl : List UInt8 :=
  let aces := allowAllAce sepLocalSystemSid ++ allowAllAce sepDomainUsersSid
  [2, 0] ++ Bytes.le 2 (8 + aces.length) ++ Bytes.le 2 2 ++ [0, 0] ++ aces

/-- The privileges of the admin identity, with those that are enabled. -/
def adminPrivileges : List Privilege :=
  [(23, true), (7, false), (8, false), (17, false), (18, false), (12, false), (19, false),
    (24, false), (9, false), (20, false), (22, false), (11, false), (13, false), (14, false),
    (10, true), (15, false), (5, false), (25, false), (28, false), (29, true), (30, true)].map
    fun (luid, enabled) => ⟨luid, enabled, enabled⟩

def sepCreateAdminToken (luid : UInt64) (elevationType : Int) : Token where
  tokenId := luid
  modifiedId := luid + 1
  primary := true
  impersonationLevel := -1
  sessionId := 1
  elevationType
  user := sepLocalUserSid
  groups := [⟨sepWorldSid, mandatoryGroup⟩, ⟨sepLocalSid, mandatoryGroup⟩,
    ⟨sepInteractiveSid, mandatoryGroup⟩, ⟨sepAuthenticatedUserSid, mandatoryGroup⟩,
    ⟨sepDomainUsersSid, mandatoryGroup ||| seGroupOwner⟩,
    ⟨sepBuiltinAdminsSid, mandatoryGroup ||| seGroupOwner⟩, ⟨sepBuiltinUsersSid, mandatoryGroup⟩,
    ⟨sepLogonSid, mandatoryGroup ||| seGroupLogonId⟩]
  privileges := adminPrivileges
  primaryGroupIndex := 4
  defaultDacl := adminDefaultDacl
  defaultDaclOverride := none
  distinct := by decide
  primary_lt := by decide

/-- The token of `NtImpersonateAnonymousToken`. -/
def anonymousToken (luid : UInt64) : Token where
  tokenId := luid
  modifiedId := luid + 1
  primary := false
  impersonationLevel := 2
  sessionId := 1
  elevationType := 3
  user := sepAnonymousLogonSid
  groups := [⟨sepWorldSid, mandatoryGroup⟩]
  privileges := []
  primaryGroupIndex := 0
  defaultDacl := []
  defaultDaclOverride := none
  distinct := .nil
  primary_lt := by decide

end Proskrnl.Se
