import Proskrnl.Se.Compare

/-!
# Restricted tokens

A token that is derived from another one by filtering, by disabling and removing privileges and
groups, and by duplication, over chains of these services. A filter clears the bit that makes a group
count for deny entries as well, so that a restriction keeps the source's bounds only on descriptors
whose deny entries name no group it disables.
-/

namespace Proskrnl.Se
open List Option

/-! ## Derivations -/

/-- A service that derives a token from another one, or changes one. -/
inductive Derivation
  | filter (luid : UInt64) (sidsToDisable : Option (List (Option Sid)))
    (privilegesToDelete : Option (List UInt64))
  | adjustPrivileges (luid : UInt64) (disableAll : Bool) (newState : List PrivilegeEntry)
  | adjustGroups (luid : UInt64) (newState : List GroupEntry) (pool : Nat → Sid × Mask)
  | duplicate (luid : UInt64) (primary : Bool) (impersonationLevel : Int)

def derive (token : Token) : Derivation → Except NtStatus Token
  | .filter luid sidsToDisable privilegesToDelete =>
    .ok (ntFilterToken luid token sidsToDisable privilegesToDelete)
  | .adjustPrivileges luid disableAll newState =>
    ntAdjustPrivilegesToken luid token disableAll newState
  | .adjustGroups luid newState pool => ntAdjustGroupsToken luid token false newState pool
  | .duplicate luid primary impersonationLevel =>
    sepDuplicateToken luid token primary impersonationLevel

/-- The services as restrictions: privileges are removed or disabled and groups disabled. -/
def Derivation.Restricts : Derivation → Prop
  | .adjustPrivileges _ disableAll newState => disableAll = false → ∀ entry ∈ newState,
    entry.attributes.has sePrivilegeRemoved = true ∨ entry.attributes.has sePrivilegeEnabled = false
  | .adjustGroups _ newState _ => ∀ entry ∈ newState, entry.attributes.has seGroupEnabled = false
  | _ => True

/-- The `SID`s of the groups that a service disables. -/
def Derivation.disables : Derivation → List Sid
  | .filter _ sidsToDisable _ => (sidsToDisable.getD []).filterMap id
  | .adjustGroups _ newState _ => newState.filterMap GroupEntry.sid
  | _ => []

/-- The `SID`s of the groups that a filter disables. -/
def Derivation.filters : Derivation → List Sid
  | .filter _ sidsToDisable _ => (sidsToDisable.getD []).filterMap id
  | _ => []

def Derivation.deletes : Derivation → List UInt64
  | .filter _ _ privilegesToDelete => privilegesToDelete.getD []
  | _ => []

/-- The lists are not longer than the services take, all their `SID`s are, and an impersonation
token is not made a primary one. -/
def Derivation.Plain (token : Token) : Derivation → Prop
  | .filter _ sidsToDisable privilegesToDelete =>
    (∀ list, sidsToDisable = some list → list.length ≤ sepMaxGroups ∧
      ∀ sid, some sid ∈ list → sepSidLength sid ≤ sepMaxSidLength) ∧
    (∀ list, privilegesToDelete = some list → list.length ≤ sepMaxPrivileges)
  | .adjustGroups _ newState _ => ∀ entry ∈ newState, entry.captured = true
  | .duplicate _ primary _ => token.primary = false → primary = false
  | _ => True

inductive Chain (admitted : Token → Derivation → Prop) : Token → List Derivation → Token → Prop
  | nil {token : Token} : Chain admitted token [] token
  | cons {token token' token'' : Token} {d : Derivation} {ds : List Derivation} :
    admitted token d → derive token d = .ok token' → Chain admitted token' ds token'' →
    Chain admitted token (d :: ds) token''

/-! ## Groups -/

variable {disables : List Sid} {groups groups' : List Group}

variable {sid : Sid} {newState : List GroupEntry} {luid : UInt64}

theorem sepTokenSidPresent_iff {token : Token} {deny : Bool} :
    sepTokenSidPresent token sid deny = true ↔
      token.user = sid ∨ ∃ group ∈ token.groups, group.counts deny = true ∧ group.sid = sid := by
  simp [sepTokenSidPresent]

structure Group.Below (disables : List Sid) (derived source : Group) : Prop where
  sid : derived.sid = source.sid
  counts : ∀ deny, derived.counts deny = true → source.counts deny = true
  keeps : source.sid ∉ disables → derived = source

theorem Group.Below.refl (group : Group) : Group.Below disables group group :=
  ⟨rfl, fun _ h => h, fun _ => rfl⟩

theorem Group.Below.trans {group group' group'' : Group} (h : Group.Below disables group'' group')
    (h' : Group.Below disables group' group) : Group.Below disables group'' group where
  sid := h.sid.trans h'.sid
  counts deny hd := h'.counts deny (h.counts deny hd)
  keeps hs := by
    have hmid := h'.keeps hs
    subst hmid
    exact h.keeps hs

abbrev GroupsBelow (disables : List Sid) : List Group → List Group → Prop :=
  List.Forall₂ (Group.Below disables)

theorem GroupsBelow.refl (groups : List Group) : GroupsBelow disables groups groups :=
  List.forall₂_same.mpr fun group _ => .refl group

theorem GroupsBelow.map {f : Group → Group} (h : ∀ group, Group.Below disables (f group) group) :
    GroupsBelow disables (groups.map f) groups := by
  rw [GroupsBelow, List.forall₂_map_left_iff]
  exact List.forall₂_same.mpr fun group _ => h group

theorem GroupsBelow.trans {groups'' : List Group} (h : GroupsBelow disables groups'' groups')
    (h' : GroupsBelow disables groups' groups) : GroupsBelow disables groups'' groups := by
  induction h' generalizing groups'' with
  | nil => cases h; exact .nil
  | cons hhead _ ih =>
    cases h with
    | cons hhead' htail' => exact .cons (hhead'.trans hhead) (ih htail')

theorem GroupsBelow.mem (h : GroupsBelow disables groups' groups) {group' : Group}
    (hmem : group' ∈ groups') : ∃ group ∈ groups, Group.Below disables group' group := by
  induction h with
  | nil => cases hmem
  | @cons a b l1 l2 hab _ ih =>
    rcases mem_cons.mp hmem with rfl | hmem'
    · exact ⟨b, mem_cons_self, hab⟩
    · obtain ⟨group, hg, hb⟩ := ih hmem'
      exact ⟨group, .tail _ hg, hb⟩

theorem GroupsBelow.mem_source (h : GroupsBelow disables groups' groups) {group : Group}
    (hmem : group ∈ groups) (hs : group.sid ∉ disables) : group ∈ groups' := by
  induction h with
  | nil => cases hmem
  | @cons a b l1 l2 hab _ ih =>
    rcases mem_cons.mp hmem with rfl | hmem'
    · rw [hab.keeps hs]; exact mem_cons_self
    · exact .tail _ (ih hmem')

theorem disabled_has_enabled (group : Group) : group.disabled.attributes.has seGroupEnabled = false := by
  simp only [Group.disabled, Mask.has, seGroupEnabled, seGroupEnabledByDefault, seGroupUseForDenyOnly]
  have hzero : (group.attributes &&& ~~~(4#32 ||| 2#32) ||| 16#32) &&& 4#32 = 0#32 := by
    refine BitVec.eq_of_getLsbD_eq fun i hi => ?_
    interval_cases i <;> simp
  exact bne_eq_false_iff_eq.mpr hzero

theorem Group.disabled_below {group : Group} (h : group.sid ∈ disables) :
    Group.Below disables group.disabled group where
  sid := rfl
  counts deny hcounts := by
    simp only [Group.counts, disabled_has_enabled, Bool.false_and] at hcounts
    cases hcounts
  keeps hs := absurd h hs

theorem has_enabled_cleared (attributes : Mask) :
    (attributes &&& ~~~seGroupEnabled).has seGroupEnabled = false := by
  have hzero : (attributes &&& ~~~4#32) &&& 4#32 = 0#32 := by
    refine BitVec.eq_of_getLsbD_eq fun i hi => ?_
    interval_cases i <;> simp
  exact bne_eq_false_iff_eq.mpr hzero

theorem adjustGroup_below {pair : Sid × Mask} (hattr : pair.2.has seGroupEnabled = false)
    (hsid : pair.1 ∈ disables) : GroupsBelow disables (adjustGroup groups pair) groups := by
  unfold adjustGroup
  split
  · exact .refl groups
  · rename_i i hfound
    have hat : ∀ group, groups[i]? = some group → group.sid = pair.1 := by
      intro group hget
      obtain ⟨hlt, hpred, -⟩ := findIdx?_eq_some_iff_getElem.mp hfound
      rw [getElem?_eq_getElem hlt] at hget
      rw [← some.inj hget]
      exact eq_of_beq hpred
    clear hfound
    rw [hattr]
    simp only [Bool.false_eq_true, if_false]
    induction groups generalizing i with
    | nil => rw [modify_nil]; exact .nil
    | cons group groups ih =>
      cases i with
      | zero =>
        rw [modify_zero_cons]
        refine .cons ⟨rfl, ?_, fun hs => ?_⟩ (GroupsBelow.refl groups)
        · intro deny hcounts
          simp only [Group.counts, has_enabled_cleared, Bool.false_and] at hcounts
          cases hcounts
        · exact absurd (hat group rfl ▸ hsid) hs
      | succ i =>
        rw [modify_succ_cons]
        exact .cons (.refl group) (ih i fun g hg => hat g hg)

theorem foldl_adjustGroup_below {pairs : List (Sid × Mask)}
    (h : ∀ pair ∈ pairs, pair.2.has seGroupEnabled = false ∧ pair.1 ∈ disables) :
    GroupsBelow disables (pairs.foldl adjustGroup groups) groups := by
  induction pairs generalizing groups with
  | nil => exact .refl groups
  | cons pair pairs ih =>
    obtain ⟨hattr, hsid⟩ := h pair mem_cons_self
    exact (ih fun p hp => h p (.tail _ hp)).trans (adjustGroup_below hattr hsid)

theorem length_capturedSids (h : ∀ entry ∈ newState, entry.captured = true) :
    (capturedSids (newState.map GroupEntry.sid)).length = newState.length := by
  induction newState with
  | nil => rfl
  | cons entry newState ih =>
    have hentry := h entry mem_cons_self
    obtain ⟨sid, hsid⟩ := isSome_iff_exists.mp hentry
    have ih := ih fun e he => h e (.tail _ he)
    simp only [capturedSids, map_cons, filterMap_cons] at ih ⊢
    rw [hsid, length_cons, length_cons, ih]

theorem mem_adjustedPairs {pool : Nat → Sid × Mask}
    (h : ∀ entry ∈ newState, entry.captured = true) {pair : Sid × Mask}
    (hpair : pair ∈ adjustedPairs pool newState) :
    pair.1 ∈ newState.filterMap GroupEntry.sid ∧
      ∃ entry ∈ newState, pair.2 = entry.attributes := by
  simp only [adjustedPairs] at hpair
  obtain ⟨i, hi, rfl⟩ := mem_mapIdx.mp hpair
  have hlt : i < (capturedSids (newState.map GroupEntry.sid)).length := by
    rw [length_capturedSids h]; exact hi
  refine ⟨?_, newState[i], getElem_mem hi, ?_⟩
  · rw [getD_eq_getElem _ _ hlt]
    obtain ⟨sid?, hmem, hsome⟩ := mem_filterMap.mp (getElem_mem hlt)
    obtain ⟨entry, hentry, rfl⟩ := List.mem_map.mp hmem
    exact mem_filterMap.mpr ⟨entry, hentry, (filter_eq_some_iff.mp hsome).1⟩
  · rw [if_pos (h _ (getElem_mem hi))]

/-! ## Privileges -/

variable {privileges privileges' : List Privilege}

def PrivilegesBelow (derived source : List Privilege) : Prop :=
  ∀ privilege ∈ derived, ∃ privilege' ∈ source, privilege'.luid = privilege.luid ∧
    (privilege.enabled = true → privilege'.enabled = true)

theorem PrivilegesBelow.of_sublist (h : privileges'.Sublist privileges) :
    PrivilegesBelow privileges' privileges :=
  fun privilege hp => ⟨privilege, h.subset hp, rfl, fun he => he⟩

theorem PrivilegesBelow.trans {privileges'' : List Privilege}
    (h : PrivilegesBelow privileges'' privileges') (h' : PrivilegesBelow privileges' privileges) :
    PrivilegesBelow privileges'' privileges := by
  intro privilege hp
  obtain ⟨middle, hm, hluid, henabled⟩ := h privilege hp
  obtain ⟨first, hf, hluid', henabled'⟩ := h' middle hm
  exact ⟨first, hf, hluid'.trans hluid, fun he => henabled' (henabled he)⟩

theorem PrivilegesBelow.disableAll :
    PrivilegesBelow (privileges.map fun privilege => { privilege with enabled := false })
      privileges := by
  intro privilege hp
  obtain ⟨first, hf, rfl⟩ := List.mem_map.mp hp
  exact ⟨first, hf, rfl, fun he => by cases he⟩

theorem adjustPrivilege_below {entry : PrivilegeEntry}
    (h : entry.attributes.has sePrivilegeRemoved = true ∨
      entry.attributes.has sePrivilegeEnabled = false) :
    PrivilegesBelow (adjustPrivilege privileges entry) privileges := by
  unfold adjustPrivilege
  split
  · exact .of_sublist (Sublist.refl _)
  · rename_i i _
    split
    · exact .of_sublist (eraseIdx_sublist _ _)
    · rename_i hremoved
      rw [h.resolve_left hremoved]
      intro privilege hp
      obtain ⟨j, hj, hget⟩ := getElem_of_mem hp
      rw [getElem_modify] at hget
      have hj' : j < privileges.length := by simpa using hj
      refine ⟨privileges[j], getElem_mem hj', ?_⟩
      split at hget
      · rw [← hget]
        exact ⟨rfl, fun he => by cases he⟩
      · rw [← hget]
        exact ⟨rfl, fun he => he⟩

theorem foldl_adjustPrivilege_below {newState : List PrivilegeEntry}
    (h : ∀ entry ∈ newState, entry.attributes.has sePrivilegeRemoved = true ∨
      entry.attributes.has sePrivilegeEnabled = false) :
    PrivilegesBelow (newState.foldl adjustPrivilege privileges) privileges := by
  induction newState generalizing privileges with
  | nil => exact .of_sublist (Sublist.refl _)
  | cons entry newState ih =>
    exact (ih fun e he => h e (.tail _ he)).trans (adjustPrivilege_below (h entry mem_cons_self))

theorem holdsPrivilege_iff {token : Token} :
    holdsPrivilege token luid = true ↔
      ∃ privilege ∈ token.privileges, privilege.luid = luid ∧ privilege.enabled = true := by
  simp only [holdsPrivilege, sepTokenFindPrivilege, Option.any_eq_true]
  constructor
  · rintro ⟨privilege, hfind, henabled⟩
    have hluid := find?_some hfind
    exact ⟨privilege, mem_of_find?_eq_some hfind, eq_of_beq hluid, henabled⟩
  · rintro ⟨privilege, hmem, hluid, henabled⟩
    obtain ⟨found, hfound⟩ : ∃ found, token.privileges.find? (·.luid == luid) = some found := by
      rw [← isSome_iff_exists, List.find?_isSome]
      exact ⟨privilege, hmem, by simpa using hluid⟩
    have hsame : found.luid = privilege.luid := by
      have hbeq := find?_some hfound
      rw [hluid]
      exact eq_of_beq hbeq
    have heq : found = privilege :=
      inj_on_of_nodup_map token.distinct (mem_of_find?_eq_some hfound) hmem hsame
    exact ⟨found, hfound, heq ▸ henabled⟩

/-! ## One derivation -/

structure Derives (d : Derivation) (token token' : Token) : Prop where
  user : token'.user = token.user
  groups : GroupsBelow d.disables token'.groups token.groups
  privileges : PrivilegesBelow token'.privileges token.privileges
  deletes : ∀ luid ∈ d.deletes, ∀ privilege ∈ token'.privileges, privilege.luid ≠ luid
  filters : ∀ sid ∈ d.filters, ∀ group ∈ token'.groups, group.sid = sid →
    group.attributes.has seGroupEnabled = false
  level : token.primary = false → token'.primary = false ∧
    token'.impersonationLevel ≤ token.impersonationLevel

theorem withinCap_of_le {α : Type} {cap : Nat} {list : Option (List α)}
    (h : ∀ l, list = some l → l.length ≤ cap) : withinCap cap list = list.getD [] := by
  cases list with
  | none => rfl
  | some l =>
    have hle : decide (l.length ≤ cap) = true := decide_eq_true (h l rfl)
    simp only [withinCap, filter_some, hle, if_true]

theorem mem_capturedSids {list : List (Option Sid)} (hmem : some sid ∈ list)
    (hshort : sepSidLength sid ≤ sepMaxSidLength) : sid ∈ capturedSids list :=
  mem_filterMap.mpr ⟨some sid, hmem, by
    rw [filter_some, if_pos (decide_eq_true hshort)]⟩

theorem capturedSids_subset {list : List (Option Sid)} (hmem : sid ∈ capturedSids list) :
    sid ∈ list.filterMap id := by
  obtain ⟨sid?, hin, hsome⟩ := mem_filterMap.mp hmem
  exact mem_filterMap.mpr ⟨sid?, hin, (filter_eq_some_iff.mp hsome).1⟩

theorem derives_filter {sidsToDisable : Option (List (Option Sid))}
    {privilegesToDelete : Option (List UInt64)} {token : Token}
    (hplain : (Derivation.filter luid sidsToDisable privilegesToDelete).Plain token) :
    Derives (.filter luid sidsToDisable privilegesToDelete) token
      (ntFilterToken luid token sidsToDisable privilegesToDelete) := by
  obtain ⟨hsids, hluids⟩ := hplain
  have hsidCap : withinCap sepMaxGroups sidsToDisable = sidsToDisable.getD [] :=
    withinCap_of_le fun l hl => (hsids l hl).1
  have hluidCap : withinCap sepMaxPrivileges privilegesToDelete = privilegesToDelete.getD [] :=
    withinCap_of_le hluids
  have hany : ∀ sid, (capturedSids (sidsToDisable.getD [])).any (· == sid) = true ↔
      sid ∈ capturedSids (sidsToDisable.getD []) := by
    intro sid
    simp
  simp only [ntFilterToken, hsidCap, hluidCap]
  refine ⟨rfl, ?_, .of_sublist filter_sublist, ?_, ?_, ?_⟩
  · refine GroupsBelow.map fun group => ?_
    split
    · rename_i hin
      exact Group.disabled_below (capturedSids_subset ((hany _).mp hin))
    · exact .refl group
  · intro luid hluid privilege hp heq
    have hkept := (mem_filter.mp hp).2
    rw [Bool.not_eq_true', List.any_eq_false] at hkept
    exact hkept luid hluid (by simpa using heq.symm)
  · intro sid hsid group hg hgs
    obtain ⟨source, -, rfl⟩ := List.mem_map.mp hg
    have hcaptured : sid ∈ capturedSids (sidsToDisable.getD []) := by
      cases sidsToDisable with
      | none => cases hsid
      | some list =>
        obtain ⟨sid?, hin, hsome⟩ := mem_filterMap.mp hsid
        have hsome : sid? = some sid := hsome
        subst hsome
        exact mem_capturedSids hin ((hsids list rfl).2 sid hin)
    split
    · exact disabled_has_enabled source
    · rename_i hnot
      rw [if_neg hnot] at hgs
      exact absurd ((hany _).mpr (hgs ▸ hcaptured)) hnot
  · intro hprimary
    exact ⟨hprimary, by simp [sepFilterToken, sepCreateToken, hprimary]⟩

theorem derives_adjustPrivileges {disableAll : Bool} {newState : List PrivilegeEntry}
    {token token' : Token} (hr : (Derivation.adjustPrivileges luid disableAll newState).Restricts)
    (h : ntAdjustPrivilegesToken luid token disableAll newState = .ok token') :
    Derives (.adjustPrivileges luid disableAll newState) token token' := by
  simp only [ntAdjustPrivilegesToken] at h
  split at h
  · cases h
    exact ⟨rfl, .refl _, .disableAll, fun _ hl => absurd hl not_mem_nil, fun _ hs => absurd hs not_mem_nil,
      fun hp => ⟨hp, le_refl _⟩⟩
  · rename_i hnot
    split at h
    · cases h
    · cases h
      exact ⟨rfl, .refl _, foldl_adjustPrivilege_below (hr (by simpa using hnot)),
        fun _ hl => absurd hl not_mem_nil, fun _ hs => absurd hs not_mem_nil, fun hp => ⟨hp, le_refl _⟩⟩

theorem derives_adjustGroups {pool : Nat → Sid × Mask}
    {token token' : Token} (hr : (Derivation.adjustGroups luid newState pool).Restricts)
    (hplain : (Derivation.adjustGroups luid newState pool).Plain token)
    (h : ntAdjustGroupsToken luid token false newState pool = .ok token') :
    Derives (.adjustGroups luid newState pool) token token' := by
  simp only [ntAdjustGroupsToken, Bool.false_eq_true, if_false] at h
  split at h
  · cases h
  · split at h
    · cases h
    · cases h
      refine ⟨rfl, foldl_adjustGroup_below ?_, .of_sublist (Sublist.refl _),
        fun _ hl => absurd hl not_mem_nil, fun _ hs => absurd hs not_mem_nil, fun hp => ⟨hp, le_refl _⟩⟩
      intro pair hpair
      obtain ⟨hsid, entry, hentry, hattr⟩ := mem_adjustedPairs hplain hpair
      exact ⟨hattr ▸ hr entry hentry, hsid⟩

theorem derives_duplicate {primary : Bool} {impersonationLevel : Int}
    {token token' : Token} (hplain : (Derivation.duplicate luid primary impersonationLevel).Plain token)
    (h : sepDuplicateToken luid token primary impersonationLevel = .ok token') :
    Derives (.duplicate luid primary impersonationLevel) token token' := by
  simp only [sepDuplicateToken] at h
  split at h
  · cases h
  · rename_i hlevel
    cases h
    refine ⟨rfl, .refl _, .of_sublist (Sublist.refl _), fun _ hl => absurd hl not_mem_nil,
      fun _ hs => absurd hs not_mem_nil, fun hp => ?_⟩
    have hprimary : primary = false := hplain hp
    subst hprimary
    refine ⟨rfl, ?_⟩
    simp only [sepCreateToken, Bool.false_eq_true, if_false]
    by_contra hgt
    exact hlevel ⟨rfl, .inr (.inr ⟨by simp [hp], by omega⟩)⟩

theorem derives {token token' : Token} {d : Derivation} (hr : d.Restricts) (hplain : d.Plain token)
    (h : derive token d = .ok token') : Derives d token token' := by
  cases d with
  | filter luid sidsToDisable privilegesToDelete =>
    cases h
    exact derives_filter hplain
  | adjustPrivileges luid disableAll newState => exact derives_adjustPrivileges hr h
  | adjustGroups luid newState pool => exact derives_adjustGroups hr hplain h
  | duplicate luid primary impersonationLevel => exact derives_duplicate hplain h

/-! ## Chains -/

variable {d : Derivation} {ds : List Derivation} {token token' : Token}

theorem Derives.counts (h : Derives d token token') {sid : Sid} {deny : Bool}
    (hs : sepTokenSidPresent token' sid deny = true) : sepTokenSidPresent token sid deny = true := by
  rw [sepTokenSidPresent_iff] at hs ⊢
  rcases hs with huser | ⟨group, hmem, hcounts, rfl⟩
  · exact .inl (h.user ▸ huser)
  · obtain ⟨source, hsource, hbelow⟩ := h.groups.mem hmem
    exact .inr ⟨source, hsource, hbelow.counts _ hcounts, hbelow.sid.symm⟩

theorem Derives.keeps (h : Derives d token token') {deny : Bool}
    (hsid : sid = token.user ∨ sid ∉ d.disables) (hs : sepTokenSidPresent token sid deny = true) :
    sepTokenSidPresent token' sid deny = true := by
  rw [sepTokenSidPresent_iff] at hs ⊢
  rcases hsid with rfl | hnot
  · exact .inl h.user
  · rcases hs with huser | ⟨group, hmem, hcounts, rfl⟩
    · exact .inl (h.user.trans huser)
    · exact .inr ⟨group, h.groups.mem_source hmem hnot, hcounts, rfl⟩

theorem Derives.holds (h : Derives d token token')
    (hl : holdsPrivilege token' luid = true) : holdsPrivilege token luid = true := by
  rw [holdsPrivilege_iff] at hl ⊢
  obtain ⟨privilege, hmem, rfl, henabled⟩ := hl
  obtain ⟨source, hsource, hluid, hen⟩ := h.privileges privilege hmem
  exact ⟨source, hsource, hluid, hen henabled⟩

abbrev Restricted : Token → List Derivation → Token → Prop :=
  Chain fun token d => d.Restricts ∧ d.Plain token

/-- Deny entries for this `SID` lose nothing: it is the user's, no group of the source counts for
it, or no service of the chain disables it. -/
def Spares (source : Token) (ds : List Derivation) (sid : Sid) : Prop :=
  sepTokenSidPresent source sid true = true → sid = source.user ∨ ∀ d ∈ ds, sid ∉ d.disables

section
variable (h : Restricted token ds token')
include h

theorem Restricted.below :
    Below (Spares token ds) token' token := by
  induction h with
  | nil => exact .refl _
  | @cons token middle token' d ds hadm hd _ ih =>
    have hstep := derives hadm.1 hadm.2 hd
    refine ⟨fun sid hs => hstep.counts (ih.allow sid hs), ?_, fun luid hl =>
      hstep.holds (ih.privilege luid hl)⟩
    intro sid hspares hs
    have hcases := hspares hs
    refine ih.deny sid ?_ (hstep.keeps (hcases.imp_right fun h => h d mem_cons_self) hs)
    intro _
    exact hcases.imp (fun hu => hu.trans hstep.user.symm) fun h e he => h e (.tail _ he)

theorem Restricted.level (himp : token.primary = false) :
    token'.primary = false ∧ token'.impersonationLevel ≤ token.impersonationLevel := by
  induction h with
  | nil => exact ⟨himp, le_refl _⟩
  | cons hadm hd _ ih =>
    obtain ⟨hprimary, hle⟩ := (derives hadm.1 hadm.2 hd).level himp
    obtain ⟨hprimary', hle'⟩ := ih hprimary
    exact ⟨hprimary', hle'.trans hle⟩

theorem Restricted.privileges_below :
    PrivilegesBelow token'.privileges token.privileges := by
  induction h with
  | nil => exact .of_sublist (Sublist.refl _)
  | cons hadm hd _ ih => exact ih.trans (derives hadm.1 hadm.2 hd).privileges

theorem Restricted.deletes {luid : UInt64} (hd : d ∈ ds)
    (hluid : luid ∈ d.deletes) : sepTokenFindPrivilege token' luid = none := by
  induction h with
  | nil => cases hd
  | cons hadm hstep hrest ih =>
    rcases mem_cons.mp hd with rfl | hd'
    · refine find?_eq_none.mpr fun privilege hp heq => ?_
      obtain ⟨source, hsource, hl, -⟩ := Restricted.privileges_below hrest privilege hp
      exact (derives hadm.1 hadm.2 hstep).deletes luid hluid source hsource
        (hl.trans (eq_of_beq heq))
    · exact ih hd'

/-- A group that a filter has disabled counts for no allow entry. -/
theorem Restricted.filters {sid : Sid} (hd : d ∈ ds)
    (hsid : sid ∈ d.filters) (huser : sid ≠ token.user) :
    sepTokenSidPresent token' sid false = false := by
  induction h with
  | nil => cases hd
  | @cons token middle token' d' ds hadm hstep hrest ih =>
    have hderives := derives hadm.1 hadm.2 hstep
    rcases mem_cons.mp hd with rfl | hd'
    · rw [Bool.eq_false_iff]
      intro hs
      rcases sepTokenSidPresent_iff.mp ((Restricted.below hrest).allow sid hs) with
        hu | ⟨group, hmem, hcounts, heq⟩
      · exact huser (hu.symm.trans hderives.user)
      · rw [Group.counts, hderives.filters sid hsid group hmem heq, Bool.false_and] at hcounts
        cases hcounts
    · exact ih hd' fun hu => huser (hu.trans hderives.user)

end

/-- A chain of restrictions against its source. On a descriptor whose deny entries it spares it is
granted nothing that the source is not granted, and these entries apply to it as to the source; the
privileges that a filter deletes are gone, the groups that it disables count for no allow entry, and
an impersonation token stays one of no higher level. -/
theorem restricted_token_gains_nothing (h : Restricted token ds token') :
    (∀ (sd : Descriptor) (mapping : GenericMapping) (desired : Mask) (room : Bool),
      (∀ sid ∈ sd.deniedSids, Spares token ds sid) →
      ((sepTokenAccessCheck token' sd desired mapping room).grants = true →
        (sepTokenAccessCheck token sd desired mapping room).grants = true ∧
        (sepTokenAccessCheck token' sd desired mapping room).granted.Within
          (sepTokenAccessCheck token sd desired mapping room).granted) ∧
      ∀ sid ∈ sd.deniedSids, sepTokenSidPresent token sid true = true →
        sepTokenSidPresent token' sid true = true) ∧
    (∀ d ∈ ds, ∀ luid ∈ d.deletes, sepTokenFindPrivilege token' luid = none) ∧
    (∀ d ∈ ds, ∀ sid ∈ d.filters, sid ≠ token.user →
      sepTokenSidPresent token' sid false = false) ∧
    (token.primary = false →
      token'.primary = false ∧ token'.impersonationLevel ≤ token.impersonationLevel) := by
  refine ⟨fun sd mapping desired room hspares => ⟨?_, ?_⟩, ?_, ?_, ?_⟩
  · exact h.below.sepTokenAccessCheck hspares
  · intro sid hsid hs
    exact h.below.deny sid (hspares sid hsid) hs
  · exact fun d hd luid hluid => h.deletes hd hluid
  · exact fun d hd sid hsid huser => h.filters hd hsid huser
  · exact h.level

/-! ### A filtered token -/

/-- `S-1-5-n` -/
def ntSid (n : UInt8) : Sid := ⟨[1, 1, 0, 0, 0, 0, 0, 5, n, 0, 0, 0], rfl⟩

def sampleToken : Token where
  tokenId := 1
  modifiedId := 2
  primary := false
  impersonationLevel := 2
  sessionId := 1
  elevationType := 3
  user := ntSid 18
  groups := [⟨ntSid 4, seGroupEnabled⟩, ⟨ntSid 6, seGroupEnabled⟩]
  privileges := [⟨8, true, true⟩, ⟨23, true, true⟩]
  primaryGroupIndex := 0
  defaultDacl := []
  defaultDaclOverride := none
  distinct := by decide
  primary_lt := by decide

/-- A descriptor whose list denies a group one right, and allows the user this and another. -/
def sampleDescriptor (denied : Sid) : Descriptor where
  control := seDaclPresent
  owner := some (ntSid 7)
  group := some (ntSid 7)
  sacl := []
  dacl := [2, 0, 48, 0, 2, 0, 0, 0] ++
    ([1, 0, 20, 0, 1, 0, 0, 0] ++ denied.bytes) ++
    ([0, 0, 20, 0, 3, 0, 0, 0] ++ (ntSid 18).bytes)

def sampleMapping : GenericMapping := ⟨0, 0, 0, 0⟩

def sampleFilter : Derivation := .filter 9 (some [some (ntSid 4)]) (some [8])

/-- The filter disables one group, and the descriptor denies the other a right. -/
theorem restricted_token_gains_nothing_filtered :
    (sepTokenAccessCheck sampleToken (sampleDescriptor (ntSid 6)) 2 sampleMapping true).grants = true ∧
    sepTokenSidPresent (ntFilterToken 9 sampleToken (some [some (ntSid 4)]) (some [8])) (ntSid 6) true =
      true ∧
    sepTokenFindPrivilege (ntFilterToken 9 sampleToken (some [some (ntSid 4)]) (some [8])) 8 =
      none := by
  have hplain : sampleFilter.Plain sampleToken := by
    refine ⟨fun list hlist => ?_, fun list hlist => ?_⟩
    · cases hlist
      refine ⟨by decide, fun sid hsid => ?_⟩
      cases mem_singleton.mp hsid
      decide
    · cases hlist
      decide
  have hchain : Restricted sampleToken [sampleFilter]
      (ntFilterToken 9 sampleToken (some [some (ntSid 4)]) (some [8])) :=
    .cons ⟨trivial, hplain⟩ rfl .nil
  obtain ⟨hchecks, hdeleted, -, -⟩ := restricted_token_gains_nothing hchain
  have hdenied : (sampleDescriptor (ntSid 6)).deniedSids = [ntSid 6] := by decide +kernel
  have hspares : ∀ sid ∈ (sampleDescriptor (ntSid 6)).deniedSids, Spares sampleToken [sampleFilter] sid := by
    rw [hdenied]
    refine forall_mem_singleton.mpr fun _ => .inr ?_
    exact forall_mem_singleton.mpr (by decide)
  obtain ⟨hgains, happlies⟩ := hchecks (sampleDescriptor (ntSid 6)) sampleMapping 2 true hspares
  refine ⟨(hgains (by decide +kernel)).1, ?_, hdeleted sampleFilter mem_cons_self 8 (by decide)⟩
  exact happlies (ntSid 6) (by rw [hdenied]; exact mem_singleton_self _) (by decide +kernel)

/-- A filter that disables a group frees its token from an entry that denies the group. -/
theorem filtered_token_gains :
    ¬ ∀ (token token' : Token) (ds : List Derivation) (sd : Descriptor) (mapping : GenericMapping)
      (desired : Mask), Chain (fun _ d => d.Restricts) token ds token' →
      (sepTokenAccessCheck token' sd desired mapping true).grants = true →
      (sepTokenAccessCheck token sd desired mapping true).grants = true := by
  intro hall
  have hchain : Chain (fun _ d => d.Restricts) sampleToken [sampleFilter]
      (ntFilterToken 9 sampleToken (some [some (ntSid 4)]) (some [8])) :=
    .cons trivial rfl .nil
  have hgranted := hall _ _ _ (sampleDescriptor (ntSid 4)) sampleMapping 1 hchain (by decide +kernel)
  exact absurd hgranted (by decide +kernel)

end Proskrnl.Se
