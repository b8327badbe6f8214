import Proskrnl.Se.Restrict

/-!
# Adjusting a token

What a request makes of each privilege and of each group (`PrivilegeEntry.apply`, `setEnabled`), the
previous state that the two services report, and when a request for groups does what it names.
-/

namespace Proskrnl.Se
open List Option

def sePrivilegeEnabledByDefault : Mask := 0x00000001

/-- A privilege as a previous state lists it. -/
def Privilege.reported (privilege : Privilege) : PrivilegeEntry where
  luid := privilege.luid
  attributes := (if privilege.enabled then sePrivilegeEnabled else 0) |||
    (if privilege.enabledByDefault then sePrivilegeEnabledByDefault else 0)

/-- What the loop of `NtAdjustPrivilegesToken` lists where there is room for all of it. -/
def recordedPrivileges : List Privilege → List PrivilegeEntry → List PrivilegeEntry
  | _, [] => []
  | privileges, entry :: entries =>
    let rest := recordedPrivileges (adjustPrivilege privileges entry) entries
    match privileges.find? (·.luid == entry.luid) with
    | none => rest
    | some privilege =>
      if entry.attributes.has sePrivilegeRemoved then rest else privilege.reported :: rest

/-- How many entries of a request the token holds. -/
def foundCount (token : Token) (newState : List PrivilegeEntry) : Nat :=
  newState.countP fun entry => (sepTokenFindPrivilege token entry.luid).isSome

/-- The previous state in a buffer of so many bytes: what does not fit is left out, and what was not
listed is zero. A call that disables all of them lists none. -/
def previousPrivileges (token : Token) (disableAll : Bool) (newState : List PrivilegeEntry)
    (length : Nat) : List PrivilegeEntry :=
  let space := if 4 ≤ length then (length - 4) / 12 else 0
  let fit := if disableAll then 0 else min (foundCount token newState) space
  (recordedPrivileges token.privileges newState ++ List.replicate fit (PrivilegeEntry.mk 0 0)).take fit

/-- `offsetof(TOKEN_GROUPS, Groups)` -/
def tokenGroupsHeader : Nat := 8

/-- What a call of `NtAdjustGroupsToken` comes to. -/
structure GroupsOutcome where
  status : NtStatus
  token : Token
  reported : Option (List Group) := none

/-- `NtAdjustGroupsToken` with a buffer of a length for the previous state, or none. -/
def adjustGroupsOutcome (luid : UInt64) (token : Token) (resetToDefault : Bool)
    (newState : List GroupEntry) (pool : Nat → Sid × Mask) (previousState : Option Nat) :
    GroupsOutcome :=
  match ntAdjustGroupsToken luid token resetToDefault newState pool with
  | .error status => { status, token }
  | .ok token =>
    match previousState with
    | none => { status := statusSuccess, token }
    | some bufferLength =>
      if bufferLength < tokenGroupsHeader then { status := statusBufferTooSmall, token }
      else { status := statusSuccess, token, reported := some [] }

/-- What an entry makes of the privilege that it names; one that is removed is none. -/
def PrivilegeEntry.apply (entry : PrivilegeEntry) (privilege : Privilege) : Option Privilege :=
  if privilege.luid = entry.luid then
    if entry.attributes.has sePrivilegeRemoved then none
    else some { privilege with enabled := entry.attributes.has sePrivilegeEnabled }
  else some privilege

/-- What a request makes of a privilege, entry by entry. -/
def requested (entries : List PrivilegeEntry) (privilege : Privilege) : Option Privilege :=
  entries.foldl (fun o entry => o.bind entry.apply) (some privilege)

section
variable {privileges : List Privilege} {entry : PrivilegeEntry} {entries : List PrivilegeEntry}
  {p q : Privilege} {token : Token}

theorem adjustPrivilege_cons (p : Privilege) (privileges : List Privilege) (entry : PrivilegeEntry) :
    adjustPrivilege (p :: privileges) entry =
      if p.luid = entry.luid then (entry.apply p).toList ++ privileges
      else p :: adjustPrivilege privileges entry := by
  rw [adjustPrivilege, findIdx?_cons]
  by_cases h : p.luid = entry.luid
  · rw [if_pos h, if_pos (beq_iff_eq.mpr h), PrivilegeEntry.apply, if_pos h]
    dsimp only
    split
    · rfl
    · rfl
  · rw [if_neg h, if_neg (fun heq => h (beq_iff_eq.mp heq)), adjustPrivilege]
    cases privileges.findIdx? (·.luid == entry.luid) with
    | none => rfl
    | some i =>
      dsimp only [map_some]
      split
      · rfl
      · rfl

theorem PrivilegeEntry.apply_of_ne (h : p.luid ≠ entry.luid) : entry.apply p = some p := if_neg h

theorem adjustPrivilege_eq (h : (privileges.map Privilege.luid).Nodup) :
    adjustPrivilege privileges entry = privileges.filterMap entry.apply := by
  induction privileges with
  | nil => rfl
  | cons p privileges ih =>
    obtain ⟨hnot, hnodup⟩ := nodup_cons.mp h
    rw [adjustPrivilege_cons]
    split
    · rename_i heq
      -- the others have other names
      have hrest : privileges.filterMap entry.apply = privileges := by
        conv_rhs => rw [← filterMap_some (l := privileges)]
        refine filterMap_congr fun q hq => PrivilegeEntry.apply_of_ne fun hname => hnot ?_
        rw [heq, ← hname]
        exact List.mem_map_of_mem hq
      rw [filterMap_cons, hrest]
      cases entry.apply p with
      | none => rfl
      | some q => rfl
    · rename_i hne
      rw [filterMap_cons, PrivilegeEntry.apply_of_ne hne, ih hnodup]

theorem foldl_bind_none (entries : List PrivilegeEntry) :
    entries.foldl (fun (o : Option Privilege) entry => o.bind entry.apply) none = none := by
  induction entries with
  | nil => rfl
  | cons entry entries ih => exact ih

theorem requested_cons (entry : PrivilegeEntry) (entries : List PrivilegeEntry) (p : Privilege) :
    requested (entry :: entries) p = (entry.apply p).bind (requested entries) := by
  rw [requested, foldl_cons, bind_some]
  cases entry.apply p with
  | none => exact foldl_bind_none entries
  | some q => rfl

theorem foldl_adjustPrivilege_eq (entries : List PrivilegeEntry)
    (h : (privileges.map Privilege.luid).Nodup) :
    entries.foldl adjustPrivilege privileges = privileges.filterMap (requested entries) := by
  induction entries generalizing privileges with
  | nil => exact filterMap_some.symm
  | cons entry entries ih =>
    rw [foldl_cons, ih (distinct_adjustPrivilege entry h), adjustPrivilege_eq h,
      filterMap_filterMap]
    exact filterMap_congr fun p _ => (requested_cons entry entries p).symm

theorem requested_of_notMem (h : p.luid ∉ entries.map PrivilegeEntry.luid) :
    requested entries p = some p := by
  induction entries with
  | nil => rfl
  | cons entry entries ih =>
    rw [map_cons, mem_cons, not_or] at h
    rw [requested_cons, PrivilegeEntry.apply_of_ne h.1]
    exact ih h.2

theorem requested_of_mem (hnodup : (entries.map PrivilegeEntry.luid).Nodup) (hentry : entry ∈ entries)
    (hname : p.luid = entry.luid) : requested entries p = entry.apply p := by
  induction entries with
  | nil => cases hentry
  | cons first entries ih =>
    obtain ⟨hnot, hnodup⟩ := nodup_cons.mp hnodup
    rw [requested_cons]
    rcases mem_cons.mp hentry with rfl | hentry
    · cases happly : entry.apply p with
      | none => rfl
      | some q =>
        have hluid : q.luid = p.luid := by
          rw [PrivilegeEntry.apply, if_pos hname] at happly
          split at happly
          · cases happly
          · cases happly
            rfl
        exact requested_of_notMem (by rw [hluid, hname]; exact hnot)
    · rw [PrivilegeEntry.apply_of_ne]
      · exact ih hnodup hentry
      · intro heq
        refine hnot ?_
        rw [← heq, hname]
        exact List.mem_map_of_mem hentry

theorem find?_of_mem (h : (privileges.map Privilege.luid).Nodup) (hp : p ∈ privileges) :
    privileges.find? (·.luid == p.luid) = some p := by
  induction privileges with
  | nil => cases hp
  | cons first privileges ih =>
    obtain ⟨hnot, hnodup⟩ := nodup_cons.mp h
    rcases mem_cons.mp hp with rfl | hp
    · exact find?_cons_of_pos (beq_self_eq_true _)
    · rw [find?_cons_of_neg]
      · exact ih hnodup hp
      · intro heq
        refine hnot ?_
        rw [beq_iff_eq.mp heq]
        exact List.mem_map_of_mem hp

theorem find?_isSome (luid : UInt64) : (privileges.find? (·.luid == luid)).isSome =
    decide (luid ∈ privileges.map Privilege.luid) := by
  rw [Bool.eq_iff_iff, List.find?_isSome, decide_eq_true_eq, List.mem_map]
  simp only [beq_iff_eq]

theorem map_luid_adjustPrivilege
    (hkept : entry.attributes.has sePrivilegeRemoved = false) :
    (adjustPrivilege privileges entry).map Privilege.luid = privileges.map Privilege.luid := by
  rw [adjustPrivilege]
  split
  · rfl
  · rw [hkept, if_neg Bool.false_ne_true]
    exact map_luid_modify _ _ _

theorem length_recordedPrivileges (h : (privileges.map Privilege.luid).Nodup)
    (hkept : ∀ entry ∈ entries, entry.attributes.has sePrivilegeRemoved = false) :
    (recordedPrivileges privileges entries).length =
      entries.countP fun entry => (privileges.find? (·.luid == entry.luid)).isSome := by
  induction entries generalizing privileges with
  | nil => rfl
  | cons entry entries ih =>
    obtain ⟨hfirst, hkept⟩ := forall_mem_cons.mp hkept
    have hrest := ih (distinct_adjustPrivilege entry h) hkept
    simp only [find?_isSome, map_luid_adjustPrivilege hfirst] at hrest
    rw [recordedPrivileges, countP_cons]
    cases hfind : privileges.find? (·.luid == entry.luid) with
    | none =>
      simp only [find?_isSome, hrest, isSome_none, Bool.false_eq_true, if_false, Nat.add_zero]
    | some p =>
      simp only [hfirst, Bool.false_eq_true, if_false, length_cons, hrest, find?_isSome,
        isSome_some, if_true]

theorem map_luid_recordedPrivileges (privileges : List Privilege) (entries : List PrivilegeEntry) :
    ((recordedPrivileges privileges entries).map PrivilegeEntry.luid).Sublist
      (entries.map PrivilegeEntry.luid) := by
  induction entries generalizing privileges with
  | nil => exact .slnil
  | cons entry entries ih =>
    rw [recordedPrivileges, map_cons]
    cases hfind : privileges.find? (·.luid == entry.luid) with
    | none => exact (ih _).cons _
    | some p =>
      have hname : p.luid = entry.luid := by simpa using find?_some hfind
      dsimp only
      split
      · exact (ih _).cons _
      · rw [map_cons, show p.reported.luid = entry.luid from hname]
        exact (ih _).cons_cons _

theorem mem_recordedPrivileges (h : (privileges.map Privilege.luid).Nodup)
    (hkept : ∀ entry ∈ entries, entry.attributes.has sePrivilegeRemoved = false)
    (hp : p ∈ privileges) (hnamed : p.luid ∈ entries.map PrivilegeEntry.luid) :
    p.reported ∈ recordedPrivileges privileges entries := by
  induction entries generalizing privileges with
  | nil => cases hnamed
  | cons entry entries ih =>
    obtain ⟨hfirst, hkept⟩ := forall_mem_cons.mp hkept
    rw [recordedPrivileges]
    by_cases hname : p.luid = entry.luid
    · rw [← hname, find?_of_mem h hp]
      simp only [hfirst, Bool.false_eq_true, if_false]
      exact mem_cons_self
    · have hmem : p ∈ adjustPrivilege privileges entry := by
        rw [adjustPrivilege_eq h]
        exact mem_filterMap.mpr ⟨p, hp, PrivilegeEntry.apply_of_ne hname⟩
      have hrest := ih (distinct_adjustPrivilege entry h) hkept hmem
        ((mem_cons.mp hnamed).resolve_left hname)
      cases privileges.find? (·.luid == entry.luid) with
      | none => exact hrest
      | some q =>
        simp only [hfirst, Bool.false_eq_true, if_false]
        exact .tail _ hrest

theorem reported_has (p : Privilege) : p.reported.attributes.has sePrivilegeRemoved = false ∧
    p.reported.attributes.has sePrivilegeEnabled = p.enabled := by
  have h : ∀ enabled byDefault : Bool,
      Mask.has ((if enabled then sePrivilegeEnabled else 0) |||
        (if byDefault then sePrivilegeEnabledByDefault else 0)) sePrivilegeRemoved = false ∧
      Mask.has ((if enabled then sePrivilegeEnabled else 0) |||
        (if byDefault then sePrivilegeEnabledByDefault else 0)) sePrivilegeEnabled = enabled := by decide
  exact h p.enabled p.enabledByDefault

theorem reported_apply {enabled : Bool} : p.reported.apply { p with enabled } = some p := by
  obtain ⟨hremoved, henabled⟩ := reported_has p
  rw [PrivilegeEntry.apply, hremoved, henabled]
  exact if_pos rfl

theorem requested_eq (hkept : ∀ entry ∈ entries, entry.attributes.has sePrivilegeRemoved = false)
    (p : Privilege) : ∃ enabled, requested entries p = some { p with enabled } := by
  induction entries generalizing p with
  | nil => exact ⟨p.enabled, rfl⟩
  | cons entry entries ih =>
    obtain ⟨hfirst, hkept⟩ := forall_mem_cons.mp hkept
    rw [requested_cons, PrivilegeEntry.apply, hfirst]
    split
    · exact ih hkept _
    · exact ih hkept p

theorem requested_recordedPrivileges (h : (privileges.map Privilege.luid).Nodup)
    (hnodup : (entries.map PrivilegeEntry.luid).Nodup)
    (hkept : ∀ entry ∈ entries, entry.attributes.has sePrivilegeRemoved = false)
    (hp : p ∈ privileges) :
    (requested entries p).bind (requested (recordedPrivileges privileges entries)) = some p := by
  have hsub := map_luid_recordedPrivileges privileges entries
  by_cases hnamed : p.luid ∈ entries.map PrivilegeEntry.luid
  · obtain ⟨enabled, hq⟩ := requested_eq hkept p
    rw [hq, bind_some]
    refine (requested_of_mem (hnodup.sublist hsub) (mem_recordedPrivileges h hkept hp hnamed) ?_).trans
      reported_apply
    rfl
  · rw [requested_of_notMem hnamed, bind_some]
    exact requested_of_notMem fun hmem => hnamed (hsub.subset hmem)

theorem previousPrivileges_eq {newState : List PrivilegeEntry} {length : Nat}
    (hkept : ∀ entry ∈ newState, entry.attributes.has sePrivilegeRemoved = false)
    (hroom : 4 + 12 * foundCount token newState ≤ length) :
    previousPrivileges token false newState length = recordedPrivileges token.privileges newState := by
  have hlength : (recordedPrivileges token.privileges newState).length = foundCount token newState :=
    length_recordedPrivileges token.distinct hkept
  have hfit : min (foundCount token newState) (if 4 ≤ length then (length - 4) / 12 else 0) =
      foundCount token newState := by
    rw [if_pos (by omega)]
    omega
  rw [previousPrivileges, if_neg Bool.false_ne_true]
  simp only [hfit]
  rw [← hlength]
  exact take_left

theorem previousPrivileges_disableAll (token : Token) (newState : List PrivilegeEntry) (length : Nat) :
    previousPrivileges token true newState length = [] := by
  rw [previousPrivileges, if_pos rfl, take_zero]

theorem map_disable_eq_self :
    (privileges.map fun privilege => { privilege with enabled := false }) = privileges ↔
      ∀ privilege ∈ privileges, privilege.enabled = false := by
  conv_lhs => rhs; rw [← map_id privileges]
  rw [map_inj_left]
  refine forall₂_congr fun privilege _ => ⟨fun h => ?_, fun h => ?_⟩
  · exact (congrArg Privilege.enabled h).symm
  · cases privilege
    cases h
    rfl

end

section
variable {groups : List Group} {pairs : List (Sid × Mask)} {newState : List GroupEntry}

/-- What an entry makes of the attributes of the group that it names. -/
def setEnabled (attributes : Mask) (pair : Sid × Mask) : Mask :=
  if pair.2.has seGroupEnabled then attributes ||| seGroupEnabled else attributes &&& ~~~seGroupEnabled

/-- The groups after entries that each set the one they name. -/
def setGroups (groups : List Group) (pairs : List (Sid × Mask)) : List Group :=
  groups.mapIdx fun i group =>
    { group with
      attributes := (pairs.filter fun pair => sepTokenFindGroup groups pair.1 == some i).foldl
        setEnabled group.attributes }

/-- The entries of a request, each with its own attributes. -/
def namedPairs (newState : List GroupEntry) : List (Sid × Mask) :=
  newState.filterMap fun entry => entry.sid.map (·, entry.attributes)

theorem adjustGroup_eq (groups : List Group) (pair : Sid × Mask) :
    adjustGroup groups pair = groups.mapIdx fun i group => { group with
      attributes := if sepTokenFindGroup groups pair.1 = some i then setEnabled group.attributes pair
        else group.attributes } := by
  rw [adjustGroup]
  refine ext_getElem? fun i => ?_
  rw [getElem?_mapIdx]
  cases hfind : sepTokenFindGroup groups pair.1 with
  | none => simp
  | some j =>
    dsimp only
    rw [getElem?_modify]
    cases groups[i]? with
    | none => rfl
    | some group =>
      by_cases hj : j = i
      · simp [hj, setEnabled]
      · simp [hj]

theorem sepTokenFindGroup_congr {groups' : List Group}
    (h : groups'.map Group.sid = groups.map Group.sid) (sid : Sid) :
    sepTokenFindGroup groups' sid = sepTokenFindGroup groups sid := by
  have hmap (l : List Group) :
      sepTokenFindGroup l sid = (l.map Group.sid).findIdx? (· == sid) := by
    rw [findIdx?_map]
    rfl
  rw [hmap, hmap, h]

theorem foldl_adjustGroup_eq (groups : List Group) (pairs : List (Sid × Mask)) :
    pairs.foldl adjustGroup groups = setGroups groups pairs := by
  induction pairs generalizing groups with
  | nil =>
    refine ext_getElem? fun i => ?_
    rw [setGroups, getElem?_mapIdx]
    exact map_id_apply.symm
  | cons pair pairs ih =>
    have hsids : (adjustGroup groups pair).map Group.sid = groups.map Group.sid := by
      refine ext_getElem? fun i => ?_
      rw [adjustGroup_eq, getElem?_map, getElem?_mapIdx, getElem?_map, Option.map_map]
      rfl
    rw [foldl_cons, ih, setGroups, setGroups]
    simp only [sepTokenFindGroup_congr hsids]
    rw [adjustGroup_eq, mapIdx_mapIdx]
    refine ext_getElem? fun i => ?_
    rw [getElem?_mapIdx, getElem?_mapIdx]
    cases groups[i]? with
    | none => rfl
    | some group =>
      simp only [map_some, Function.comp, filter_cons, beq_iff_eq]
      split
      · rfl
      · rfl

theorem adjustedPairs_eq (pool : Nat → Sid × Mask)
    (h : ∀ entry ∈ newState, entry.captured = true) :
    adjustedPairs pool newState = namedPairs newState := by
  induction newState generalizing pool with
  | nil => rfl
  | cons entry newState ih =>
    obtain ⟨hfirst, hrest⟩ := forall_mem_cons.mp h
    obtain ⟨sid, hsid⟩ := isSome_iff_exists.mp hfirst
    have hentry : entry.sid = some sid := (filter_eq_some_iff.mp hsid).1
    have hsids : capturedSids ((entry :: newState).map GroupEntry.sid) =
        sid :: capturedSids (newState.map GroupEntry.sid) := by
      rw [map_cons, capturedSids, filterMap_cons, hsid]
      rfl
    have htail := ih (fun i => pool (i + 1)) hrest
    rw [adjustedPairs] at htail ⊢
    simp only [hsids, mapIdx_cons, hfirst]
    rw [namedPairs, filterMap_cons, hentry, ← namedPairs, ← htail]
    rfl

/-- Is a request for groups refused, by its length or for a mandatory group? -/
def refusesGroups (token : Token) (resetToDefault : Bool) (newState : List GroupEntry) : Bool :=
  !resetToDefault && (decide (sepMaxGroups < newState.length) ||
    (namedPairs newState).any (disablesMandatory token.groups))

/-- The groups that a request asks for. -/
def wantedGroups (token : Token) (resetToDefault : Bool) (newState : List GroupEntry) : List Group :=
  if resetToDefault then token.groups.map Group.reset
  else setGroups token.groups (namedPairs newState)

/-- The groups whose state is another one afterwards, as they were. -/
def changedGroups (before after : List Group) : List Group :=
  ((before.zip after).filter fun pair => pair.1 ≠ pair.2).map Prod.fst

theorem changedGroups_eq_nil (before after : List Group) (hlength : before.length = after.length) :
    [] = changedGroups before after ↔ after = before := by
  rw [changedGroups, eq_comm, map_eq_nil_iff, filter_eq_nil_iff]
  constructor
  · intro h
    refine ext_getElem hlength.symm fun i hi hi' => ?_
    have hmem := h (before[i], after[i])
      (mem_iff_getElem.mpr ⟨i, by simp [hi, hi'], getElem_zip⟩)
    simpa using Eq.symm (by simpa using hmem)
  · rintro rfl ⟨group, group'⟩ hmem
    obtain ⟨i, hi, heq⟩ := mem_iff_getElem.mp hmem
    rw [getElem_zip] at heq
    cases heq
    simp

/-- What a call of `NtAdjustGroupsToken` ought to come to. -/
structure GroupsMet (token : Token) (resetToDefault : Bool) (newState : List GroupEntry)
    (outcome : GroupsOutcome) : Prop where
  refused : outcome.status ≠ statusSuccess → outcome.token.groups = token.groups
  applied : outcome.status = statusSuccess →
    outcome.token.groups = wantedGroups token resetToDefault newState
  reported : ∀ list, outcome.reported = some list →
    list = changedGroups token.groups outcome.token.groups

variable {token : Token} {resetToDefault : Bool}

theorem length_wantedGroups :
    (wantedGroups token resetToDefault newState).length = token.groups.length := by
  rw [wantedGroups]
  split
  · exact length_map _
  · exact length_mapIdx

/-- The request does not depend on what the pool held: it takes no entries, or it has more than are
looked at, or each of its entries names a `SID` that is captured. -/
def Determined (resetToDefault : Bool) (newState : List GroupEntry) : Prop :=
  resetToDefault = true ∨ sepMaxGroups < newState.length ∨ ∀ entry ∈ newState, entry.captured = true

theorem ntAdjustGroupsToken_cases (token : Token) (luid : UInt64) (pool : Nat → Sid × Mask)
    (hdetermined : Determined resetToDefault newState) :
    if refusesGroups token resetToDefault newState then
      ∃ status, ntAdjustGroupsToken luid token resetToDefault newState pool = .error status ∧
        status ≠ statusSuccess
    else ∃ token', ntAdjustGroupsToken luid token resetToDefault newState pool = .ok token' ∧
      token'.groups = wantedGroups token resetToDefault newState := by
  cases hreset : resetToDefault with
  | true => exact ⟨_, rfl, rfl⟩
  | false =>
    simp only [refusesGroups, Bool.not_false, Bool.true_and, Bool.or_eq_true, decide_eq_true_eq]
    rw [ntAdjustGroupsToken, if_neg Bool.false_ne_true]
    by_cases hlong : sepMaxGroups < newState.length
    · rw [if_pos (.inl hlong), if_pos hlong]
      exact ⟨_, rfl, by decide⟩
    · have hpairs := adjustedPairs_eq pool
        ((hdetermined.resolve_left (by rw [hreset]; exact Bool.false_ne_true)).resolve_left hlong)
      rw [if_neg hlong]
      simp only [hpairs]
      by_cases hmandatory : (namedPairs newState).any (disablesMandatory token.groups) = true
      · rw [if_pos (.inr hmandatory), if_pos hmandatory]
        exact ⟨_, rfl, by decide⟩
      · rw [if_neg (not_or.mpr ⟨hlong, hmandatory⟩), if_neg hmandatory]
        exact ⟨_, rfl, foldl_adjustGroup_eq _ _⟩

theorem adjustGroups_met_iff (luid : UInt64) (pool : Nat → Sid × Mask) (previousState : Option Nat)
    (hdetermined : Determined resetToDefault newState) :
    GroupsMet token resetToDefault newState
        (adjustGroupsOutcome luid token resetToDefault newState pool previousState) ↔
      refusesGroups token resetToDefault newState = true ∨ previousState = none ∨
        wantedGroups token resetToDefault newState = token.groups := by
  have hcases := ntAdjustGroupsToken_cases token luid pool hdetermined
  split at hcases
  · rename_i hrefuses
    obtain ⟨status, heq, hstatus⟩ := hcases
    rw [adjustGroupsOutcome, heq]
    exact iff_of_true ⟨fun _ => rfl, fun h => absurd h hstatus, nofun⟩ (.inl hrefuses)
  · rename_i hrefuses
    obtain ⟨token', heq, hgroups⟩ := hcases
    rw [adjustGroupsOutcome, heq, or_iff_right hrefuses]
    cases previousState with
    | none => exact iff_of_true ⟨fun h => absurd rfl h, fun _ => hgroups, nofun⟩ (.inl rfl)
    | some bufferLength =>
      rw [or_iff_right nofun]
      dsimp only
      split
      · rw [← hgroups]
        exact ⟨fun h => h.refused (show statusBufferTooSmall ≠ statusSuccess by decide),
          fun h => ⟨fun _ => h, nofun, nofun⟩⟩
      · have hnil := changedGroups_eq_nil token.groups (wantedGroups token resetToDefault newState)
          length_wantedGroups.symm
        refine ⟨fun h => hnil.mp ?_, fun h => ⟨fun h => absurd rfl h, fun _ => hgroups, ?_⟩⟩
        · rw [← hgroups]
          exact h.reported [] rfl
        · rintro _ ⟨⟩
          rw [hgroups]
          exact hnil.mpr h

end

/-- A request for a list of privileges does what it names, and its previous state undoes it; one for all
disables them all, and lists no previous state, which undoes it where none was enabled. A request for
groups that does not depend on the pool does what it names unless a previous state is asked for that
is not empty. -/
theorem adjust_meets (token : Token) :
    (∀ luid newState token', ntAdjustPrivilegesToken luid token false newState = .ok token' →
      token'.privileges = token.privileges.filterMap (requested newState) ∧
      ∀ privilege ∈ token.privileges, privilege.luid ∉ newState.map PrivilegeEntry.luid →
        requested newState privilege = some privilege) ∧
    (∀ luid luid' newState length token', (newState.map PrivilegeEntry.luid).Nodup →
      (∀ entry ∈ newState, entry.attributes.has sePrivilegeRemoved = false) →
      4 + 12 * foundCount token newState ≤ length →
      ntAdjustPrivilegesToken luid token false newState = .ok token' →
      ∃ token'', ntAdjustPrivilegesToken luid' token' false
          (previousPrivileges token false newState length) = .ok token'' ∧
        token''.privileges = token.privileges) ∧
    (∀ luid newState, ∃ token', ntAdjustPrivilegesToken luid token true newState = .ok token' ∧
      token'.privileges = (token.privileges.map fun privilege => { privilege with enabled := false }) ∧
      token'.groups = token.groups ∧
      ∀ luid' length, ∃ token'', ntAdjustPrivilegesToken luid' token' false
          (previousPrivileges token true newState length) = .ok token'' ∧
        (token''.privileges = token.privileges ↔
          ∀ privilege ∈ token.privileges, privilege.enabled = false)) ∧
    (∀ luid resetToDefault newState pool previousState, Determined resetToDefault newState →
      (GroupsMet token resetToDefault newState
          (adjustGroupsOutcome luid token resetToDefault newState pool previousState) ↔
        refusesGroups token resetToDefault newState = true ∨ previousState = none ∨
          wantedGroups token resetToDefault newState = token.groups)) := by
  have hadjusted {luid : UInt64} {newState : List PrivilegeEntry} {token' : Token}
      (h : ntAdjustPrivilegesToken luid token false newState = .ok token') :
      newState.length ≤ sepAdjustMaxPrivileges ∧
        token'.privileges = token.privileges.filterMap (requested newState) := by
    rw [ntAdjustPrivilegesToken, if_neg Bool.false_ne_true] at h
    split at h
    · cases h
    · rename_i hshort
      cases h
      exact ⟨Nat.le_of_not_lt hshort, foldl_adjustPrivilege_eq _ token.distinct⟩
  refine ⟨fun luid newState token' h => ⟨(hadjusted h).2, fun _ _ => requested_of_notMem⟩,
    fun luid luid' newState length token' hnodup hkept hroom h => ?_,
    fun luid newState => ⟨_, rfl, rfl, rfl, fun luid' length => ?_⟩,
    fun luid reset newState pool previous => adjustGroups_met_iff luid pool previous⟩
  case refine_2 =>
    rw [previousPrivileges_disableAll]
    exact ⟨_, rfl, map_disable_eq_self⟩
  obtain ⟨hshort, hprivileges⟩ := hadjusted h
  rw [previousPrivileges_eq hkept hroom]
  have hlength : ¬ sepAdjustMaxPrivileges < (recordedPrivileges token.privileges newState).length := by
    rw [length_recordedPrivileges token.distinct hkept, Nat.not_lt]
    exact countP_le_length.trans hshort
  rw [ntAdjustPrivilegesToken, if_neg Bool.false_ne_true, if_neg hlength]
  refine ⟨_, rfl, ?_⟩
  show (recordedPrivileges token.privileges newState).foldl adjustPrivilege token'.privileges = _
  rw [foldl_adjustPrivilege_eq _ token'.distinct, hprivileges, filterMap_filterMap]
  refine (filterMap_congr fun p hp => ?_).trans filterMap_some
  exact requested_recordedPrivileges token.distinct hnodup hkept hp

/-- The boot token with the group of everybody disabled. -/
def filteredAdmin : Token := ntFilterToken 9 (sepCreateAdminToken 1 3) (some [some sepWorldSid]) none

/-- Two of its privileges are set, and set back; and its groups are reset. -/
theorem adjust_meets_filtered : ∃ token', ntAdjustPrivilegesToken 20 filteredAdmin false
      [⟨23, 0⟩, ⟨8, sePrivilegeEnabled⟩] = .ok token' ∧
    token'.privileges ≠ filteredAdmin.privileges ∧
    ∃ token'', ntAdjustPrivilegesToken 21 token' false
        (previousPrivileges filteredAdmin false [⟨23, 0⟩, ⟨8, sePrivilegeEnabled⟩] 28) = .ok token'' ∧
      token''.privileges = filteredAdmin.privileges ∧
    GroupsMet filteredAdmin true [] (adjustGroupsOutcome 20 filteredAdmin true []
      (fun _ => (sepLogonSid, 0)) none) := by
  refine ⟨_, rfl, by decide +kernel, ?_⟩
  obtain ⟨token'', h, hprivileges⟩ := (adjust_meets filteredAdmin).2.1 20 21
    [⟨23, 0⟩, ⟨8, sePrivilegeEnabled⟩] 28 _ (by decide) (by decide) (by decide +kernel) rfl
  refine ⟨token'', h, hprivileges, ?_⟩
  exact ((adjust_meets filteredAdmin).2.2.2 20 true [] _ none (.inl rfl)).mpr (.inr (.inl rfl))

/-- The group is enabled again and the previous state lists none; and behind an entry without a `SID` it
gets the attributes that the pool held. -/
theorem adjustGroups_unmet :
    ¬ GroupsMet filteredAdmin false [⟨some sepWorldSid, seGroupEnabled⟩]
      (adjustGroupsOutcome 20 filteredAdmin false [⟨some sepWorldSid, seGroupEnabled⟩]
        (fun _ => (sepLogonSid, 0)) (some 64)) ∧
    ¬ GroupsMet filteredAdmin false [⟨none, 0⟩, ⟨some sepWorldSid, 0⟩]
      (adjustGroupsOutcome 20 filteredAdmin false [⟨none, 0⟩, ⟨some sepWorldSid, 0⟩]
        (fun _ => (sepAnonymousLogonSid, seGroupEnabled)) none) := by
  refine ⟨fun h => ?_, fun h => ?_⟩
  · exact absurd (h.reported [] (by decide +kernel)) (by decide +kernel)
  · exact absurd (h.applied (by decide +kernel)) (by decide +kernel)

end Proskrnl.Se
