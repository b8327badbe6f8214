import Proskrnl.Library.Outcome
import Proskrnl.Se.Descriptor

/-!
# The default DACL over a run

Tokens and objects, and the services that move a default DACL from a caller to a token, from a token
to another one, and from a token to an object. Beside each token stands the list that was last set
for it, or for the token it was made from. An object that takes a list set by
`NtSetInformationToken` straight from the token it was set on gets no bytes of it, since the
descriptor is cut to the inline slot; and a list that is set is neither checked nor held to the size
of the reply it is queried through.
-/

namespace Proskrnl.Se
open List Option

structure System where
  tokens : List Token
  /-- The default DACL that was last set for each token. -/
  governing : List (Option (List UInt8))
  objects : List (Option Descriptor)

inductive Op
  /-- `SeGrantAdminToken` -/
  | grantAdmin (luid : UInt64) (elevationType : Int)
  /-- `NtImpersonateAnonymousToken` -/
  | impersonateAnonymous (luid : UInt64)
  /-- `NtDuplicateToken`, and the creation of a process. -/
  | duplicate (i : Nat) (luid : UInt64) (primary : Bool) (impersonationLevel : Int)
  | filter (i : Nat) (luid : UInt64) (sidsToDisable : Option (List (Option Sid)))
    (privilegesToDelete : Option (List UInt64))
  | setDefaultDacl (i : Nat) (luid : UInt64) (length : Nat) (acl : Option (List UInt8))
  /-- An object is created by a thread whose token this is. -/
  | createObject (i : Nat) (user : Option UserDescriptor)
  | setSecurity (i j : Nat) (info : SecurityInformation) (user : UserDescriptor)

def System.addToken (s : System) (token : Token) (dacl : Option (List UInt8)) : System :=
  { s with tokens := s.tokens ++ [token], governing := s.governing ++ [dacl] }

def newDefault (acl : Option (List UInt8)) : Option (List UInt8) :=
  acl.map fun memory => memory.take (aclSize memory)

def step (s : System) : Op → System
  | .grantAdmin luid elevationType =>
    s.addToken (sepCreateAdminToken luid elevationType) (some adminDefaultDacl)
  | .impersonateAnonymous luid => s.addToken (anonymousToken luid) none
  | .duplicate i luid primary impersonationLevel =>
    match s.tokens[i]?, s.governing[i]? with
    | some token, some dacl =>
      match sepDuplicateToken luid token primary impersonationLevel with
      | .ok token => s.addToken token dacl
      | .error _ => s
    | _, _ => s
  | .filter i luid sidsToDisable privilegesToDelete =>
    match s.tokens[i]?, s.governing[i]? with
    | some token, some dacl =>
      s.addToken (ntFilterToken luid token sidsToDisable privilegesToDelete) dacl
    | _, _ => s
  | .setDefaultDacl i luid length acl =>
    match s.tokens[i]? with
    | some token =>
      match ntSetDefaultDacl luid token length acl with
      | .ok token =>
        { s with
          tokens := s.tokens.set i token
          governing := s.governing.set i (newDefault acl) }
      | .error _ => s
    | none => s
  | .createObject i user =>
    match s.tokens[i]? with
    | some token =>
      match seCaptureObjectSecurity token user with
      | .ok sd => { s with objects := s.objects ++ [sd] }
      | .error _ => s
    | none => s
  | .setSecurity i j info user =>
    match s.tokens[i]?, s.objects[j]? with
    | some token, some stored =>
      match ntSetSecurityObject token stored info user with
      | .ok sd => { s with objects := s.objects.set j (some sd) }
      | .error _ => s
    | _, _ => s

def booted : System where
  tokens := [sepCreateAdminToken 1001 3]
  governing := [some adminDefaultDacl]
  objects := []

inductive Reached (admitted : System → Op → Prop) : System → Prop
  | booted : Reached admitted booted
  | step {s : System} {op : Op} : Reached admitted s → admitted s op → Reached admitted (step s op)

/-- What the walk over the entries of a list reads: the place and the length of each piece. -/
def aceReads (acl : List UInt8) : Nat → Nat → List (Nat × Nat)
  | 0, _ => []
  | n + 1, offset =>
    (offset, 4) ::
    (if !isInheritOnly acl offset ∧ aceType acl offset ∈ [accessAllowedAceType, accessDeniedAceType]
      then [(offset + 4, 4), (offset + 8, 8 + 4 * byteAt acl (offset + 9))] else []) ++
    aceReads acl n (offset + aceSize acl offset)

def walkReads (acl : List UInt8) : List (Nat × Nat) := (0, 8) :: aceReads acl (aceCount acl) 8

def Walkable (acl : List UInt8) : Prop :=
  sepIsValidAcl acl acl.length = true ∧ ∀ r ∈ walkReads acl, r.1 + r.2 ≤ acl.length

def ObjectsWalkable (s : System) : Prop :=
  ∀ (j : Nat) (sd : Descriptor), s.objects[j]? = some (some sd) → sd.dacl ≠ [] → Walkable sd.dacl

/-- The services with lists that are well formed and fit a reply, and with no descriptor that takes
its DACL from a token on which one was set. -/
def Op.Admitted (s : System) : Op → Prop
  | .setDefaultDacl _ _ _ acl => ∀ memory, acl = some memory →
    sepIsValidAcl (memory.take (aclSize memory)) (aclSize memory) = true ∧
      tokenDefaultDaclSize + aclSize memory ≤ sepQueryReplyMax
  | .createObject i (some user) => user.control &&& seDaclPresent = 0 →
    ∀ token, s.tokens[i]? = some token → token.defaultDaclOverride = none
  | .setSecurity i j info _ => info.dacl = false →
    ∀ stored, s.objects[j]? = some stored → stored.any Descriptor.daclPresent = false →
    ∀ token, s.tokens[i]? = some token → token.defaultDaclOverride = none
  | _ => True

variable {acl : List UInt8} {n offset : Nat}

theorem aceReads_inside (h : validAces acl n offset = true) :
    ∀ r ∈ aceReads acl n offset, r.1 + r.2 ≤ aclSize acl := by
  induction n generalizing offset with
  | zero => intro r hr; cases hr
  | succ n ih =>
    simp only [validAces, sepIsValidSid, Bool.and_eq_true, decide_eq_true_eq] at h
    obtain ⟨⟨⟨⟨⟨⟨hheader, -⟩, hend⟩, -⟩, hlong⟩, ⟨-, hsid⟩⟩, hrest⟩ := h
    intro r hr
    rw [aceReads, cons_append] at hr
    rcases mem_cons.mp hr with rfl | hr
    · exact hheader
    · rcases mem_append.mp hr with hhere | hr
      · split at hhere
        · rcases mem_cons.mp hhere with rfl | hhere
          · simp only
            omega
          · cases mem_singleton.mp hhere
            simp only [Nat.add_assoc, Nat.reduceAdd] at hsid ⊢
            omega
        · cases hhere
      · exact ih hrest r hr

theorem walkable_of_valid (h : sepIsValidAcl acl acl.length = true) : Walkable acl := by
  refine ⟨h, ?_⟩
  simp only [sepIsValidAcl, Bool.and_eq_true, decide_eq_true_eq] at h
  obtain ⟨⟨⟨⟨⟨⟨hlong, -⟩, -⟩, -⟩, -⟩, hsize⟩, haces⟩ := h
  intro r hr
  rcases mem_cons.mp hr with rfl | hr
  · simp only
    omega
  · exact (aceReads_inside haces r hr).trans hsize

theorem ne_nil_of_valid (h : sepIsValidAcl acl acl.length = true) : acl ≠ [] := by
  rintro rfl
  cases h

theorem kiCopyFromUser_ok {memory bytes : List UInt8} (h : kiCopyFromUser memory n = .ok bytes) :
    bytes = memory.take n ∧ bytes.length = n := by
  simp only [kiCopyFromUser] at h
  split at h
  · rename_i hle
    cases h
    exact ⟨rfl, by rw [length_take]; omega⟩
  · cases h

theorem sepCaptureAcl_valid {memory bytes : List UInt8} (h : sepCaptureAcl memory = .ok bytes) :
    sepIsValidAcl bytes bytes.length = true := by
  simp only [sepCaptureAcl] at h
  obtain ⟨_, -, h⟩ := Outcome.bind_eq_ok h
  split at h
  · cases h
  · obtain ⟨copied, hcopy, h⟩ := Outcome.bind_eq_ok h
    split at h
    · rename_i hvalid
      cases h
      rw [(kiCopyFromUser_ok hcopy).2]
      exact hvalid
    · cases h

theorem sepCaptureSecurityDescriptor_ok {user : UserDescriptor} {sd : Descriptor}
    (h : sepCaptureSecurityDescriptor user = .ok sd) :
    sd.control = user.control &&& ~~~seSelfRelative ∧ (sd.dacl ≠ [] → Walkable sd.dacl) := by
  simp only [sepCaptureSecurityDescriptor] at h
  split at h
  · cases h
  · obtain ⟨owner, -, h⟩ := Outcome.bind_eq_ok h
    obtain ⟨group, -, h⟩ := Outcome.bind_eq_ok h
    obtain ⟨sacl, -, h⟩ := Outcome.bind_eq_ok h
    obtain ⟨dacl, hdacl, h⟩ := Outcome.bind_eq_ok h
    cases h
    refine ⟨rfl, fun hne => ?_⟩
    cases dacl with
    | none => exact absurd rfl hne
    | some bytes =>
      generalize (if user.control &&& seDaclPresent ≠ 0 then user.dacl else none) = part at hdacl
      cases part with
      | none => cases hdacl
      | some memory =>
        obtain ⟨copied, hcopied, hsome⟩ := Outcome.map_eq_ok hdacl
        cases hsome
        exact walkable_of_valid (sepCaptureAcl_valid hcopied)

variable {stored : Option Descriptor} {info : SecurityInformation} {incoming : Descriptor}

theorem dacl_apply (token : Token) (stored : Option Descriptor) (info : SecurityInformation)
    (incoming : Descriptor) :
    (sepApplySecurityDescriptor token stored info incoming).dacl =
      (mergedDacl token stored info incoming).acl := rfl

/-- The DACL of a new descriptor is the incoming one, the stored one, or that of the token, of which
the whole is taken or nothing. -/
theorem mergedDacl_walkable {token : Token}
    (hincoming : incoming.dacl ≠ [] → Walkable incoming.dacl)
    (hstored : ∀ sd, stored = some sd → sd.dacl ≠ [] → Walkable sd.dacl)
    (htoken : ∀ dacl, sepTokenDefaultDacl token = some dacl → Walkable dacl)
    (hinline : token.defaultDaclOverride ≠ none → token.defaultDacl = []) :
    (mergedDacl token stored info incoming).acl ≠ [] →
      Walkable (mergedDacl token stored info incoming).acl := by
  simp only [mergedDacl]
  split
  · exact hincoming
  · split
    · rename_i sd hsome
      exact hstored sd (filter_eq_some_iff.mp hsome).1
    · split
      · rename_i dacl hdacl
        intro hne
        cases hoverride : token.defaultDaclOverride with
        | some _ =>
          rw [hinline (by rw [hoverride]; exact some_ne_none _)] at hne
          exact absurd rfl hne
        | none =>
          have hwhole : dacl.take token.defaultDacl.length = dacl := by
            rw [sepTokenDefaultDacl, hoverride] at hdacl
            simp only at hdacl
            split at hdacl
            · cases hdacl
              exact take_length
            · cases hdacl
          simp only [hwhole]
          exact htoken dacl hdacl
      · exact fun h => absurd rfl h

structure TokenOk (token : Token) (dacl : Option (List UInt8)) : Prop where
  governs : sepTokenDefaultDacl token = dacl
  inline : token.defaultDaclOverride ≠ none → token.defaultDacl = []
  valid : ∀ list, dacl = some list → sepIsValidAcl list list.length = true ∧
    tokenDefaultDaclSize + list.length ≤ sepQueryReplyMax

structure Inv (s : System) : Prop where
  tokens : List.Forall₂ TokenOk s.tokens s.governing
  objects : ObjectsWalkable s

variable {s : System} {token : Token} {dacl : Option (List UInt8)}

theorem TokenOk.walkable (h : TokenOk token dacl) (list : List UInt8)
    (hl : sepTokenDefaultDacl token = some list) : Walkable list :=
  walkable_of_valid (h.valid list (h.governs.symm.trans hl)).1

theorem TokenOk.query (h : TokenOk token dacl) {length : Nat}
    (hlength : tokenDefaultDaclSize + (dacl.getD []).length ≤ length) :
    ntQueryDefaultDacl token length = .reply dacl := by
  have hlen : sepTokenDefaultDaclLength token = (dacl.getD []).length := by
    rw [← h.governs, sepTokenDefaultDaclLength, sepTokenDefaultDacl]
    split
    · rfl
    · split
      · rfl
      · rename_i hzero
        simpa using hzero
  have hfits : tokenDefaultDaclSize + (dacl.getD []).length ≤ sepQueryReplyMax := by
    cases dacl with
    | none => decide
    | some list => exact (h.valid list rfl).2
  simp only [ntQueryDefaultDacl, hlen]
  rw [if_neg (by omega), if_neg (by omega), h.governs]
  cases dacl with
  | none => rfl
  | some list =>
    have hne := ne_nil_of_valid (h.valid list rfl).1
    rw [if_pos]
    rw [getD_some]
    exact fun hzero => hne (eq_nil_of_length_eq_zero hzero)

theorem TokenOk.derived (h : TokenOk token dacl) {token' : Token}
    (hdacl : token'.defaultDacl = (sepTokenDefaultDacl token).getD [])
    (hoverride : token'.defaultDaclOverride = none) : TokenOk token' dacl := by
  refine ⟨?_, fun hne => absurd hoverride hne, h.valid⟩
  rw [sepTokenDefaultDacl, hoverride, hdacl, h.governs]
  cases dacl with
  | none => rfl
  | some list =>
    have hne := ne_nil_of_valid (h.valid list rfl).1
    simp only [getD_some]
    rw [if_pos fun hzero => hne (eq_nil_of_length_eq_zero hzero)]

theorem tokenOk_setDefaultDacl {luid : UInt64} {length : Nat} {acl : Option (List UInt8)}
    {token' : Token} (h : ntSetDefaultDacl luid token length acl = .ok token')
    (hadm : ∀ memory, acl = some memory →
      sepIsValidAcl (memory.take (aclSize memory)) (aclSize memory) = true ∧
        tokenDefaultDaclSize + aclSize memory ≤ sepQueryReplyMax) :
    TokenOk token' (newDefault acl) := by
  simp only [ntSetDefaultDacl] at h
  split at h
  · cases h
  · cases acl with
    | none =>
      cases h
      exact ⟨rfl, fun _ => rfl, fun list hl => by cases hl⟩
    | some memory =>
      obtain ⟨_, -, h⟩ := Outcome.bind_eq_ok h
      split at h
      · cases h
      · obtain ⟨newDacl, hnew, h⟩ := Outcome.bind_eq_ok h
        cases h
        obtain ⟨bytes, hcopy, hsome⟩ := Outcome.map_eq_ok hnew
        obtain ⟨hbytes, hlen⟩ := kiCopyFromUser_ok hcopy
        cases hsome
        obtain ⟨hvalid, hfits⟩ := hadm memory rfl
        rw [← hbytes] at hvalid
        refine ⟨by rw [newDefault, map_some, ← hbytes]; rfl, fun _ => rfl, ?_⟩
        intro list hl
        rw [newDefault, map_some, ← hbytes] at hl
        cases hl
        exact ⟨by rw [hlen]; exact hvalid, by rw [hlen]; exact hfits⟩

theorem tokenOk_get (h : Inv s) {i : Nat} (ht : s.tokens[i]? = some token)
    (hd : s.governing[i]? = some dacl) : TokenOk token dacl := by
  obtain ⟨hi, rfl⟩ := List.getElem?_eq_some_iff.mp ht
  obtain ⟨hi', rfl⟩ := List.getElem?_eq_some_iff.mp hd
  exact List.forall₂_iff_get.mp h.tokens |>.2 i hi hi'

theorem Inv.addToken (h : Inv s) (ht : TokenOk token dacl) : Inv (s.addToken token dacl) :=
  ⟨rel_append h.tokens (.cons ht .nil), h.objects⟩

theorem forall₂_set {α β : Type} {R : α → β → Prop} {as : List α} {bs : List β} {a : α} {b : β}
    (h : List.Forall₂ R as bs) (hab : R a b) (i : Nat) : List.Forall₂ R (as.set i a) (bs.set i b) := by
  induction h generalizing i with
  | nil => exact .nil
  | cons hhead htail ih =>
    cases i with
    | zero => exact .cons hab htail
    | succ i => exact .cons hhead (ih i)

theorem ObjectsWalkable.set {sd : Descriptor} (h : ObjectsWalkable s) (j : Nat)
    (hsd : sd.dacl ≠ [] → Walkable sd.dacl) :
    ObjectsWalkable { s with objects := s.objects.set j (some sd) } := by
  intro k sd' hk
  rw [getElem?_set] at hk
  split at hk
  · split at hk
    · cases hk
      exact hsd
    · cases hk
  · exact h k sd' hk

theorem ObjectsWalkable.append {sd : Option Descriptor} (h : ObjectsWalkable s)
    (hsd : ∀ sd', sd = some sd' → sd'.dacl ≠ [] → Walkable sd'.dacl) :
    ObjectsWalkable { s with objects := s.objects ++ [sd] } := by
  intro k sd' hk
  rw [getElem?_append] at hk
  split at hk
  · exact h k sd' hk
  · obtain rfl := mem_singleton.mp (mem_of_getElem? hk)
    exact hsd sd' rfl

theorem TokenOk.apply_walkable (h : TokenOk token dacl)
    (hincoming : incoming.dacl ≠ [] → Walkable incoming.dacl)
    (hstored : ∀ sd, stored = some sd → sd.dacl ≠ [] → Walkable sd.dacl) :
    (sepApplySecurityDescriptor token stored info incoming).dacl ≠ [] →
      Walkable (sepApplySecurityDescriptor token stored info incoming).dacl := by
  rw [dacl_apply]
  exact mergedDacl_walkable hincoming hstored h.walkable h.inline

theorem TokenOk.seCaptureObjectSecurity (h : TokenOk token dacl) {user : Option UserDescriptor}
    {sd : Option Descriptor} (hok : seCaptureObjectSecurity token user = .ok sd) :
    ∀ sd', sd = some sd' → sd'.dacl ≠ [] → Walkable sd'.dacl := by
  cases user with
  | none =>
    cases hok
    intro sd' hsd
    cases hsd
  | some user =>
    obtain ⟨incoming, hcapture, hok⟩ := Outcome.bind_eq_ok hok
    cases hok
    rintro sd' ⟨⟩
    exact h.apply_walkable (sepCaptureSecurityDescriptor_ok hcapture).2 fun sd hsd => by cases hsd

theorem ntSetSecurityObject_ok
    {user : UserDescriptor} {sd : Descriptor} (h : ntSetSecurityObject token stored info user = .ok sd) :
    ∃ incoming : Descriptor, (incoming.dacl ≠ [] → Walkable incoming.dacl) ∧
      sd = sepApplySecurityDescriptor token stored info incoming := by
  simp only [ntSetSecurityObject] at h
  obtain ⟨incoming, hcapture, h⟩ := Outcome.bind_eq_ok h
  split at h
  · cases h
  · split at h
    · cases h
    · cases h
      refine ⟨{ incoming with control := _ }, ?_, rfl⟩
      exact (sepCaptureSecurityDescriptor_ok hcapture).2

theorem exists_tokenOk (h : Inv s) {i : Nat} (ht : s.tokens[i]? = some token) :
    ∃ dacl, s.governing[i]? = some dacl ∧ TokenOk token dacl := by
  have hlt : i < s.governing.length := by
    rw [← h.tokens.length_eq]
    exact (List.getElem?_eq_some_iff.mp ht).1
  have hd : s.governing[i]? = some s.governing[i] := getElem?_eq_getElem hlt
  exact ⟨_, hd, tokenOk_get h ht hd⟩

theorem tokenOk_grantAdmin (luid : UInt64) (elevationType : Int) :
    TokenOk (sepCreateAdminToken luid elevationType) (some adminDefaultDacl) := by
  refine ⟨rfl, fun hne => absurd rfl hne, ?_⟩
  rintro list ⟨⟩
  exact ⟨by decide, by decide⟩

theorem tokenOk_anonymous (luid : UInt64) : TokenOk (anonymousToken luid) none :=
  ⟨rfl, fun _ => rfl, fun list hl => by cases hl⟩

theorem inv_booted : Inv booted where
  tokens := .cons (tokenOk_grantAdmin 1001 3) .nil
  objects := by
    intro j sd hj
    cases hj

theorem inv_step {op : Op} (h : Inv s) (hop : op.Admitted s) : Inv (step s op) := by
  cases op with
  | grantAdmin luid elevationType => exact h.addToken (tokenOk_grantAdmin luid elevationType)
  | impersonateAnonymous luid => exact h.addToken (tokenOk_anonymous luid)
  | duplicate i luid primary impersonationLevel =>
    simp only [step]
    split
    · rename_i token dacl ht hd
      split
      · rename_i token' hdup
        simp only [sepDuplicateToken] at hdup
        split at hdup
        · cases hdup
        · cases hdup
          exact h.addToken ((tokenOk_get h ht hd).derived rfl rfl)
      · exact h
    · exact h
  | filter i luid sidsToDisable privilegesToDelete =>
    simp only [step]
    split
    · rename_i token dacl ht hd
      exact h.addToken ((tokenOk_get h ht hd).derived rfl rfl)
    · exact h
  | setDefaultDacl i luid length acl =>
    simp only [step]
    split
    · split
      · rename_i token' hset
        exact ⟨forall₂_set h.tokens (tokenOk_setDefaultDacl hset hop) i, h.objects⟩
      · exact h
    · exact h
  | createObject i user =>
    simp only [step]
    split
    · rename_i token ht
      obtain ⟨dacl, -, hok⟩ := exists_tokenOk h ht
      split
      · rename_i sd hsd
        exact ⟨h.tokens, h.objects.append (hok.seCaptureObjectSecurity hsd)⟩
      · exact h
    · exact h
  | setSecurity i j info user =>
    simp only [step]
    split
    · rename_i token stored ht hj
      obtain ⟨dacl, -, hok⟩ := exists_tokenOk h ht
      split
      · rename_i sd hsd
        obtain ⟨incoming, hincoming, rfl⟩ := ntSetSecurityObject_ok hsd
        refine ⟨h.tokens, h.objects.set j (hok.apply_walkable hincoming ?_)⟩
        rintro sd rfl
        exact h.objects j sd hj
      · exact h
    · exact h

theorem Reached.inv (h : Reached Op.Admitted s) : Inv s := by
  induction h with
  | booted => exact inv_booted
  | step _ hop ih => exact inv_step ih hop

end Proskrnl.Se
