import Proskrnl.Se.Access

/-!
# Two tokens in the access check

A token set against another one. The comparison of two walks over one list needs three facts: which
`SID`s count for allow entries, which for deny entries, and which privileges are held.
-/

namespace Proskrnl.Se

def Mask.Within (a b : Mask) : Prop := ∀ i, a.getLsbD i = true → b.getLsbD i = true

variable {a b c d : Mask}

theorem Mask.Within.refl (a : Mask) : a.Within a := fun _ h => h

theorem Mask.Within.trans (h : a.Within b) (h' : b.Within c) : a.Within c :=
  fun i hi => h' i (h i hi)

theorem Mask.within_or_left (a b : Mask) : a.Within (a ||| b) := by
  intro i hi
  rw [BitVec.getLsbD_or, hi, Bool.true_or]

theorem Mask.Within.or (h : a.Within b) (h' : c.Within d) : (a ||| c).Within (b ||| d) := by
  intro i hi
  rw [BitVec.getLsbD_or, Bool.or_eq_true] at hi ⊢
  exact hi.imp (h i) (h' i)

theorem Mask.Within.diff (h : a.Within b) (h' : d.Within c) :
    (a &&& ~~~c).Within (b &&& ~~~d) := by
  intro i hi
  rw [BitVec.getLsbD_and, BitVec.getLsbD_not, Bool.and_eq_true, Bool.and_eq_true] at hi ⊢
  refine ⟨h i hi.1, hi.2.1, ?_⟩
  cases hd : d.getLsbD i with
  | false => rfl
  | true => rw [h' i hd] at hi; exact hi.2.2

theorem Mask.Within.eq_zero (h : a.Within 0) : a = 0 := by
  refine BitVec.eq_of_getLsbD_eq fun i _ => ?_
  have hzero : (0 : Mask).getLsbD i = false := BitVec.getLsbD_zero
  cases hi : a.getLsbD i with
  | false => exact hzero.symm
  | true => exact absurd (h i hi) (by rw [hzero]; decide)

theorem Mask.Within.ne_zero (h : a.Within b) (ha : a ≠ 0) : b ≠ 0 := by
  rintro rfl
  exact ha h.eq_zero

theorem Mask.Within.covers (h : a.Within b) (ha : a &&& c = c) : b &&& c = c := by
  refine BitVec.eq_of_getLsbD_eq fun i _ => ?_
  rw [BitVec.getLsbD_and]
  cases hc : c.getLsbD i with
  | false => rw [Bool.and_false]
  | true =>
    have hi : a.getLsbD i = true := by
      rw [← ha, BitVec.getLsbD_and, Bool.and_eq_true] at hc
      exact hc.1
    rw [h i hi, Bool.true_and]

/-- A token set against its source, as far as deny entries for the `SID`s of a set are concerned. -/
structure Below (denied : Sid → Prop) (derived source : Token) : Prop where
  allow : ∀ sid, sepTokenSidPresent derived sid false = true →
    sepTokenSidPresent source sid false = true
  deny : ∀ sid, denied sid → sepTokenSidPresent source sid true = true →
    sepTokenSidPresent derived sid true = true
  privilege : ∀ luid, holdsPrivilege derived luid = true → holdsPrivilege source luid = true

variable {denied : Sid → Prop} {derived source middle : Token}

theorem Below.refl (token : Token) : Below denied token token :=
  ⟨fun _ h => h, fun _ _ h => h, fun _ h => h⟩

/-- The `SID`s that the deny entries of a list name, inherit-only ones apart. -/
def aclDeniedSids (acl : List UInt8) : Nat → Nat → List Sid
  | 0, _ => []
  | n + 1, offset =>
    (if !isInheritOnly acl offset ∧ aceType acl offset = accessDeniedAceType then
      [aceSid acl offset] else []) ++ aclDeniedSids acl n (offset + aceSize acl offset)

def Descriptor.deniedSids (sd : Descriptor) : List Sid :=
  aclDeniedSids sd.dacl (aceCount sd.dacl) 8

structure Tally.Below (derived source : Tally) : Prop where
  current : derived.current.Within source.current
  denied : source.denied.Within derived.denied

variable {acl : List UInt8} {mapping : GenericMapping} {desired : Mask} {offset n : Nat}
  {t t' : Tally}

/-! An entry by its type and by whether its `SID` counts. -/

theorem checkAce_denied {token : Token} (htype : aceType acl offset = accessDeniedAceType)
    (hs : sepTokenSidPresent token (aceSid acl offset) true = true) :
    checkAce token acl mapping desired offset t =
      if desired.has maximumAllowed then
        ({ t with denied := t.denied ||| sepMapAccess (aceMask acl offset) mapping }, false)
      else ({ t with denied := t.denied ||| (sepMapAccess (aceMask acl offset) mapping &&&
        ~~~t.current) }, desired.has (sepMapAccess (aceMask acl offset) mapping)) := by
  simp only [checkAce]
  rw [if_pos ⟨htype, hs⟩]

theorem checkAce_allowed {token : Token} (htype : aceType acl offset = accessAllowedAceType)
    (hs : sepTokenSidPresent token (aceSid acl offset) false = true) :
    checkAce token acl mapping desired offset t =
      if desired.has maximumAllowed then
        ({ t with current := t.current ||| sepMapAccess (aceMask acl offset) mapping }, false)
      else ({ t with current := t.current ||| (sepMapAccess (aceMask acl offset) mapping &&&
        ~~~t.denied) }, false) := by
  have hdeny : ¬ aceType acl offset = accessDeniedAceType := by rw [htype]; decide
  simp only [checkAce]
  rw [if_neg fun h => hdeny h.1, if_pos ⟨htype, hs⟩]

theorem checkAce_skipped (token : Token)
    (hdeny : aceType acl offset = accessDeniedAceType →
      sepTokenSidPresent token (aceSid acl offset) true = false)
    (hallow : aceType acl offset = accessAllowedAceType →
      sepTokenSidPresent token (aceSid acl offset) false = false) :
    checkAce token acl mapping desired offset t = (t, false) := by
  have hdeny' : ¬ (aceType acl offset = accessDeniedAceType ∧
      sepTokenSidPresent token (aceSid acl offset) true = true) := by
    rintro ⟨htype, hs⟩
    rw [hdeny htype] at hs
    cases hs
  have hallow' : ¬ (aceType acl offset = accessAllowedAceType ∧
      sepTokenSidPresent token (aceSid acl offset) false = true) := by
    rintro ⟨htype, hs⟩
    rw [hallow htype] at hs
    cases hs
  simp only [checkAce]
  rw [if_neg hdeny', if_neg hallow']

/-- An entry for both tokens. Where the source's walk ends the derived one's does. -/
theorem Below.checkAce (h : Below denied derived source) (mapping : GenericMapping)
    (desired : Mask) (ht : t'.Below t)
    (hd : aceType acl offset = accessDeniedAceType → denied (aceSid acl offset)) :
    (checkAce derived acl mapping desired offset t').1.Below
      (checkAce source acl mapping desired offset t).1 ∧
    ((checkAce source acl mapping desired offset t).2 = true →
      (checkAce derived acl mapping desired offset t').2 = true) := by
  by_cases hdeny : aceType acl offset = accessDeniedAceType
  · have hallow : ¬ aceType acl offset = accessAllowedAceType := by rw [hdeny]; decide
    cases hs : sepTokenSidPresent source (aceSid acl offset) true with
    | true =>
      rw [checkAce_denied hdeny hs, checkAce_denied hdeny (h.deny _ (hd hdeny) hs)]
      split
      · exact ⟨⟨ht.current, ht.denied.or (.refl _)⟩, fun h => h⟩
      · exact ⟨⟨ht.current, ht.denied.or (Mask.Within.diff (.refl _) ht.current)⟩, fun h => h⟩
    | false =>
      rw [checkAce_skipped source (fun _ => hs) fun h => absurd h hallow]
      refine ⟨?_, fun h => by cases h⟩
      -- the entry may count for the derived token only
      cases hs' : sepTokenSidPresent derived (aceSid acl offset) true with
      | true =>
        rw [checkAce_denied hdeny hs']
        split
        · exact ⟨ht.current, ht.denied.trans (Mask.within_or_left _ _)⟩
        · exact ⟨ht.current, ht.denied.trans (Mask.within_or_left _ _)⟩
      | false =>
        rw [checkAce_skipped derived (fun _ => hs') fun h => absurd h hallow]
        exact ht
  · by_cases hallow : aceType acl offset = accessAllowedAceType
    · cases hs' : sepTokenSidPresent derived (aceSid acl offset) false with
      | true =>
        rw [checkAce_allowed hallow hs', checkAce_allowed hallow (h.allow _ hs')]
        split
        · exact ⟨⟨ht.current.or (.refl _), ht.denied⟩, fun h => h⟩
        · exact ⟨⟨ht.current.or (Mask.Within.diff (.refl _) ht.denied), ht.denied⟩, fun h => h⟩
      | false =>
        rw [checkAce_skipped derived (fun h => absurd h hdeny) fun _ => hs']
        cases hs : sepTokenSidPresent source (aceSid acl offset) false with
        | true =>
          rw [checkAce_allowed hallow hs]
          split
          · exact ⟨⟨ht.current.trans (Mask.within_or_left _ _), ht.denied⟩, fun h => h⟩
          · exact ⟨⟨ht.current.trans (Mask.within_or_left _ _), ht.denied⟩, fun h => h⟩
        | false =>
          rw [checkAce_skipped source (fun h => absurd h hdeny) fun _ => hs]
          exact ⟨ht, fun h => h⟩
    · rw [checkAce_skipped derived (fun h => absurd h hdeny) fun h => absurd h hallow,
        checkAce_skipped source (fun h => absurd h hdeny) fun h => absurd h hallow]
      exact ⟨ht, fun h => h⟩

theorem current_within_checkAce (token : Token) :
    t.current.Within (checkAce token acl mapping desired offset t).1.current := by
  unfold Se.checkAce
  split
  · split <;> exact .refl _
  · split
    · split <;> exact Mask.within_or_left _ _
    · exact .refl _

theorem current_within_walkAces (token : Token) :
    t.current.Within (walkAces token acl mapping desired n offset t).current := by
  induction n generalizing offset t with
  | zero => exact .refl _
  | succ n ih =>
    simp only [walkAces]
    split
    · exact ih
    · split
      · exact current_within_checkAce token
      · exact (current_within_checkAce token).trans ih

theorem checkAce_maximum (token : Token) (h : desired.has maximumAllowed = true) :
    (checkAce token acl mapping desired offset t).2 = false := by
  simp only [Se.checkAce]
  rw [if_pos h, if_pos h]
  split
  · rfl
  · split <;> rfl

theorem ne_zero_of_maximum (h : desired.has maximumAllowed = true) : desired ≠ 0 := by
  rintro rfl
  exact absurd h (by decide)

/-- The two walks. The derived one may end before the source's, which goes on gathering. -/
theorem Below.walkAces (h : Below denied derived source) (mapping : GenericMapping)
    (desired : Mask) (ht : t'.Below t)
    (hd : ∀ sid ∈ aclDeniedSids acl n offset, denied sid) :
    (walkAces derived acl mapping desired n offset t').current.Within
        (walkAces source acl mapping desired n offset t).current ∧
      (desired.has maximumAllowed = true →
        (walkAces source acl mapping desired n offset t).denied.Within
          (walkAces derived acl mapping desired n offset t').denied) := by
  induction n generalizing offset t t' with
  | zero => exact ⟨ht.current, fun _ => ht.denied⟩
  | succ n ih =>
    have hrest : ∀ sid ∈ aclDeniedSids acl n (offset + aceSize acl offset), denied sid :=
      fun sid hs => hd sid (by rw [aclDeniedSids]; exact List.mem_append_right _ hs)
    simp only [Se.walkAces]
    split
    · exact ih ht hrest
    · rename_i hinherit
      have hhere : aceType acl offset = accessDeniedAceType → denied (aceSid acl offset) := by
        intro htype
        apply hd
        rw [aclDeniedSids, if_pos ⟨by simpa using hinherit, htype⟩]
        exact List.mem_append_left _ List.mem_cons_self
      obtain ⟨hace, hends⟩ := h.checkAce mapping desired ht hhere
      by_cases hsource : (Se.checkAce source acl mapping desired offset t).2 = true ∨ desired = 0
      · rw [if_pos hsource, if_pos (hsource.imp_left hends)]
        exact ⟨hace.current, fun _ => hace.denied⟩
      · rw [if_neg hsource]
        by_cases hderived : (Se.checkAce derived acl mapping desired offset t').2 = true ∨ desired = 0
        · rw [if_pos hderived]
          refine ⟨hace.current.trans (current_within_walkAces source), fun hmax => ?_⟩
          rcases hderived with hend | hzero
          · rw [checkAce_maximum derived hmax] at hend; cases hend
          · exact absurd hzero (ne_zero_of_maximum hmax)
        · rw [if_neg hderived]
          exact ih hace hrest

def AccessResult.Below (derived source : AccessResult) : Prop :=
  derived.grants = true → source.grants = true ∧ derived.granted.Within source.granted

theorem Tally.Below.tallied {privileges privileges' : List PrivilegeEntry}
    (hcurrent : t'.current.Within t.current)
    (hdenied : desired.has maximumAllowed = true → t.denied.Within t'.denied) :
    (tallied desired privileges' t').Below (tallied desired privileges t) := by
  intro hgrants
  have hne : (Se.tallied desired privileges' t').granted ≠ 0 := by
    intro hzero
    simp only [AccessResult.grants, Se.tallied] at hgrants hzero
    rw [if_neg (by rw [hzero]; exact fun h => h rfl)] at hgrants
    exact absurd hgrants (by decide)
  have hwithin : (Se.tallied desired privileges' t').granted.Within
      (Se.tallied desired privileges t).granted := by
    simp only [Se.tallied] at hne ⊢
    by_cases hmax : desired.has maximumAllowed = true
    · rw [if_pos hmax, if_pos hmax]
      exact Mask.Within.diff hcurrent (hdenied hmax)
    · rw [if_neg hmax] at hne ⊢
      rw [if_neg hmax]
      by_cases hcov : t'.current &&& desired = desired
      · rw [if_pos hcov, if_pos (hcurrent.covers hcov), hcov, hcurrent.covers hcov]
        exact .refl _
      · rw [if_neg hcov] at hne
        exact absurd rfl hne
  refine ⟨?_, hwithin⟩
  have hsource := hwithin.ne_zero hne
  simp only [AccessResult.grants, Se.tallied] at hsource ⊢
  rw [if_pos hsource]
  rfl

theorem Below.walked {privileges : List PrivilegeEntry} {current current' : Mask}
    (h : Below denied derived source) (hd : ∀ sid ∈ aclDeniedSids acl (aceCount acl) 8, denied sid)
    (hmore : current'.Within current) :
    (tallied desired privileges
        (Se.walkAces derived acl mapping desired (aceCount acl) 8 ⟨current', 0⟩)).Below
      (tallied desired privileges
        (Se.walkAces source acl mapping desired (aceCount acl) 8 ⟨current, 0⟩)) := by
  have hstart : Tally.Below ⟨current', 0⟩ ⟨current, 0⟩ := ⟨hmore, .refl _⟩
  obtain ⟨hcurrent, hdenied⟩ := h.walkAces mapping desired hstart hd
  exact Tally.Below.tallied hcurrent hdenied

theorem tallied_granted_within {privileges : List PrivilegeEntry}
    (hmax : desired.has maximumAllowed = false) :
    (tallied desired privileges t).granted.Within desired := by
  simp only [tallied, hmax, Bool.false_eq_true, if_false]
  split
  · rename_i hcov
    rw [hcov]
    exact .refl _
  · intro i hi
    have hzero : (0 : Mask).getLsbD i = false := BitVec.getLsbD_zero
    rw [hzero] at hi
    cases hi

theorem Below.checkOwner {owner : Sid} {current : Mask} {privileges : List PrivilegeEntry}
    (h : Below denied derived source) (hd : ∀ sid ∈ aclDeniedSids acl (aceCount acl) 8, denied sid)
    (hcurrent : (current ||| standardRightsRequired ||| synchronize).has maximumAllowed = false) :
    (checkOwner derived owner acl desired mapping privileges current).Below
      (checkOwner source owner acl desired mapping privileges current) := by
  simp only [Se.checkOwner]
  cases howned' : sepTokenSidPresent derived owner false with
  | true =>
    simp only [h.allow _ howned', if_true, true_and]
    split
    · exact fun hg => ⟨hg, .refl _⟩
    · exact h.walked hd (.refl _)
  | false =>
    simp only [Bool.false_eq_true, if_false, false_and]
    cases howned : sepTokenSidPresent source owner false with
    | true =>
      simp only [if_true, true_and]
      split
      · rename_i heq
        -- the source has just what is asked for; the derived token is granted no more
        intro _
        have hmax : desired.has maximumAllowed = false := by rw [heq]; exact hcurrent
        exact ⟨rfl, heq ▸ tallied_granted_within hmax⟩
      · exact h.walked hd ((Mask.within_or_left _ _).trans (Mask.within_or_left _ _))
    | false =>
      simp only [Bool.false_eq_true, if_false, false_and]
      exact h.walked hd (.refl _)

theorem Below.sepTokenAccessCheck {sd : Descriptor} {room : Bool}
    (h : Below denied derived source) (hd : ∀ sid ∈ sd.deniedSids, denied sid) :
    (sepTokenAccessCheck derived sd desired mapping room).Below
      (sepTokenAccessCheck source sd desired mapping room) := by
  unfold Se.sepTokenAccessCheck
  split
  · exact fun hg => ⟨hg, .refl _⟩
  · split
    · split
      · exact fun hg => ⟨hg, .refl _⟩
      · split
        · by_cases hprivilege : sepTokenCheckPrivileges derived true [seSecurityPrivilege] = true
          · have hsource : sepTokenCheckPrivileges source true [seSecurityPrivilege] = true := by
              simp only [sepTokenCheckPrivileges, if_true, List.countP_singleton,
                List.length_singleton] at hprivilege ⊢
              split at hprivilege
              · rename_i hholds
                rw [if_pos (h.privilege _ hholds)]
                rfl
              · cases hprivilege
            rw [if_pos hprivilege, if_pos hsource]
            split
            · exact fun hg => ⟨hg, .refl _⟩
            · split
              · exact fun hg => ⟨hg, .refl _⟩
              · exact h.checkOwner hd (by decide)
          · rw [if_neg hprivilege]
            intro hg
            exact absurd hg (by decide)
        · exact h.checkOwner hd (by decide)
    · exact fun hg => ⟨hg, .refl _⟩

end Proskrnl.Se
