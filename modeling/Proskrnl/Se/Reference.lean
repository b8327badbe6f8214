import Proskrnl.Se.Compare

/-!
# What the access check grants

For a list whose deny entries precede its allow entries, the walk of `SepTokenAccessCheck` comes to two
unions of masks: what the entries that match the token deny (`denied`), and what they allow
(`allowed`). A request for the rights of the owner alone is granted whatever is denied; any other one is
granted where nothing of it is denied and all of it is the owner's or allowed.
-/

namespace Proskrnl.Se
open List

/-! ## The entries that match -/

/-- An entry that takes part in the check of a token, with its mask mapped. -/
structure Match where
  deny : Bool
  access : Mask
  deriving DecidableEq

def matched (token : Token) (acl : List UInt8) (mapping : GenericMapping) (offset : Nat) :
    Option Match :=
  if isInheritOnly acl offset then none
  else if aceType acl offset = accessDeniedAceType ∧
      sepTokenSidPresent token (aceSid acl offset) true then
    some ⟨true, sepMapAccess (aceMask acl offset) mapping⟩
  else if aceType acl offset = accessAllowedAceType ∧
      sepTokenSidPresent token (aceSid acl offset) false then
    some ⟨false, sepMapAccess (aceMask acl offset) mapping⟩
  else none

def aceOffsets (acl : List UInt8) : Nat → Nat → List Nat
  | 0, _ => []
  | n + 1, offset => offset :: aceOffsets acl n (offset + aceSize acl offset)

def matches_ (token : Token) (acl : List UInt8) (mapping : GenericMapping) : List Match :=
  (aceOffsets acl (aceCount acl) 8).filterMap (matched token acl mapping)

/-- The deny entries come before the allow entries; those that are inherit-only are anywhere. -/
def Canonical (acl : List UInt8) : Prop :=
  ((aceOffsets acl (aceCount acl) 8).filter fun offset => !isInheritOnly acl offset).Pairwise
    fun a b => aceType acl a = accessAllowedAceType → aceType acl b ≠ accessDeniedAceType

instance (acl : List UInt8) : Decidable (Canonical acl) :=
  inferInstanceAs (Decidable (List.Pairwise _ _))

def named (deny : Bool) (l : List Match) : Mask :=
  l.foldr (fun m bits => if m.deny = deny then m.access ||| bits else bits) 0

variable {a b : Mask} {token : Token} {acl : List UInt8} {mapping : GenericMapping} {desired c d bit : Mask}
  {l : List Match} {t : Tally} {owner group : Sid} {sd : Descriptor}

theorem Canonical.matches_ (h : Canonical acl) (token : Token) (mapping : GenericMapping) :
    (matches_ token acl mapping).Pairwise fun a b => b.deny = true → a.deny = true := by
  have hkind {offset : Nat} {m : Match} (hm : matched token acl mapping offset = some m) :
      isInheritOnly acl offset = false ∧
        (m.deny = true → aceType acl offset = accessDeniedAceType) ∧
        (m.deny = false → aceType acl offset = accessAllowedAceType) := by
    unfold matched at hm
    split at hm
    · cases hm
    · rename_i hinherit
      refine ⟨Bool.eq_false_iff.mpr hinherit, ?_⟩
      split at hm
      · rename_i hdeny
        cases hm
        exact ⟨fun _ => hdeny.1, nofun⟩
      · split at hm
        · rename_i hallow
          cases hm
          exact ⟨nofun, fun _ => hallow.1⟩
        · cases hm
  refine pairwise_filterMap.mpr ?_
  refine (pairwise_filter.mp h).imp ?_
  intro a b hab m hm m' hm' hdeny
  obtain ⟨ha, -, hallow⟩ := hkind hm
  obtain ⟨hb, hdenied, -⟩ := hkind hm'
  by_contra hnot
  exact hab (by rw [ha]; rfl) (by rw [hb]; rfl) (hallow (Bool.eq_false_iff.mpr hnot)) (hdenied hdeny)

/-! ## The two walks -/

def implicitAccess (token : Token) (owner : Sid) : Mask :=
  if sepTokenSidPresent token owner false then standardRightsRequired ||| synchronize else 0

/-- What a token has before the walk: the right to the system list is asked for by name. -/
def baseAccess (token : Token) (owner : Sid) (desired : Mask) : Mask :=
  desired &&& accessSystemSecurity ||| implicitAccess token owner

def deniedAccess (token : Token) (acl : List UInt8) (mapping : GenericMapping) : Mask :=
  named true (matches_ token acl mapping)

def allowedAccess (token : Token) (acl : List UInt8) (mapping : GenericMapping) : Mask :=
  named false (matches_ token acl mapping)

/-- A request that asks for the system list is one of a holder of the privilege. -/
def Privileged (token : Token) (desired : Mask) : Prop :=
  desired.has accessSystemSecurity = true →
    sepTokenCheckPrivileges token true [seSecurityPrivilege] = true

/-- What a request for named rights has to meet. -/
def Granted (token : Token) (owner : Sid) (acl : List UInt8) (mapping : GenericMapping)
    (desired : Mask) : Prop :=
  desired ≠ 0 ∧ Privileged token desired ∧
    (desired.Within (baseAccess token owner desired) ∨
      desired.has (deniedAccess token acl mapping) = false ∧
      desired.Within (baseAccess token owner desired ||| allowedAccess token acl mapping))

variable {i : Nat}

theorem has_eq_false_of_within {x part : Mask} (hx : desired.has x = false)
    (hpart : part.Within desired) : part.has x = false := by
  simp only [Mask.has, bne_eq_false_iff_eq] at hx ⊢
  refine Mask.Within.eq_zero fun i hi => ?_
  rw [← hx]
  rw [BitVec.getLsbD_and, Bool.and_eq_true] at hi ⊢
  exact ⟨hpart i hi.1, hi.2⟩

theorem Granted.mono {part : Mask} (h : Granted token owner acl mapping desired)
    (hpart : part.Within desired) (hzero : part ≠ 0) : Granted token owner acl mapping part := by
  obtain ⟨-, hprivileged, hcovered⟩ := h
  have hsystem (x : Mask) (hx : desired.Within (baseAccess token owner desired ||| x)) :
      part.Within (baseAccess token owner part ||| x) := by
    intro i hi
    have hbit := hx i (hpart i hi)
    simp only [baseAccess, BitVec.getLsbD_or, BitVec.getLsbD_and, hi, hpart i hi, Bool.true_and] at hbit ⊢
    exact hbit
  refine ⟨hzero, fun hpriv => hprivileged ?_, ?_⟩
  · by_contra hno
    rw [has_eq_false_of_within (Bool.eq_false_iff.mpr hno) hpart] at hpriv
    cases hpriv
  · refine hcovered.imp (fun h => ?_) fun h => ⟨has_eq_false_of_within h.1 hpart, hsystem _ h.2⟩
    have := hsystem 0 (by rwa [BitVec.ofNat_eq_ofNat, BitVec.or_zero])
    rwa [BitVec.ofNat_eq_ofNat, BitVec.or_zero] at this

end Proskrnl.Se
