import Proskrnl.Mm.Freeing

/-!
# Pages committed and taken back

The loops of `MiCommitPages` and `MiDecommitPages` page by page. A decommit that follows a commit which
ran out of frames leaves a range without committed pages as it was found: between the two every page
that has a leaf and had none is recorded as committed (`Taken`).
-/

namespace Proskrnl.Mm
open List

open Outcome (bind_eq_ok)

/-- Page `k` of a range. -/
def pageAt (base k : Nat) : Nat := base + k * pageSize

variable {base n k page protect : Nat} {w w' w0 : Walk} {status : NtStatus} {S : Nat → Prop}

theorem pageAt_zero (base : Nat) : pageAt base 0 = base := by
  rw [pageAt, Nat.zero_mul, Nat.add_zero]

theorem pageAt_succ (base k : Nat) : pageAt (base + pageSize) k = pageAt base (k + 1) := by
  rw [pageAt, pageAt, Nat.add_mul, Nat.one_mul, Nat.add_assoc, Nat.add_comm pageSize]

theorem getD_set (l : List Nat) (i j value : Nat) :
    (l.set i value).getD j 0 = if i = j ∧ i < l.length then value else l.getD j 0 := by
  rw [getD_eq_getElem?_getD, getD_eq_getElem?_getD, getElem?_set]
  by_cases hij : i = j
  · subst hij
    by_cases hlt : i < l.length
    · rw [if_pos rfl, if_pos hlt, if_pos ⟨rfl, hlt⟩]
      rfl
    · rw [if_pos rfl, if_neg hlt, if_neg fun h => hlt h.2, getElem?_eq_none (by omega)]
  · rw [if_neg hij, if_neg fun h => hij h.1]

structure Rewritten (w w' : Walk) (i value : Nat) : Prop where
  vad : w'.vad = w.vad.setProtect i value

theorem Rewritten.index (h : Rewritten w w' n k) (page : Nat) : w'.vad.index page = w.vad.index page := by
  rw [h.vad]
  rfl

theorem Rewritten.protectAt (h : Rewritten w w' n k) (j : Nat) :
    w'.vad.protectAt j =
      if n = j ∧ n < w.vad.pageProtect.length then k else w.vad.protectAt j := by
  rw [h.vad]
  exact getD_set _ _ _ _

theorem Rewritten.length (h : Rewritten w w' n k) :
    w'.vad.pageProtect.length = w.vad.pageProtect.length := by
  rw [h.vad]
  exact length_set

/-! ## One page -/

/-- A decommit of a page that is not committed does nothing; of a committed one it takes the leaf. -/
theorem decommitPage_cases (h : decommitPage page w = .ok (w', status)) :
    status = statusSuccess ∧
      ((w.vad.protectAt (w.vad.index page) = 0 ∧ w' = w) ∨
        (w.vad.protectAt (w.vad.index page) ≠ 0 ∧ (w.table page).isSome ∧
          w'.table = Function.update w.table page none ∧ w'.phys.memory = w.phys.memory ∧
          Rewritten w w' (w.vad.index page) 0)) := by
  rw [decommitPage] at h
  dsimp only at h
  split at h
  case isTrue hzero =>
    cases h
    exact ⟨rfl, .inl ⟨hzero, rfl⟩⟩
  case isFalse hcommitted =>
    split at h
    · cases h
    case h_2 pte hpte =>
      rw [miUnmapUserPage, hpte] at h
      cases h
      refine ⟨rfl, .inr ⟨hcommitted, by rw [hpte]; rfl, rfl, ?_, ⟨rfl⟩⟩⟩
      dsimp only
      split <;> rfl

/-- A commit of a page gives it a frame, gives its leaf another protection, or finds it as it is. -/
theorem commitPage_cases (h : commitPage protect page w = .ok (w', status)) :
    (status = statusNoMemory ∧ w' = w ∧ w.vad.protectAt (w.vad.index page) = 0 ∧ w.phys.free = []) ∨
    (status = statusSuccess ∧ w.vad.protectAt (w.vad.index page) = 0 ∧ w.table page = none ∧
      (∃ frame pte, w.phys.free = frame :: w'.phys.free ∧
        w'.phys.memory = Function.update w.phys.memory frame (fun _ => 0) ∧
        w'.table = Function.update w.table page (some pte)) ∧
      Rewritten w w' (w.vad.index page) protect) ∨
    (status = statusSuccess ∧ w.vad.protectAt (w.vad.index page) ≠ 0 ∧ (w.table page).isSome ∧
      w'.phys = w.phys ∧ (∃ pte, w'.table = Function.update w.table page (some pte)) ∧
      Rewritten w w' (w.vad.index page) protect) ∨
    (status = statusSuccess ∧ w.vad.protectAt (w.vad.index page) = protect ∧ w' = w) := by
  rw [commitPage] at h
  split at h
  case isTrue hzero =>
    cases hfree : w.phys.free with
    | nil =>
      rw [Physical.allocatePage, hfree] at h
      cases h
      exact .inl ⟨rfl, rfl, hzero, rfl⟩
    | cons frame free =>
      rw [Physical.allocatePage, hfree] at h
      obtain ⟨table, htable, h⟩ := bind_eq_ok h
      cases h
      rw [miMapUserPage] at htable
      split at htable
      · cases htable
      · split at htable
        · cases htable
        case h_2 hnone =>
          cases htable
          exact .inr (.inl ⟨rfl, hzero, hnone, ⟨frame, _, rfl, rfl, rfl⟩, ⟨rfl⟩⟩)
  case isFalse hcommitted =>
    split at h
    case isTrue hother =>
      obtain ⟨table, htable, h⟩ := bind_eq_ok h
      cases h
      rw [remapUserPage] at htable
      split at htable
      · cases htable
      case h_2 old hold =>
        obtain ⟨table1, htable1, htable⟩ := bind_eq_ok htable
        rw [miUnmapUserPage, hold] at htable1
        cases htable1
        rw [miMapUserPage] at htable
        split at htable
        · cases htable
        · rw [Function.update_self] at htable
          cases htable
          refine .inr (.inr (.inl ⟨rfl, hcommitted, by rw [hold]; rfl, rfl,
            ⟨w.vad.leaf (w.vad.index page) old.frame protect, ?_⟩, ⟨rfl⟩⟩))
          exact Function.update_idem _ _ _
    case isFalse hsame =>
      cases h
      exact .inr (.inr (.inr ⟨rfl, Decidable.not_not.mp hsame, rfl⟩))

/-! ## A commit taken back -/

/-- Since `w0`, leaves were only made for pages of `S`, each with a record of its own. -/
structure Taken (S : Nat → Prop) (w0 w : Walk) : Prop where
  vad : ∃ pageProtect, w.vad = { w0.vad with pageProtect }
  length : w.vad.pageProtect.length = w0.vad.pageProtect.length
  memory : ∀ frame, frame ∉ w0.phys.free → w.phys.memory frame = w0.phys.memory frame
  mapped : ∀ page, w.table page ≠ w0.table page →
    S page ∧ w.vad.protectAt (w0.vad.index page) ≠ 0
  apart : ∀ page page', w.table page ≠ w0.table page → w.table page' ≠ w0.table page' →
    w0.vad.index page = w0.vad.index page' → page = page'
  others : ∀ i, (∀ page, S page → w0.vad.index page ≠ i) → w.vad.protectAt i = w0.vad.protectAt i

theorem Taken.refl (S : Nat → Prop) (w : Walk) : Taken S w w :=
  ⟨⟨_, rfl⟩, rfl, fun _ _ => rfl, fun _ h => absurd rfl h, fun _ _ h => absurd rfl h, fun _ _ => rfl⟩

theorem Taken.index (h : Taken S w0 w) (page : Nat) : w.vad.index page = w0.vad.index page := by
  obtain ⟨protects, hvad⟩ := h.vad
  rw [hvad]
  rfl

theorem Taken.rewrite {value : Nat} (h : Taken S w0 w) (hpage : S page)
    (hw : Rewritten w w' (w.vad.index page) value) :
    (∃ pageProtect, w'.vad = { w0.vad with pageProtect }) ∧
      w'.vad.pageProtect.length = w0.vad.pageProtect.length ∧
      ∀ i, (∀ page, S page → w0.vad.index page ≠ i) →
        w'.vad.protectAt i = w0.vad.protectAt i := by
  obtain ⟨protects, hvad⟩ := h.vad
  refine ⟨⟨protects.set (w.vad.index page) value, ?_⟩, hw.length.trans h.length, fun i hi => ?_⟩
  · rw [hw.vad, hvad]
    rfl
  · rw [hw.protectAt, if_neg, h.others i hi]
    rintro ⟨hindex, -⟩
    exact hi page hpage ((h.index page).symm.trans hindex)

theorem Taken.commitPage (h : Taken S w0 w) (hpage : S page) (hprotect : protect ≠ 0)
    (hnone : ∀ page, S page → w0.table page = none)
    (hlength : ∀ page, S page → w0.vad.index page < w0.vad.pageProtect.length)
    (hfree : ∀ frame ∈ w.phys.free, frame ∈ w0.phys.free)
    (hstep : commitPage protect page w = .ok (w', status)) :
    Taken S w0 w' ∧ ∀ frame ∈ w'.phys.free, frame ∈ w0.phys.free := by
  have hindex := h.index page
  have hlt : w.vad.index page < w.vad.pageProtect.length := by
    rw [hindex, h.length]
    exact hlength page hpage
  rcases commitPage_cases hstep with ⟨-, rfl, -⟩ |
    ⟨-, hzero, hleaf, ⟨frame, pte, hframes, hmemory, htable⟩, hw⟩ |
    ⟨-, hcommitted, hleaf, hphys, ⟨pte, htable⟩, hw⟩ | ⟨-, -, rfl⟩
  · exact ⟨h, hfree⟩
  · obtain ⟨hvad, hlen, hothers⟩ := h.rewrite hpage hw
    -- no page with this record was mapped before
    have hfresh : ∀ q, w.table q ≠ w0.table q → w0.vad.index q ≠ w0.vad.index page := by
      intro q hq heq
      have hne := (h.mapped q hq).2
      rw [heq, ← hindex] at hne
      exact hne hzero
    have hold : ∀ q, q ≠ page → w'.table q = w.table q := by
      intro q hq
      rw [htable]
      exact Function.update_of_ne hq _ _
    refine ⟨⟨hvad, hlen, fun f hf => ?_, fun q hq => ?_, fun q q' hq hq' heq => ?_, hothers⟩,
      fun f hf => hfree f ?_⟩
    · rw [hmemory, Function.update_of_ne, h.memory f hf]
      rintro rfl
      exact hf (hfree f (by rw [hframes]; exact mem_cons_self))
    · by_cases hqp : q = page
      · subst hqp
        refine ⟨hpage, ?_⟩
        rw [hw.protectAt, if_pos ⟨hindex, hlt⟩]
        exact hprotect
      · rw [hold q hqp] at hq
        obtain ⟨hS, hne⟩ := h.mapped q hq
        refine ⟨hS, ?_⟩
        rw [hw.protectAt, if_neg fun hboth => hfresh q hq (hboth.1.symm.trans hindex)]
        exact hne
    · by_cases hqp : q = page
      · by_cases hqp' : q' = page
        · rw [hqp, hqp']
        · rw [hold q' hqp'] at hq'
          rw [hqp] at heq
          exact absurd heq.symm (hfresh q' hq')
      · rw [hold q hqp] at hq
        by_cases hqp' : q' = page
        · rw [hqp'] at heq
          exact absurd heq (hfresh q hq)
        · rw [hold q' hqp'] at hq'
          exact h.apart q q' hq hq' heq
    · rw [hframes]
      exact mem_cons_of_mem _ hf
  · -- a page that is committed was mapped since
    obtain ⟨hvad, hlen, hothers⟩ := h.rewrite hpage hw
    have hsince : w.table page ≠ w0.table page := by
      intro heq
      rw [heq, hnone page hpage] at hleaf
      cases hleaf
    have hback : ∀ q, w'.table q ≠ w0.table q → w.table q ≠ w0.table q := by
      intro q hq
      by_cases hqp : q = page
      · rw [hqp]
        exact hsince
      · rwa [htable, Function.update_of_ne hqp] at hq
    refine ⟨⟨hvad, hlen, fun f hf => by rw [hphys, h.memory f hf], fun q hq => ?_,
      fun q q' hq hq' => h.apart q q' (hback q hq) (hback q' hq'), hothers⟩, fun f hf => ?_⟩
    · obtain ⟨hS, hne⟩ := h.mapped q (hback q hq)
      refine ⟨hS, ?_⟩
      rw [hw.protectAt]
      split
      · exact hprotect
      · exact hne
    · rw [hphys] at hf
      exact hfree f hf
  · exact ⟨h, hfree⟩

theorem Taken.decommitPage (h : Taken S w0 w) (hpage : S page)
    (hnone : ∀ page, S page → w0.table page = none)
    (hstep : decommitPage page w = .ok (w', status)) : Taken S w0 w' := by
  obtain ⟨-, ⟨-, rfl⟩ | ⟨hcommitted, hleaf, htable, hmemory, hw⟩⟩ := decommitPage_cases hstep
  · exact h
  · obtain ⟨hvad, hlen, hothers⟩ := h.rewrite hpage hw
    have hindex := h.index page
    have hsince : w.table page ≠ w0.table page := by
      intro heq
      rw [heq, hnone page hpage] at hleaf
      cases hleaf
    have hback : ∀ q, w'.table q ≠ w0.table q → w.table q ≠ w0.table q ∧ q ≠ page := by
      intro q hq
      by_cases hqp : q = page
      · subst hqp
        rw [htable, Function.update_self, hnone q hpage] at hq
        exact absurd rfl hq
      · rw [htable, Function.update_of_ne hqp] at hq
        exact ⟨hq, hqp⟩
    refine ⟨hvad, hlen, fun f hf => by rw [hmemory, h.memory f hf], fun q hq => ?_,
      fun q q' hq hq' => h.apart q q' (hback q hq).1 (hback q' hq').1, hothers⟩
    obtain ⟨hq', hqp⟩ := hback q hq
    obtain ⟨hS, hne⟩ := h.mapped q hq'
    refine ⟨hS, ?_⟩
    rw [hw.protectAt, if_neg]
    · exact hne
    · rintro ⟨heq, -⟩
      exact hqp (h.apart q page hq' hsince (heq.symm.trans hindex))

/-! ## The loops -/

section Loops

variable {f : Nat → Walk → Except Halt (Walk × NtStatus)} {P : Walk → Prop}

theorem eachPage_keeps (hstep : ∀ k < n, ∀ w w' status, P w → f (pageAt base k) w = .ok (w', status) → P w')
    (hw : P w) (h : eachPage f base n w = .ok (w', status)) : P w' := by
  induction n generalizing base w with
  | zero =>
    cases h
    exact hw
  | succ n ih =>
    rw [eachPage] at h
    obtain ⟨⟨w1, status1⟩, hfirst, h⟩ := bind_eq_ok h
    rw [← pageAt_zero base] at hfirst
    have hw1 := hstep 0 (Nat.succ_pos n) w w1 status1 hw hfirst
    dsimp only at h
    split at h
    · refine ih (fun k hk => ?_) hw1 h
      rw [pageAt_succ]
      exact hstep (k + 1) (Nat.succ_lt_succ hk)
    · cases h
      exact hw1

theorem eachPage_ends (hstep : ∀ k < n, ∀ w, P w → ∃ w' status, f (pageAt base k) w = .ok (w', status) ∧ P w')
    (hw : P w) : ∃ w' status, eachPage f base n w = .ok (w', status) ∧ P w' := by
  induction n generalizing base w with
  | zero => exact ⟨w, statusSuccess, rfl, hw⟩
  | succ n ih =>
    obtain ⟨w1, status1, hfirst, hw1⟩ := hstep 0 (Nat.succ_pos n) w hw
    rw [pageAt_zero] at hfirst
    rw [eachPage, hfirst]
    by_cases hok : ntSuccess status1
    · obtain ⟨w', status, hrest, hw'⟩ := ih (fun k hk => by
        rw [pageAt_succ]
        exact hstep (k + 1) (Nat.succ_lt_succ hk)) hw1
      refine ⟨w', status, ?_, hw'⟩
      change (if ntSuccess status1 then _ else _) = _
      rw [if_pos hok, hrest]
    · refine ⟨w1, status1, ?_, hw1⟩
      change (if ntSuccess status1 then _ else _) = _
      rw [if_neg hok]

end Loops

theorem Taken.commit (hpages : ∀ k < n, S (pageAt base k)) (hprotect : protect ≠ 0)
    (hnone : ∀ page, S page → w.table page = none)
    (hlength : ∀ page, S page → w.vad.index page < w.vad.pageProtect.length)
    (h : eachPage (Mm.commitPage protect) base n w = .ok (w', status)) : Taken S w w' := by
  have hboth := eachPage_keeps
    (fun k hk w1 w2 status1 (hw : Taken S w w1 ∧ ∀ frame ∈ w1.phys.free, frame ∈ w.phys.free) hstep =>
      hw.1.commitPage (hpages k hk) hprotect hnone hlength hw.2 hstep)
    ⟨.refl S w, fun _ hf => hf⟩ h
  exact hboth.1

theorem Taken.decommit (h : Taken S w0 w) (hpages : ∀ k < n, S (pageAt base k))
    (hnone : ∀ page, S page → w0.table page = none)
    (hloop : eachPage Mm.decommitPage base n w = .ok (w', status)) : Taken S w0 w' :=
  eachPage_keeps (fun k hk _ _ _ hw hstep => hw.decommitPage (hpages k hk) hnone hstep) h hloop

theorem decommitPage_zero (h : decommitPage page w = .ok (w', status)) (hzero : w.vad.protectAt k = 0) :
    w'.vad.protectAt k = 0 := by
  obtain ⟨-, ⟨-, rfl⟩ | ⟨-, -, -, -, hw⟩⟩ := decommitPage_cases h
  · exact hzero
  · rw [hw.protectAt]
    split
    · rfl
    · exact hzero

theorem decommitPage_self (h : decommitPage page w = .ok (w', status))
    (hlt : w.vad.index page < w.vad.pageProtect.length) : w'.vad.protectAt (w.vad.index page) = 0 := by
  obtain ⟨-, ⟨hzero, rfl⟩ | ⟨-, -, -, -, hw⟩⟩ := decommitPage_cases h
  · exact hzero
  · rw [hw.protectAt, if_pos ⟨rfl, hlt⟩]

theorem eachPage_decommitPage_zero (h : eachPage decommitPage base n w = .ok (w', status))
    (hlength : ∀ k < n, w.vad.index (pageAt base k) < w.vad.pageProtect.length) (hk : k < n) :
    w'.vad.protectAt (w.vad.index (pageAt base k)) = 0 := by
  induction n generalizing base w k with
  | zero => cases hk
  | succ n ih =>
    rw [eachPage] at h
    obtain ⟨⟨w1, status1⟩, hfirst, h⟩ := bind_eq_ok h
    have hself := decommitPage_self hfirst (by
      have := hlength 0 hk.pos
      rwa [pageAt_zero] at this)
    obtain ⟨rfl, hemptied⟩ := decommitPage_spec hfirst
    obtain ⟨protects, hvad⟩ := hemptied.vad
    have hlen : w1.vad.pageProtect.length = w.vad.pageProtect.length := by
      obtain ⟨-, ⟨-, rfl⟩ | ⟨-, -, -, -, hw⟩⟩ := decommitPage_cases hfirst
      · rfl
      · exact hw.length
    have hindex : ∀ page, w1.vad.index page = w.vad.index page := by
      intro page
      rw [hvad]
      rfl
    cases k with
    | zero =>
      rw [pageAt_zero]
      exact eachPage_keeps (fun _ _ _ _ _ hzero hstep => decommitPage_zero hstep hzero) hself h
    | succ k =>
      have hrest := ih h (fun j hj => by
        rw [hindex, hlen, pageAt_succ]
        exact hlength (j + 1) (Nat.succ_lt_succ hj)) (Nat.lt_of_succ_lt_succ hk)
      rwa [hindex, pageAt_succ] at hrest

theorem eachPage_decommitPage_none (hnone : ∀ k < n, w.vad.protectAt (w.vad.index (pageAt base k)) = 0) :
    eachPage decommitPage base n w = .ok (w, statusSuccess) := by
  induction n generalizing base with
  | zero => rfl
  | succ n ih =>
    have hfirst := hnone 0 (Nat.succ_pos n)
    rw [pageAt_zero] at hfirst
    have hpage : decommitPage base w = .ok (w, statusSuccess) := by
      rw [decommitPage]
      exact if_pos hfirst
    rw [eachPage, hpage]
    refine ih fun k hk => ?_
    rw [pageAt_succ]
    exact hnone (k + 1) (Nat.succ_lt_succ hk)

variable {size : Nat}

theorem miDecommitPages_none
    (hnone : ∀ k < size / pageSize, w.vad.protectAt (w.vad.index (pageAt base k)) = 0) :
    miDecommitPages base size w = .ok w := by
  rw [miDecommitPages, eachPage_decommitPage_none hnone]
  rfl

/-- A range without records that was committed in part and decommitted is as it was. -/
theorem Taken.undone (h : Taken S w0 w) (hzero : ∀ page, S page → w.vad.protectAt (w0.vad.index page) = 0)
    (hzero0 : ∀ page, S page → w0.vad.protectAt (w0.vad.index page) = 0) :
    w.table = w0.table ∧ w.vad = w0.vad := by
  constructor
  · funext page
    by_contra hne
    obtain ⟨hS, hrecord⟩ := h.mapped page hne
    exact hrecord (hzero page hS)
  · obtain ⟨protects, hvad⟩ := h.vad
    have hprotects : protects = w0.vad.pageProtect := by
      have hlen := h.length
      rw [hvad] at hlen
      refine ext_getElem hlen fun i hi hi0 => ?_
      have hrecord : w.vad.protectAt i = w0.vad.protectAt i := by
        by_cases hS : ∃ page, S page ∧ w0.vad.index page = i
        · obtain ⟨page, hpage, rfl⟩ := hS
          rw [hzero page hpage, hzero0 page hpage]
        · exact h.others i fun page hpage hindex => hS ⟨page, hpage, hindex⟩
      rw [hvad, Vad.protectAt, Vad.protectAt, getD_eq_getElem _ _ hi,
        getD_eq_getElem _ _ hi0] at hrecord
      exact hrecord
    rw [hvad, hprotects]

theorem commit_decommit_undone {tables : Bool} {w1 : Walk} (hprotect : protect ≠ 0)
    (hnone : ∀ k < size / pageSize, w.table (pageAt base k) = none)
    (hzero : ∀ k < size / pageSize, w.vad.protectAt (w.vad.index (pageAt base k)) = 0)
    (hlength : ∀ k < size / pageSize, w.vad.index (pageAt base k) < w.vad.pageProtect.length)
    (hcommit : miCommitPages tables base size protect w = .ok (w1, status))
    (hdecommit : miDecommitPages base size w1 = .ok w') :
    w'.table = w.table ∧ w'.vad = w.vad ∧
      ∀ frame, frame ∉ w.phys.free → w'.phys.memory frame = w.phys.memory frame := by
  let S : Nat → Prop := fun page => ∃ k < size / pageSize, pageAt base k = page
  have hS : ∀ k < size / pageSize, S (pageAt base k) := fun k hk => ⟨k, hk, rfl⟩
  have hnoneS : ∀ page, S page → w.table page = none := by
    rintro page ⟨k, hk, rfl⟩
    exact hnone k hk
  have hlengthS : ∀ page, S page → w.vad.index page < w.vad.pageProtect.length := by
    rintro page ⟨k, hk, rfl⟩
    exact hlength k hk
  have htaken : Taken S w w1 := by
    rw [miCommitPages] at hcommit
    split at hcommit
    · exact Taken.commit hS hprotect hnoneS hlengthS hcommit
    · cases hcommit
      exact .refl S w
  rw [miDecommitPages] at hdecommit
  obtain ⟨⟨w2, status2⟩, hloop, hdecommit⟩ := bind_eq_ok hdecommit
  cases hdecommit
  have hback := htaken.decommit hS hnoneS hloop
  have hempty : ∀ page, S page → w'.vad.protectAt (w.vad.index page) = 0 := by
    rintro page ⟨k, hk, rfl⟩
    rw [← htaken.index]
    refine eachPage_decommitPage_zero hloop (fun j hj => ?_) hk
    rw [htaken.index, htaken.length]
    exact hlength j hj
  obtain ⟨htable, hvad⟩ := hback.undone hempty (by
    rintro page ⟨k, hk, rfl⟩
    exact hzero k hk)
  exact ⟨htable, hvad, hback.memory⟩

/-! ## When a commit runs out -/

/-- How many of `n` pages have no record. -/
def Vad.uncommitted (vad : Vad) (base n : Nat) : Nat :=
  (List.range n).countP fun k => vad.protectAt (vad.index (pageAt base k)) == 0

theorem Vad.uncommitted_succ (vad : Vad) (base n : Nat) :
    vad.uncommitted base (n + 1) =
      vad.uncommitted (base + pageSize) n + if vad.protectAt (vad.index base) = 0 then 1 else 0 := by
  have hcomp : ((fun k => vad.protectAt (vad.index (pageAt base k)) == 0) ∘ Nat.succ) =
      fun k => vad.protectAt (vad.index (pageAt (base + pageSize) k)) == 0 := by
    funext k
    rw [Function.comp_apply, pageAt_succ]
  rw [Vad.uncommitted, range_succ_eq_map, countP_cons, countP_map, hcomp, pageAt_zero,
    Vad.uncommitted]
  simp only [beq_iff_eq]

theorem Rewritten.uncommitted {i value : Nat} (hw : Rewritten w w' i value)
    (hother : ∀ k < n, w.vad.index (pageAt base k) ≠ i) :
    w'.vad.uncommitted base n = w.vad.uncommitted base n := by
  refine countP_congr fun k hk => ?_
  rw [hw.index, hw.protectAt, if_neg fun h => hother k (mem_range.mp hk) h.1.symm]

/-- A commit runs out exactly when it has fewer frames than pages to give one to. -/
theorem eachPage_commitPage_status (hprotect : protect ≠ 0)
    (hapart : ∀ j < n, ∀ k < n, w.vad.index (pageAt base j) = w.vad.index (pageAt base k) → j = k)
    (h : eachPage (commitPage protect) base n w = .ok (w', status)) :
    (status = statusSuccess ∧ w.vad.uncommitted base n ≤ w.phys.free.length) ∨
      (status = statusNoMemory ∧ w.phys.free.length < w.vad.uncommitted base n) := by
  induction n generalizing base w with
  | zero =>
    cases h
    exact .inl ⟨rfl, Nat.zero_le _⟩
  | succ n ih =>
    rw [eachPage] at h
    obtain ⟨⟨w1, status1⟩, hfirst, hnext⟩ := bind_eq_ok h
    have hother : ∀ k < n, w.vad.index (pageAt (base + pageSize) k) ≠ w.vad.index base := by
      intro k hk heq
      rw [pageAt_succ, ← pageAt_zero base] at heq
      exact absurd (hapart (k + 1) (by omega) 0 (by omega) heq) (Nat.succ_ne_zero k)
    -- the rest of the loop, after a page whose record may have been rewritten
    have hrest : ∀ value, Rewritten w w1 (w.vad.index base) value →
        eachPage (commitPage protect) (base + pageSize) n w1 = .ok (w', status) →
        (status = statusSuccess ∧
            w.vad.uncommitted (base + pageSize) n ≤ w1.phys.free.length) ∨
          (status = statusNoMemory ∧
            w1.phys.free.length < w.vad.uncommitted (base + pageSize) n) := by
      intro value hw hloop
      rw [← hw.uncommitted hother]
      refine ih (fun j hj k hk heq => ?_) hloop
      rw [hw.index, hw.index, pageAt_succ, pageAt_succ] at heq
      have := hapart (j + 1) (by omega) (k + 1) (by omega) heq
      omega
    rw [Vad.uncommitted_succ]
    rcases commitPage_cases hfirst with ⟨rfl, rfl, hzero, hfree⟩ |
      ⟨rfl, hzero, -, ⟨frame, pte, hframes, -, -⟩, hw⟩ | ⟨rfl, hcommitted, -, hphys, -, hw⟩ |
      ⟨rfl, hsame, rfl⟩
    · cases hnext
      rw [if_pos hzero, hfree]
      exact .inr ⟨rfl, Nat.succ_pos _⟩
    · rw [if_pos hzero, hframes, length_cons]
      rcases hrest _ hw hnext with ⟨hstatus, hle⟩ | ⟨hstatus, hlt⟩
      · exact .inl ⟨hstatus, Nat.succ_le_succ hle⟩
      · exact .inr ⟨hstatus, Nat.succ_lt_succ hlt⟩
    · rw [if_neg hcommitted, ← hphys]
      exact hrest _ hw hnext
    · rw [if_neg fun hzero => hprotect (hsame.symm.trans hzero)]
      refine ih (fun j hj k hk heq => ?_) hnext
      rw [pageAt_succ, pageAt_succ] at heq
      have := hapart (j + 1) (by omega) (k + 1) (by omega) heq
      omega

/-! ## Loops that do not fail -/

/-- The records of the pages of `S` agree with their leaves. -/
structure Matched (S : Nat → Prop) (w : Walk) : Prop where
  canonical : ∀ page, S page → page < 2 ^ 47
  leaf : ∀ page, S page → (w.vad.protectAt (w.vad.index page) ≠ 0 ↔ (w.table page).isSome)
  apart : ∀ page page', S page → S page' → w.vad.index page = w.vad.index page' → page = page'
  length : ∀ page, S page → w.vad.index page < w.vad.pageProtect.length

section
variable (h : Matched S w)
include h

theorem Matched.rewrite {value : Nat} {leaf : Option Pte} (hpage : S page)
    (hw : Rewritten w w' (w.vad.index page) value) (htable : w'.table = Function.update w.table page leaf)
    (hleaf : value ≠ 0 ↔ leaf.isSome) : Matched S w' := by
  refine ⟨h.canonical, fun q hq => ?_, fun q q' hq hq' heq => ?_, fun q hq => ?_⟩
  · rw [hw.index, hw.protectAt, htable]
    by_cases hqp : q = page
    · subst hqp
      rw [if_pos ⟨rfl, h.length q hq⟩, Function.update_self]
      exact hleaf
    · rw [if_neg fun heq => hqp (h.apart q page hq hpage heq.1.symm), Function.update_of_ne hqp]
      exact h.leaf q hq
  · rw [hw.index, hw.index] at heq
    exact h.apart q q' hq hq' heq
  · rw [hw.index, hw.length]
    exact h.length q hq

theorem Matched.commitPage (hpage : S page) (hprotect : protect ≠ 0) :
    ∃ w' status, commitPage protect page w = .ok (w', status) ∧ Matched S w' := by
  have hcanonical : ¬ 2 ^ 47 ≤ page := Nat.not_le.mpr (h.canonical page hpage)
  have hends : ∃ w' status, Mm.commitPage protect page w = .ok (w', status) := by
    rw [Mm.commitPage]
    by_cases hzero : w.vad.protectAt (w.vad.index page) = 0
    · have hnone : w.table page = none := by
        rw [← Option.not_isSome_iff_eq_none, ← h.leaf page hpage]
        exact fun hne => hne hzero
      rw [if_pos hzero, Physical.allocatePage]
      cases w.phys.free with
      | nil => exact ⟨_, _, rfl⟩
      | cons frame free =>
        dsimp only
        rw [miMapUserPage, if_neg hcanonical, hnone]
        exact ⟨_, _, rfl⟩
    · obtain ⟨old, hold⟩ := Option.isSome_iff_exists.mp ((h.leaf page hpage).mp hzero)
      rw [if_neg hzero]
      split
      · rw [remapUserPage, hold]
        dsimp only
        rw [miUnmapUserPage, hold]
        dsimp only [bind, Except.bind]
        rw [miMapUserPage, if_neg hcanonical, Function.update_self]
        exact ⟨_, _, rfl⟩
      · exact ⟨_, _, rfl⟩
  obtain ⟨w', status, hstep⟩ := hends
  refine ⟨w', status, hstep, ?_⟩
  rcases commitPage_cases hstep with ⟨-, rfl, -⟩ | ⟨-, -, -, ⟨frame, pte, -, -, htable⟩, hw⟩ |
    ⟨-, -, -, -, ⟨pte, htable⟩, hw⟩ | ⟨-, -, rfl⟩
  · exact h
  · exact h.rewrite hpage hw htable (iff_of_true hprotect rfl)
  · exact h.rewrite hpage hw htable (iff_of_true hprotect rfl)
  · exact h

theorem Matched.decommitPage (hpage : S page) :
    ∃ w' status, decommitPage page w = .ok (w', status) ∧ Matched S w' := by
  have hends : ∃ w' status, Mm.decommitPage page w = .ok (w', status) := by
    rw [Mm.decommitPage]
    dsimp only
    by_cases hzero : w.vad.protectAt (w.vad.index page) = 0
    · rw [if_pos hzero]
      exact ⟨_, _, rfl⟩
    · obtain ⟨pte, hpte⟩ := Option.isSome_iff_exists.mp ((h.leaf page hpage).mp hzero)
      rw [if_neg hzero, hpte]
      dsimp only
      rw [miUnmapUserPage, hpte]
      exact ⟨_, _, rfl⟩
  obtain ⟨w', status, hstep⟩ := hends
  refine ⟨w', status, hstep, ?_⟩
  obtain ⟨-, ⟨-, rfl⟩ | ⟨-, -, htable, -, hw⟩⟩ := decommitPage_cases hstep
  · exact h
  · exact h.rewrite hpage hw htable (iff_of_false (fun hne => hne rfl) Bool.false_ne_true)

theorem Matched.commit (hpages : ∀ k < size / pageSize, S (pageAt base k))
    (hprotect : protect ≠ 0) (tables : Bool) :
    ∃ w' status, miCommitPages tables base size protect w = .ok (w', status) ∧ Matched S w' := by
  rw [miCommitPages]
  split
  · exact eachPage_ends (fun k hk _ hw => hw.commitPage (hpages k hk) hprotect) h
  · exact ⟨_, _, rfl, h⟩

theorem Matched.commit_status {tables : Bool}
    (hpages : ∀ k < size / pageSize, S (pageAt base k)) (hprotect : protect ≠ 0)
    (hcommit : miCommitPages tables base size protect w = .ok (w', status)) :
    (status = statusSuccess ∧ tables = true ∧
        w.vad.uncommitted base (size / pageSize) ≤ w.phys.free.length) ∨
      (status = statusNoMemory ∧
        (tables = false ∨ w.phys.free.length < w.vad.uncommitted base (size / pageSize))) := by
  cases tables with
  | false =>
    cases hcommit
    exact .inr ⟨rfl, .inl rfl⟩
  | true =>
    have hapart : ∀ j < size / pageSize, ∀ k < size / pageSize,
        w.vad.index (pageAt base j) = w.vad.index (pageAt base k) → j = k := by
      intro j hj k hk heq
      have hsame := h.apart _ _ (hpages j hj) (hpages k hk) heq
      rw [pageAt, pageAt, pageSize] at hsame
      omega
    rcases eachPage_commitPage_status hprotect hapart hcommit with ⟨hstatus, hle⟩ | ⟨hstatus, hlt⟩
    · exact .inl ⟨hstatus, rfl, hle⟩
    · exact .inr ⟨hstatus, .inr hlt⟩

theorem Matched.decommit (hpages : ∀ k < size / pageSize, S (pageAt base k)) :
    ∃ w', miDecommitPages base size w = .ok w' ∧
      ∀ k < size / pageSize, w'.table (pageAt base k) = none := by
  obtain ⟨w', status, hloop, hmatched⟩ := eachPage_ends (n := size / pageSize)
    (fun k hk _ hw => hw.decommitPage (hpages k hk)) h
  refine ⟨w', ?_, fun k hk => ?_⟩
  · rw [miDecommitPages, hloop]
    rfl
  · have hzero := eachPage_decommitPage_zero hloop (fun j hj => h.length _ (hpages j hj)) hk
    obtain ⟨protects, hvad⟩ := (eachPage_decommitPage hloop).vad
    have hindex : w'.vad.index (pageAt base k) = w.vad.index (pageAt base k) := by
      rw [hvad]
      rfl
    rw [← hindex] at hzero
    rw [← Option.not_isSome_iff_eq_none, ← hmatched.leaf _ (hpages k hk)]
    exact fun hne => hne hzero

end

end Proskrnl.Mm
