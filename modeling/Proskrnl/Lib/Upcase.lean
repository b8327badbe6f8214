import Proskrnl.Lib.Rtl

/-!
# What the upcase table folds to

`RtlpUpcaseTable` leads no code unit to a lower-case letter of ASCII, and leaves the other printable
characters of ASCII alone. The first is checked row by row: nearly every row of the trie is the one of
zero deltas.
-/

namespace Proskrnl
open List

def upcaseRow (offset : Nat) : List Nat := (rtlpUpcaseTable.drop offset).take 16

def plainRow : Nat := 0x21A

def isLower (c : Nat) : Bool := decide (0x61 ≤ c ∧ c ≤ 0x7A)

def rowAvoidsLower (block row : Nat) : Bool :=
  if row = plainRow then block ≠ 6 && block ≠ 7
  else
    (upcaseRow row).length = 16 &&
      (upcaseRow row).zipIdx.all fun (delta, i) => !isLower ((block * 16 + i + delta) % 2 ^ 16)

def tableAvoidsLower : Bool :=
  (List.range 256).all fun high =>
    let rows := upcaseRow (rtlpUpcaseTable.getD high 0)
    rows.length = 16 && rows.zipIdx.all fun (row, i) => rowAvoidsLower (high * 16 + i) row

theorem tableAvoidsLower_eq : tableAvoidsLower = true := by
  decide +kernel

variable {i : Nat} {c : UInt16}

theorem getD_upcaseRow {offset : Nat} (hi : i < 16) :
    rtlpUpcaseTable.getD (offset + i) 0 = (upcaseRow offset).getD i 0 := by
  rw [upcaseRow, getD_eq_getElem?_getD, getD_eq_getElem?_getD, getElem?_take, if_pos hi,
    getElem?_drop]

theorem mem_zipIdx_of_lt {l : List Nat} (hlength : l.length = 16) (hi : i < 16) :
    (l.getD i 0, i) ∈ l.zipIdx := by
  rw [mem_zipIdx_iff_getElem?, getD_eq_getElem?_getD, getElem?_eq_getElem (by omega)]
  rfl

theorem plainRow_eq (hi : i < 16) : (upcaseRow plainRow).getD i 0 = 0 := by
  have hzero : ∀ i < 16, (upcaseRow plainRow).getD i 0 = 0 := by decide +kernel
  exact hzero i hi

/-- `RtlUpcaseUnicodeChar` never gives a lower-case letter of ASCII. -/
theorem isLower_rtlUpcaseUnicodeChar (c : UInt16) : isLower (rtlUpcaseUnicodeChar c).toNat = false := by
  have hc : c.toNat < 2 ^ 16 := UInt16.toNat_lt c
  rw [rtlUpcaseUnicodeChar, UInt16.toNat_ofNat']
  generalize c.toNat = n at hc
  have htable := List.all_eq_true.mp tableAvoidsLower_eq (n / 256) (mem_range.mpr (by omega))
  simp only [Bool.and_eq_true, decide_eq_true_eq] at htable
  obtain ⟨hlength, hrows⟩ := htable
  have hrow := List.all_eq_true.mp hrows _ (mem_zipIdx_of_lt hlength (show n / 16 % 16 < 16 by omega))
  rw [← getD_upcaseRow (show n / 16 % 16 < 16 by omega)] at hrow
  simp only at hrow ⊢
  generalize rtlpUpcaseTable.getD (rtlpUpcaseTable.getD (n / 256) 0 + n / 16 % 16) 0 = row at hrow
  rw [getD_upcaseRow (show n % 16 < 16 by omega)]
  have hblock : n / 256 * 16 + n / 16 % 16 = n / 16 := by omega
  rw [hblock, rowAvoidsLower] at hrow
  split at hrow
  case isTrue hplain =>
    -- the unit is its own fold, and lies in no block of lower-case letters
    rw [hplain, plainRow_eq (by omega)]
    simp only [ne_eq, Bool.and_eq_true, decide_eq_true_eq] at hrow
    rw [isLower, decide_eq_false_iff_not]
    omega
  case isFalse =>
    simp only [Bool.and_eq_true, decide_eq_true_eq] at hrow
    have hdelta := List.all_eq_true.mp hrow.2 _
      (mem_zipIdx_of_lt hrow.1 (show n % 16 < 16 by omega))
    have hn : n / 16 * 16 + n % 16 = n := by omega
    simp only [hn, Bool.not_eq_true'] at hdelta
    exact hdelta

/-- The printable characters of ASCII but the lower-case letters are their own folds. -/
theorem rtlUpcaseUnicodeChar_ascii (hlow : 0x20 ≤ c.toNat) (hhigh : c.toNat ≤ 0x7E)
    (hlower : isLower c.toNat = false) : rtlUpcaseUnicodeChar c = c := by
  have hall : ∀ n < 0x7F, 0x20 ≤ n → isLower n = false →
      rtlUpcaseUnicodeChar (UInt16.ofNat n) = UInt16.ofNat n := by
    decide +kernel
  have h := hall c.toNat (by omega) hlow hlower
  rwa [UInt16.ofNat_toNat] at h

def isSign (c : Nat) : Bool :=
  decide (0x20 ≤ c ∧ c ≤ 0x7E) && !isLower c && !decide (0x41 ≤ c ∧ c ≤ 0x5A)

def rowKeepsSigns (block row : Nat) : Bool :=
  row = plainRow ||
    (upcaseRow row).length = 16 &&
      (upcaseRow row).zipIdx.all fun (delta, i) =>
        !isSign ((block * 16 + i + delta) % 2 ^ 16) ||
          (block * 16 + i + delta) % 2 ^ 16 == block * 16 + i

def tableKeepsSigns : Bool :=
  (List.range 256).all fun high =>
    let rows := upcaseRow (rtlpUpcaseTable.getD high 0)
    rows.length = 16 && rows.zipIdx.all fun (row, i) => rowKeepsSigns (high * 16 + i) row

theorem tableKeepsSigns_eq : tableKeepsSigns = true := by
  decide +kernel

theorem rtlUpcaseUnicodeChar_sign {t : UInt16} (ht : isSign t.toNat = true)
    (h : rtlUpcaseUnicodeChar c = t) : c = t := by
  have hc : c.toNat < 2 ^ 16 := UInt16.toNat_lt c
  have hfold := congrArg UInt16.toNat h
  rw [rtlUpcaseUnicodeChar, UInt16.toNat_ofNat'] at hfold
  apply UInt16.toNat_inj.mp
  generalize c.toNat = n at hc hfold
  generalize t.toNat = sign at ht hfold
  have htable := List.all_eq_true.mp tableKeepsSigns_eq (n / 256) (mem_range.mpr (by omega))
  simp only [Bool.and_eq_true, decide_eq_true_eq] at htable
  obtain ⟨hlength, hrows⟩ := htable
  have hrow := List.all_eq_true.mp hrows _ (mem_zipIdx_of_lt hlength (show n / 16 % 16 < 16 by omega))
  rw [← getD_upcaseRow (show n / 16 % 16 < 16 by omega)] at hrow
  simp only at hrow hfold
  generalize rtlpUpcaseTable.getD (rtlpUpcaseTable.getD (n / 256) 0 + n / 16 % 16) 0 = row at hrow hfold
  rw [getD_upcaseRow (show n % 16 < 16 by omega)] at hfold
  have hblock : n / 256 * 16 + n / 16 % 16 = n / 16 := by omega
  rw [hblock, rowKeepsSigns, Bool.or_eq_true, decide_eq_true_eq] at hrow
  obtain hplain | hrow := hrow
  · -- the unit is its own fold
    rw [hplain, plainRow_eq (by omega)] at hfold
    omega
  · simp only [Bool.and_eq_true, decide_eq_true_eq] at hrow
    have hdelta := List.all_eq_true.mp hrow.2 _
      (mem_zipIdx_of_lt hrow.1 (show n % 16 < 16 by omega))
    have hn : n / 16 * 16 + n % 16 = n := by omega
    simp only [hn, Bool.or_eq_true, Bool.not_eq_true', beq_iff_eq] at hdelta
    rw [hfold, ht] at hdelta
    exact (hdelta.resolve_left (by decide)).symm

theorem rtlUpcaseUnicodeChar_stop (h : rtlUpcaseUnicodeChar c = 0x2E) : c = 0x2E :=
  rtlUpcaseUnicodeChar_sign (by decide) h

end Proskrnl
