import Proskrnl.Io.MatchMask

/-!
# Directory entries under a mask

What `kernel/io/query.c` makes of the entries a file system reports: which short names it hands on, and
which entries a mask lets through. Names that are equal up to case are in the same masks.
-/

namespace Proskrnl
open List

/-- The characters that the FAT specification reserves. -/
def illegalDosChars : WStr :=
  [0x22, 0x2A, 0x2B, 0x2C, 0x2F, 0x3A, 0x3B, 0x3C, 0x3D, 0x3E, 0x3F, 0x5B, 0x5C, 0x5D, 0x7C]

/-- The loop of `RtlIsNameLegalDOS8Dot3`. -/
def isLegal83From : WStr → Nat → Nat → Bool → Bool
  | [], base, ext, sawDot =>
    if base = 0 ∨ 8 < base ∨ 3 < ext then false else !sawDot || ext != 0
  | c :: rest, base, ext, sawDot =>
    if c = 0x2E then
      if sawDot ∨ base = 0 then false else isLegal83From rest base ext true
    else if c < 0x20 ∨ 0x7E < c then false
    else if c = 0x20 then false
    else if illegalDosChars.contains c then false
    else if sawDot then isLegal83From rest base (ext + 1) sawDot
    else isLegal83From rest (base + 1) ext sawDot

/-- `RtlIsNameLegalDOS8Dot3`, without an OEM name and without a report of spaces. -/
def rtlIsNameLegalDOS8Dot3 (name : WStr) : Bool :=
  if name = [] then false
  else if name = [0x2E] ∨ name = [0x2E, 0x2E] then true
  else isLegal83From name 0 0 false

namespace Io

/-- The name, the short name as the file system stores it, and what else is reported. -/
structure IoDirEntry (ι : Type) where
  name : WStr
  shortName : WStr
  info : ι
  deriving DecidableEq

variable {ι : Type}

/-- The short name that is reported, empty for none. -/
def iopFillShortName (entry : IoDirEntry ι) : WStr :=
  if entry.shortName = [] ∨ rtlIsNameLegalDOS8Dot3 entry.name = true then [] else entry.shortName

def maskedName (name : WStr) : WStr := if name = [0x2E, 0x2E] then [0x2E] else name

def iopMatchEntryName (name mask : WStr) : Bool := iopMatchMask (maskedName name) mask

def iopEntryMatchesMask (entry : IoDirEntry ι) (mask : WStr) : Bool :=
  iopMatchEntryName entry.name mask ||
    (entry.shortName != [] && iopMatchEntryName entry.shortName mask)

open PositionSets

def stops (name : WStr) : List Bool := name.map fun u => u == unitOf '.'

variable {name name' : WStr}

theorem stops_congr (h : foldUnits name = foldUnits name') :
    stops name = stops name' := by
  have hunit : ∀ u : UInt16, (u == unitOf '.') = ((rtlUpcaseUnicodeChar u).toNat == 0x2E) := by
    intro u
    have hstop : (rtlUpcaseUnicodeChar (unitOf '.')).toNat = 0x2E := by decide +kernel
    rw [Bool.eq_iff_iff, beq_iff_eq, beq_iff_eq]
    constructor
    · rintro rfl
      exact hstop
    · intro hfold
      exact rtlUpcaseUnicodeChar_stop (UInt16.toNat_inj.mp hfold)
  have hstops : ∀ name : WStr, stops name = (foldUnits name).map (· == 0x2E) := by
    intro name
    rw [foldUnits, List.map_map, stops]
    exact map_congr_left fun u _ => hunit u
  rw [hstops, hstops, h]

theorem starLimit_eq (name : WStr) :
    starLimit name =
      if true ∈ stops name then ((stops name).rdropWhile (!·)).length else (stops name).length := by
  have hmem : unitOf '.' ∈ name ↔ true ∈ stops name := by
    simp [stops, List.mem_map]
  have hdrop : (stops name).rdropWhile (!·) =
      (name.rdropWhile (· ≠ unitOf '.')).map fun u => u == unitOf '.' := by
    rw [stops, List.rdropWhile, List.rdropWhile, ← map_reverse, dropWhile_map, map_reverse]
    congr 3
    funext u
    exact (decide_not ..).symm
  rw [starLimit, hdrop, length_map, stops, length_map]
  simp only [hmem, stops]

section
variable (h : foldUnits name = foldUnits name')
include h

theorem length_congr :
    name.length = name'.length := by
  simpa [foldUnits] using congrArg List.length h

theorem drop_congr (n : Nat) :
    foldUnits (name.drop n) = foldUnits (name'.drop n) := by
  rw [foldUnits, foldUnits, map_drop, map_drop]
  exact congrArg (List.drop n) h

theorem maskRule_congr (mask : WStr) (n : Nat) :
    maskRule mask name n = maskRule mask name' n := by
  have hlimit : starLimit name = starLimit name' := by
    rw [starLimit_eq, starLimit_eq, stops_congr h]
  cases mask with
  | nil => rfl
  | cons m rest =>
    cases name with
    | nil => rw [eq_nil_of_length_eq_zero (length_congr h).symm]
    | cons unit tail =>
      cases name' with
      | nil => cases length_congr h
      | cons unit' tail' =>
        have hstop : (unit == unitOf '.') = (unit' == unitOf '.') := (List.cons.inj (stops_congr h)).1
        have hunit : unit = unitOf '.' ↔ unit' = unitOf '.' := by
          rw [← beq_iff_eq, hstop, beq_iff_eq]
        have hfold : rtlUpcaseUnicodeChar unit = rtlUpcaseUnicodeChar unit' :=
          UInt16.toNat_inj.mp (List.cons.inj h).1
        simp only [maskRule, hlimit, hunit, hfold]

theorem takes_congr {mask : WStr}
    (htakes : Takes maskRule mask name) : Takes maskRule mask name' := by
  induction mask generalizing name name' with
  | nil =>
    have hname : name = [] := htakes
    rw [hname] at h
    exact eq_nil_of_length_eq_zero (length_congr h).symm
  | cons m mask ih =>
    obtain ⟨n, hn, hrule, hrest⟩ := htakes
    exact ⟨n, length_congr h ▸ hn, (maskRule_congr h _ n).symm.trans hrule, ih (drop_congr h n) hrest⟩

theorem iopMatchMask_congr (mask : WStr) :
    iopMatchMask name mask = iopMatchMask name' mask := by
  rw [Bool.eq_iff_iff, iopMatchMask_iff, iopMatchMask_iff]
  exact ⟨takes_congr h, takes_congr h.symm⟩

end

def isLiteral (m : UInt16) : Bool :=
  !([unitOf '*', unitOf '<', unitOf '>', unitOf '?', unitOf '"'] : WStr).contains m

theorem isLiteral_iff {m : UInt16} : isLiteral m = true ↔
    m ≠ unitOf '*' ∧ m ≠ unitOf '<' ∧ m ≠ unitOf '>' ∧ m ≠ unitOf '?' ∧ m ≠ unitOf '"' := by
  simp [isLiteral]

/-- A mask of literals lets through the names that are equal to it up to case. -/
theorem iopMatchMask_literal {mask : WStr} (hmask : ∀ m ∈ mask, isLiteral m = true) (name : WStr) :
    iopMatchMask name mask = true ↔ foldUnits mask = foldUnits name := by
  rw [iopMatchMask_iff]
  induction mask generalizing name with
  | nil =>
    cases name with
    | nil => exact iff_of_true rfl rfl
    | cons unit tail => exact iff_of_false (cons_ne_nil _ _) (by simp [foldUnits])
  | cons m mask ih =>
    obtain ⟨hstar, hdosStar, hdosQm, hquestion, hdosDot⟩ := isLiteral_iff.mp (hmask m mem_cons_self)
    cases name with
    | nil =>
      rw [takes_nil hstar hdosStar]
      refine iff_of_false ?_ (by simp [foldUnits])
      rintro ⟨hm | hm, -⟩
      · exact hdosQm hm
      · exact hdosDot hm
    | cons unit tail =>
      rw [takes_literal hstar hdosStar hdosQm hquestion, if_neg hdosDot,
        ih fun m hm => hmask m (.tail _ hm)]
      simp only [foldUnits, map_cons, List.cons.injEq, UInt16.toNat_inj]

end Io

end Proskrnl
