import Proskrnl.Lib.Rtl
import Proskrnl.Library.Bytes

/-!
# Names in directory entries

The slots of a FAT directory (`fs/fat32/dir.c`): a short entry of 32 bytes with an 8.3 name, and
before it, where the name needs them, long-name entries of 13 UTF-16 units each, the last part of the
name first. `FatWalkNext` reads a directory as its list of slots; how these lie on the disk is
`Proskrnl.Fat.Directory`.
-/

namespace Proskrnl.Fat
open Bytes

abbrev Slot := List UInt8

/-- Byte `i` of a slot. -/
def Slot.byte (s : Slot) (i : Nat) : UInt8 := s.getD i 0

def fatAttrVolumeId : UInt8 := 0x08

def fatAttrDirectory : UInt8 := 0x10

def fatAttrLongName : UInt8 := 0x0F

def fatAttrLongNameMask : UInt8 := 0x3F

def fatLfnLast : UInt8 := 0x40

def fatLfnCharsPerEntry : Nat := 13

def fatMaxLfnEntries : Nat := 20

def separator : UInt16 := 0x5C

def reservedChar (c : UInt16) : Bool :=
  c < 0x20 || ([0x22, 0x2A, 0x2F, 0x3A, 0x3C, 0x3E, 0x3F, 0x7C] : List UInt16).contains c

def dotElement : WStr → Bool
  | [0x2E] | [0x2E, 0x2E] => true
  | 0x2E :: 0x5C :: _ | 0x2E :: 0x2E :: 0x5C :: _ => true
  | _ => false

/-- The outer loop of `FatValidateNtPath`, which begins at the first character of a component. -/
def validateFrom : Nat → WStr → Bool
  | 0, _ => true
  | rounds + 1, path =>
    if path = [] then true
    else if path.head? = some separator ∨ dotElement path then false
    else if (path.takeWhile (· ≠ separator)).any reservedChar then false
    else validateFrom rounds ((path.dropWhile (· ≠ separator)).drop 1)

/-- False for `STATUS_OBJECT_NAME_INVALID`. -/
def fatValidateNtPath (path : WStr) : Bool := validateFrom (path.length + 1) path

def fatNamesEqualInsensitive (a b : WStr) : Bool := rtlEqualUnicodeString a b

/-- A stored leading 0x05 stands for 0xE5. -/
def restoreLead : List UInt8 → List UInt8
  | [] => []
  | c :: rest => (if c = 0x05 then 0xE5 else c) :: rest

def fatRenderShortName (sfn : List UInt8) : WStr :=
  let base := restoreLead ((sfn.take 8).takeWhile (· ≠ 0x20))
  let ext := ((sfn.drop 8).take 3).takeWhile (· ≠ 0x20)
  (base ++ if sfn.getD 8 0 ≠ 0x20 then 0x2E :: ext else []).map fun c => c.toUInt16

def fatShortNameChecksum (sfn : List UInt8) : UInt8 :=
  (sfn.take 11).foldl
    (fun (sum c : UInt8) => (if sum &&& 1 ≠ 0 then (0x80 : UInt8) else 0) + (sum >>> 1) + c) 0

def padName (n : Nat) (s : List UInt8) : List UInt8 := s ++ List.replicate (n - s.length) 0x20

/-- The characters a bare 8.3 entry can hold. -/
def exact83Char (c : UInt16) : Bool :=
  decide (c ≤ 0x7E ∧ 0x20 ≤ c ∧ ¬ (0x61 ≤ c ∧ c ≤ 0x7A)) &&
    !([0x22, 0x2A, 0x2B, 0x2C, 0x2E, 0x2F, 0x3A, 0x3B, 0x3C, 0x3D, 0x3E, 0x3F, 0x5B, 0x5C, 0x5D,
      0x7C] : List UInt16).contains c && c != 0x20

/-- The 11 bytes of a name that an 8.3 entry holds as it is. -/
def fatBuildExact83 (name : WStr) : Option (List UInt8) :=
  let base := name.takeWhile (· ≠ 0x2E)
  let ext := (name.dropWhile (· ≠ 0x2E)).drop 1
  if name.count 0x2E > 1 then none
  else if base.length = 0 ∨ base.length > 8 ∨ ext.length > 3 ∨
      (0x2E ∈ name ∧ ext.length = 0) then none
  else if (base ++ ext).all exact83Char then
    some (padName 8 (base.map fun c => c.toUInt8) ++ padName 3 (ext.map fun c => c.toUInt8))
  else none

/-- What a unit of a long name leaves in the base of its generated short name. -/
def shortBaseChar (u : UInt16) : Option UInt8 :=
  let c := rtlUpcaseUnicodeChar u
  if c ≤ 0x20 ∨ c > 0x7E ∨ c = 0x2E then none
  else if ([0x22, 0x2A, 0x2B, 0x2C, 0x2F, 0x3A, 0x3B, 0x3C, 0x3D, 0x3E, 0x3F, 0x5B, 0x5C, 0x5D,
      0x7C] : List UInt16).contains c then some 0x5F
  else some c.toUInt8

def shortExtChar (u : UInt16) : Option UInt8 :=
  let c := rtlUpcaseUnicodeChar u
  if 0x20 < c ∧ c ≤ 0x7E ∧ c ≠ 0x2E then some c.toUInt8 else none

/-- A name without its leading dots, cut at the last of the dots that are left. -/
def splitLastDot (name : WStr) : WStr × WStr :=
  let name := name.dropWhile (· = 0x2E)
  let ext := (name.reverse.takeWhile (· ≠ 0x2E)).reverse
  if 0x2E ∈ name then (name.take (name.length - ext.length - 1), ext) else (name, [])

/-- The base of a generated short name, before its numeric tail. -/
def shortBase (name : WStr) : List UInt8 :=
  let base := ((splitLastDot name).1.filterMap shortBaseChar).take 8
  if base = [] then [0x5F] else base

def shortExt (name : WStr) : List UInt8 := ((splitLastDot name).2.filterMap shortExtChar).take 3

/-- The decimal digits of a tail; `width` is the least number of them. -/
def tailDigits (width tail : Nat) : List UInt8 :=
  let digits := (Nat.digits 10 tail).map fun d => UInt8.ofNat (0x30 + d)
  (digits ++ List.replicate (width - digits.length) 0x30).reverse

/-- The short name that `FatGenerateShortName` tries for a tail: the name has four characters at
least, and the tail takes the place of the end of the base. -/
def shortNameFor (name : WStr) (tail : Nat) : List UInt8 :=
  let base := shortBase name
  let digits := tailDigits (3 - base.length) tail
  padName 8 (base.take (8 - 1 - digits.length) ++ 0x7E :: digits) ++ padName 3 (shortExt name)

/-- Where unit `i` of a long-name entry stands. -/
def lfnOffset (i : Nat) : Nat :=
  if i < 5 then 1 + i * 2 else if i < 11 then 14 + (i - 5) * 2 else 28 + (i - 11) * 2

def fatLfnEntryChars (entry : Slot) : WStr :=
  (List.range 13).map fun i => UInt16.ofNat (field entry (lfnOffset i) 2)

/-- The long-name entry that `FatWriteEntrySlots` composes: ordinal, 5 units, attributes, type and
checksum, 6 units, no cluster, 2 units. -/
def lfnEntry (ordinal checksum : UInt8) (units : WStr) : Slot :=
  ordinal :: ofUnits (units.take 5) ++ [fatAttrLongName, 0, checksum] ++
    ofUnits ((units.drop 5).take 6) ++ [0, 0] ++ ofUnits (units.drop 11)

/-- Unit `i` of a name as long-name entries hold it: ended by a NUL, then padded. -/
def lfnUnit (name : WStr) (i : Nat) : UInt16 :=
  if i < name.length then name.getD i 0 else if i = name.length then 0x0000 else 0xFFFF

def lfnUnits (name : WStr) (ordinal : Nat) : WStr :=
  (List.range 13).map fun i => lfnUnit name ((ordinal - 1) * 13 + i)

/-- `FAT_WALK_ENTRY`. -/
structure WalkEntry where
  sfn : Slot
  sfnSlot : Nat
  lfnStartSlot : Nat
  name : WStr
deriving DecidableEq

/-- A run of long-name entries on the way to its short entry: `lfnTop`, `lfnChecksum`, `runStart` and
`lfn` of `FatWalkNext`. -/
structure LfnRun where
  top : Nat
  checksum : UInt8
  start : Nat
  units : WStr
deriving DecidableEq

def Slot.isFree (s : Slot) : Bool := s.byte 0 = 0x00 || s.byte 0 = 0xE5

def Slot.isLongName (s : Slot) : Bool := s.byte 11 &&& fatAttrLongNameMask = fatAttrLongName

def Slot.isVolumeId (s : Slot) : Bool := s.byte 11 &&& fatAttrVolumeId ≠ 0

def lfnStep (entry : Slot) (slot : Nat) (run : Option LfnRun) : Option LfnRun :=
  let ordinal := (entry.byte 0 &&& 0x3F).toNat
  if ordinal = 0 ∨ ordinal > fatMaxLfnEntries then none
  else
    let run :=
      if entry.byte 0 &&& fatLfnLast ≠ 0 then
        some { top := ordinal, checksum := entry.byte 13, start := slot,
               units := List.replicate (fatMaxLfnEntries * fatLfnCharsPerEntry) 0 }
      else run.filter fun run => entry.byte 13 = run.checksum
    run.map fun run =>
      let offset := (ordinal - 1) * fatLfnCharsPerEntry
      { run with
        units := run.units.take offset ++ fatLfnEntryChars entry ++
          run.units.drop (offset + fatLfnCharsPerEntry) }

/-- The long name that a run gives to a short entry, if it is this entry's run. -/
def lfnName (entry : Slot) (run : Option LfnRun) : Option (WStr × Nat) :=
  run.bind fun run =>
    if fatShortNameChecksum entry = run.checksum then
      let name := (run.units.take (run.top * fatLfnCharsPerEntry)).takeWhile fun u =>
        u ≠ 0x0000 ∧ u ≠ 0xFFFF
      if 0 < name.length ∧ name.length ≤ 255 then some (name, run.start) else none
    else none

def walkEntry (entry : Slot) (slot : Nat) (run : Option LfnRun) : WalkEntry :=
  match lfnName entry run with
  | some (name, start) => { sfn := entry, sfnSlot := slot, lfnStartSlot := start, name }
  | none =>
    { sfn := entry, sfnSlot := slot, lfnStartSlot := slot, name := fatRenderShortName entry }

/-- The loop of `FatWalkNext` over the slots that are left. -/
def walkLoop : List Slot → Nat → Option LfnRun → Option (WalkEntry × Nat)
  | [], _, _ => none
  | entry :: rest, slot, run =>
    if entry.byte 0 = 0x00 then none
    else if entry.byte 0 = 0xE5 then walkLoop rest (slot + 1) none
    else if entry.isLongName then walkLoop rest (slot + 1) (lfnStep entry slot run)
    else if entry.isVolumeId then walkLoop rest (slot + 1) none
    else some (walkEntry entry slot run, slot + 1)

/-- The next logical entry at or after a slot, and the slot behind it; none for
`STATUS_NO_MORE_FILES`. -/
def fatWalkNext (slots : List Slot) (slot : Nat) : Option (WalkEntry × Nat) :=
  walkLoop (slots.drop slot) slot none

/-- The logical entries from a slot on, as the callers of `FatWalkNext` see them one after another.
Each call takes a slot at least, so their number bounds the rounds. -/
def walkFrom (slots : List Slot) : Nat → Nat → List WalkEntry
  | 0, _ => []
  | rounds + 1, slot =>
    match fatWalkNext slots slot with
    | none => []
    | some (entry, next) => entry :: walkFrom slots rounds next

def entries (slots : List Slot) : List WalkEntry := walkFrom slots (slots.length + 1) 0

def fatShortNameExists (slots : List Slot) (sfn : List UInt8) : Bool :=
  (entries slots).any fun entry => entry.sfn.take 11 = sfn

/-- The search of `FatGenerateShortName` for a tail that is not taken, over the tails that are
left. -/
def findTail (slots : List Slot) (name : WStr) : Nat → Nat → Option (List UInt8)
  | 0, _ => none
  | rounds + 1, tail =>
    if fatShortNameExists slots (shortNameFor name tail) then findTail slots name rounds (tail + 1)
    else some (shortNameFor name tail)

/-- None for `STATUS_DISK_FULL`. -/
def fatGenerateShortName (slots : List Slot) (name : WStr) : Option (List UInt8) :=
  findTail slots name 999999 1

/-- The short name that `FatWriteEntrySlots` gives a name, and whether long-name entries go with
it. -/
def chooseShortName (slots : List Slot) (name : WStr) : Option (List UInt8 × Bool) :=
  match fatBuildExact83 name with
  | some sfn =>
    if fatShortNameExists slots sfn then (fatGenerateShortName slots name).map (·, true)
    else some (sfn, false)
  | none => (fatGenerateShortName slots name).map (·, true)

/-- The slots that `FatWriteEntrySlots` writes, in their order on the disk: the run from the highest
ordinal down, and the short entry. -/
def entrySlots (name : WStr) (sfn : List UInt8) (needLfn : Bool) (shortEntry : Slot) : List Slot :=
  let lfnEntries :=
    if needLfn then (name.length + fatLfnCharsPerEntry - 1) / fatLfnCharsPerEntry else 0
  ((List.range lfnEntries).map fun i =>
    let ordinal := lfnEntries - i
    lfnEntry (UInt8.ofNat ordinal ||| if ordinal = lfnEntries then fatLfnLast else 0)
      (fatShortNameChecksum sfn) (lfnUnits name ordinal)) ++ [shortEntry]

/-- The scan of `FatFindFreeSlots`: the first run of `count` free slots. -/
def freeRun (count : Nat) : List Slot → Nat → Nat → Nat → Option Nat
  | [], _, _, _ => none
  | entry :: rest, slot, runStart, runLength =>
    if entry.isFree then
      let runStart := if runLength = 0 then slot else runStart
      if runLength + 1 = count then some runStart
      else freeRun count rest (slot + 1) runStart (runLength + 1)
    else freeRun count rest (slot + 1) runStart 0

end Proskrnl.Fat
