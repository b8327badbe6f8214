import Proskrnl.Mm.ImageBuild

/-!
# What a master holds

The bytes of an image as its file and its relocation table give them, and the master a build makes. The
headers and the segments stand at their places, and each entry of the table adds the distance to the
preferred base once. The build stamps the base into the header by adding the distance there as well, which
gives the base only where the entries have left the field alone.
-/

namespace Proskrnl.Mm.Pe

open Traps Outcome List
open Intervals (Laid)

variable {image : ImageInfo} {raw data : List UInt8} {copy copy' : ImageCopy}

/-! ## The bytes of the file -/

/-- What the file puts at an address of the image: the headers, the segments, and zero elsewhere. -/
def fileByte (image : ImageInfo) (raw : List UInt8) (a : Nat) : UInt8 :=
  if a < min image.sizeOfHeaders raw.length then raw.getD a 0
  else
    match image.segments.find? fun seg =>
      seg.virtualAddress ≤ a ∧ a < seg.virtualAddress + seg.rawSize with
    | some seg => raw.getD (seg.rawOffset + (a - seg.virtualAddress)) 0
    | none => 0

def Gives (range : ImageRange) (a : Nat) : Prop := range.rva ≤ a ∧ a < range.rva + range.rawSize

instance (range : ImageRange) (a : Nat) : Decidable (Gives range a) :=
  inferInstanceAs (Decidable (_ ∧ _))

def rangesByte (raw : List UInt8) (byte : Nat → UInt8) (ranges : List ImageRange) (a : Nat) : UInt8 :=
  match ranges.find? fun range => Gives range a with
  | some range => raw.getD (range.rawOffset + (a - range.rva)) 0
  | none => byte a

theorem rangesByte_cons (byte : Nat → UInt8) (range : ImageRange) (ranges : List ImageRange) (a : Nat) :
    rangesByte raw byte (range :: ranges) a =
      if Gives range a then raw.getD (range.rawOffset + (a - range.rva)) 0
      else rangesByte raw byte ranges a := by
  by_cases hgives : Gives range a
  · rw [rangesByte, find?_cons, decide_eq_true hgives, if_pos hgives]
  · rw [rangesByte, find?_cons, decide_eq_false hgives, if_neg hgives]
    rfl

variable {a width m base : Nat}

theorem rangesByte_congr {byte byte' : Nat → UInt8} (ranges : List ImageRange)
    (h : byte a = byte' a) : rangesByte raw byte ranges a = rangesByte raw byte' ranges a := by
  rw [rangesByte, rangesByte, h]

theorem rangesByte_of_not (byte : Nat → UInt8) {ranges : List ImageRange}
    (h : ∀ range ∈ ranges, ¬ Gives range a) : rangesByte raw byte ranges a = byte a := by
  have hnone : ranges.find? (fun range => Gives range a) = none := by
    rw [find?_eq_none]
    intro range hrange
    simpa using h range hrange
  rw [rangesByte, hnone]

theorem mipMasterCommitRange_byte {pageCount : Nat} {range : ImageRange}
    (h : Mm.mipMasterCommitRange raw pageCount copy range = some copy') :
    copy' =
      { committed := fun page => copy.committed page || decide (page ∈ range.pageList)
        byte := rangesByte raw copy.byte [range] } := by
  rw [Mm.mipMasterCommitRange] at h
  split at h
  · cases h
  · cases h
    congr 1
    funext a
    rw [rangesByte_cons]
    rfl

theorem foldlM_commitRange {pageCount fileSize sizeOfImage : Nat} {ranges : List ImageRange}
    (hlaid : Laid ImageRange.rva ImageRange.limit ranges)
    (hfits : ∀ range ∈ ranges, range.Fits fileSize sizeOfImage)
    (h : ranges.foldlM (Mm.mipMasterCommitRange raw pageCount) copy = some copy') :
    copy' =
      { committed := fun page =>
          copy.committed page || decide (page ∈ ranges.flatMap ImageRange.pageList)
        byte := rangesByte raw copy.byte ranges } := by
  induction ranges generalizing copy with
  | nil =>
    cases h
    rw [ImageCopy.mk.injEq]
    exact ⟨funext fun page => (Bool.or_false _).symm, rfl⟩
  | cons range ranges ih =>
    obtain ⟨-, hbehind, hlaid⟩ := Intervals.laid_cons.mp hlaid
    rw [foldlM_cons] at h
    obtain ⟨mid, hmid, hrest⟩ := Option.bind_eq_some_iff.mp h
    rw [ih hlaid (fun r hr => hfits r (.tail _ hr)) hrest, mipMasterCommitRange_byte hmid]
    rw [ImageCopy.mk.injEq]
    refine ⟨?_, ?_⟩
    · funext page
      simp only [flatMap_cons, mem_append, Bool.decide_or, Bool.or_assoc]
    · funext a
      rw [rangesByte_cons]
      dsimp only
      by_cases hgives : Gives range a
      · -- no later range reaches down to the address
        have hnone : ∀ later ∈ ranges, ¬ Gives later a := by
          intro later hlater hgives'
          have hlow := hbehind later hlater
          have hfilled := (hfits range mem_cons_self).filled
          have := hgives.2
          have := hgives'.1
          rw [ImageRange.limit] at hlow
          omega
        rw [rangesByte_of_not _ hnone, if_pos hgives, rangesByte_cons, if_pos hgives]
      · have hmid : rangesByte raw copy.byte [range] a = copy.byte a := by
          rw [rangesByte_cons, if_neg hgives]
          rfl
        rw [if_neg hgives]
        exact rangesByte_congr ranges hmid

theorem rangesByte_ranges (a : Nat) :
    rangesByte raw (fun _ => 0) (image.ranges raw.length) a = fileByte image raw a := by
  rw [fileByte, ImageInfo.ranges, rangesByte_cons]
  have hheader : Gives ⟨0, ulong (min image.sizeOfHeaders raw.length + pageSize - 1) / pageSize, 0,
      min image.sizeOfHeaders raw.length, pageReadOnly⟩ a ↔ a < min image.sizeOfHeaders raw.length := by
    simp [Gives]
  simp only [hheader, Nat.zero_add, Nat.sub_zero]
  congr 1
  rw [rangesByte, find?_map]
  have hfind : image.segments.find? ((fun range => decide (Gives range a)) ∘ segmentRange) =
      image.segments.find? fun seg =>
        decide (seg.virtualAddress ≤ a ∧ a < seg.virtualAddress + seg.rawSize) := rfl
  change (match (image.segments.find? ((fun range => decide (Gives range a)) ∘ segmentRange)).map
    segmentRange with | some range => _ | none => _) = _
  rw [hfind]
  cases image.segments.find? fun seg =>
    decide (seg.virtualAddress ≤ a ∧ a < seg.virtualAddress + seg.rawSize) with
  | none => rfl
  | some seg => rfl

theorem commitImage_eq (hfits : image.Fits raw.length)
    (h : commitImage image raw raw.length = .ok copy) :
    copy = { committed := covers image raw.length, byte := fileByte image raw } := by
  rw [commitImage] at h
  split at h
  · rename_i copy' hfold
    cases h
    rw [foldlM_commitRange hfits.laid hfits.ranges hfold, ImageCopy.mk.injEq]
    exact ⟨rfl, funext rangesByte_ranges⟩
  · cases h

/-! ## The relocation table -/

def numberAt (byte : Nat → UInt8) (a width : Nat) : Nat :=
  Bytes.ofLe ((List.range width).map fun i => byte (a + i))

def putNumber (a width value : Nat) (byte : Nat → UInt8) (b : Nat) : UInt8 :=
  if a ≤ b ∧ b < a + width then (Bytes.le width value).getD (b - a) 0 else byte b

/-- What one fixup does: it adds the distance to the number at its address. -/
def addDelta (delta : Nat) (byte : Nat → UInt8) (fixup : Nat × Nat) : Nat → UInt8 :=
  putNumber fixup.1 fixup.2 (numberAt byte fixup.1 fixup.2 + delta) byte

/-- The fixup of an entry, its address and its width: four bytes for HIGHLOW, eight for DIR64. -/
def entryFixup (blockRva entry : Nat) : Option (Nat × Nat) :=
  match entry / 0x1000 with
  | 3 => some (blockRva + entry % 0x1000, 4)
  | 10 => some (blockRva + entry % 0x1000, 8)
  | _ => none

def blockFixups (raw : List UInt8) (cursor : Nat) : List (Nat × Nat) :=
  (List.range (blockEntries raw cursor)).filterMap fun i =>
    entryFixup (Bytes.field raw cursor 4) (Bytes.field raw (cursor + 8 + 2 * i) 2)

instance (raw : List UInt8) (end_ cursor : Nat) : Decidable (IsBlock raw end_ cursor) :=
  decidable_of_iff (cursor + 8 ≤ end_ ∧ 8 ≤ Bytes.field raw (cursor + 4) 4 ∧
      cursor + Bytes.field raw (cursor + 4) 4 ≤ end_)
    ⟨fun h => ⟨h.1, h.2.1, h.2.2⟩, fun h => ⟨h.header, h.size, h.inside⟩⟩

/-- The well-formed blocks from a place of the file on, up to the first that is malformed. A block has
eight bytes at least, so that the size of the table bounds their number. -/
def wellFormedBlocks (raw : List UInt8) (end_ : Nat) : Nat → Nat → List Nat
  | 0, _ => []
  | bound + 1, cursor =>
    if IsBlock raw end_ cursor then
      cursor :: wellFormedBlocks raw end_ bound (cursor + Bytes.field raw (cursor + 4) 4)
    else []

def fixups (image : ImageInfo) (raw : List UInt8) : List (Nat × Nat) :=
  if image.relocRva = 0 ∨ image.relocSize = 0 then []
  else
    match mipRvaToFileOffset image image.relocRva image.relocSize with
    | none => []
    | some offset =>
      (wellFormedBlocks raw (offset + image.relocSize) image.relocSize offset).flatMap (blockFixups raw)

def distance (image : ImageInfo) (base : Nat) : Nat := uint64 (base + 2 ^ 64 - image.preferredBase)

def relocatedByte (image : ImageInfo) (raw : List UInt8) (base : Nat) : Nat → UInt8 :=
  (fixups image raw).foldl (addDelta (distance image base)) (fileByte image raw)

def referenceByte (image : ImageInfo) (raw : List UInt8) (base : Nat) : Nat → UInt8 :=
  putNumber image.baseField.1 image.baseField.2 base (relocatedByte image raw base)

/-- The fixups leave the field of the base at the preferred base. -/
def BaseFieldKept (image : ImageInfo) (raw : List UInt8) (base : Nat) : Prop :=
  numberAt (relocatedByte image raw base) image.baseField.1 image.baseField.2 = image.preferredBase

/-- A master holds the contents of its file, relocated once: frames for the headers and the segments, and
in them the bytes of the reference image. -/
structure HoldsImage (image : ImageInfo) (raw : List UInt8) (master : Master) : Prop where
  pages : ∀ page, master.frames page ≠ 0 ↔ page ∈ imagePages image raw.length
  bytes : ∀ a, master.frames (a / pageSize) ≠ 0 → master.byte a = referenceByte image raw master.base a

/-! ## The pass over the table -/

variable {delta : Nat}

theorem mipMasterAddDelta_byte {rva : Nat}
    (h : mipMasterAddDelta copy rva width delta = some copy') :
    copy' = { copy with byte := addDelta delta copy.byte (rva, width) } := by
  rw [mipMasterAddDelta] at h
  split at h
  · cases h
  · cases h
    rfl

theorem relocateEntry_byte {blockRva entry : Nat}
    (h : relocateEntry image delta blockRva entry copy = .ok copy') :
    copy' = { copy with byte := (entryFixup blockRva entry).toList.foldl (addDelta delta) copy.byte } := by
  have hstep : ∀ width, fixup image delta (blockRva + entry % 0x1000) width copy = .ok copy' →
      copy' = { copy with byte := addDelta delta copy.byte (blockRva + entry % 0x1000, width) } := by
    intro width hfixup
    rw [fixup] at hfixup
    split at hfixup
    · cases hfixup
    · cases hadd : mipMasterAddDelta copy (blockRva + entry % 0x1000) width delta with
      | none =>
        rw [hadd] at hfixup
        cases hfixup
      | some copy'' =>
        rw [hadd] at hfixup
        cases hfixup
        exact mipMasterAddDelta_byte hadd
  rw [entryFixup]
  split
  case h_1 hlow =>
    apply hstep 4
    rw [relocateEntry, hlow] at h
    exact h
  case h_2 hwide =>
    apply hstep 8
    rw [relocateEntry, hwide] at h
    exact h
  case h_3 hlow hwide =>
    rw [relocateEntry] at h
    split at h
    · cases h
      rfl
    · split at h
      · cases h
      · rename_i hwidth
        split at hwidth
        · rename_i heq
          exact absurd heq hlow
        · rename_i heq
          exact absurd heq hwide
        · cases hwidth

theorem relocateEntries_byte {blockRva offset : Nat}
    (h : Mm.relocateEntries image raw delta blockRva m offset copy = .ok copy') :
    copy' =
      { copy with
        byte := ((List.range m).filterMap fun i =>
          entryFixup blockRva (Bytes.field raw (offset + 2 * i) 2)).foldl (addDelta delta) copy.byte } := by
  induction m generalizing offset copy with
  | zero =>
    cases h
    rfl
  | succ m ih =>
    rw [Mm.relocateEntries] at h
    cases hentry : relocateEntry image delta blockRva (Bytes.field raw offset 2) copy with
    | error e =>
      rw [hentry] at h
      cases h
    | ok mid =>
      rw [hentry] at h
      rw [ih h, relocateEntry_byte hentry, ImageCopy.mk.injEq]
      refine ⟨rfl, ?_⟩
      dsimp only
      have hnext : ∀ i, offset + 2 * (i + 1) = offset + 2 + 2 * i := by omega
      rw [range_succ_eq_map, filterMap_cons, filterMap_map]
      simp only [Function.comp_def, Nat.succ_eq_add_one, hnext, Nat.mul_zero, Nat.add_zero]
      cases entryFixup blockRva (Bytes.field raw offset 2) with
      | none => rfl
      | some fixup => rfl

theorem relocateBlocks_byte {end_ bound cursor : Nat}
    (h : Mm.relocateBlocks image raw delta end_ bound cursor copy = .ok copy') :
    copy' =
      { copy with
        byte := ((wellFormedBlocks raw end_ bound cursor).flatMap (blockFixups raw)).foldl
          (addDelta delta) copy.byte } := by
  induction bound generalizing cursor copy with
  | zero =>
    cases h
    rfl
  | succ bound ih =>
    rw [Mm.relocateBlocks] at h
    rw [wellFormedBlocks]
    split at h
    case isTrue hend =>
      cases h
      rw [if_neg fun hblock => by have := hblock.header; omega]
      rfl
    case isFalse hheader =>
      split at h
      case isTrue hend =>
        cases h
        rw [if_neg fun hblock => by have := hblock.size; have := hblock.inside; omega]
        rfl
      case isFalse hinside =>
        rw [if_pos ⟨by omega, by omega, by omega⟩]
        cases hentries : Mm.relocateEntries image raw delta (Bytes.field raw cursor 4)
          ((Bytes.field raw (cursor + 4) 4 - 8) / 2) (cursor + 8) copy with
        | error e =>
          rw [hentries] at h
          cases h
        | ok mid =>
          rw [hentries] at h
          rw [ih h, relocateEntries_byte hentries, flatMap_cons, foldl_append]
          rfl

theorem mipRelocateImage_byte (h : Mm.mipRelocateImage image raw delta copy = .ok copy') :
    copy' = { copy with byte := (fixups image raw).foldl (addDelta delta) copy.byte } := by
  rw [Mm.mipRelocateImage] at h
  rw [fixups]
  split at h
  case isTrue hnone =>
    cases h
    rw [if_pos hnone]
    rfl
  case isFalse hsome =>
    rw [if_neg hsome]
    cases hoffset : mipRvaToFileOffset image image.relocRva image.relocSize with
    | none =>
      rw [hoffset] at h
      cases h
    | some offset =>
      rw [hoffset] at h
      exact relocateBlocks_byte h

/-! ## The stamp -/

theorem numberAt_lt (byte : Nat → UInt8) (a width : Nat) : numberAt byte a width < 256 ^ width := by
  have hlt := Bytes.ofLe_lt ((List.range width).map fun i => byte (a + i))
  rwa [length_map, length_range] at hlt

theorem le_mod (width n : Nat) : Bytes.le width (n % 256 ^ width) = Bytes.le width n := by
  induction width generalizing n with
  | zero => rfl
  | succ width ih =>
    have hlow : UInt8.ofNat (n % 256 ^ (width + 1)) = UInt8.ofNat n := by
      apply UInt8.toNat_inj.mp
      rw [UInt8.toNat_ofNat', UInt8.toNat_ofNat', Nat.mod_mod_of_dvd _ (dvd_pow_self _ (Nat.succ_ne_zero width))]
    rw [Bytes.le, Bytes.le, hlow, Nat.pow_succ', Nat.mod_mul_right_div_self, ih]

theorem le_eq_le {n : Nat} :
    Bytes.le width m = Bytes.le width n ↔ m % 256 ^ width = n % 256 ^ width := by
  constructor
  · intro h
    rw [← Bytes.ofLe_le, h, Bytes.ofLe_le]
  · intro h
    rw [← le_mod, h, le_mod]

theorem le_ofLe (bytes : List UInt8) : Bytes.le bytes.length (Bytes.ofLe bytes) = bytes := by
  induction bytes with
  | nil => rfl
  | cons b bytes ih =>
    have hb : b.toNat < 256 := UInt8.toNat_lt b
    have hlow : UInt8.ofNat (b.toNat + 256 * Bytes.ofLe bytes) = b := by
      apply UInt8.toNat_inj.mp
      rw [UInt8.toNat_ofNat']
      omega
    have hhigh : (b.toNat + 256 * Bytes.ofLe bytes) / 256 = Bytes.ofLe bytes := by omega
    rw [length_cons, Bytes.le, Bytes.ofLe, hlow, hhigh, ih]

theorem putNumber_numberAt (a width : Nat) (byte : Nat → UInt8) :
    putNumber a width (numberAt byte a width) byte = byte := by
  funext b
  rw [putNumber, numberAt]
  split
  · rename_i hin
    have hlength : ((List.range width).map fun i => byte (a + i)).length = width := by simp
    have hle := le_ofLe ((List.range width).map fun i => byte (a + i))
    rw [hlength] at hle
    have hat : a + (b - a) = b := by omega
    rw [hle, getD_eq_getElem?_getD, getElem?_map, getElem?_range (by omega)]
    simp [hat]
  · rfl

theorem putNumber_eq_iff {n : Nat} {byte : Nat → UInt8} :
    (∀ b, putNumber a width m byte b = putNumber a width n byte b) ↔
      m % 256 ^ width = n % 256 ^ width := by
  rw [← le_eq_le]
  constructor
  · intro h
    apply ext_getElem (by simp)
    intro i hi hi'
    rw [Bytes.length_le] at hi
    have hat := h (a + i)
    rw [putNumber, putNumber, if_pos (by omega), if_pos (by omega), Nat.add_sub_cancel_left] at hat
    simpa [getD_eq_getElem?_getD, hi] using hat
  · intro h b
    rw [putNumber, putNumber, h]

theorem parseImageBody_base (data : List UInt8) (nt : Nat) (opt : OptionalHeader) :
    Ends (fun _ => True) (Mm.parseImageBody data nt opt) fun image =>
      image.preferredBase = opt.imageBase ∧ image.machine = Bytes.field data (nt + 4) 2 := by
  iterate 5
    refine Ends.ite (fun _ => Ends.error trivial) fun _ => ?_
  apply Ends.bind (Q := fun _ => True)
  · generalize Mm.parseSegments .. = segments
    cases segments with
    | error e => exact Ends.error trivial
    | ok segments => exact Ends.ok trivial
  · intro segments _
    exact Ends.ok ⟨rfl, rfl⟩

theorem preferredBase_lt (hparse : Mm.miParseImage data = .ok image) :
    image.preferredBase < 256 ^ image.baseField.2 := by
  rw [Mm.miParseImage] at hparse
  dsimp only at hparse
  iterate 3
    split at hparse
    · cases hparse
  split at hparse
  · cases hparse
  · rename_i opt hopt
    obtain ⟨hbase, hmachine⟩ := (parseImageBody_base data _ opt).of_ok hparse
    rw [hbase, ImageInfo.baseField, hmachine]
    rw [Mm.optionalHeader] at hopt
    split at hopt
    · rename_i hamd
      cases hopt
      rw [if_neg (by rw [hamd.1]; decide)]
      exact Bytes.field_lt ..
    · split at hopt
      · rename_i hi386
        cases hopt
        rw [if_pos hi386.1]
        exact Bytes.field_lt ..
      · cases hopt

theorem baseField_width (image : ImageInfo) : image.baseField.2 = 4 ∨ image.baseField.2 = 8 := by
  rw [ImageInfo.baseField]
  split
  · exact .inl rfl
  · exact .inr rfl

theorem baseField_lt {fileSize : Nat} (hfits : image.Fits fileSize)
    (ha : a < image.baseField.1 + image.baseField.2) : a < image.sizeOfHeaders := by
  have hheader := hfits.header
  rw [ImageInfo.baseField] at ha
  split at ha
  · dsimp only at ha
    omega
  · dsimp only at ha
    omega

theorem distance_eq (base : Nat) {value : Nat} (hwidth : width = 4 ∨ width = 8)
    (hpreferred : image.preferredBase < 256 ^ width) (hvalue : value < 256 ^ width) :
    (value + distance image base) % 256 ^ width = base % 256 ^ width ↔ value = image.preferredBase := by
  rw [distance, uint64]
  obtain rfl | rfl := hwidth
  · have hpow : 256 ^ 4 = 4294967296 := rfl
    rw [hpow] at *
    omega
  · have hpow : 256 ^ 8 = 18446744073709551616 := rfl
    rw [hpow] at *
    omega

theorem foldl_addDelta_zero (fixups : List (Nat × Nat)) (byte : Nat → UInt8) :
    fixups.foldl (addDelta 0) byte = byte := by
  induction fixups generalizing byte with
  | nil => rfl
  | cons fixup fixups ih =>
    rw [foldl_cons, addDelta, Nat.add_zero, putNumber_numberAt]
    exact ih byte

theorem relocateImage_byte (hcopy : copy.byte = fileByte image raw)
    (h : relocateImage image raw base copy = .ok copy') :
    copy' =
      { copy with
        byte := addDelta (distance image base) (relocatedByte image raw base) image.baseField } := by
  rw [relocateImage] at h
  split at h
  case isTrue hbase =>
    cases h
    have hdistance : distance image base = 0 := by
      rw [distance, hbase, Nat.add_sub_cancel_left]
      rfl
    rw [ImageCopy.mk.injEq, relocatedByte, hdistance, foldl_addDelta_zero, addDelta, Nat.add_zero,
      putNumber_numberAt]
    exact ⟨rfl, hcopy⟩
  case isFalse hbase =>
    cases hrelocate : Mm.mipRelocateImage image raw (uint64 (base + 2 ^ 64 - image.preferredBase)) copy with
    | error e =>
      simp only [hrelocate] at h
      cases h
    | ok mid =>
      simp only [hrelocate, bind, Except.bind] at h
      cases hadd : mipMasterAddDelta mid image.baseField.1 image.baseField.2
          (uint64 (base + 2 ^ 64 - image.preferredBase)) with
      | none =>
        rw [hadd] at h
        cases h
      | some stamped =>
        rw [hadd] at h
        cases h
        rw [mipMasterAddDelta_byte hadd, mipRelocateImage_byte hrelocate, hcopy]
        rfl

theorem relocateImage_iff (hpreferred : image.preferredBase < 256 ^ image.baseField.2)
    (hcopy : copy.byte = fileByte image raw)
    (h : relocateImage image raw base copy = .ok copy') :
    (∀ a, copy'.byte a = referenceByte image raw base a) ↔ BaseFieldKept image raw base := by
  rw [relocateImage_byte hcopy h]
  apply putNumber_eq_iff.trans
  exact distance_eq base (baseField_width image) hpreferred (numberAt_lt ..)

/-- A build that succeeds makes a master with the contents of the file, relocated once and with its base in
the header, exactly where the fixups of the table leave the field of the base alone. -/
theorem mipBuildImageMaster_holdsImage {whole : PeImage} {live : Nat → Prop} {l l' : Loader}
    {source : RawSource} {identity base : Nat} {master : Master}
    (hparse : miParseImage data = .ok whole) (hholds : l.Holds live)
    (hraw : source.bytes data = some raw)
    (hbuild : mipBuildImageMaster data source whole.toImageInfo identity base l = .ok (.ok master, l')) :
    master.base = base ∧
      (HoldsImage whole.toImageInfo raw master ↔ BaseFieldKept whole.toImageInfo raw base) := by
  obtain ⟨-, hpure, hfits⟩ := (miParseImage_ends data).of_ok hparse
  have hlength := RawSource.length_bytes hraw
  have hbuilt := ((mipBuildImageMaster_ends hholds source hfits identity base).of_ok hbuild).1
  obtain ⟨-, -, -, hbase, raw', hraw', hcopy⟩ := hbuilt
  rw [hraw] at hraw'
  cases hraw'
  refine ⟨hbase, ?_⟩
  rw [imageCopy] at hcopy
  cases hcommit : commitImage whole.toImageInfo raw raw.length with
  | error e =>
    rw [hcommit] at hcopy
    cases hcopy
  | ok committed =>
    rw [hcommit] at hcopy
    have hcommitted := commitImage_eq (hlength ▸ hfits) hcommit
    have hbytes : committed.byte = fileByte whole.toImageInfo raw := by rw [hcommitted]
    have hstamped := relocateImage_byte hbytes hcopy
    have hpages : ∀ page, master.frames page ≠ 0 ↔ page ∈ imagePages whole.toImageInfo raw.length := by
      intro page
      have hpage := congrFun (congrArg ImageCopy.committed hstamped) page
      rw [hcommitted] at hpage
      exact decide_eq_decide.mp hpage
    have hiff : (∀ a, master.byte a = referenceByte whole.toImageInfo raw base a) ↔
        BaseFieldKept whole.toImageInfo raw base := relocateImage_iff (preferredBase_lt hpure) hbytes hcopy
    rw [← hiff]
    constructor
    · intro hholds a
      by_cases hin : whole.baseField.1 ≤ a ∧ a < whole.baseField.1 + whole.baseField.2
      · have hframe : master.frames (a / pageSize) ≠ 0 := by
          have hcovers := covers_header (hlength ▸ hfits) (baseField_lt hfits hin.2)
          exact (hpages _).mpr (of_decide_eq_true hcovers)
        exact hbase ▸ hholds.bytes a hframe
      · -- beside the field both are the relocated image
        have hbyte := congrFun (congrArg ImageCopy.byte hstamped) a
        exact hbyte.trans ((if_neg hin).trans (if_neg hin).symm)
    · intro hall
      exact ⟨hpages, fun a _ => hbase ▸ hall a⟩

/-! ## A fixup at the field of the base -/

/-- A file of one segment, its relocation table, whose one fixup is at an address of the headers. -/
def fixedAt (rva : UInt8) : List UInt8 :=
  [0x4d, 0x5a] ++ List.replicate 58 0 ++ [64, 0, 0, 0] ++
    -- the signature, the machine, the number of segments and the size of the optional header
    [0x50, 0x45, 0, 0, 0x4c, 0x01, 1, 0] ++ List.replicate 12 0 ++ [224, 0, 0, 0] ++
    -- the preferred base and the alignment
    [0x0b, 0x01] ++ List.replicate 26 0 ++ [0, 0, 0x40, 0, 0, 0x10, 0, 0] ++ List.replicate 20 0 ++
    -- the sizes of the image and of its headers, and the relocation directory
    [0, 0x20, 0, 0, 0x60, 0x01, 0, 0] ++ List.replicate 28 0 ++ [16, 0, 0, 0] ++ List.replicate 40 0 ++
    [0, 0x10, 0, 0, 12, 0, 0, 0] ++ List.replicate 80 0 ++
    -- the header of the segment, and the segment
    List.replicate 8 0 ++ [12, 0, 0, 0, 0, 0x10, 0, 0, 12, 0, 0, 0, 0x60, 0x01, 0, 0] ++
    List.replicate 16 0 ++ [0, 0, 0, 0, 12, 0, 0, 0, rva, 0x30, 0, 0]

def masterOf (data : List UInt8) (base : Nat) : Option (PeImage × Master × Loader) :=
  match miParseImage data with
  | .error _ => none
  | .ok whole =>
    match mipBuildImageMaster data .snapshot whole.toImageInfo 0 base (plentifulLoader 2) with
    | .ok (.ok master, l) => some (whole, master, l)
    | _ => none

theorem masterOf_eq_some {whole : PeImage} {master : Master} {l : Loader}
    (h : masterOf data base = some (whole, master, l)) :
    miParseImage data = .ok whole ∧
      mipBuildImageMaster data .snapshot whole.toImageInfo 0 base (plentifulLoader 2) =
        .ok (.ok master, l) := by
  rw [masterOf] at h
  split at h
  · cases h
  · rename_i hparse
    split at h
    · rename_i hbuild
      cases h
      exact ⟨hparse, hbuild⟩
    · cases h

/-- A fixup in the header of the file beside the field of the base. -/
theorem holdsImage_fixedAt :
    ∃ whole master, (miParseImage (fixedAt 0x08) = .ok whole ∧ master.base = 0x410000) ∧
      HoldsImage whole.toImageInfo (fixedAt 0x08) master := by
  have hkept : ((masterOf (fixedAt 0x08) 0x410000).any fun r =>
      numberAt (relocatedByte r.1.toImageInfo (fixedAt 0x08) 0x410000) r.1.baseField.1 r.1.baseField.2 ==
        r.1.preferredBase) = true := by
    decide +kernel
  obtain ⟨⟨whole, master, l⟩, hmaster, hkept⟩ := (Option.any_eq_true _ _).mp hkept
  obtain ⟨hparse, hbuild⟩ := masterOf_eq_some hmaster
  obtain ⟨hbase, hiff⟩ := mipBuildImageMaster_holdsImage hparse (plentifulLoader_holds 2) rfl hbuild
  exact ⟨whole, master, ⟨hparse, hbase⟩, hiff.mpr (beq_iff_eq.mp hkept)⟩

/-- A fixup at the field of the base: the distance is added there twice. -/
theorem not_holdsImage_fixedAt :
    ¬ ∀ data whole base master l, miParseImage data = .ok whole →
      mipBuildImageMaster data .snapshot whole.toImageInfo 0 base (plentifulLoader 2) =
        .ok (.ok master, l) →
      HoldsImage whole.toImageInfo data master := by
  intro hall
  have htwice : ((masterOf (fixedAt 0x74) 0x410000).any fun r =>
      r.2.1.frames 0 != 0 &&
        r.2.1.byte 0x76 != referenceByte r.1.toImageInfo (fixedAt 0x74) r.2.1.base 0x76) = true := by
    decide +kernel
  obtain ⟨⟨whole, master, l⟩, hmaster, htwice⟩ := (Option.any_eq_true _ _).mp htwice
  obtain ⟨hparse, hbuild⟩ := masterOf_eq_some hmaster
  have hholds := hall _ whole _ master l hparse hbuild
  obtain ⟨hframe, hbyte⟩ := Bool.and_eq_true_iff.mp htwice
  exact absurd (hholds.bytes 0x76 (bne_iff_ne.mp hframe)) (bne_iff_ne.mp hbyte)

end Proskrnl.Mm.Pe
