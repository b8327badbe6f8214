import Proskrnl.Library.Intervals
import Proskrnl.Library.Traps
import Proskrnl.Mm.Image

/-!
# Reading an executable image

`MiParseImage` and `MiLookupImageExport` of `kernel/mm/pecoff.c` over the bytes of a file, load by load.
The kernel is built with the alignment checks of the sanitizer trapping, so that a header reached through
a pointer that is not aligned for it stops the kernel as an access outside of the file would. The block
of the file is aligned for every type, so that what is aligned is its offset.
-/

namespace Proskrnl.Mm

open Traps Outcome
open Intervals (Laid)

namespace Pe

abbrev Load := Except (Stop NtStatus)

/-- `MI_IMAGE_INFO` -/
structure PeImage extends ImageInfo where
  stackReserve : Nat
  stackCommit : Nat
  entryRva : Nat
  exportRva : Nat
  exportSize : Nat
  checksum : Nat
  fileSize : Nat
  characteristics : Nat
  dllCharacteristics : Nat
  subsystem : Nat
  subsystemMajor : Nat
  subsystemMinor : Nat
  osMajor : Nat
  osMinor : Nat
  containsCode : Bool
  deriving DecidableEq

/-- A form of the headers: the alignment of the record, and where the fields lie whose place depends
on the form. -/
structure NtHeaders where
  align : Nat
  size : Nat
  imageBase : Nat
  /-- The width of `ImageBase` and of the stack sizes. -/
  wide : Nat
  stackCommit : Nat
  numberOfRvaAndSizes : Nat
  dataDirectory : Nat

def imageNtHeaders64 : NtHeaders where
  align := 8
  size := 264
  imageBase := 48
  wide := 8
  stackCommit := 104
  numberOfRvaAndSizes := 132
  dataDirectory := 136

def imageNtHeaders32 : NtHeaders where
  align := 4
  size := 248
  imageBase := 52
  wide := 4
  stackCommit := 100
  numberOfRvaAndSizes := 116
  dataDirectory := 120

structure MipOptionalHeader extends OptionalHeader where
  stackReserve : Nat
  stackCommit : Nat
  entryRva : Nat
  checksum : Nat
  subsystem : Nat
  dllCharacteristics : Nat
  subsystemMajor : Nat
  subsystemMinor : Nat
  osMajor : Nat
  osMinor : Nat

def mipCaptureOptional (data : List UInt8) (nt : Nat) (form : NtHeaders) : Load MipOptionalHeader := do
  let imageBase ← member data form.align nt form.imageBase form.wide
  let stackReserve ← member data form.align nt 96 form.wide
  let stackCommit ← member data form.align nt form.stackCommit form.wide
  let sectionAlignment ← member data form.align nt 56 4
  let sizeOfImage ← member data form.align nt 80 4
  let sizeOfHeaders ← member data form.align nt 84 4
  let entryRva ← member data form.align nt 40 4
  let checksum ← member data form.align nt 88 4
  let numberOfRvaAndSizes ← member data form.align nt form.numberOfRvaAndSizes 4
  let subsystem ← member data form.align nt 92 2
  let dllCharacteristics ← member data form.align nt 94 2
  let subsystemMajor ← member data form.align nt 72 2
  let subsystemMinor ← member data form.align nt 74 2
  let osMajor ← member data form.align nt 64 2
  let osMinor ← member data form.align nt 66 2
  .ok { imageBase, stackReserve, stackCommit, sectionAlignment, sizeOfImage, sizeOfHeaders, entryRva,
        checksum, numberOfRvaAndSizes, dataDirectory := nt + form.dataDirectory, subsystem,
        dllCharacteristics, subsystemMajor, subsystemMinor, osMajor, osMinor }

/-- The optional header, by the machine and the width the file declares. The headers are reached through
the pointer to the wider form until the narrower one is known. -/
def optionalHeader (data : List UInt8) (nt : Nat) : Load MipOptionalHeader := do
  let machine ← member data 8 nt 4 2
  if machine = imageFileMachineAmd64 ∧ nt + 264 ≤ data.length then do
    let magic ← member data 8 nt 24 2
    if magic = 0x020b then mipCaptureOptional data nt imageNtHeaders64
    else .error (.refused statusInvalidImageFormat)
  else if machine = imageFileMachineI386 then do
    let magic ← member data 4 nt 24 2
    if magic = 0x010b then mipCaptureOptional data nt imageNtHeaders32
    else .error (.refused statusInvalidImageFormat)
  else .error (.refused statusInvalidImageFormat)

def dataDirectory (data : List UInt8) (opt : OptionalHeader) (index sizeOfImage : Nat) :
    Load (Nat × Nat) :=
  if index < opt.numberOfRvaAndSizes then do
    let size ← member data 4 (opt.dataDirectory + 8 * index) 4 4
    let rva ← member data 4 (opt.dataDirectory + 8 * index) 0 4
    if size ≠ 0 ∧ rva ≠ 0 ∧ rva < sizeOfImage ∧ size ≤ sizeOfImage - rva then .ok (rva, size)
    else .ok (0, 0)
  else .ok (0, 0)

/-- The segment of one section header before its checks, and whether it holds code. -/
def sectionHeader (data : List UInt8) (header : Nat) : Load (ImageSegment × Bool) := do
  let virtualAddress ← member data 4 header 12 4
  let virtualSize ← member data 4 header 8 4
  let sizeOfRawData ← member data 4 header 16 4
  let rawOffset ← member data 4 header 20 4
  let characteristics ← member data 4 header 36 4
  .ok ({ virtualAddress
         virtualSize := if virtualSize ≠ 0 then virtualSize else sizeOfRawData
         rawOffset
         rawSize := if rawOffset = 0 then 0 else sizeOfRawData
         protect := mipSegmentProtect characteristics },
       hasFlag characteristics 0x20000020)

/-- The loop over the section headers. -/
def parseSegments (data : List UInt8) (sizeOfImage : Nat) :
    Nat → Nat → Nat → Load (List ImageSegment × Bool)
  | 0, _, _ => .ok ([], false)
  | n + 1, header, nextFreeRva => do
    let (seg, code) ← sectionHeader data header
    if seg.virtualAddress % pageSize ≠ 0 ∨ sizeOfImage ≤ seg.virtualAddress ∨
        seg.virtualSize = 0 ∨ sizeOfImage - seg.virtualAddress < seg.virtualSize ∨
        seg.virtualAddress < nextFreeRva then .error (.refused statusInvalidImageFormat)
    else
      let seg := { seg with rawSize := min seg.rawSize seg.virtualSize }
      if seg.rawSize ≠ 0 ∧
          (data.length ≤ seg.rawOffset ∨ data.length - seg.rawOffset < seg.rawSize) then
        .error (.refused statusInvalidImageFormat)
      else do
        let (rest, codes) ← parseSegments data sizeOfImage n (header + 40)
          (ulongPageUp (seg.virtualAddress + seg.virtualSize))
        .ok (seg :: rest, code || codes)

/-- The directories and the segments, behind the checks of the headers. -/
def imageContents (data : List UInt8) (nt : Nat) (opt : MipOptionalHeader)
    (count sections sizeOfImage sizeOfHeaders : Nat) : Load PeImage := do
  let machine ← member data 8 nt 4 2
  let characteristics ← member data 8 nt 22 2
  let reloc ← dataDirectory data opt.toOptionalHeader 5 sizeOfImage
  let exports ← dataDirectory data opt.toOptionalHeader 0 sizeOfImage
  let (segments, containsCode) ←
    parseSegments data sizeOfImage count sections (ulongPageUp sizeOfHeaders)
  .ok { preferredBase := opt.imageBase
        sizeOfImage
        sizeOfHeaders
        ntHeaderOffset := nt
        relocRva := reloc.1
        relocSize := reloc.2
        machine
        relocsStripped := hasFlag characteristics 0x0001
        segments
        stackReserve := opt.stackReserve
        stackCommit := opt.stackCommit
        entryRva := opt.entryRva
        exportRva := exports.1
        exportSize := exports.2
        checksum := opt.checksum
        fileSize := ulong data.length
        characteristics
        dllCharacteristics := opt.dllCharacteristics
        subsystem := opt.subsystem
        subsystemMajor := opt.subsystemMajor
        subsystemMinor := opt.subsystemMinor
        osMajor := opt.osMajor
        osMinor := opt.osMinor
        containsCode }

/-- `MiParseImage` from the optional header on. -/
def parseImageBody (data : List UInt8) (nt : Nat) (opt : MipOptionalHeader) : Load PeImage :=
  if opt.sectionAlignment < pageSize ∨
      opt.sectionAlignment &&& (opt.sectionAlignment - 1) ≠ 0 then
    .error (.refused statusInvalidImageFormat)
  else if opt.imageBase % miAllocationGranularity ≠ 0 then .error (.refused statusInvalidImageFormat)
  else do
    let count ← member data 8 nt 6 2
    if count = 0 ∨ miImageMaxSegments < count then .error (.refused statusInvalidImageFormat)
    else do
      let sizeOfOptionalHeader ← member data 8 nt 20 2
      let sizeOfImage := ulongPageUp opt.sizeOfImage
      let sections := nt + 24 + sizeOfOptionalHeader
      let sectionTableEnd := sections + 40 * count
      if sizeOfImage < sectionTableEnd ∨ data.length < sectionTableEnd then
        .error (.refused statusInvalidFileForSection)
      else
        -- the header region grows to cover the table
        let sizeOfHeaders :=
          if opt.sizeOfHeaders < sectionTableEnd then ulong sectionTableEnd else opt.sizeOfHeaders
        if data.length < sizeOfHeaders ∨ sizeOfImage < sizeOfHeaders ∨ sizeOfImage = 0 then
          .error (.refused statusInvalidImageFormat)
        else imageContents data nt opt count sections sizeOfImage sizeOfHeaders

def miParseImage (data : List UInt8) : Load PeImage :=
  if data.length < 64 then .error (.refused statusInvalidImageNotMz)
  else do
    let magic ← member data 4 0 0 2
    if magic ≠ 0x5a4d then .error (.refused statusInvalidImageNotMz)
    else do
      let nt ← member data 4 0 0x3c 4
      if nt = 0 ∨ data.length < nt + 248 then .error (.refused statusInvalidImageFormat)
      else do
        let signature ← member data 8 nt 0 4
        if signature ≠ 0x4550 then .error (.refused statusInvalidImageFormat)
        else do
          let opt ← optionalHeader data nt
          parseImageBody data nt opt

/-! ## Exports -/

/-- `MipRvaToOffset`, whose sums are those of `uint32_t`. -/
def mipRvaToOffset (image : ImageInfo) (rva : Nat) : Option Nat :=
  match image.segments.find? fun seg => decide (seg.virtualAddress ≤ rva ∧
      rva < ulong (seg.virtualAddress + seg.rawSize)) with
  | some seg => some (ulong (seg.rawOffset + (rva - seg.virtualAddress)))
  | none => if rva < image.sizeOfHeaders then some rva else none

/-- `none` is its return. -/
def mipReadRva (raw : List UInt8) (image : ImageInfo) (rva width : Nat) : Load (Option Nat) :=
  match mipRvaToOffset image rva with
  | none => .ok none
  | some offset =>
    if raw.length < offset + width then .ok none
    else (copiedField raw offset width).map some

/-- `KiStringEqualsWithin` of a name and the bytes of the file from `offset` on, of which there are
`bytes`. The end of the list is the terminator of the name. -/
def kiStringEqualsWithin (raw : List UInt8) : List UInt8 → Nat → Nat → Load Bool
  | _, _, 0 => .ok false
  | [], offset, _ + 1 => do
    let b ← member raw 1 offset 0 1
    .ok (decide (b = 0))
  | a :: name, offset, bytes + 1 => do
    let b ← member raw 1 offset 0 1
    if a.toNat ≠ b then .ok false
    else if a = 0 then .ok true
    else kiStringEqualsWithin raw name (offset + 1) bytes

structure ImageExportDirectory where
  numberOfFunctions : Nat
  numberOfNames : Nat
  addressOfFunctions : Nat
  addressOfNames : Nat
  addressOfNameOrdinals : Nat

/-- What the lookup answers for a name that is equal. -/
def exportFunction (raw : List UInt8) (image : ImageInfo) (exports : ImageExportDirectory) (i : Nat) :
    Load Nat := do
  match ← mipReadRva raw image (ulong (exports.addressOfNameOrdinals + 2 * i)) 2 with
  | none => .ok 0
  | some ordinal =>
    if exports.numberOfFunctions ≤ ordinal then .ok 0
    else do
      let functionRva ← mipReadRva raw image (ulong (exports.addressOfFunctions + 4 * ordinal)) 4
      .ok (functionRva.getD 0)

/-- The loop over the names, with `n` of them to go. -/
def exportNames (raw : List UInt8) (image : ImageInfo) (exports : ImageExportDirectory)
    (name : List UInt8) : Nat → Nat → Load Nat
  | 0, _ => .ok 0
  | n + 1, i => do
    match ← mipReadRva raw image (ulong (exports.addressOfNames + 4 * i)) 4 with
    | none => .ok 0
    | some nameRva =>
      match mipRvaToOffset image nameRva with
      | none => exportNames raw image exports name n (i + 1)
      | some nameOffset =>
        if raw.length ≤ nameOffset then exportNames raw image exports name n (i + 1)
        else do
          let equal ← kiStringEqualsWithin raw name nameOffset (raw.length - nameOffset)
          if equal then exportFunction raw image exports i
          else exportNames raw image exports name n (i + 1)

def miLookupImageExport (raw : List UInt8) (image : PeImage) (name : List UInt8) : Load Nat :=
  if image.exportRva = 0 ∨ image.exportSize < 40 then .ok 0
  else match mipRvaToOffset image.toImageInfo image.exportRva with
    | none => .ok 0
    | some offset =>
      if raw.length < offset + 40 then .ok 0
      else do
        let directory ← copied raw offset 40
        let exports : ImageExportDirectory :=
          { numberOfFunctions := Bytes.field directory 20 4
            numberOfNames := Bytes.field directory 24 4
            addressOfFunctions := Bytes.field directory 28 4
            addressOfNames := Bytes.field directory 32 4
            addressOfNameOrdinals := Bytes.field directory 36 4 }
        if exports.addressOfNames = 0 ∨ exports.addressOfNameOrdinals = 0 ∨
            exports.addressOfFunctions = 0 then .ok 0
        else exportNames raw image.toImageInfo exports name exports.numberOfNames 0

end Pe

/-! ## What is accepted -/

def ImageRange.limit (range : ImageRange) : Nat := range.rva + range.pages * pageSize

/-- Whole pages of the image, whose bytes of the file lie in the file and in the pages. -/
structure ImageRange.Fits (range : ImageRange) (fileSize sizeOfImage : Nat) : Prop where
  aligned : range.rva % pageSize = 0
  inside : range.limit ≤ sizeOfImage
  filled : range.rawSize ≤ range.pages * pageSize
  raw : range.rawSize ≠ 0 → range.rawOffset + range.rawSize ≤ fileSize

def segmentRange (seg : ImageSegment) : ImageRange where
  rva := seg.virtualAddress
  pages := ulong (seg.virtualSize + pageSize - 1) / pageSize
  rawOffset := seg.rawOffset
  rawSize := seg.rawSize
  protect := seg.protect

/-- The headers and the segments lie in the image one behind the other, and their bytes in the file. -/
structure ImageInfo.Fits (image : ImageInfo) (fileSize : Nat) : Prop where
  whole : image.sizeOfImage % pageSize = 0
  small : image.sizeOfImage < 2 ^ 32
  header : image.ntHeaderOffset + 64 ≤ image.sizeOfHeaders
  headers : image.sizeOfHeaders ≤ fileSize
  laid : Laid ImageRange.rva ImageRange.limit (image.ranges fileSize)
  ranges : ∀ range ∈ image.ranges fileSize, range.Fits fileSize image.sizeOfImage
  reloc : image.relocRva + image.relocSize ≤ image.sizeOfImage

namespace Pe

variable {data raw name : List UInt8} {nt header next sizeOfImage : Nat} {seg : ImageSegment}
  {image : ImageInfo}

variable {n : Nat} {opt : MipOptionalHeader}

theorem ulong_of_lt (h : n < 2 ^ 32) : ulong n = n := Nat.mod_eq_of_lt h

theorem ulongPageUp_eq (hwhole : sizeOfImage % pageSize = 0) (hsmall : sizeOfImage < 2 ^ 32)
    (h : n ≤ sizeOfImage) : ulongPageUp n = (n + 4095) / 4096 * 4096 := by
  have hsize : pageSize = 4096 := rfl
  rw [hsize] at hwhole
  rw [ulongPageUp, hsize, ulong_of_lt (by omega)]
  rfl

theorem ulongPageUp_dvd (n : Nat) : ulongPageUp n % pageSize = 0 := Nat.mul_mod_left ..

theorem ulongPageUp_lt (n : Nat) : ulongPageUp n < 2 ^ 32 :=
  Nat.lt_of_le_of_lt (Nat.div_mul_le_self ..) (Nat.mod_lt _ (by decide))

section
variable (hwhole : sizeOfImage % pageSize = 0) (hsmall : sizeOfImage < 2 ^ 32)
include hwhole hsmall

section
variable (hva : seg.virtualAddress % pageSize = 0)
  (hin : seg.virtualAddress + seg.virtualSize ≤ sizeOfImage)
include hva hin

theorem segmentRange_limit :
    (segmentRange seg).limit = ulongPageUp (seg.virtualAddress + seg.virtualSize) := by
  have hsize : pageSize = 4096 := rfl
  rw [ulongPageUp_eq hwhole hsmall hin]
  simp only [ImageRange.limit, segmentRange]
  rw [hsize] at hwhole hva ⊢
  rw [ulong_of_lt (by omega)]
  omega

theorem segmentRange_fits (hraw : seg.rawSize ≤ seg.virtualSize)
    (hfile : seg.rawSize ≠ 0 → seg.rawOffset + seg.rawSize ≤ data.length) :
    (segmentRange seg).Fits data.length sizeOfImage := by
  have hsize : pageSize = 4096 := rfl
  have hlimit := segmentRange_limit hwhole hsmall hva hin
  refine ⟨hva, ?_, ?_, hfile⟩
  · rw [hlimit, ulongPageUp_eq hwhole hsmall hin]
    rw [hsize] at hwhole
    omega
  · simp only [segmentRange]
    rw [hsize] at hwhole ⊢
    rw [ulong_of_lt (by omega)]
    omega

end

end

theorem sectionHeader_eq (halign : header % 4 = 0) (hin : header + 40 ≤ data.length) :
    sectionHeader data header =
      .ok (imageSegment data header, hasFlag (Bytes.field data (header + 36) 4) 0x20000020) := by
  have hload (offset : Nat) (h : offset + 4 ≤ 40) :
      member data 4 header offset 4 = (.ok (Bytes.field data (header + offset) 4) : Load Nat) :=
    member_eq halign (by omega)
  rw [sectionHeader, hload 12 (by decide), hload 8 (by decide), hload 16 (by decide),
    hload 20 (by decide), hload 36 (by decide)]
  rfl

/-- The loop reads every section header inside the file, and its segments lie one behind the other. -/
theorem parseSegments_ends (next : Nat) (hwhole : sizeOfImage % pageSize = 0) (hsmall : sizeOfImage < 2 ^ 32)
    (halign : header % 4 = 0) (hin : header + 40 * n ≤ data.length) :
    Ends (fun e => ∃ s, e = .refused s ∧ Mm.parseSegments data sizeOfImage n header next = .error s)
      (parseSegments data sizeOfImage n header next) fun r =>
        Mm.parseSegments data sizeOfImage n header next = .ok r.1 ∧
        Laid ImageRange.rva ImageRange.limit (r.1.map segmentRange) ∧
        ∀ range ∈ r.1.map segmentRange, next ≤ range.rva ∧ range.Fits data.length sizeOfImage := by
  induction n generalizing header next with
  | zero => exact Ends.ok ⟨rfl, Intervals.laid_nil, by simp⟩
  | succ n ih =>
    simp only [parseSegments, Mm.parseSegments]
    rw [sectionHeader_eq halign (by omega)]
    generalize imageSegment data header = seg
    generalize hasFlag (Bytes.field data (header + 36) 4) 0x20000020 = code
    refine Ends.ite (fun hbad => Ends.error ⟨_, rfl, if_pos hbad⟩) fun hgood => ?_
    rw [if_neg hgood]
    simp only [not_or, not_not, not_le, not_lt] at hgood
    obtain ⟨hva, hlow, hpos, hsize, hnext⟩ := hgood
    have hinside : seg.virtualAddress + seg.virtualSize ≤ sizeOfImage := by omega
    refine Ends.ite (fun hbad => Ends.error ⟨_, rfl, if_pos hbad⟩) fun hgood => ?_
    rw [if_neg hgood]
    have hfile : min seg.rawSize seg.virtualSize ≠ 0 →
        seg.rawOffset + min seg.rawSize seg.virtualSize ≤ data.length := by
      intro hne
      obtain ⟨hoffset, hlength⟩ := not_or.mp (not_and.mp hgood hne)
      dsimp only at hoffset hlength
      omega
    have hlimit := segmentRange_limit hwhole hsmall hva hinside
    have hfits : (segmentRange { seg with rawSize := min seg.rawSize seg.virtualSize }).Fits
        data.length sizeOfImage :=
      segmentRange_fits hwhole hsmall hva hinside (Nat.min_le_right ..) hfile
    have hpage := ulongPageUp_eq hwhole hsmall hinside
    have hends := @ih (header + 40) (ulongPageUp (seg.virtualAddress + seg.virtualSize)) (by omega)
      (by omega)
    refine Ends.bind (hends.imp ?_ fun r hr => hr) ?_
    · rintro _ ⟨s, rfl, hrest⟩
      exact ⟨s, rfl, by rw [hrest]; rfl⟩
    · rintro ⟨rest, codes⟩ ⟨hrest, hlaid, hbehind⟩
      refine Ends.ok ⟨by rw [hrest]; rfl, ?_, ?_⟩
      · refine Intervals.laid_cons.mpr ⟨?_, fun range hrange => ?_, hlaid⟩
        · change seg.virtualAddress < (segmentRange seg).limit
          omega
        · exact (hlimit.trans_le (hbehind range hrange).1 :)
      · intro range hrange
        rcases List.mem_cons.mp hrange with rfl | hrange
        · exact ⟨hnext, hfits⟩
        · have := (hbehind range hrange).1
          exact ⟨by omega, (hbehind range hrange).2⟩

theorem parseSegments_misaligned (halign : header % 4 ≠ 0) (hn : n ≠ 0) :
    parseSegments data sizeOfImage n header next = .error .misaligned := by
  obtain ⟨n, rfl⟩ := Nat.exists_eq_succ_of_ne_zero hn
  rw [parseSegments, sectionHeader, member_misaligned halign]
  rfl

/-! ## The headers -/

theorem mipCaptureOptional64 (halign : nt % 8 = 0) (hin : nt + 264 ≤ data.length) :
    ∃ opt, mipCaptureOptional data nt imageNtHeaders64 = .ok opt ∧
      opt.toOptionalHeader = captureOptional64 data nt := by
  have hload (offset width : Nat) (h : offset + width ≤ 264) :
      member data 8 nt offset width = (.ok (Bytes.field data (nt + offset) width) : Load Nat) :=
    member_eq halign (by omega)
  exact ⟨_, by simp only [mipCaptureOptional, imageNtHeaders64, hload, Nat.reduceAdd, Nat.reduceLeDiff]; rfl, rfl⟩

theorem mipCaptureOptional32 (halign : nt % 4 = 0) (hin : nt + 248 ≤ data.length) :
    ∃ opt, mipCaptureOptional data nt imageNtHeaders32 = .ok opt ∧
      opt.toOptionalHeader = captureOptional32 data nt := by
  have hload (offset width : Nat) (h : offset + width ≤ 248) :
      member data 4 nt offset width = (.ok (Bytes.field data (nt + offset) width) : Load Nat) :=
    member_eq halign (by omega)
  exact ⟨_, by simp only [mipCaptureOptional, imageNtHeaders32, hload, Nat.reduceAdd, Nat.reduceLeDiff]; rfl, rfl⟩

/-- What the later stages need of an optional header: the directory lies in the file, aligned. -/
structure OptionalRead (data : List UInt8) (nt : Nat) (opt : MipOptionalHeader) : Prop where
  pure : Mm.optionalHeader data nt = some opt.toOptionalHeader
  directory : opt.dataDirectory % 4 = 0
  inside : opt.dataDirectory + 128 ≤ data.length
  headers : opt.sizeOfHeaders < 2 ^ 32

theorem optionalHeader_ends (halign : nt % 8 = 0) (hin : nt + 248 ≤ data.length) :
    Ends (fun e => e = .refused statusInvalidImageFormat ∧ Mm.optionalHeader data nt = none)
      (optionalHeader data nt) (OptionalRead data nt) := by
  have halign' : nt % 4 = 0 := by omega
  rw [optionalHeader, member_eq halign (by omega)]
  refine Ends.ite (fun hmachine => ?_) fun hother => Ends.ite (fun hmachine => ?_) fun hnone => ?_
  · rw [member_eq halign (by omega)]
    refine Ends.ite (fun hmagic => ?_) fun hmagic => Ends.error ⟨rfl, ?_⟩
    · obtain ⟨opt, hopt, hpure⟩ := mipCaptureOptional64 halign hmachine.2
      rw [hopt]
      refine Ends.ok ⟨?_, ?_, ?_, ?_⟩
      · rw [hpure]
        exact if_pos ⟨hmachine.1, hmachine.2, hmagic⟩
      · rw [hpure]
        simp only [captureOptional64]
        omega
      · rw [hpure]
        simp only [captureOptional64]
        omega
      · rw [hpure]
        exact Bytes.field_lt ..
    · have hmachine' : Bytes.field data (nt + 4) 2 ≠ imageFileMachineI386 := by
        rw [hmachine.1]
        decide
      rw [Mm.optionalHeader, if_neg fun h => hmagic h.2.2, if_neg fun h => hmachine' h.1]
  · rw [member_eq halign' (by omega)]
    have hwide : Bytes.field data (nt + 4) 2 ≠ imageFileMachineAmd64 := by
      rw [hmachine]
      decide
    refine Ends.ite (fun hmagic => ?_) fun hmagic => Ends.error ⟨rfl, ?_⟩
    · obtain ⟨opt, hopt, hpure⟩ := mipCaptureOptional32 halign' hin
      rw [hopt]
      refine Ends.ok ⟨?_, ?_, ?_, ?_⟩
      · rw [hpure, Mm.optionalHeader, if_neg fun h => hwide h.1]
        exact if_pos ⟨hmachine, hmagic⟩
      · rw [hpure]
        simp only [captureOptional32]
        omega
      · rw [hpure]
        simp only [captureOptional32]
        omega
      · rw [hpure]
        exact Bytes.field_lt ..
    · rw [Mm.optionalHeader, if_neg fun h => hwide h.1, if_neg fun h => hmagic h.2]
  · refine Ends.error ⟨rfl, ?_⟩
    rw [Mm.optionalHeader, if_neg fun h => hother ⟨h.1, h.2.1⟩, if_neg fun h => hnone h.1]

theorem dataDirectory_eq (hopt : OptionalRead data nt opt)
    (sizeOfImage index : Nat) (hindex : index < 16) : ∃ dir : Nat × Nat,
      dataDirectory data opt.toOptionalHeader index sizeOfImage = .ok dir ∧
      (dir.1 + dir.2 ≤ sizeOfImage) ∧
      dir = let rva := Bytes.field data (opt.dataDirectory + 8 * index) 4
        let size := Bytes.field data (opt.dataDirectory + 8 * index + 4) 4
        if index < opt.numberOfRvaAndSizes ∧ size ≠ 0 ∧ rva ≠ 0 ∧ rva < sizeOfImage ∧
          size ≤ sizeOfImage - rva then (rva, size) else (0, 0) := by
  have hload (offset : Nat) (h : offset ≤ 4) :
      member data 4 (opt.dataDirectory + 8 * index) offset 4 =
        (.ok (Bytes.field data (opt.dataDirectory + 8 * index + offset) 4) : Load Nat) :=
    member_eq (by have := hopt.directory; omega) (by have := hopt.inside; omega)
  rw [dataDirectory, hload 4 (by decide), hload 0 (by decide)]
  dsimp only
  by_cases hn : index < opt.numberOfRvaAndSizes
  · rw [if_pos hn]
    refine ⟨_, (apply_ite Except.ok _ _ _).symm, ?_, ?_⟩
    · split
      · dsimp only
        omega
      · exact Nat.zero_le _
    · simp only [hn, true_and]
      rfl
  · exact ⟨(0, 0), if_neg hn, Nat.zero_le _, (if_neg fun h => hn h.1).symm⟩

def sectionTable (data : List UInt8) (nt : Nat) : Nat := nt + 24 + Bytes.field data (nt + 20) 2

def sectionTableEnd (data : List UInt8) (nt : Nat) : Nat :=
  sectionTable data nt + 40 * Bytes.field data (nt + 6) 2

/-- The checks in front of the section headers pass, so that these are read. -/
structure ReachesSections (data : List UInt8) (nt : Nat) (opt : OptionalHeader) : Prop where
  sectionAlignment : pageSize ≤ opt.sectionAlignment
  power : opt.sectionAlignment &&& (opt.sectionAlignment - 1) = 0
  base : opt.imageBase % miAllocationGranularity = 0
  count : Bytes.field data (nt + 6) 2 ≠ 0 ∧ Bytes.field data (nt + 6) 2 ≤ miImageMaxSegments
  table : sectionTableEnd data nt ≤ ulongPageUp opt.sizeOfImage ∧
    sectionTableEnd data nt ≤ data.length
  headers : opt.sizeOfHeaders ≤ data.length ∧ opt.sizeOfHeaders ≤ ulongPageUp opt.sizeOfImage

def SectionsAligned (data : List UInt8) (nt : Nat) (opt : OptionalHeader) : Prop :=
  ReachesSections data nt opt → sectionTable data nt % 4 = 0

def Refuses (aligned : Prop) (x : Except NtStatus ImageInfo) (e : Stop NtStatus) : Prop :=
  (e = .misaligned ∧ ¬ aligned) ∨ (aligned ∧ ∃ s, e = .refused s ∧ x = .error s)

def Parses (aligned : Prop) (x : Except NtStatus ImageInfo) (fileSize : Nat) (image : PeImage) : Prop :=
  aligned ∧ x = .ok image.toImageInfo ∧ image.Fits fileSize

theorem grown_headers {table headers limit : Nat} (htable : table ≤ limit) (hlimit : limit < 2 ^ 32) :
    (if headers < table then ulong table else headers) = max headers table := by
  split
  · rw [ulong_of_lt (by omega)]
    omega
  · omega

def contentsOf (data : List UInt8) (nt : Nat) (opt : OptionalHeader) (sizeOfImage sizeOfHeaders : Nat) :
    Except NtStatus ImageInfo := do
  let reloc := relocDirectory data opt sizeOfImage
  let segments ← Mm.parseSegments data sizeOfImage (Bytes.field data (nt + 6) 2)
    (sectionTable data nt) (ulongPageUp sizeOfHeaders)
  .ok { preferredBase := opt.imageBase
        sizeOfImage
        sizeOfHeaders
        ntHeaderOffset := nt
        relocRva := reloc.1
        relocSize := reloc.2
        machine := Bytes.field data (nt + 4) 2
        relocsStripped := hasFlag (Bytes.field data (nt + 22) 2) 0x0001
        segments }

theorem fits_of_segments (hwhole : image.sizeOfImage % pageSize = 0)
    (hsmall : image.sizeOfImage < 2 ^ 32) (hheader : image.ntHeaderOffset + 64 ≤ image.sizeOfHeaders)
    (hfile : image.sizeOfHeaders ≤ data.length) (himage : image.sizeOfHeaders ≤ image.sizeOfImage)
    (hreloc : image.relocRva + image.relocSize ≤ image.sizeOfImage)
    (hlaid : Laid ImageRange.rva ImageRange.limit (image.segments.map segmentRange))
    (hbehind : ∀ range ∈ image.segments.map segmentRange,
      ulongPageUp image.sizeOfHeaders ≤ range.rva ∧ range.Fits data.length image.sizeOfImage) :
    image.Fits data.length := by
  have hsize : pageSize = 4096 := rfl
  have hpage := ulongPageUp_eq hwhole hsmall himage
  have hwhole' : image.sizeOfImage % 4096 = 0 := hwhole
  have hranges : image.ranges data.length =
      { rva := 0, pages := ulong (min image.sizeOfHeaders data.length + pageSize - 1) / pageSize,
        rawOffset := 0, rawSize := min image.sizeOfHeaders data.length, protect := pageReadOnly } ::
      image.segments.map segmentRange := rfl
  rw [Nat.min_eq_left hfile] at hranges
  have hpages : ulong (image.sizeOfHeaders + pageSize - 1) / pageSize * pageSize =
      ulongPageUp image.sizeOfHeaders := rfl
  refine ⟨hwhole, hsmall, hheader, hfile, ?_, ?_, hreloc⟩
  · rw [hranges]
    refine Intervals.laid_cons.mpr ⟨?_, fun range hrange => ?_, hlaid⟩
    · simp only [ImageRange.limit, hpages]
      omega
    · have := (hbehind range hrange).1
      simp only [ImageRange.limit, hpages]
      omega
  · rw [hranges]
    intro range hrange
    rcases List.mem_cons.mp hrange with rfl | hrange
    · refine ⟨rfl, ?_, ?_, fun _ => ?_⟩
      · simp only [ImageRange.limit, hpages]
        omega
      · simp only [hpages]
        omega
      · simpa using hfile
    · exact (hbehind range hrange).2

theorem imageContents_ends {sizeOfHeaders : Nat} (halign : nt % 8 = 0)
    (hin : nt + 248 ≤ data.length) (hopt : OptionalRead data nt opt)
    (hreach : ReachesSections data nt opt.toOptionalHeader)
    (hsize : sizeOfImage = ulongPageUp opt.sizeOfImage)
    (hheaders : sizeOfHeaders = max opt.sizeOfHeaders (sectionTableEnd data nt)) :
    Ends (Refuses (SectionsAligned data nt opt.toOptionalHeader)
        (contentsOf data nt opt.toOptionalHeader sizeOfImage sizeOfHeaders))
      (imageContents data nt opt (Bytes.field data (nt + 6) 2) (sectionTable data nt) sizeOfImage
        sizeOfHeaders)
      (Parses (SectionsAligned data nt opt.toOptionalHeader)
        (contentsOf data nt opt.toOptionalHeader sizeOfImage sizeOfHeaders) data.length) := by
  obtain ⟨hcount, -⟩ := hreach.count
  obtain ⟨htableImage, htableFile⟩ := hreach.table
  obtain ⟨hheadersFile, hheadersImage⟩ := hreach.headers
  have hwhole : sizeOfImage % pageSize = 0 := by
    rw [hsize]
    exact ulongPageUp_dvd _
  have hsmall : sizeOfImage < 2 ^ 32 := by
    rw [hsize]
    exact ulongPageUp_lt _
  have htable : sectionTable data nt + 40 * Bytes.field data (nt + 6) 2 = sectionTableEnd data nt := rfl
  have hbehind : nt + 24 ≤ sectionTable data nt := Nat.le_add_right ..
  obtain ⟨reloc, hreloc, hrelocIn, hrelocEq⟩ := dataDirectory_eq hopt sizeOfImage 5 (by decide)
  obtain ⟨exports, hexports, -, -⟩ := dataDirectory_eq hopt sizeOfImage 0 (by decide)
  have hdirectory : relocDirectory data opt.toOptionalHeader sizeOfImage = reloc := by
    rw [hrelocEq]
    rfl
  rw [imageContents, member_eq halign (by omega), member_eq halign (by omega), hreloc, hexports]
  dsimp only [bind, Except.bind]
  by_cases hsections : sectionTable data nt % 4 = 0
  · have hends := parseSegments_ends (ulongPageUp sizeOfHeaders) hwhole hsmall hsections
      (htable.trans_le htableFile)
    refine Ends.bind (hends.imp ?_ fun r hr => hr) ?_
    · rintro _ ⟨s, rfl, hrest⟩
      exact .inr ⟨fun _ => hsections, s, rfl, by rw [contentsOf, hrest]; rfl⟩
    · rintro ⟨segments, code⟩ ⟨hrest, hlaid, hfits⟩
      refine Ends.ok ⟨fun _ => hsections, ?_, ?_⟩
      · rw [contentsOf, hrest, hdirectory]
        rfl
      · exact fits_of_segments hwhole hsmall (by dsimp only; omega) (by dsimp only; omega)
          (by dsimp only; omega) hrelocIn hlaid hfits
  · rw [parseSegments_misaligned hsections hcount]
    exact Ends.error (.inl ⟨rfl, fun h => hsections (h hreach)⟩)

/-- The parse behind the optional header reads inside the file, and stops only where the section headers
are not aligned. -/
theorem parseImageBody_ends (halign : nt % 8 = 0)
    (hin : nt + 248 ≤ data.length) (hopt : OptionalRead data nt opt) :
    Ends (Refuses (SectionsAligned data nt opt.toOptionalHeader)
        (Mm.parseImageBody data nt opt.toOptionalHeader))
      (parseImageBody data nt opt)
      (Parses (SectionsAligned data nt opt.toOptionalHeader)
        (Mm.parseImageBody data nt opt.toOptionalHeader) data.length) := by
  have hearly {s : NtStatus} {x : Except NtStatus ImageInfo} (hx : x = .error s)
      (hnot : ¬ ReachesSections data nt opt.toOptionalHeader) :
      Refuses (SectionsAligned data nt opt.toOptionalHeader) x (.refused s) :=
    .inr ⟨fun h => absurd h hnot, s, rfl, hx⟩
  simp only [parseImageBody, Mm.parseImageBody]
  refine Ends.ite (fun hbad => Ends.error (hearly (if_pos hbad) fun h => ?_)) fun hsection => ?_
  · rcases hbad with hbad | hbad
    · exact absurd h.sectionAlignment (by omega)
    · exact hbad h.power
  rw [if_neg hsection]
  refine Ends.ite (fun hbad => Ends.error (hearly (if_pos hbad) fun h => hbad h.base)) fun hbase => ?_
  rw [if_neg hbase, member_eq halign (by omega)]
  refine Ends.ite (fun hbad => Ends.error (hearly (if_pos hbad) fun h => ?_)) fun hcount => ?_
  · have := h.count
    omega
  rw [if_neg hcount, member_eq halign (by omega)]
  refine Ends.ite (fun hbad => Ends.error (hearly (if_pos hbad) fun h => ?_)) fun htable => ?_
  · obtain ⟨himage, hfile⟩ := h.table
    simp only [sectionTableEnd, sectionTable] at himage hfile
    omega
  rw [if_neg htable]
  have hlimit := ulongPageUp_lt opt.sizeOfImage
  have htable' : ¬ (ulongPageUp opt.sizeOfImage < sectionTableEnd data nt ∨
      data.length < sectionTableEnd data nt) := htable
  generalize hheaders : max opt.sizeOfHeaders (sectionTableEnd data nt) = sizeOfHeaders
  have hgrown : (if opt.sizeOfHeaders <
        nt + 24 + Bytes.field data (nt + 20) 2 + 40 * Bytes.field data (nt + 6) 2 then
      ulong (nt + 24 + Bytes.field data (nt + 20) 2 + 40 * Bytes.field data (nt + 6) 2)
      else opt.sizeOfHeaders) = sizeOfHeaders :=
    (grown_headers (Nat.le_of_not_lt (not_or.mp htable').1) hlimit).trans hheaders
  rw [hgrown]
  refine Ends.ite (fun hbad => Ends.error (hearly (if_pos hbad) fun h => ?_)) fun hsizes => ?_
  · obtain ⟨himage, hfile⟩ := h.table
    have := h.headers
    omega
  rw [if_neg hsizes]
  apply imageContents_ends halign hin hopt _ rfl hheaders.symm
  refine ⟨by omega, by omega, by omega, by omega, by omega, by omega⟩

def ReachesHeaders (data : List UInt8) : Prop :=
  64 ≤ data.length ∧ Bytes.field data 0 2 = 0x5a4d ∧ Bytes.field data 0x3c 4 ≠ 0 ∧
    Bytes.field data 0x3c 4 + 248 ≤ data.length

/-- The headers are aligned where they are read, and so are the section headers behind them. -/
def HeadersAligned (data : List UInt8) : Prop :=
  ReachesHeaders data → Bytes.field data 0x3c 4 % 8 = 0 ∧
    ∀ opt, Bytes.field data (Bytes.field data 0x3c 4) 4 = 0x4550 →
      Mm.optionalHeader data (Bytes.field data 0x3c 4) = some opt →
        SectionsAligned data (Bytes.field data 0x3c 4) opt

/-- The parse reads inside the file and answers as it does without the checks, except where a header is
read that is not aligned. -/
theorem miParseImage_ends (data : List UInt8) :
    Ends (Refuses (HeadersAligned data) (Mm.miParseImage data)) (miParseImage data)
      (Parses (HeadersAligned data) (Mm.miParseImage data) data.length) := by
  have hearly {s : NtStatus} {x : Except NtStatus ImageInfo} (hx : x = .error s)
      (hnot : ¬ ReachesHeaders data) : Refuses (HeadersAligned data) x (.refused s) :=
    .inr ⟨fun h => absurd h hnot, s, rfl, hx⟩
  refine Ends.ite (fun hbad => Ends.error (hearly (if_pos (.inl hbad)) fun h => ?_)) fun hlength => ?_
  · exact absurd h.1 (by omega)
  rw [member_eq rfl (by omega)]
  refine Ends.ite (fun hbad => Ends.error (hearly (if_pos (.inr hbad)) fun h => ?_)) fun hmagic => ?_
  · exact hbad h.2.1
  rw [member_eq rfl (by omega), Mm.miParseImage, if_neg (not_or.mpr ⟨hlength, hmagic⟩)]
  refine Ends.ite (fun hbad => Ends.error (hearly (if_pos hbad) fun h => ?_)) fun hheaders => ?_
  · obtain ⟨-, -, hne, hin⟩ := h
    rw [Nat.zero_add] at hbad
    omega
  rw [Nat.zero_add] at hheaders ⊢
  rw [if_neg hheaders]
  have hreach : ReachesHeaders data :=
    ⟨by omega, not_not.mp hmagic, (not_or.mp hheaders).1, by have := (not_or.mp hheaders).2; omega⟩
  generalize hnt : Bytes.field data 0x3c 4 = nt at hheaders ⊢
  by_cases halign : nt % 8 = 0
  · rw [member_eq halign (by omega)]
    have haligned : HeadersAligned data ↔ ∀ opt, Bytes.field data nt 4 = 0x4550 →
        Mm.optionalHeader data nt = some opt → SectionsAligned data nt opt := by
      subst hnt
      exact ⟨fun h => (h hreach).2, fun h _ => ⟨halign, h⟩⟩
    refine Ends.ite (fun hbad => Ends.error (.inr ⟨?_, _, rfl, if_pos hbad⟩)) fun hsignature => ?_
    · exact haligned.mpr fun _ h => absurd h hbad
    rw [Nat.add_zero] at hsignature
    rw [if_neg hsignature]
    refine Ends.bind ((optionalHeader_ends halign (by omega)).imp ?_ fun _ h => h) fun opt hopt => ?_
    · rintro _ ⟨rfl, hnone⟩
      refine .inr ⟨haligned.mpr fun opt _ h => ?_, _, rfl, by rw [hnone]⟩
      rw [hnone] at h
      cases h
    · have hiff : HeadersAligned data ↔ SectionsAligned data nt opt.toOptionalHeader := by
        refine haligned.trans ⟨fun h => h _ (not_not.mp hsignature) hopt.pure, fun h opt' _ heq => ?_⟩
        rw [hopt.pure] at heq
        cases heq
        exact h
      rw [hiff, hopt.pure]
      exact parseImageBody_ends halign (by omega) hopt
  · rw [member_misaligned halign]
    refine Ends.error (.inl ⟨rfl, fun h => halign ?_⟩)
    exact hnt ▸ (h hreach).1

/-! ## The lookup of an export -/

def Returns {α : Type} (x : Load α) : Prop := ∃ a, x = .ok a

theorem Returns.bind {α β : Type} {x : Load α} {f : α → Load β} (hx : Returns x)
    (hf : ∀ a, Returns (f a)) : Returns (x >>= f) := by
  obtain ⟨a, rfl⟩ := hx
  exact hf a

theorem mipReadRva_returns (raw : List UInt8) (image : ImageInfo) (rva width : Nat) :
    Returns (mipReadRva raw image rva width) := by
  rw [mipReadRva]
  split
  · exact ⟨_, rfl⟩
  · split
    · exact ⟨_, rfl⟩
    · rw [copiedField_eq (by omega)]
      exact ⟨_, rfl⟩

theorem kiStringEqualsWithin_returns {offset bytes : Nat} (hin : offset + bytes ≤ raw.length) :
    Returns (kiStringEqualsWithin raw name offset bytes) := by
  induction bytes generalizing name offset with
  | zero => exact ⟨_, by cases name <;> rfl⟩
  | succ bytes ih =>
    cases name with
    | nil =>
      rw [kiStringEqualsWithin, member_eq (Nat.mod_one _) (by omega)]
      exact ⟨_, rfl⟩
    | cons a name =>
      rw [kiStringEqualsWithin, member_eq (Nat.mod_one _) (by omega)]
      refine Returns.bind ⟨_, rfl⟩ fun b => ?_
      split
      · exact ⟨_, rfl⟩
      · split
        · exact ⟨_, rfl⟩
        · exact ih (by omega)

theorem exportFunction_returns (raw : List UInt8) (image : ImageInfo) (exports : ImageExportDirectory)
    (i : Nat) : Returns (exportFunction raw image exports i) := by
  refine Returns.bind (mipReadRva_returns ..) fun ordinal => ?_
  cases ordinal with
  | none => exact ⟨_, rfl⟩
  | some ordinal =>
    dsimp only
    split
    · exact ⟨_, rfl⟩
    · exact Returns.bind (mipReadRva_returns ..) fun _ => ⟨_, rfl⟩

theorem exportNames_returns (raw : List UInt8) (image : ImageInfo) (exports : ImageExportDirectory)
    (name : List UInt8) (n i : Nat) : Returns (exportNames raw image exports name n i) := by
  induction n generalizing i with
  | zero => exact ⟨_, rfl⟩
  | succ n ih =>
    refine Returns.bind (mipReadRva_returns ..) fun nameRva => ?_
    cases nameRva with
    | none => exact ⟨_, rfl⟩
    | some nameRva =>
      dsimp only
      split
      · exact ih _
      · split
        · exact ih _
        · refine Returns.bind (kiStringEqualsWithin_returns (by omega)) fun equal => ?_
          cases equal with
          | false => exact ih _
          | true => exact exportFunction_returns ..

theorem miLookupImageExport_returns (raw : List UInt8) (image : PeImage) (name : List UInt8) :
    Returns (miLookupImageExport raw image name) := by
  rw [miLookupImageExport]
  split
  · exact ⟨_, rfl⟩
  · split
    · exact ⟨_, rfl⟩
    · split
      · exact ⟨_, rfl⟩
      · rw [copied_eq (by omega)]
        refine Returns.bind ⟨_, rfl⟩ fun directory => ?_
        dsimp only
        split
        · exact ⟨_, rfl⟩
        · exact exportNames_returns ..

end Pe

end Proskrnl.Mm
