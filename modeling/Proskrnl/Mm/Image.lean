import Proskrnl.Library.Bytes
import Proskrnl.Mm.Protection

/-!
# Executable images

`kernel/mm/pecoff.c`: `MiParseImage` over the bytes of a file. Of the parsed summary the fields are
kept that the mapper reads; the versions, stack sizes and the export directory are not.
-/

namespace Proskrnl.Mm

/-- `MI_IMAGE_SEGMENT` -/
structure ImageSegment where
  virtualAddress : Nat
  virtualSize : Nat
  rawOffset : Nat
  rawSize : Nat
  protect : Nat
  deriving DecidableEq

/-- `MI_IMAGE_INFO` -/
structure ImageInfo where
  preferredBase : Nat
  sizeOfImage : Nat
  sizeOfHeaders : Nat
  ntHeaderOffset : Nat
  relocRva : Nat := 0
  relocSize : Nat := 0
  machine : Nat
  relocsStripped : Bool
  segments : List ImageSegment := []
  deriving DecidableEq

def imageFileMachineAmd64 : Nat := 0x8664
def imageFileMachineI386 : Nat := 0x014c
def miImageMaxSegments : Nat := 96

def mipSegmentProtect (characteristics : Nat) : Nat :=
  let r := hasFlag characteristics 0x40000000
  let w := hasFlag characteristics 0x80000000
  let x := hasFlag characteristics 0x20000000
  if x then
    if w then pageExecuteWriteCopy else if r then pageExecuteRead else pageExecute
  else if w then pageWriteCopy
  else if r then pageReadOnly else pageNoAccess

/-- The fields of `MIP_OPTIONAL_HEADER` that are kept. -/
structure OptionalHeader where
  imageBase : Nat
  sectionAlignment : Nat
  sizeOfImage : Nat
  sizeOfHeaders : Nat
  numberOfRvaAndSizes : Nat
  /-- Where the data directory starts in the file. -/
  dataDirectory : Nat

/-- `MIP_CAPTURE_OPTIONAL` through `IMAGE_NT_HEADERS64` at an offset of the file. -/
def captureOptional64 (data : List UInt8) (nt : Nat) : OptionalHeader where
  imageBase := Bytes.field data (nt + 48) 8
  sectionAlignment := Bytes.field data (nt + 56) 4
  sizeOfImage := Bytes.field data (nt + 80) 4
  sizeOfHeaders := Bytes.field data (nt + 84) 4
  numberOfRvaAndSizes := Bytes.field data (nt + 132) 4
  dataDirectory := nt + 136

/-- The same through `IMAGE_NT_HEADERS32`. -/
def captureOptional32 (data : List UInt8) (nt : Nat) : OptionalHeader where
  imageBase := Bytes.field data (nt + 52) 4
  sectionAlignment := Bytes.field data (nt + 56) 4
  sizeOfImage := Bytes.field data (nt + 80) 4
  sizeOfHeaders := Bytes.field data (nt + 84) 4
  numberOfRvaAndSizes := Bytes.field data (nt + 116) 4
  dataDirectory := nt + 120

/-- `(x + PAGE_SIZE - 1) & ~(PAGE_SIZE - 1ULL)` of a `ULONG`, whose sum wraps. -/
def ulongPageUp (n : Nat) : Nat := ulong (n + pageSize - 1) / pageSize * pageSize

def imageSegment (data : List UInt8) (header : Nat) : ImageSegment :=
  let virtualSize := Bytes.field data (header + 8) 4
  let sizeOfRawData := Bytes.field data (header + 16) 4
  let rawOffset := Bytes.field data (header + 20) 4
  { virtualAddress := Bytes.field data (header + 12) 4
    virtualSize := if virtualSize ≠ 0 then virtualSize else sizeOfRawData
    rawOffset
    rawSize := if rawOffset = 0 then 0 else sizeOfRawData
    protect := mipSegmentProtect (Bytes.field data (header + 36) 4) }

/-- The loop over the section headers of `MiParseImage`. -/
def parseSegments (data : List UInt8) (sizeOfImage : Nat) :
    Nat → Nat → Nat → Except NtStatus (List ImageSegment)
  | 0, _, _ => .ok []
  | n + 1, header, nextFreeRva =>
    let seg := imageSegment data header
    if seg.virtualAddress % pageSize ≠ 0 ∨ sizeOfImage ≤ seg.virtualAddress ∨
        seg.virtualSize = 0 ∨ sizeOfImage - seg.virtualAddress < seg.virtualSize ∨
        seg.virtualAddress < nextFreeRva then .error statusInvalidImageFormat
    else
      let seg := { seg with rawSize := min seg.rawSize seg.virtualSize }
      if seg.rawSize ≠ 0 ∧
          (data.length ≤ seg.rawOffset ∨ data.length - seg.rawOffset < seg.rawSize) then
        .error statusInvalidImageFormat
      else do
        let rest ← parseSegments data sizeOfImage n (header + 40)
          (ulongPageUp (seg.virtualAddress + seg.virtualSize))
        .ok (seg :: rest)

def relocDirectory (data : List UInt8) (opt : OptionalHeader) (sizeOfImage : Nat) : Nat × Nat :=
  let rva := Bytes.field data (opt.dataDirectory + 40) 4
  let size := Bytes.field data (opt.dataDirectory + 44) 4
  if 5 < opt.numberOfRvaAndSizes ∧ size ≠ 0 ∧ rva ≠ 0 ∧ rva < sizeOfImage ∧
      size ≤ sizeOfImage - rva then (rva, size)
  else (0, 0)

/-- The optional header, by the machine and the width the file declares. -/
def optionalHeader (data : List UInt8) (nt : Nat) : Option OptionalHeader :=
  let machine := Bytes.field data (nt + 4) 2
  let magic := Bytes.field data (nt + 24) 2
  if machine = imageFileMachineAmd64 ∧ nt + 264 ≤ data.length ∧ magic = 0x020b then
    some (captureOptional64 data nt)
  else if machine = imageFileMachineI386 ∧ magic = 0x010b then some (captureOptional32 data nt)
  else none

/-- `MiParseImage` from the optional header on. -/
def parseImageBody (data : List UInt8) (nt : Nat) (opt : OptionalHeader) :
    Except NtStatus ImageInfo :=
  let count := Bytes.field data (nt + 6) 2
  if opt.sectionAlignment < pageSize ∨
      opt.sectionAlignment &&& (opt.sectionAlignment - 1) ≠ 0 then
    .error statusInvalidImageFormat
  else if opt.imageBase % miAllocationGranularity ≠ 0 then .error statusInvalidImageFormat
  else if count = 0 ∨ miImageMaxSegments < count then .error statusInvalidImageFormat
  else
    let sizeOfImage := ulongPageUp opt.sizeOfImage
    let sections := nt + 24 + Bytes.field data (nt + 20) 2
    let sectionTableEnd := sections + 40 * count
    if sizeOfImage < sectionTableEnd ∨ data.length < sectionTableEnd then
      .error statusInvalidFileForSection
    else
      let sizeOfHeaders :=
        if opt.sizeOfHeaders < sectionTableEnd then ulong sectionTableEnd else opt.sizeOfHeaders
      if data.length < sizeOfHeaders ∨ sizeOfImage < sizeOfHeaders ∨ sizeOfImage = 0 then
        .error statusInvalidImageFormat
      else do
        let reloc := relocDirectory data opt sizeOfImage
        let segments ← parseSegments data sizeOfImage count sections (ulongPageUp sizeOfHeaders)
        .ok { preferredBase := opt.imageBase
              sizeOfImage
              sizeOfHeaders
              ntHeaderOffset := nt
              relocRva := reloc.1
              relocSize := reloc.2
              machine := Bytes.field data (nt + 4) 2
              relocsStripped := hasFlag (Bytes.field data (nt + 22) 2) 0x0001
              segments }

def miParseImage (data : List UInt8) : Except NtStatus ImageInfo :=
  if data.length < 64 ∨ Bytes.field data 0 2 ≠ 0x5a4d then .error statusInvalidImageNotMz
  else
    let nt := Bytes.field data 0x3c 4
    if nt = 0 ∨ data.length < nt + 248 then .error statusInvalidImageFormat
    else if Bytes.field data nt 4 ≠ 0x4550 then .error statusInvalidImageFormat
    else match optionalHeader data nt with
      | none => .error statusInvalidImageFormat
      | some opt => parseImageBody data nt opt

structure ImageCopy where
  committed : Nat → Bool := fun _ => false
  byte : Nat → UInt8 := fun _ => 0

structure ImageRange where
  rva : Nat
  pages : Nat
  rawOffset : Nat
  rawSize : Nat
  protect : Nat
  deriving DecidableEq

/-- The headers of an image and then its segments, as they are committed. -/
def ImageInfo.ranges (image : ImageInfo) (rawSize : Nat) : List ImageRange :=
  let headerBytes := min image.sizeOfHeaders rawSize
  { rva := 0, pages := ulong (headerBytes + pageSize - 1) / pageSize, rawOffset := 0,
    rawSize := headerBytes, protect := pageReadOnly } ::
    image.segments.map fun seg =>
      { rva := seg.virtualAddress, pages := ulong (seg.virtualSize + pageSize - 1) / pageSize,
        rawOffset := seg.rawOffset, rawSize := seg.rawSize, protect := seg.protect }

def ImageRange.pageList (range : ImageRange) : List Nat :=
  List.range' (range.rva / pageSize) range.pages

/-- `none` where its assertion fails. -/
def mipMasterCommitRange (raw : List UInt8) (pageCount : Nat) (copy : ImageCopy)
    (range : ImageRange) : Option ImageCopy :=
  if range.rva % pageSize ≠ 0 ∨
      range.pageList.any fun page => decide (pageCount ≤ page) || copy.committed page then none
  else some
    { committed := fun page => copy.committed page || decide (page ∈ range.pageList)
      byte := fun rva =>
        if range.rva ≤ rva ∧ rva < range.rva + range.rawSize then
          raw.getD (range.rawOffset + (rva - range.rva)) 0
        else copy.byte rva }

def mipRvaToFileOffset (image : ImageInfo) (rva length : Nat) : Option Nat :=
  (image.segments.find? fun seg => decide (seg.virtualAddress ≤ rva ∧
    ulong (rva + length) ≤ ulong (seg.virtualAddress + seg.rawSize))).map fun seg =>
      seg.rawOffset + (rva - seg.virtualAddress)

/-- `none` where its assertion fails. -/
def mipMasterAddDelta (copy : ImageCopy) (rva width delta : Nat) : Option ImageCopy :=
  if (List.range width).any fun i => !copy.committed ((rva + i) / pageSize) then none
  else
    let value := Bytes.ofLe ((List.range width).map fun i => copy.byte (rva + i))
    let sum := Bytes.le width (value + delta)
    some { copy with byte := fun a =>
      if rva ≤ a ∧ a < rva + width then sum.getD (a - rva) 0 else copy.byte a }

/-- What a build can end with beside a copy: a status, or a failed assertion. -/
inductive BuildFailure
  | status (status : NtStatus)
  | halt
  deriving DecidableEq

def relocateEntry (image : ImageInfo) (delta blockRva entry : Nat) (copy : ImageCopy) :
    Except BuildFailure ImageCopy :=
  let rva := blockRva + entry % 0x1000
  let width := match entry / 0x1000 with
    | 3 => some 4
    | 10 => some 8
    | _ => none
  if entry / 0x1000 = 0 then .ok copy
  else match width with
    | none => .error (.status statusInvalidImageFormat)
    | some width =>
      if image.sizeOfImage < rva + width ∨ !copy.committed (rva / pageSize) ∨
          !copy.committed ((rva + width - 1) / pageSize) then
        .error (.status statusInvalidImageFormat)
      else match mipMasterAddDelta copy rva width delta with
        | some copy => .ok copy
        | none => .error .halt

/-- The entries of a relocation block, from an offset of the file on. -/
def relocateEntries (image : ImageInfo) (raw : List UInt8) (delta blockRva : Nat) :
    Nat → Nat → ImageCopy → Except BuildFailure ImageCopy
  | 0, _, copy => .ok copy
  | n + 1, offset, copy => do
    let copy ← relocateEntry image delta blockRva (Bytes.field raw offset 2) copy
    relocateEntries image raw delta blockRva n (offset + 2) copy

/-- The loop over the blocks of `MipRelocateImage`; a block is eight bytes at least, so that the
size of the directory bounds their number. -/
def relocateBlocks (image : ImageInfo) (raw : List UInt8) (delta end_ : Nat) :
    Nat → Nat → ImageCopy → Except BuildFailure ImageCopy
  | 0, _, copy => .ok copy
  | fuel + 1, cursor, copy =>
    let sizeOfBlock := Bytes.field raw (cursor + 4) 4
    if end_ < cursor + 8 then .ok copy
    else if sizeOfBlock < 8 ∨ end_ < cursor + sizeOfBlock then .ok copy
    else do
      let copy ← relocateEntries image raw delta (Bytes.field raw cursor 4)
        ((sizeOfBlock - 8) / 2) (cursor + 8) copy
      relocateBlocks image raw delta end_ fuel (cursor + sizeOfBlock) copy

def mipRelocateImage (image : ImageInfo) (raw : List UInt8) (delta : Nat) (copy : ImageCopy) :
    Except BuildFailure ImageCopy :=
  if image.relocRva = 0 ∨ image.relocSize = 0 then .ok copy
  else match mipRvaToFileOffset image image.relocRva image.relocSize with
    | none => .error (.status statusInvalidImageFormat)
    | some offset =>
      relocateBlocks image raw delta (offset + image.relocSize) image.relocSize offset copy

/-- The committed copy, before relocation. -/
def commitImage (image : ImageInfo) (raw : List UInt8) (rawSize : Nat) :
    Except BuildFailure ImageCopy :=
  match (image.ranges rawSize).foldlM (mipMasterCommitRange raw (ulong (image.sizeOfImage /
      pageSize))) {} with
  | some copy => .ok copy
  | none => .error .halt

/-- Where the header keeps the base of the image, and in how many bytes. -/
def ImageInfo.baseField (image : ImageInfo) : Nat × Nat :=
  if image.machine = imageFileMachineI386 then (image.ntHeaderOffset + 52, 4)
  else (image.ntHeaderOffset + 48, 8)

/-- The relocation of a committed copy for a base, with the base stamped into its header. -/
def relocateImage (image : ImageInfo) (raw : List UInt8) (base : Nat) (copy : ImageCopy) :
    Except BuildFailure ImageCopy :=
  if base = image.preferredBase then .ok copy
  else do
    let delta := uint64 (base + 2 ^ 64 - image.preferredBase)
    let copy ← mipRelocateImage image raw delta copy
    match mipMasterAddDelta copy image.baseField.1 image.baseField.2 delta with
    | some copy => .ok copy
    | none => .error .halt

end Proskrnl.Mm
