import Proskrnl.Abi.Status
import Proskrnl.Mm.Section

/-!
# Share modes and the hold of sections

The accounts of `kernel/io/file.c` that an `IO_FCB` keeps for all opens of a file and all sections over
it: who reads, writes and deletes, who shares what, and how many sections are alive. Byte-range locks
are not modelled.
-/

namespace Proskrnl.Io
open List

open Mm (hasFlag)

def fileReadData : Nat := 0x0001
def fileWriteData : Nat := 0x0002
def fileAppendData : Nat := 0x0004
def fileExecute : Nat := 0x0020
/-- `DELETE` -/
def accessDelete : Nat := 0x00010000

def fileShareRead : Nat := 0x00000001
def fileShareWrite : Nat := 0x00000002
def fileShareDelete : Nat := 0x00000004

def fileDirectoryFile : Nat := 0x00000001
def fileNonDirectoryFile : Nat := 0x00000040
def fileDeleteOnClose : Nat := 0x00001000

/-- The create dispositions of `abi/ntioapi.h`. -/
inductive Disposition
  | supersede
  | open_
  | create
  | openIf
  | overwrite
  | overwriteIf
  deriving DecidableEq

def iopDispositionTruncates (disposition : Disposition) : Bool :=
  disposition = .supersede ∨ disposition = .overwrite ∨ disposition = .overwriteIf

/-- `IO_SHARE_ACCESS` -/
structure ShareAccess where
  openCount : Nat := 0
  readers : Nat := 0
  writers : Nat := 0
  deleters : Nat := 0
  sharedRead : Nat := 0
  sharedWrite : Nat := 0
  sharedDelete : Nat := 0
  deriving DecidableEq

structure IoFcb where
  shareAccess : ShareAccess := {}
  deletePending : Bool := false
  sectionCount : Nat := 0
  imageSectionCount : Nat := 0
  writableSectionCount : Nat := 0
  deriving DecidableEq

inductive Assertion
  /-- `IoRemoveShareAccess`: `share->openCount > 0` -/
  | shareOpenCount
  /-- `FatVfsCleanup`: `fcb->openObjectCount > 0` -/
  | openObjectCount
  /-- `IopSectionBackingReleased`: the section was counted. -/
  | sectionCount
  | imageSectionCount
  | writableSectionCount
  deriving DecidableEq

/-- The three answers of `IopShareRelevantAccess`. -/
structure RelevantAccess where
  reads : Bool
  writes : Bool
  deletes : Bool
  deriving DecidableEq

def iopShareRelevantAccess (desiredAccess : Nat) : RelevantAccess where
  reads := hasFlag desiredAccess (fileReadData ||| fileExecute)
  writes := hasFlag desiredAccess (fileWriteData ||| fileAppendData)
  deletes := hasFlag desiredAccess accessDelete

/-- Does an open take part in the share modes at all? -/
def RelevantAccess.any (a : RelevantAccess) : Bool := a.reads || a.writes || a.deletes

def ioCheckShareAccess (desiredAccess shareAccess : Nat) (disposition : Disposition) (options : Nat)
    (fcb : IoFcb) : NtStatus :=
  let a := iopShareRelevantAccess desiredAccess
  let share := fcb.shareAccess
  let sharesRead := hasFlag shareAccess fileShareRead
  let sharesWrite := hasFlag shareAccess fileShareWrite
  let sharesDelete := hasFlag shareAccess fileShareDelete
  if (a.reads ∧ share.sharedRead ≠ share.openCount) ∨
      (a.writes ∧ share.sharedWrite ≠ share.openCount) ∨
      (a.deletes ∧ share.sharedDelete ≠ share.openCount) then statusSharingViolation
  else if (fcb.writableSectionCount ≠ 0 ∧ !sharesWrite) ∨
      (fcb.imageSectionCount ≠ 0 ∧ hasFlag desiredAccess fileWriteData) then statusSharingViolation
  else if fcb.imageSectionCount ≠ 0 ∧ hasFlag options fileDeleteOnClose then statusCannotDelete
  else if fcb.sectionCount ≠ 0 ∧ iopDispositionTruncates disposition then statusUserMappedFile
  else if !a.any then statusSuccess
  else if (!sharesRead ∧ share.readers ≠ 0) ∨ (!sharesWrite ∧ share.writers ≠ 0) ∨
      (!sharesDelete ∧ share.deleters ≠ 0) then statusSharingViolation
  else statusSuccess

def ioSetShareAccess (desiredAccess shareAccess : Nat) (share : ShareAccess) : ShareAccess :=
  let a := iopShareRelevantAccess desiredAccess
  if !a.any then share
  else
    { openCount := share.openCount + 1
      readers := share.readers + a.reads.toNat
      writers := share.writers + a.writes.toNat
      deleters := share.deleters + a.deletes.toNat
      sharedRead := share.sharedRead + (hasFlag shareAccess fileShareRead).toNat
      sharedWrite := share.sharedWrite + (hasFlag shareAccess fileShareWrite).toNat
      sharedDelete := share.sharedDelete + (hasFlag shareAccess fileShareDelete).toNat }

def ioRemoveShareAccess (desiredAccess shareAccess : Nat) (share : ShareAccess) :
    Except Assertion ShareAccess :=
  let a := iopShareRelevantAccess desiredAccess
  if !a.any then .ok share
  else if share.openCount = 0 then .error .shareOpenCount
  else .ok
    { openCount := share.openCount - 1
      readers := share.readers - a.reads.toNat
      writers := share.writers - a.writes.toNat
      deleters := share.deleters - a.deletes.toNat
      sharedRead := share.sharedRead - (hasFlag shareAccess fileShareRead).toNat
      sharedWrite := share.sharedWrite - (hasFlag shareAccess fileShareWrite).toNat
      sharedDelete := share.sharedDelete - (hasFlag shareAccess fileShareDelete).toNat }

def iopSectionFileAccess (sectionAttributes pageProtection : Nat) : Nat :=
  let bits := pageProtection % 0x100
  if bits = Mm.pageExecute ∨ bits = Mm.pageNoAccess then 0
  else if !hasFlag sectionAttributes Mm.secImage ∧
      (bits = Mm.pageReadWrite ∨ bits = Mm.pageExecuteReadWrite) then fileReadData ||| fileWriteData
  else fileReadData

def iopSectionHoldsWrite (sectionAttributes pageProtection : Nat) : Bool :=
  !hasFlag sectionAttributes Mm.secImage &&
    hasFlag (iopSectionFileAccess sectionAttributes pageProtection) fileWriteData

/-- A section over the file, by the two words its counters are derived from. -/
structure BackedSection where
  attributes : Nat
  protection : Nat
  deriving DecidableEq

def BackedSection.isImage (x : BackedSection) : Bool := hasFlag x.attributes Mm.secImage

def BackedSection.holdsWrite (x : BackedSection) : Bool := iopSectionHoldsWrite x.attributes x.protection

/-- The counters that `IopBuildSectionBacking` raises. -/
def IoFcb.addSection (fcb : IoFcb) (x : BackedSection) : IoFcb :=
  { fcb with
    sectionCount := fcb.sectionCount + 1
    imageSectionCount := fcb.imageSectionCount + x.isImage.toNat
    writableSectionCount := fcb.writableSectionCount + x.holdsWrite.toNat }

/-- The counters that `IopSectionBackingReleased` lowers. -/
def IoFcb.removeSection (fcb : IoFcb) (x : BackedSection) : Except Assertion IoFcb :=
  if fcb.sectionCount = 0 then .error .sectionCount
  else if x.isImage ∧ fcb.imageSectionCount = 0 then .error .imageSectionCount
  else if x.holdsWrite ∧ fcb.writableSectionCount = 0 then .error .writableSectionCount
  else .ok
    { fcb with
      sectionCount := fcb.sectionCount - 1
      imageSectionCount := fcb.imageSectionCount - x.isImage.toNat
      writableSectionCount := fcb.writableSectionCount - x.holdsWrite.toNat }

structure SectionCounts (fcb : IoFcb) (sections : List BackedSection) : Prop where
  sectionCount : fcb.sectionCount = sections.length
  imageSectionCount : fcb.imageSectionCount = sections.countP BackedSection.isImage
  writableSectionCount : fcb.writableSectionCount = sections.countP BackedSection.holdsWrite

theorem countP_erase_add {α : Type} [DecidableEq α] {p : α → Bool} {l : List α} {a : α} (h : a ∈ l) :
    (l.erase a).countP p + (p a).toNat = l.countP p := by
  rw [(perm_cons_erase h).countP_eq p, countP_cons]
  cases p a <;> rfl

namespace SectionCounts
variable {fcb : IoFcb} {sections : List BackedSection} {x : BackedSection}

theorem add (h : SectionCounts fcb sections) (x : BackedSection) :
    SectionCounts (fcb.addSection x) (x :: sections) := by
  refine ⟨congrArg Nat.succ h.sectionCount, ?_, ?_⟩
  · change fcb.imageSectionCount + x.isImage.toNat = _
    rw [countP_cons, h.imageSectionCount]
    cases x.isImage <;> rfl
  · change fcb.writableSectionCount + x.holdsWrite.toNat = _
    rw [countP_cons, h.writableSectionCount]
    cases x.holdsWrite <;> rfl

theorem remove (h : SectionCounts fcb sections) (hx : x ∈ sections) :
    ∃ fcb', fcb.removeSection x = .ok fcb' ∧ SectionCounts fcb' (sections.erase x) ∧
      fcb'.shareAccess = fcb.shareAccess ∧ fcb'.deletePending = fcb.deletePending := by
  have hpos : 0 < sections.length := length_pos_of_mem hx
  have himage := countP_erase_add (p := BackedSection.isImage) hx
  have hwritable := countP_erase_add (p := BackedSection.holdsWrite) hx
  rw [← h.imageSectionCount] at himage
  rw [← h.writableSectionCount] at hwritable
  have hlength : fcb.sectionCount - 1 = (sections.erase x).length := by
    rw [h.sectionCount, length_erase_of_mem hx]
  rw [IoFcb.removeSection, if_neg (by rw [h.sectionCount]; exact hpos.ne')]
  have himage' : ¬(x.isImage = true ∧ fcb.imageSectionCount = 0) := by
    rintro ⟨htrue, hzero⟩
    rw [htrue, hzero] at himage
    exact absurd himage (Nat.succ_ne_zero _)
  have hwritable' : ¬(x.holdsWrite = true ∧ fcb.writableSectionCount = 0) := by
    rintro ⟨htrue, hzero⟩
    rw [htrue, hzero] at hwritable
    exact absurd hwritable (Nat.succ_ne_zero _)
  rw [if_neg himage', if_neg hwritable']
  refine ⟨_, rfl, ⟨hlength, ?_, ?_⟩, rfl, rfl⟩
  · exact Nat.sub_eq_of_eq_add himage.symm
  · exact Nat.sub_eq_of_eq_add hwritable.symm

end SectionCounts

end Proskrnl.Io
