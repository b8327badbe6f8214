import Proskrnl.Io.ShareAccess

/-!
# One file, its opens and its sections

`FatVfsCreate`, `FatVfsCleanup`, `FatVfsSetDisposition` and `FatVfsSectionsReleased` of
`fs/fat32/file.c` on the control block of one file, with what `kernel/io/file.c` does around them. A
call that takes the gate of the volume is one step. `IopSectionBackingReleased` lowers the counters
first and waits for the gate after: that is a step for each, with the calls of other threads between
them. The content of the file, its name and the change reports are not modelled.
-/

namespace Proskrnl.Fat

open Io
open Mm (hasFlag)

/-- The fields of `FAT_FCB` that decide about its entry. -/
structure SharedFcb where
  header : IoFcb := {}
  isRoot : Bool := false
  isDirectory : Bool := false
  /-- `attributes & FAT_ATTR_READ_ONLY` -/
  readOnly : Bool := false
  openObjectCount : Nat := 0
  unlinkPending : Bool := false
  entryDeleted : Bool := false
  deriving DecidableEq

/-- A `FILE_OBJECT` of the file; it stays in the list when its last handle is closed. -/
structure FileObject where
  grantedAccess : Nat
  shareAccess : Nat
  deleteOnClose : Bool
  shareCounted : Bool := true
  /-- Its cleanup has not run. -/
  isOpen : Bool := true
  deriving DecidableEq

/-- The file, who has it open, the sections over it, the calls of `FatVfsSectionsReleased` that wait for
the gate, and how often its entry was removed. -/
structure OpenFile where
  fcb : SharedFcb
  files : List FileObject := []
  sections : List BackedSection := []
  waiting : Nat := 0
  removals : Nat := 0
  deriving DecidableEq

/-- What an open asks for; `truncated` is the answer of `FatSetFileSize` where the file is truncated. -/
structure OpenRequest where
  grantedAccess : Nat
  shareAccess : Nat
  /-- `fileAttributes & FILE_ATTRIBUTE_READONLY` -/
  readOnly : Bool := false
  disposition : Disposition
  options : Nat
  trailingSlash : Bool := false
  truncated : NtStatus := statusSuccess
  deriving DecidableEq

namespace OpenFile

/-- `FatDeleteEntry` -/
def deleteEntry (s : OpenFile) : OpenFile :=
  { s with
    fcb := { s.fcb with entryDeleted := true }
    removals := s.removals + 1 }

/-- What `FatVfsCleanup` and `FatVfsSectionsReleased` do with the entry at the end. -/
def unlink (s : OpenFile) : OpenFile :=
  let s := s.deleteEntry
  { s with fcb := { s.fcb with
      header := { s.fcb.header with deletePending := false }
      unlinkPending := false } }

/-- `FAT_REFUSE_CREATED` -/
def refuseCreated (s : OpenFile) (created : Bool) (status : NtStatus) : OpenFile × NtStatus :=
  (if created then s.deleteEntry else s, status)

/-- The checks of `FatVfsCreate` once the control block is found or made. -/
def openStatus (fcb : SharedFcb) (created : Bool) (r : OpenRequest) : NtStatus :=
  let truncates := r.disposition = .overwrite ∨ r.disposition = .overwriteIf ∨
    r.disposition = .supersede
  if !created ∧ fcb.header.deletePending then statusDeletePending
  else if !created ∧ r.disposition = .create then statusObjectNameCollision
  else if fcb.isDirectory ∧ hasFlag r.options fileNonDirectoryFile then statusFileIsADirectory
  else if !fcb.isDirectory ∧ (hasFlag r.options fileDirectoryFile ∨ r.trailingSlash) then
    if r.trailingSlash then statusObjectNameInvalid else statusNotADirectory
  else if fcb.isDirectory ∧ truncates then statusFileIsADirectory
  else if !created ∧ fcb.readOnly ∧
      hasFlag r.grantedAccess (fileWriteData ||| fileAppendData) then statusAccessDenied
  else if !created ∧ fcb.readOnly ∧ hasFlag r.options fileDeleteOnClose then statusCannotDelete
  else ioCheckShareAccess r.grantedAccess r.shareAccess r.disposition r.options fcb.header

def opened (s : OpenFile) (r : OpenRequest) (readOnly : Bool) : OpenFile :=
  let share := ioSetShareAccess r.grantedAccess r.shareAccess s.fcb.header.shareAccess
  { s with
    fcb := { s.fcb with
      header := { s.fcb.header with shareAccess := share }
      readOnly
      openObjectCount := s.fcb.openObjectCount + 1 }
    files := s.files ++ [{
      grantedAccess := r.grantedAccess
      shareAccess := r.shareAccess
      deleteOnClose := hasFlag r.options fileDeleteOnClose }] }

def fatVfsCreate (s : OpenFile) (created : Bool) (r : OpenRequest) : OpenFile × NtStatus :=
  let status := openStatus s.fcb created r
  if !ntSuccess status then s.refuseCreated created status
  else if !created ∧ !s.fcb.isDirectory ∧ iopDispositionTruncates r.disposition then
    if !ntSuccess r.truncated then (s, r.truncated) else (s.opened r r.readOnly, statusSuccess)
  else (s.opened r s.fcb.readOnly, statusSuccess)

/-- `fcb->unlinkPending = TRUE` -/
def latched (s : OpenFile) : OpenFile := { s with fcb := { s.fcb with unlinkPending := true } }

/-- `wantDelete` of `FatVfsCleanup` -/
def wantDelete (s : OpenFile) (deleteOnClose : Bool) : Bool :=
  deleteOnClose || s.fcb.header.deletePending || s.fcb.unlinkPending

/-- `fcb->openObjectCount--` -/
def uncount (s : OpenFile) : OpenFile :=
  { s with fcb := { s.fcb with openObjectCount := s.fcb.openObjectCount - 1 } }

/-- `FatVfsCleanup` behind the count; `empty` is the answer of `FatIsDirectoryEmpty`. -/
def applyDelete (s : OpenFile) (deleteOnClose empty : Bool) : OpenFile :=
  if !s.wantDelete deleteOnClose ∨ s.fcb.isRoot then s
  else if s.fcb.openObjectCount ≠ 0 then s.latched
  else if s.fcb.isDirectory ∧ !empty then s
  else if s.fcb.header.sectionCount ≠ 0 then s.latched
  else s.unlink

def fatVfsCleanup (s : OpenFile) (deleteOnClose empty : Bool) : Except Assertion OpenFile :=
  if s.fcb.openObjectCount = 0 then .error .openObjectCount
  else .ok (s.uncount.applyDelete deleteOnClose empty)

def closing (s : OpenFile) (i : Nat) (file : FileObject) (share : ShareAccess) : OpenFile :=
  { s with
    fcb := { s.fcb with header := { s.fcb.header with shareAccess := share } }
    files := s.files.set i { file with isOpen := false, shareCounted := false } }

def releasedShare (s : OpenFile) (file : FileObject) : Except Assertion ShareAccess :=
  if file.shareCounted then
    ioRemoveShareAccess file.grantedAccess file.shareAccess s.fcb.header.shareAccess
  else .ok s.fcb.header.shareAccess

def iopCleanupFileObject (s : OpenFile) (i : Nat) (empty : Bool) :
    Except Assertion (OpenFile × NtStatus) :=
  match s.files[i]? with
  | none => .ok (s, statusInvalidHandle)
  | some file =>
    if !file.isOpen then .ok (s, statusInvalidHandle)
    else do
      let share ← releasedShare s file
      let s ← fatVfsCleanup (s.closing i file share) file.deleteOnClose empty
      .ok (s, statusSuccess)

/-- `fcb->header.deletePending = pending` -/
def setPending (s : OpenFile) (pending : Bool) : OpenFile :=
  { s with fcb := { s.fcb with header := { s.fcb.header with deletePending := pending } } }

def fatVfsSetDisposition (s : OpenFile) (deleteFile empty : Bool) : OpenFile × NtStatus :=
  if s.fcb.isRoot then (s, statusCannotDelete)
  else if !deleteFile then (s.setPending false, statusSuccess)
  else if s.fcb.readOnly then (s, statusCannotDelete)
  else if s.fcb.header.sectionCount ≠ 0 then (s, statusCannotDelete)
  else if s.fcb.isDirectory ∧ !empty then (s, statusDirectoryNotEmpty)
  else (s.setPending true, statusSuccess)

/-- `built` is the answer of the steps that grow the file, load its cache and
copy an image. -/
def iopBuildSectionBacking (s : OpenFile) (i : Nat) (x : BackedSection) (built : NtStatus) :
    OpenFile × NtStatus :=
  match s.files[i]? with
  | none => (s, statusInvalidHandle)
  | some file =>
    let needed := iopSectionFileAccess x.attributes x.protection
    if file.grantedAccess &&& needed ≠ needed then (s, statusAccessDenied)
    else if s.fcb.isDirectory then (s, statusInvalidFileForSection)
    else if s.fcb.entryDeleted then (s, statusFileClosed)
    else if !ntSuccess built then (s, built)
    else ({ s with
      fcb := { s.fcb with header := s.fcb.header.addSection x }
      sections := x :: s.sections }, statusSuccess)

/-- `IopSectionBackingReleased` up to the gate: whoever takes the last section goes to wait for it. -/
def iopSectionBackingReleased (s : OpenFile) (x : BackedSection) :
    Except Assertion (OpenFile × NtStatus) :=
  if x ∉ s.sections then .ok (s, statusInvalidHandle)
  else do
    let header ← s.fcb.header.removeSection x
    .ok ({ s with
      fcb := { s.fcb with header }
      sections := s.sections.erase x
      waiting := if header.sectionCount = 0 then s.waiting + 1 else s.waiting }, statusSuccess)

def fatVfsSectionsReleased (s : OpenFile) (empty : Bool) : OpenFile × NtStatus :=
  if s.waiting = 0 then (s, statusInvalidHandle)
  else
    let s := { s with waiting := s.waiting - 1 }
    if s.fcb.isRoot ∨ s.fcb.openObjectCount ≠ 0 then (s, statusSuccess)
    else if !s.fcb.unlinkPending ∧ !s.fcb.header.deletePending then (s, statusSuccess)
    else if s.fcb.isDirectory ∧ !empty then (s, statusSuccess)
    else (s.unlink, statusSuccess)

end OpenFile

inductive FileOp
  /-- A path that leads to the name of the file. -/
  | open_ (r : OpenRequest)
  | cleanup (i : Nat) (empty : Bool)
  | setDisposition (i : Nat) (deleteFile empty : Bool)
  | createSection (i : Nat) (x : BackedSection) (built : NtStatus)
  | releaseSection (x : BackedSection)
  | sectionsReleased (empty : Bool)
  deriving DecidableEq

/-- A step of the file. Once the entry is removed, its name does not lead here any more. -/
def OpenFile.step (s : OpenFile) : FileOp → Except Assertion (OpenFile × NtStatus)
  | .open_ r => .ok (if s.fcb.entryDeleted then (s, statusObjectNameNotFound)
      else s.fatVfsCreate false r)
  | .cleanup i empty => s.iopCleanupFileObject i empty
  | .setDisposition i deleteFile empty => .ok (if (s.files[i]?).isNone then (s, statusInvalidHandle)
      else s.fatVfsSetDisposition deleteFile empty)
  | .createSection i x built => .ok (s.iopBuildSectionBacking i x built)
  | .releaseSection x => s.iopSectionBackingReleased x
  | .sectionsReleased empty => .ok (s.fatVfsSectionsReleased empty)

/-- The control block as `FatGetFcb` makes it. -/
def OpenFile.fresh (isRoot isDirectory readOnly : Bool) : OpenFile where
  fcb := { isRoot, isDirectory, readOnly }

/-- The states that steps within a condition reach, from a control block that a path has found or that
a create has made together with its entry. -/
inductive Reaches (allowed : OpenFile → FileOp → Prop) : OpenFile → Prop
  | found (isRoot isDirectory readOnly : Bool) :
    Reaches allowed (.fresh isRoot isDirectory readOnly)
  | created (isDirectory readOnly : Bool) (r : OpenRequest) :
    Reaches allowed ((OpenFile.fresh false isDirectory readOnly).fatVfsCreate true r).1
  | step {s s' : OpenFile} {op : FileOp} {status : NtStatus} (hs : Reaches allowed s)
    (hop : allowed s op) (h : s.step op = .ok (s', status)) : Reaches allowed s'

end Proskrnl.Fat
