import Proskrnl.Fat.Namespace
import Proskrnl.Mm.Protection

/-!
# Renames

`FatVfsRenameLocked` of `fs/fat32/file.c` with `FatLookup`, `FatDeleteEntry`, `FatRenameEntry` and
`FatRewriteDotDot` of `fs/fat32/dir.c`, on a mounted volume with its control blocks. A pointer to a
control block is its place in the table. References are not counted: a block that the call loads stays
in the table it works on. The change reports are left out.
-/

namespace Proskrnl.Fat
open Bytes Splice Mm.Cache
open Mm (hasFlag)

def fileRenameReplaceIfExists : Nat := 0x00000001
def fileRenameIgnoreReadonlyAttribute : Nat := 0x00000040

def fatAttrReadOnly : UInt8 := 0x01

/-- What `FatGetFcb` makes of an entry of the directory at a place of the table. -/
def loadFcb (v : Volume) (dir dirCluster : Nat) (e : WalkEntry) : Fcb where
  isDirectory := e.isDirectory
  isRoot := false
  parent := some dir
  parentDirCluster := dirCluster
  dirEntryIndex := e.sfnSlot
  entryDeleted := false
  lfnStartIndex := e.lfnStartSlot
  firstCluster := e.first v
  fileSize := field e.sfn 28 4
  attributes := e.sfn.byte 11
  writeTime := field e.sfn 22 2
  writeDate := field e.sfn 24 2
  createTime := field e.sfn 14 2
  createDate := field e.sfn 16 2
  createTimeTenth := e.sfn.byte 13
  accessDate := field e.sfn 18 2
  longName := e.name
  cache := miInitializePageCache
  cacheLoaded := false
  referenceCount := 1
  openObjectCount := 0
  unlinkPending := false
  deletePending := false
  sectionCount := 0

instance : Inhabited Fcb := ⟨loadFcb emptyVolume 0 0 ⟨[], 0, 0, []⟩⟩

/-- `FAT_VOLUME` with its list of control blocks. -/
structure Mounted where
  volume : Volume
  fcbs : List Fcb
  /-- The block of the root directory. -/
  root : Nat

/-- The control block that a pointer leads to. -/
def Mounted.fcb (m : Mounted) (i : Nat) : Fcb := m.fcbs.getD i default

/-- `FatDirFirstCluster` and `FatDirCluster`. -/
def Mounted.dirCluster (m : Mounted) (i : Nat) : Nat :=
  if (m.fcb i).isRoot then m.volume.rootCluster else (m.fcb i).firstCluster

/-- The first cluster of the directory that holds the entry of a control block. -/
def Mounted.parentCluster (m : Mounted) (fcb : Fcb) : Nat := m.dirCluster (fcb.parent.getD m.root)

def fatGetFcb (m : Mounted) (dir : Nat) (e : WalkEntry) : Nat × Mounted :=
  match m.fcbs.findIdx? fun fcb => fcb.parentDirCluster = m.dirCluster dir &&
      fcb.dirEntryIndex = e.sfnSlot && !fcb.isRoot && !fcb.entryDeleted with
  | some i => (i, m)
  | none =>
    (m.fcbs.length, { m with fcbs := m.fcbs ++ [loadFcb m.volume dir (m.dirCluster dir) e] })

/-- The entry that `FatLookup` finds: the first whose long or short name is the component. -/
def findEntry (v : Volume) (dir : Nat) (component : WStr) : Option WalkEntry :=
  (visibleEntries v dir).find? fun e => fatNamesEqualInsensitive component e.name ||
    fatNamesEqualInsensitive component (fatRenderShortName e.sfn)

def fatLookup (m : Mounted) (dir : Nat) (component : WStr) : Except NtStatus Nat × Mounted :=
  match findEntry m.volume (m.dirCluster dir) component with
  | none => (.error statusObjectNameNotFound, m)
  | some e =>
    let (i, m) := fatGetFcb m dir e
    (.ok i, m)

/-- The loop of `FatResolveParent`; each round takes a component at least. -/
def resolveLoop : Nat → Mounted → Nat → WStr → Except NtStatus (Nat × WStr) × Mounted
  | 0, m, current, _ => (.ok (current, []), m)
  | rounds + 1, m, current, remaining =>
    let component := remaining.takeWhile (· ≠ separator)
    if component.length = remaining.length then (.ok (current, component), m)
    else
      match fatLookup m current component with
      | (.error status, m) =>
        (.error (if status = statusObjectNameNotFound then statusObjectPathNotFound else status), m)
      | (.ok child, m) =>
        if !(m.fcb child).isDirectory then (.error statusObjectPathNotFound, m)
        else resolveLoop rounds m child (remaining.drop (component.length + 1))

/-- The directory, the leaf, and whether a separator ends the path. -/
def fatResolveParent (m : Mounted) (base : Nat) (path : WStr) :
    Except NtStatus (Nat × WStr × Bool) × Mounted :=
  let remaining := if path.head? = some separator then path.drop 1 else path
  if !fatValidateNtPath remaining then (.error statusObjectNameInvalid, m)
  else
    let trailingSlash : Bool := remaining.getLast? = some separator
    let remaining := if trailingSlash then remaining.dropLast else remaining
    match resolveLoop (remaining.length + 1) m base remaining with
    | (.error status, m) => (.error status, m)
    | (.ok (parent, leaf), m) => (.ok (parent, leaf, trailingSlash), m)

/-- The walk over the parents of a directory; their number bounds it. -/
def hasAncestor (m : Mounted) (fcb : Nat) : Nat → Option Nat → Bool
  | 0, _ => false
  | _ + 1, none => false
  | rounds + 1, some ancestor =>
    ancestor = fcb || hasAncestor m fcb rounds (m.fcb ancestor).parent

def fatDeleteEntry (m : Mounted) (i : Nat) : NtStatus × Mounted :=
  let fcb := m.fcb i
  match fatFreeEntrySlots m.volume (m.parentCluster fcb) fcb.lfnStartIndex fcb.dirEntryIndex with
  | (.error status, v) => (status, { m with volume := v })
  | (.ok (), v) =>
    (statusSuccess,
      { m with
        volume := if fcb.firstCluster ≠ 0 then fatFreeChain v fcb.firstCluster else v
        fcbs := m.fcbs.set i { fcb with firstCluster := 0, fileSize := 0, entryDeleted := true } })

/-- The first sector of a directory holds the entry "..". -/
def hasDotDot (v : Volume) (first : Nat) : Bool :=
  let sector := v.disk (fatClusterToSector v first)
  v.IsDataCluster first && sector.getD 32 0 = 0x2E && sector.getD 33 0 = 0x2E

/-- None for `STATUS_DISK_CORRUPT_ERROR`. The parent is 0 for the root. -/
def fatRewriteDotDot (v : Volume) (first parentCluster : Nat) : Option Volume :=
  let sector := fatClusterToSector v first
  if !hasDotDot v first then none
  else some { v with
    disk := Function.update v.disk sector (splice (splice (v.disk sector) (32 + 20)
      (le 2 (parentCluster / 2 ^ 16))) (32 + 26) (le 2 parentCluster)) }

def fatRenameEntry (m : Mounted) (i newParent : Nat) (newName : WStr) : NtStatus × Mounted :=
  let fcb := m.fcb i
  match fatWriteEntrySlots m.volume (m.dirCluster newParent) newName (withMetadata fcb zeroSlot) with
  | (.error status, v) => (status, { m with volume := v })
  | (.ok written, v) =>
    match fatFreeEntrySlots v (m.parentCluster fcb) fcb.lfnStartIndex fcb.dirEntryIndex with
    | (.error status, v) => (status, { m with volume := v })
    | (.ok (), v) =>
      let rewritten :=
        if fcb.isDirectory ∧ fcb.parent ≠ some newParent then
          fatRewriteDotDot v fcb.firstCluster
            (if (m.fcb newParent).isRoot then 0 else (m.fcb newParent).firstCluster)
        else some v
      match rewritten with
      | none => (statusDiskCorruptError, { m with volume := v })
      | some v =>
        (statusSuccess,
          { m with
            volume := v
            fcbs := m.fcbs.set i
              { fcb with
                parent := some newParent
                parentDirCluster := m.dirCluster newParent
                dirEntryIndex := written.sfnSlot
                lfnStartIndex := written.lfnStart
                longName := newName } })

/-- Where a rename leads: the new directory, the new name, and the file that it replaces. -/
structure RenameTarget where
  newParent : Nat
  leaf : WStr
  replaced : Option Nat
deriving DecidableEq

/-- The replace rules; none where they let the target go. -/
def replaceRefusal (existing : Fcb) (renameFlags : Nat) : Option NtStatus :=
  if !hasFlag renameFlags fileRenameReplaceIfExists then some statusObjectNameCollision
  else if existing.isDirectory then some statusAccessDenied
  else if existing.attributes &&& fatAttrReadOnly ≠ 0 ∧
      !hasFlag renameFlags fileRenameIgnoreReadonlyAttribute then some statusAccessDenied
  else if existing.openObjectCount ≠ 0 ∨ existing.sectionCount ≠ 0 then some statusAccessDenied
  else none

/-- `FatVfsRenameLocked` up to its first write: the status that it ends with, or the target. -/
def renameTarget (m : Mounted) (i : Nat) (relativeTo : Option Nat) (path : WStr) (renameFlags : Nat) :
    Except NtStatus RenameTarget × Mounted :=
  let base := relativeTo.getD m.root
  if (m.fcb i).isRoot then (.error statusInvalidParameter, m)
  else if relativeTo.isSome ∧ !(m.fcb base).isDirectory then (.error statusInvalidParameter, m)
  else
    match fatResolveParent m base path with
    | (.error status, m) => (.error status, m)
    | (.ok (newParent, leaf, trailingSlash), m) =>
      if leaf.length = 0 ∨ trailingSlash ∧ !(m.fcb i).isDirectory then
        (.error statusObjectNameInvalid, m)
      else if hasAncestor m i (m.fcbs.length + 1) (some newParent) then
        (.error statusInvalidParameter, m)
      else
        match fatLookup m newParent leaf with
        | (.error status, m) =>
          if status ≠ statusObjectNameNotFound then (.error status, m)
          else (.ok { newParent, leaf, replaced := none }, m)
        | (.ok existing, m) =>
          if existing = i then
            if leaf = (m.fcb i).longName then (.error statusSuccess, m)
            else (.ok { newParent, leaf, replaced := none }, m)
          else
            match replaceRefusal (m.fcb existing) renameFlags with
            | some status => (.error status, m)
            | none => (.ok { newParent, leaf, replaced := some existing }, m)

/-- `FatVfsRenameLocked`. -/
def fatVfsRename (m : Mounted) (i : Nat) (relativeTo : Option Nat) (path : WStr) (renameFlags : Nat) :
    NtStatus × Mounted :=
  match renameTarget m i relativeTo path renameFlags with
  | (.error status, m) => (status, m)
  | (.ok target, m) =>
    match target.replaced with
    | none => fatRenameEntry m i target.newParent target.leaf
    | some existing =>
      let (status, m) := fatDeleteEntry m existing
      if !ntSuccess status then (status, m) else fatRenameEntry m i target.newParent target.leaf

end Proskrnl.Fat
