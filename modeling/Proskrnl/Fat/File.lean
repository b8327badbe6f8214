import Proskrnl.Mm.PageCache
import Proskrnl.Fat.Directory

/-!
# Files

`fs/fat32/file.c`: the data of a file between its page cache and its cluster chain. A file control
block is passed along with the first cluster `dir` of the directory that holds its entry. A transfer of
a batch is done where the source stages it: the transfers of a batch go to places apart, and the
device answers every one.
-/

namespace Proskrnl.Fat
open Bytes Mm.Cache

/-- `FAT_FCB`; the parent and its own place are those of a table of control blocks. -/
structure Fcb where
  isDirectory : Bool
  isRoot : Bool
  parent : Option Nat
  parentDirCluster : Nat
  dirEntryIndex : Nat
  entryDeleted : Bool
  lfnStartIndex : Nat
  firstCluster : Nat
  fileSize : Nat
  attributes : UInt8
  writeTime : Nat
  writeDate : Nat
  createTime : Nat
  createDate : Nat
  createTimeTenth : UInt8
  accessDate : Nat
  longName : WStr
  cache : PageCache
  cacheLoaded : Bool
  referenceCount : Nat
  openObjectCount : Nat
  unlinkPending : Bool
  deletePending : Bool
  sectionCount : Nat

/-- The bytes of a short entry that `FatFlushFcbMetadata` fills in. -/
def withMetadata (fcb : Fcb) (entry : Slot) : Slot :=
  entry.take 11 ++ [fcb.attributes, entry.byte 12, fcb.createTimeTenth] ++ le 2 fcb.createTime ++
    le 2 fcb.createDate ++ le 2 fcb.accessDate ++ le 2 (fcb.firstCluster / 2 ^ 16) ++
    le 2 fcb.writeTime ++ le 2 fcb.writeDate ++ le 2 fcb.firstCluster ++ le 4 fcb.fileSize

def fatFlushFcbMetadata (v : Volume) (dir : Nat) (fcb : Fcb) : Except NtStatus Unit × Volume :=
  if fcb.isRoot then (.ok (), v)
  else if fcb.entryDeleted then (.ok (), v)
  else
    match fatReadDirSlot v dir fcb.dirEntryIndex with
    | none => (.error statusNoMoreFiles, v)
    | some entry =>
      match fatWriteDirSlot v dir fcb.dirEntryIndex (withMetadata fcb entry) with
      | none => (.error statusDiskFull, v)
      | some v => (.ok (), v)

def fatClusterBytes (v : Volume) : Nat := v.sectorsPerCluster * fatSectorSize

def fatRunSectors (v : Volume) (sectorInCluster position limitByte : Nat) : Nat :=
  let run := v.sectorsPerCluster - sectorInCluster
  let pageRun := (pageSize - position % pageSize) / fatSectorSize
  let limitRun := (limitByte - position + fatSectorSize - 1) / fatSectorSize
  min (min run pageRun) limitRun

def readRun (disk : Nat → List UInt8) (sector run position : Nat) (bytes : Nat → UInt8) :
    Nat → UInt8 :=
  fun p =>
    if position ≤ p ∧ p < position + run * fatSectorSize then
      (disk (sector + (p - position) / fatSectorSize)).getD ((p - position) % fatSectorSize) 0
    else bytes p

def cacheSector (bytes : Nat → UInt8) (position : Nat) : List UInt8 :=
  (List.range fatSectorSize).map fun i => bytes (position + i)

def writeRun (bytes : Nat → UInt8) (sector run position : Nat) (disk : Nat → List UInt8) :
    Nat → List UInt8 :=
  fun s =>
    if sector ≤ s ∧ s < sector + run then cacheSector bytes (position + (s - sector) * fatSectorSize)
    else disk s

/-- The inner loop of `FatEnsureCache`: a cluster, up to the end of the file. -/
def fillCluster (v : Volume) (clusterSector size : Nat) :
    Nat → Nat → Nat → (Nat → UInt8) → Nat × (Nat → UInt8)
  | 0, _, position, bytes => (position, bytes)
  | rounds + 1, s, position, bytes =>
    if s < v.sectorsPerCluster ∧ position < size then
      let run := fatRunSectors v s position size
      fillCluster v clusterSector size rounds (s + run) (position + run * fatSectorSize)
        (readRun v.disk (clusterSector + s) run position bytes)
    else (position, bytes)

/-- The outer loop of `FatEnsureCache`. Before each cluster it asks `IoSyncIoCancelled`. -/
def fillLoop (v : Volume) (cancelled : Nat → Bool) (size : Nat) :
    Nat → Nat → Nat → Nat → (Nat → UInt8) → Except NtStatus Unit × (Nat → UInt8)
  | 0, _, _, _, bytes => (.ok (), bytes)
  | rounds + 1, poll, cluster, position, bytes =>
    if cluster ≠ 0 ∧ position < size then
      if cancelled poll then (.error statusCancelled, bytes)
      else
        let filled := fillCluster v (fatClusterToSector v cluster) size v.sectorsPerCluster 0 position
          bytes
        fillLoop v cancelled size rounds (poll + 1) (fatGetNextCluster v cluster) filled.1 filled.2
    else (.ok (), bytes)

structure Fill where
  memory : Memory
  cancelled : Nat → Bool

def fatEnsureCache (fill : Fill) (v : Volume) (fcb : Fcb) : Except NtStatus Unit × Fcb :=
  if fcb.entryDeleted then (.error statusFileClosed, fcb)
  else if fcb.cacheLoaded then (.ok (), fcb)
  else
    match miResizePageCache fill.memory fcb.cache fcb.fileSize with
    | (.error status, cache) => (.error status, { fcb with cache })
    | (.ok (), cache) =>
      match fillLoop v fill.cancelled fcb.fileSize (fcb.fileSize / fatSectorSize + 1) 0
          fcb.firstCluster 0 cache.bytes with
      | (.error status, bytes) => (.error status, { fcb with cache := { cache with bytes } })
      | (.ok (), bytes) =>
        (.ok (), { fcb with cache := { cache with bytes }, cacheLoaded := true })

/-- The inner loop of `FatWritebackRange`. -/
def flushCluster (v : Volume) (bytes : Nat → UInt8) (clusterSector endByte : Nat) :
    Nat → Nat → Nat → (Nat → List UInt8) → Nat × (Nat → List UInt8)
  | 0, _, position, disk => (position, disk)
  | rounds + 1, s, position, disk =>
    if s < v.sectorsPerCluster ∧ position < endByte then
      let run := fatRunSectors v s position endByte
      flushCluster v bytes clusterSector endByte rounds (s + run) (position + run * fatSectorSize)
        (writeRun bytes (clusterSector + s) run position disk)
    else (position, disk)

/-- The outer loop of `FatWritebackRange`. -/
def writebackLoop (v : Volume) (bytes : Nat → UInt8) (endByte : Nat) :
    Nat → Nat → Nat → (Nat → List UInt8) → Nat → List UInt8
  | 0, _, _, disk => disk
  | rounds + 1, cluster, position, disk =>
    if position < endByte ∧ cluster ≠ 0 then
      let flushed := flushCluster v bytes (fatClusterToSector v cluster) endByte v.sectorsPerCluster
        (position % fatClusterBytes v / fatSectorSize) position disk
      writebackLoop v bytes endByte rounds (fatGetNextCluster v cluster) flushed.1 flushed.2
    else disk

def fatWritebackRange (v : Volume) (fcb : Fcb) (offset length : Nat) : Volume :=
  if length = 0 ∨ offset ≥ fcb.fileSize then v
  else
    let length := if length > fcb.fileSize - offset then fcb.fileSize - offset else length
    let firstByte := offset / fatSectorSize * fatSectorSize
    let endByte := offset + length
    let cluster := fatWalkChain v fcb.firstCluster (firstByte / fatClusterBytes v)
    { v with
      disk := writebackLoop v fcb.cache.bytes endByte (endByte / fatSectorSize + 1) cluster firstByte
        v.disk }

/-- What `FatSetFileSize` takes back of an extension that failed. -/
def unwindExtension (v : Volume) (oldLast firstFresh : Nat) : Volume :=
  if firstFresh ≠ 0 then
    let v := fatFreeChain v firstFresh
    if oldLast ≠ 0 then fatSetFatEntry v oldLast fatEntryMask else v
  else v

/-- The extension loop of `FatSetFileSize`: zeroed clusters behind `last`, and the first of them.
Before each it asks `IoSyncIoCancelled`. -/
def extendLoop (cancelled : Nat → Bool) (oldLast : Nat) :
    Nat → Nat → Nat → Nat → Volume → Except NtStatus Nat × Volume
  | 0, _, _, firstFresh, v => (.ok firstFresh, v)
  | rounds + 1, i, last, firstFresh, v =>
    if cancelled i then (.error statusCancelled, unwindExtension v oldLast firstFresh)
    else
      match fatAllocateCluster v last with
      | none => (.error statusDiskFull, unwindExtension v oldLast firstFresh)
      | some (fresh, v) =>
        extendLoop cancelled oldLast rounds (i + 1) fresh (if firstFresh = 0 then fresh else firstFresh)
          (zeroCluster v fresh)

/-- The part of `FatSetFileSize` that cuts a chain to `wantClusters`; it reports the first cluster. -/
def cutChain (v : Volume) (firstCluster wantClusters : Nat) : Nat × Volume :=
  if wantClusters = 0 then (0, fatFreeChain v firstCluster)
  else
    let lastKept := fatWalkChain v firstCluster (wantClusters - 1)
    let firstFreed := fatGetNextCluster v lastKept
    let v := fatSetFatEntry v lastKept fatEntryMask
    (firstCluster, if firstFreed ≠ 0 then fatFreeChain v firstFreed else v)

def clustersOf (v : Volume) (size : Nat) : Nat := (size + fatClusterBytes v - 1) / fatClusterBytes v

/-- The chain that `FatSetFileSize` leaves for the new size. -/
def resizeChain (cancelled : Nat → Bool) (v : Volume) (firstCluster newSize : Nat) :
    Except NtStatus Nat × Volume :=
  let haveClusters := fatChainLength v firstCluster
  let wantClusters := clustersOf v newSize
  if wantClusters > haveClusters then
    let oldLast :=
      if haveClusters ≠ 0 then fatWalkChain v firstCluster (haveClusters - 1) else 0
    match extendLoop cancelled oldLast (wantClusters - haveClusters) haveClusters oldLast 0 v with
    | (.error status, v) => (.error status, v)
    | (.ok firstFresh, v) => (.ok (if firstCluster = 0 then firstFresh else firstCluster), v)
  else if wantClusters < haveClusters then
    let cut := cutChain v firstCluster wantClusters
    (.ok cut.1, cut.2)
  else (.ok firstCluster, v)

/-- The scrub of `FatSetFileSize` behind the old end, in the cache and in the cluster that is kept. -/
def scrubExtension (v : Volume) (fcb : Fcb) (oldSize newSize : Nat) : Volume × Fcb :=
  if newSize > oldSize ∧ oldSize ≠ 0 then
    let cacheEnd := min (pagesOf oldSize * pageSize) newSize
    let fcb := { fcb with cache := { fcb.cache with bytes := zeroRange fcb.cache.bytes oldSize cacheEnd } }
    let diskEnd := min (clustersOf v oldSize * fatClusterBytes v) newSize
    (if diskEnd > oldSize then fatWritebackRange v fcb oldSize (diskEnd - oldSize) else v, fcb)
  else (v, fcb)

/-- What `FatSetFileSize` depends on besides the file: the fill of the cache, the answers of
`IoSyncIoCancelled` in the extension, the memory for the cache and the date and time. -/
structure Resize where
  fill : Fill
  cancelled : Nat → Bool
  memory : Memory
  date : Nat
  time : Nat

def fatSetFileSize (env : Resize) (v : Volume) (dir : Nat) (fcb : Fcb) (newSize : Nat) :
    Except NtStatus Unit × Volume × Fcb :=
  if newSize > 0xFFFFFFFF then (.error statusDiskFull, v, fcb)
  else
    match fatEnsureCache env.fill v fcb with
    | (.error status, fcb) => (.error status, v, fcb)
    | (.ok (), fcb) =>
      match resizeChain env.cancelled v fcb.firstCluster newSize with
      | (.error status, v) => (.error status, v, fcb)
      | (.ok firstCluster, v) =>
        let oldSize := fcb.fileSize
        let fcb := { fcb with
          firstCluster, fileSize := newSize, writeDate := env.date, writeTime := env.time }
        match miResizePageCache env.memory fcb.cache newSize with
        | (.error status, cache) =>
          let fcb := { fcb with cache }
          (.error status, (fatFlushFcbMetadata v dir fcb).2, fcb)
        | (.ok (), cache) =>
          let scrubbed := scrubExtension v { fcb with cache } oldSize newSize
          let flushed := fatFlushFcbMetadata scrubbed.1 dir scrubbed.2
          (flushed.1, flushed.2, scrubbed.2)

/-- Where a write goes, and the growth it needs. -/
def fatVfsPrepareWrite (env : Resize) (v : Volume) (dir : Nat) (fcb : Fcb) (offset length : Nat)
    (writeToEnd : Bool) : Except NtStatus Nat × Volume × Fcb :=
  if fcb.isDirectory then (.error statusInvalidDeviceRequest, v, fcb)
  else if fcb.entryDeleted then (.error statusFileClosed, v, fcb)
  else
    match fatEnsureCache env.fill v fcb with
    | (.error status, fcb) => (.error status, v, fcb)
    | (.ok (), fcb) =>
      let offset := if writeToEnd then fcb.fileSize else offset
      let last := (offset + length) % 2 ^ 64
      if length ≠ 0 ∧ last > fcb.fileSize then
        match fatSetFileSize env v dir fcb last with
        | (.error status, v, fcb) => (.error status, v, fcb)
        | (.ok (), v, fcb) => (.ok offset, v, fcb)
      else (.ok offset, v, fcb)

def fatVfsWritebackRange (date time : Nat) (v : Volume) (dir : Nat) (fcb : Fcb) (offset length : Nat) :
    Except NtStatus Unit × Volume × Fcb :=
  if fcb.entryDeleted then (.error statusFileClosed, v, fcb)
  else
    let fcb := { fcb with writeDate := date, writeTime := time }
    let flushed := fatFlushFcbMetadata (fatWritebackRange v fcb offset length) dir fcb
    (flushed.1, flushed.2, fcb)

end Proskrnl.Fat
