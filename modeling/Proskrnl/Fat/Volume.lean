import Proskrnl.Library.Bytes
import Proskrnl.Library.Chains
import Proskrnl.Library.Splice

/-!
# A mounted FAT32 volume

`fs/fat32/fat.c`: the geometry that `FatValidateBpb` accepts, the FAT in the pool and its copies on
the disk, and the chain primitives. Sectors are volume-relative and hold 512 bytes. The device
answers every request: where one of these functions meets a device error it returns at once, and what
is said of it is said of the calls that do not.
-/

namespace Proskrnl.Fat
open Bytes Chains Splice

def fatSectorSize : Nat := 512

/-- `FAT_BPB_GEOMETRY`, with what `FatValidateBpb` checked. -/
structure Geometry where
  sectorsPerCluster : Nat
  reservedSectors : Nat
  fatCount : Nat
  fatSizeSectors : Nat
  totalSectors : Nat
  firstDataSector : Nat
  clusterCount : Nat
  rootCluster : Nat
  sectorsPerCluster_pos : 0 < sectorsPerCluster
  sectorsPerCluster_le : sectorsPerCluster ≤ 128
  reservedSectors_pos : 0 < reservedSectors
  fatCount_pos : 0 < fatCount
  totalSectors_lt : totalSectors < 2 ^ 32
  data_le_total : firstDataSector + clusterCount * sectorsPerCluster ≤ totalSectors
  fat_le_data : reservedSectors + fatCount * fatSizeSectors ≤ firstDataSector
  fat_entries : clusterCount + 2 ≤ fatSizeSectors * 128
  root_data : 2 ≤ rootCluster ∧ rootCluster < clusterCount + 2
deriving DecidableEq

/-- None for `STATUS_UNRECOGNIZED_VOLUME`. -/
def fatValidateBpb (boot : List UInt8) : Option Geometry :=
  let sectorsPerCluster := (boot.getD 13 0).toNat
  let reservedSectors := field boot 14 2
  let fatCount := (boot.getD 16 0).toNat
  let fatSize := if field boot 22 2 ≠ 0 then field boot 22 2 else field boot 36 4
  let totalSectors := if field boot 19 2 ≠ 0 then field boot 19 2 else field boot 32 4
  let rootDirSectors := (field boot 17 2 * 32 + fatSectorSize - 1) / fatSectorSize
  let firstDataSector := reservedSectors + fatCount * fatSize + rootDirSectors
  let clusterCount := (totalSectors - firstDataSector) / sectorsPerCluster
  let rootCluster := field boot 44 4
  if hfields : field boot 11 2 ≠ fatSectorSize ∨ sectorsPerCluster = 0 ∨ reservedSectors = 0 ∨
      fatCount = 0 then none
  else if hcluster : sectorsPerCluster > 128 ∨ sectorsPerCluster &&& (sectorsPerCluster - 1) ≠ 0 then
    none
  else if fatSize = 0 ∨ totalSectors = 0 then none
  else if htotal : firstDataSector ≥ totalSectors then none
  else if clusterCount < 65525 then none
  else if hentries : clusterCount + 2 > fatSize * fatSectorSize / 4 then none
  else if hroot : rootCluster < 2 ∨ rootCluster ≥ clusterCount + 2 then none
  else some
    { sectorsPerCluster, reservedSectors, fatCount, fatSizeSectors := fatSize, totalSectors,
      firstDataSector, clusterCount, rootCluster,
      sectorsPerCluster_pos := by omega
      sectorsPerCluster_le := by omega
      reservedSectors_pos := by omega
      fatCount_pos := by omega
      totalSectors_lt := by
        have hshort := field_lt boot 19 2
        have hlong := field_lt boot 32 4
        change (if field boot 19 2 ≠ 0 then field boot 19 2 else field boot 32 4) < 2 ^ 32
        split <;> omega
      data_le_total := by
        have hdiv := Nat.div_mul_le_self (totalSectors - firstDataSector) sectorsPerCluster
        change firstDataSector + (totalSectors - firstDataSector) / sectorsPerCluster *
          sectorsPerCluster ≤ totalSectors
        omega
      fat_le_data := Nat.le_add_right _ _
      fat_entries := by
        rw [fatSectorSize] at hentries
        omega
      root_data := by omega }

/-- `FAT_VOLUME`, and the disk below it. -/
structure Volume extends Geometry where
  nextFreeHint : Nat
  freeClusters : Nat
  fsInfoSector : Nat
  /-- The FAT in the pool; entries have 32 bits, the upper 4 reserved. -/
  fat : Nat → Nat
  disk : Nat → List UInt8
  fsInfo_reserved : fsInfoSector < reservedSectors

/-- `FAT_ENTRY_MASK`, also the end-of-chain mark that is written. -/
def fatEntryMask : Nat := 0x0FFFFFFF

def Volume.entry (v : Volume) (cluster : Nat) : Nat := v.fat cluster % 2 ^ 28

/-- `FatIsDataCluster`. -/
def Volume.IsDataCluster (v : Volume) (cluster : Nat) : Prop :=
  2 ≤ cluster ∧ cluster < v.clusterCount + 2

instance (v : Volume) (cluster : Nat) : Decidable (v.IsDataCluster cluster) :=
  inferInstanceAs (Decidable (_ ∧ _))

def fatClusterToSector (v : Volume) (cluster : Nat) : Nat :=
  (cluster - 2) * v.sectorsPerCluster + v.firstDataSector

/-- 0 at the end of a chain, and for an entry that names no data cluster. -/
def fatGetNextCluster (v : Volume) (cluster : Nat) : Nat :=
  if ¬ v.IsDataCluster cluster then 0
  else if v.entry cluster ≥ 0x0FFFFFF8 ∨ v.entry cluster = 0x0FFFFFF7 then 0
  else if ¬ v.IsDataCluster (v.entry cluster) then 0
  else v.entry cluster

/-- Sector `i` of the FAT in the pool. -/
def fatSector (fat : Nat → Nat) (i : Nat) : List UInt8 :=
  (List.range 128).flatMap fun k => le 4 (fat (i * 128 + k))

def Volume.copySector (v : Volume) (copy : Nat) : Nat := v.reservedSectors + copy * v.fatSizeSectors

/-- The entry in the pool, the count of free clusters, and the sector that holds the
entry in every copy. The offset of the entry has 32 bits. -/
def fatSetFatEntry (v : Volume) (cluster value : Nat) : Volume :=
  let wasFree := v.entry cluster = 0
  let nowFree := value % 2 ^ 28 = 0
  let fat := Function.update v.fat cluster (v.fat cluster / 2 ^ 28 * 2 ^ 28 + value % 2 ^ 28)
  let sectorInFat := cluster * 4 % 2 ^ 32 / fatSectorSize
  { v with
    fat
    freeClusters :=
      if wasFree ∧ ¬ nowFree then v.freeClusters - 1
      else if ¬ wasFree ∧ nowFree then v.freeClusters + 1
      else v.freeClusters
    disk := (List.range v.fatCount).foldl (fun disk copy =>
      Function.update disk (v.copySector copy + sectorInFat) (fatSector fat sectorInFat)) v.disk }

def fatUpdateFsInfo (v : Volume) : Volume :=
  if v.fsInfoSector = 0 then v
  else
    let sector := v.disk v.fsInfoSector
    if field sector 0 4 ≠ 0x41615252 ∨ field sector 484 4 ≠ 0x61417272 ∨
        field sector 508 4 ≠ 0xAA550000 then
      { v with fsInfoSector := 0, fsInfo_reserved := v.reservedSectors_pos }
    else
      { v with
        disk := Function.update v.disk v.fsInfoSector
          (splice (splice sector 488 (le 4 v.freeClusters)) 492 (le 4 v.nextFreeHint)) }

/-- The scan of `FatAllocateCluster` for a free cluster. -/
def findFree (v : Volume) : Nat → Nat → Option Nat
  | 0, _ => none
  | rounds + 1, candidate =>
    let candidate := if candidate < 2 ∨ candidate ≥ v.clusterCount + 2 then 2 else candidate
    if v.entry candidate = 0 then some candidate else findFree v rounds (candidate + 1)

/-- None for `STATUS_DISK_FULL`. -/
def fatAllocateCluster (v : Volume) (previousOrZero : Nat) : Option (Nat × Volume) :=
  (findFree v v.clusterCount v.nextFreeHint).map fun candidate =>
    let v := fatSetFatEntry v candidate fatEntryMask
    let v := if previousOrZero ≠ 0 then fatSetFatEntry v previousOrZero candidate else v
    (candidate, fatUpdateFsInfo { v with nextFreeHint := candidate + 1 })

/-- The loop of `FatFreeChain`. A cluster that was freed has no next one, so a walk that comes back to
one ends there. -/
def freeChainLoop : Nat → Volume → Nat → Volume
  | 0, v, _ => v
  | rounds + 1, v, cluster =>
    if v.IsDataCluster cluster then
      freeChainLoop rounds (fatSetFatEntry v cluster 0) (fatGetNextCluster v cluster)
    else v

def fatFreeChain (v : Volume) (firstCluster : Nat) : Volume :=
  if v.IsDataCluster firstCluster then
    fatUpdateFsInfo (freeChainLoop (v.clusterCount + 2) v firstCluster)
  else v

/-- The loop of `FatWalkChain`, with its guard against a cyclic chain. -/
def walkChainLoop (v : Volume) : Nat → Nat → Nat → Nat
  | 0, cluster, _ => cluster
  | index + 1, cluster, steps =>
    if cluster = 0 then 0
    else if steps > v.clusterCount then 0
    else walkChainLoop v index (fatGetNextCluster v cluster) (steps + 1)

def fatWalkChain (v : Volume) (firstCluster index : Nat) : Nat := walkChainLoop v index firstCluster 0

/-- The loop of `FatChainLength`. -/
def chainLengthLoop (v : Volume) : Nat → Nat → Nat → Nat
  | 0, count, _ => count
  | rounds + 1, count, cluster =>
    if cluster = 0 then count
    else if count + 1 > v.clusterCount then count + 1
    else chainLengthLoop v rounds (count + 1) (fatGetNextCluster v cluster)

def fatChainLength (v : Volume) (firstCluster : Nat) : Nat :=
  chainLengthLoop v (v.clusterCount + 1) 0 firstCluster

end Proskrnl.Fat
