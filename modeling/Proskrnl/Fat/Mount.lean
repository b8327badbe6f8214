import Proskrnl.Fat.Chain

/-!
# Mounting a volume

`FatMountBootVolume` on the sectors of a partition, and what the rest of the file system takes from
the geometry that `FatValidateBpb` let through: that an entry of the FAT is where a 32-bit offset says,
that the assertion of `FatQueryVolumeInfo` holds, that an entry can hold every cluster number, and that
the clusters lie on the volume.
-/

namespace Proskrnl.Fat
open Bytes

/-- `FatMountBootVolume`, on the sectors of the partition; none for `STATUS_UNRECOGNIZED_VOLUME`. -/
def fatMountBootVolume (disk : Nat → List UInt8) : Option Volume :=
  let boot := disk 0
  if (boot.getD 510 0, boot.getD 511 0) ≠ (0x55, 0xAA) then none
  else
    (fatValidateBpb boot).map fun geometry =>
      let fsInfoSector := field boot 48 2
      let fat := fun c => field (disk (geometry.reservedSectors + c * 4 / fatSectorSize))
        (c * 4 % fatSectorSize) 4
      let freeClusters := ((List.range' 2 geometry.clusterCount).filter fun c => fat c % 2 ^ 28 = 0).length
      if h : fsInfoSector = 0 ∨ fsInfoSector = 0xFFFF ∨ fsInfoSector ≥ geometry.reservedSectors then
        { toGeometry := geometry, nextFreeHint := 2, freeClusters, fsInfoSector := 0, fat, disk,
          fsInfo_reserved := geometry.reservedSectors_pos }
      else
        { toGeometry := geometry, nextFreeHint := 2, freeClusters, fsInfoSector, fat, disk,
          fsInfo_reserved := by omega }

structure MountSound (v : Volume) : Prop where
  /-- `FatSetFatEntry` computes the offset of an entry in 32 bits. -/
  entry_inside : ∀ c, v.IsDataCluster c →
    c * 4 % 2 ^ 32 = c * 4 ∧ c * 4 % 2 ^ 32 + 4 ≤ v.fatSizeSectors * fatSectorSize
  /-- The assertion of `FatQueryVolumeInfo`, in 32 bits. -/
  asserted : (v.clusterCount + 2) % 2 ^ 32 ≤ v.fatSizeSectors * fatSectorSize % 2 ^ 32 / 4
  /-- A cluster number fits into an entry, apart from the marks for a bad cluster and for the end. -/
  representable : ∀ c, v.IsDataCluster c → c % 2 ^ 28 = c ∧ c ≠ 0x0FFFFFF7 ∧ c < 0x0FFFFFF8
  on_volume : ∀ c, v.IsDataCluster c → ∀ i < v.sectorsPerCluster,
    v.firstDataSector ≤ fatClusterToSector v c + i ∧ fatClusterToSector v c + i < v.totalSectors

section
variable {v : Volume} {c : Nat}

theorem clusterCount_lt (v : Volume) : v.clusterCount + 2 < 2 ^ 32 := by
  have htotal := v.totalSectors_lt
  have hdata := v.data_le_total
  have hfat := v.fat_le_data
  have hreserved := v.reservedSectors_pos
  have hentries := v.fat_entries
  have hclusters : v.clusterCount ≤ v.clusterCount * v.sectorsPerCluster :=
    Nat.le_mul_of_pos_right _ v.sectorsPerCluster_pos
  have hcopies : v.fatSizeSectors ≤ v.fatCount * v.fatSizeSectors :=
    Nat.le_mul_of_pos_left _ v.fatCount_pos
  omega

theorem clusterSector_lt (hc : v.IsDataCluster c) {i : Nat} (hi : i < v.sectorsPerCluster) :
    fatClusterToSector v c + i < v.totalSectors := by
  have htotal := v.data_le_total
  have hle : (c - 2 + 1) * v.sectorsPerCluster ≤ v.clusterCount * v.sectorsPerCluster :=
    Nat.mul_le_mul_right _ (by have := hc.1; have := hc.2; omega)
  rw [Nat.add_mul] at hle
  rw [fatClusterToSector]
  omega

theorem asserted_iff (v : Volume) :
    (v.clusterCount + 2) % 2 ^ 32 ≤ v.fatSizeSectors * fatSectorSize % 2 ^ 32 / 4 ↔
      v.clusterCount + 2 ≤ v.fatSizeSectors % 2 ^ 23 * 128 := by
  have hlt := clusterCount_lt v
  rw [Nat.mod_eq_of_lt hlt, fatSectorSize]
  omega

theorem MountSound.of_limit (hlimit : v.WithinLimit)
    (htable : v.clusterCount + 2 ≤ v.fatSizeSectors % 2 ^ 23 * 128) : MountSound v := by
  rw [Volume.WithinLimit] at hlimit
  refine ⟨fun c hc => ?_, (asserted_iff v).mpr htable, fun c hc => ?_,
    fun c hc i hi => ⟨?_, clusterSector_lt hc hi⟩⟩
  · have hentries := v.fat_entries
    have hlast := hc.2
    rw [fatSectorSize]
    omega
  · have hlast := hc.2
    omega
  · rw [fatClusterToSector]
    omega

theorem MountSound.withinLimit (h : MountSound v) : v.WithinLimit := by
  have hroot := v.root_data
  have hlast : v.IsDataCluster (v.clusterCount + 1) := ⟨by omega, by omega⟩
  obtain ⟨_, hbad, hend⟩ := h.representable _ hlast
  rw [Volume.WithinLimit]
  omega

theorem fatValidateBpb_of_mount {disk : Nat → List UInt8} (h : fatMountBootVolume disk = some v) :
    v.toGeometry ∈ fatValidateBpb (disk 0) := by
  rw [fatMountBootVolume] at h
  dsimp only at h
  split at h
  · cases h
  · obtain ⟨geometry, hgeometry, hv⟩ := Option.map_eq_some_iff.mp h
    split at hv
    all_goals
      cases hv
      exact hgeometry

/-- A volume with the geometry of a boot sector that is let through is what its users take it for exactly
when its cluster numbers keep to the limit of the FAT specification and the size of its FAT, but for whole
multiples of 4 GiB, still holds them. -/
theorem fatValidateBpb_sound_iff (boot : List UInt8) :
    ∀ v : Volume, v.toGeometry ∈ fatValidateBpb boot →
      (MountSound v ↔ v.WithinLimit ∧ v.clusterCount + 2 ≤ v.fatSizeSectors % 2 ^ 23 * 128) := by
  intro v _
  constructor
  · intro h
    exact ⟨h.withinLimit, (asserted_iff v).mp h.asserted⟩
  · rintro ⟨hlimit, htable⟩
    exact .of_limit hlimit htable

end

/-- A boot sector with one FAT, clusters of one sector and the root directory at cluster 2. -/
def bootSector (totalSectors fatSize : Nat) : List UInt8 :=
  List.replicate 11 0 ++ le 2 512 ++ [1] ++ le 2 32 ++ [1] ++ List.replicate 15 0 ++ le 4 totalSectors ++
    le 4 fatSize ++ List.replicate 4 0 ++ le 4 2 ++ List.replicate 462 0 ++ [0x55, 0xAA]

/-- The sectors of a partition that holds nothing else. -/
def freshDisk (boot : List UInt8) : Nat → List UInt8 :=
  fun s => if s = 0 then boot else List.replicate fatSectorSize 0

/-- A volume of 70000 clusters. -/
theorem fatValidateBpb_sound_small : ∃ v, fatMountBootVolume (freshDisk (bootSector 71056 1024)) = some v ∧
    v.clusterCount = 70000 ∧
    (MountSound v ↔ v.WithinLimit ∧ v.clusterCount + 2 ≤ v.fatSizeSectors % 2 ^ 23 * 128) := by
  have hcount : (fatMountBootVolume (freshDisk (bootSector 71056 1024))).map (·.clusterCount) =
      some 70000 := by
    decide +kernel
  obtain ⟨v, hmount, hclusters⟩ := Option.map_eq_some_iff.mp hcount
  exact ⟨v, hmount, hclusters, fatValidateBpb_sound_iff _ v (fatValidateBpb_of_mount hmount)⟩

/-- A volume of 128 GiB is let through with clusters whose numbers are the marks of the FAT. -/
theorem fatValidateBpb_unsound : ∃ v,
    fatMountBootVolume (freshDisk (bootSector 270532900 2097156)) = some v ∧
    v.IsDataCluster 0x0FFFFFF8 ∧ ¬ MountSound v := by
  have hcount : (fatMountBootVolume (freshDisk (bootSector 270532900 2097156))).map (·.clusterCount) =
      some 0x10000100 := by
    decide +kernel
  obtain ⟨v, hmount, hclusters⟩ := Option.map_eq_some_iff.mp hcount
  refine ⟨v, hmount, ⟨by decide, by omega⟩, fun h => ?_⟩
  have hlimit := h.withinLimit
  rw [Volume.WithinLimit] at hlimit
  omega

end Proskrnl.Fat
