import Proskrnl.Fat.FileData
import Proskrnl.Fat.Mount
import Proskrnl.Fat.RoundTrip

/-!
# A file is a byte array

`FileOn` relates a file to an abstract array of bytes: what its chain holds, and what its cache holds
once it is loaded. Every operation on the data that succeeds keeps the relation to the array it is
meant to leave.
-/

namespace Proskrnl.Fat
open Bytes Mm.Cache Splice List

/-- An array with another size: its tail dropped, or zero bytes behind it. -/
def resizeData (data : List UInt8) (size : Nat) : List UInt8 :=
  data.take size ++ List.replicate (size - data.length) 0

theorem length_resizeData (data : List UInt8) (size : Nat) : (resizeData data size).length = size := by
  rw [resizeData, length_append, length_take, length_replicate]
  omega

theorem getD_resizeData {data : List UInt8} {size p : Nat} (hp : p < size) :
    (resizeData data size).getD p 0 = if p < data.length then data.getD p 0 else 0 := by
  rw [resizeData, getD_eq_getElem?_getD, getElem?_append, length_take]
  split
  case isTrue hlt =>
    rw [getElem?_take, if_pos hp, if_pos (by omega), getD_eq_getElem?_getD]
  case isFalse hge =>
    rw [if_neg (by omega), getElem?_replicate]
    split <;> rfl

/-- A file of a volume whose bytes are `data`. The directory at `dir` holds its entry. -/
structure FileOn (v : Volume) (dir : Nat) (ds : List Nat) (fcb : Fcb) (cs : List Nat)
    (data : List UInt8) : Prop where
  sized : v.Sized
  directory : v.IsChain dir ds
  slot : fcb.dirEntryIndex < ds.length * fatSlotsPerCluster v
  live : fcb.entryDeleted = false
  file : fcb.isDirectory = false
  chain : v.IsChain fcb.firstCluster cs
  apart : ∀ c ∈ ds, c ∉ cs
  clusters : cs.length = clustersOf v fcb.fileSize
  length : data.length = fcb.fileSize
  stored : ∀ p < fcb.fileSize, chainByte v cs p = data.getD p 0
  cached : ∃ size, fcb.cache.Covers size ∧ (fcb.cacheLoaded = true → size = fcb.fileSize ∧
    ∀ p < fcb.fileSize, fcb.cache.bytes p = data.getD p 0)

section
variable {v v' : Volume} {dir : Nat} {fcb fcb' : Fcb} {ds cs : List Nat} {data : List UInt8}

theorem le_clustersOf (v : Volume) (size : Nat) : size ≤ clustersOf v size * fatClusterBytes v := by
  have hpos := fatClusterBytes_pos v
  have hdiv := Nat.div_add_mod (size + fatClusterBytes v - 1) (fatClusterBytes v)
  have hlt := Nat.mod_lt (size + fatClusterBytes v - 1) hpos
  rw [clustersOf, Nat.mul_comm]
  omega

theorem clustersOf_congr (hgeometry : v'.toGeometry = v.toGeometry) (size : Nat) :
    clustersOf v' size = clustersOf v size := by
  rw [clustersOf, clustersOf, fatClusterBytes_congr hgeometry]

theorem FileOn.size_le (h : FileOn v dir ds fcb cs data) : fcb.fileSize ≤ cs.length * fatClusterBytes v := by
  rw [h.clusters]
  exact le_clustersOf v _

theorem FileOn.ensureCache {fill : Fill} (h : FileOn v dir ds fcb cs data)
    (hensure : fatEnsureCache fill v fcb = (.ok (), fcb')) :
    FileOn v dir ds fcb' cs data ∧ fcb'.cacheLoaded = true ∧ fcb'.fileSize = fcb.fileSize := by
  rw [fatEnsureCache, if_neg (show ¬ fcb.entryDeleted = true by rw [h.live]; nofun)] at hensure
  split at hensure
  case isTrue hloaded =>
    cases hensure
    exact ⟨h, hloaded, rfl⟩
  case isFalse =>
    obtain ⟨size, hcovers, _⟩ := h.cached
    cases hresize : miResizePageCache fill.memory fcb.cache fcb.fileSize with
    | mk resized cache =>
      rw [hresize] at hensure
      cases resized with
      | error status => cases hensure
      | ok _ =>
        simp only at hensure
        obtain ⟨hcovers', _⟩ := hcovers.resize hresize
        cases hloop : fillLoop v fill.cancelled fcb.fileSize (fcb.fileSize / fatSectorSize + 1) 0
            fcb.firstCluster 0 cache.bytes with
        | mk filled bytes =>
          rw [hloop] at hensure
          cases filled with
          | error status => cases hensure
          | ok _ =>
            cases hensure
            have hbytes := fillLoop_ok h.chain (Nat.zero_mod 512)
              (show fcb.fileSize ≤ 0 + (fcb.fileSize / fatSectorSize + 1) * 512 by
                rw [fatSectorSize]; omega) hloop
            refine ⟨{ h with cached := ⟨fcb.fileSize, ⟨hcovers'.fileSize, hcovers'.pages, ?_⟩,
              fun _ => ⟨rfl, fun p hp => ?_⟩⟩ }, rfl, rfl⟩
            · intro p hp hp'
              have hlast : sectorEnd fcb.fileSize ≤ pagesOf fcb.fileSize * pageSize := by
                rw [sectorEnd, fatSectorSize, pagesOf, pageSize]
                omega
              exact (hbytes p).trans ((if_neg (by omega)).trans (hcovers'.clear p hp hp'))
            · change p < fcb.fileSize at hp
              have hle := h.size_le
              have hlast := le_sectorEnd fcb.fileSize
              refine (hbytes p).trans ((if_pos (by omega)).trans ?_)
              rw [Nat.sub_zero]
              exact h.stored p hp

theorem length_withMetadata {entry : Slot} (h : entry.length = 32) :
    (withMetadata fcb entry).length = 32 := by
  simp only [withMetadata, length_append, length_take, length_le, length_cons,
    length_nil, h]
  rfl

theorem Volume.IsChain.flushFcbMetadata (hdirectory : v.IsChain dir ds) (hsized : v.Sized)
    (hslot : fcb.dirEntryIndex < ds.length * fatSlotsPerCluster v) :
    ∃ v', fatFlushFcbMetadata v dir fcb = (.ok (), v') ∧ Wrote v ds v' ∧ v'.Sized := by
  rw [fatFlushFcbMetadata]
  split
  · exact ⟨v, rfl, .refl v ds, hsized⟩
  · split
    · exact ⟨v, rfl, .refl v ds, hsized⟩
    · have hslots := hdirectory.slotsOf
      have hlt : fcb.dirEntryIndex < (Fat.slotsOf v dir).length := by
        rwa [hslots, length_flatMap_clusterSlots]
      have hread : fatReadDirSlot v dir fcb.dirEntryIndex = some (Fat.slotsOf v dir)[fcb.dirEntryIndex] := by
        rw [hdirectory.readDirSlot, ← hslots, getElem?_eq_getElem hlt]
      have hentry : (withMetadata fcb (Fat.slotsOf v dir)[fcb.dirEntryIndex]).length = 32 := by
        exact length_withMetadata (hdirectory.length_slot hsized _ (getElem_mem hlt))
      obtain ⟨c, _, hwrite⟩ := hdirectory.writeDirSlot hlt
        (withMetadata fcb (Fat.slotsOf v dir)[fcb.dirEntryIndex])
      obtain ⟨hwrote, hsized', _⟩ := hdirectory.slotsOf_write hsized hentry hlt hwrite
      rw [hread]
      simp only [hwrite]
      exact ⟨_, rfl, hwrote, hsized'⟩

theorem FileOn.wrote (h : FileOn v dir ds fcb cs data) (hwrote : Wrote v ds v') (hsized : v'.Sized) :
    FileOn v' dir ds fcb cs data := by
  have hle := h.size_le
  refine { h with
    sized := hsized
    directory := hwrote.isChain h.directory
    chain := hwrote.isChain h.chain
    slot := ?_
    clusters := ?_
    stored := fun p hp => ?_ }
  · rw [fatSlotsPerCluster, hwrote.geometry]
    exact h.slot
  · rw [clustersOf_congr hwrote.geometry]
    exact h.clusters
  · rw [hwrote.chainByte h.directory.data h.chain h.apart (by omega)]
    exact h.stored p hp

/-! ## A new size -/

variable {newSize : Nat}

theorem bytes_scrubbed {memory : Memory} {cache cache' : PageCache} {p : Nat}
    (hcovers : cache.Covers data.length)
    (hbytes : ∀ p < data.length, cache.bytes p = data.getD p 0)
    (hresize : miResizePageCache memory cache newSize = (.ok (), cache')) (hp : p < newSize) :
    (if newSize > data.length ∧ data.length ≠ 0 then
      zeroRange cache'.bytes data.length (min (pagesOf data.length * pageSize) newSize)
      else cache'.bytes) p = (resizeData data newSize).getD p 0 := by
  obtain ⟨_, hkept, hzero⟩ := hcovers.resize hresize
  rw [getD_resizeData hp]
  by_cases hold : p < data.length
  · rw [if_pos hold, ← hbytes p hold, ← hkept p (by omega)]
    split
    · rw [zeroRange, if_neg (by omega)]
    · rfl
  · rw [if_neg hold]
    split
    case isTrue hgrow =>
      rw [zeroRange]
      split
      · rfl
      case isFalse hout => exact hzero p (by omega) hp
    case isFalse hnot =>
      -- nothing was there before
      have hempty : data.length = 0 := by omega
      refine hzero p ?_ hp
      rw [hempty]
      exact Nat.zero_le p

def Fcb.withBytes (fcb : Fcb) (bytes : Nat → UInt8) : Fcb :=
  { fcb with cache := { fcb.cache with bytes } }

theorem clustersOf_zero (v : Volume) : clustersOf v 0 = 0 := by
  have hpos := fatClusterBytes_pos v
  rw [clustersOf, Nat.div_eq_zero_iff]
  omega

/-- The scrub clears the cache behind the old end. A byte of the chain that is not the one of the cache
behind it was left alone, and lies before the old end or behind the clusters of the old size. -/
theorem Volume.IsChain.scrubExtension {newSize : Nat} (h : v.IsChain fcb.firstCluster cs) (oldSize : Nat)
    (hsize : fcb.fileSize = newSize) (hle : newSize ≤ cs.length * fatClusterBytes v) :
    (Fat.scrubExtension v fcb oldSize newSize).2 = fcb.withBytes
      (if newSize > oldSize ∧ oldSize ≠ 0 then
        zeroRange fcb.cache.bytes oldSize (min (pagesOf oldSize * pageSize) newSize)
      else fcb.cache.bytes) ∧
    Wrote v cs (Fat.scrubExtension v fcb oldSize newSize).1 ∧
    (v.Sized → (Fat.scrubExtension v fcb oldSize newSize).1.Sized) ∧
    ∀ p < newSize,
      chainByte (Fat.scrubExtension v fcb oldSize newSize).1 cs p =
        (Fat.scrubExtension v fcb oldSize newSize).2.cache.bytes p ∨
      chainByte (Fat.scrubExtension v fcb oldSize newSize).1 cs p = chainByte v cs p ∧
        (p < oldSize ∨ clustersOf v oldSize * fatClusterBytes v ≤ p) := by
  rw [Fat.scrubExtension]
  by_cases hgrow : newSize > oldSize ∧ oldSize ≠ 0
  · rw [if_pos hgrow]
    simp only [if_pos hgrow]
    split
    case isTrue hdisk =>
      have hchain : v.IsChain (fcb.withBytes (zeroRange fcb.cache.bytes oldSize
          (min (pagesOf oldSize * pageSize) newSize))).firstCluster cs := h
      obtain ⟨hwrote, hsized, hbytes⟩ := hchain.writebackRange oldSize
        (min (clustersOf v oldSize * fatClusterBytes v) newSize - oldSize)
      refine ⟨rfl, hwrote, hsized, fun p hp => ?_⟩
      by_cases hin : oldSize / 512 * 512 ≤ p / 512 * 512 ∧ p / 512 * 512 <
          min (oldSize + (min (clustersOf v oldSize * fatClusterBytes v) newSize - oldSize)) fcb.fileSize
      · exact .inl ((hbytes p (by omega)).trans (if_pos ⟨⟨by omega, show _ < fcb.fileSize by omega⟩, hin⟩))
      · exact .inr ⟨(hbytes p (by omega)).trans (if_neg fun hboth => hin hboth.2), by omega⟩
    case isFalse hdisk =>
      refine ⟨rfl, .refl v cs, id, fun p hp => .inr ⟨rfl, ?_⟩⟩
      have hcovered := le_clustersOf v oldSize
      omega
  · rw [if_neg hgrow]
    refine ⟨?_, .refl v cs, id, fun p hp => .inr ⟨rfl, ?_⟩⟩
    · rw [if_neg hgrow]
      rfl
    · by_cases hzero : oldSize = 0
      · rw [hzero, clustersOf_zero, Nat.zero_mul]
        exact .inr (Nat.zero_le p)
      · exact .inl (by omega)

theorem FileOn.resized {first' : Nat} {cs' : List Nat} {memory : Memory} {cache : PageCache}
    (h : FileOn v dir ds fcb cs data) (date time : Nat) (hloaded : fcb.cacheLoaded = true)
    (hlength : cs'.length = clustersOf v newSize) (hchain : v'.IsChain first' cs')
    (hresized : Resized v cs cs' v')
    (hcache : miResizePageCache memory fcb.cache newSize = (.ok (), cache))
    (hfcb' : fcb' = { fcb with
      firstCluster := first', fileSize := newSize, writeDate := date, writeTime := time, cache }) :
    FileOn (scrubExtension v' fcb' fcb.fileSize newSize).1 dir ds
      (scrubExtension v' fcb' fcb.fileSize newSize).2 cs' (resizeData data newSize) ∧
    (scrubExtension v' fcb' fcb.fileSize newSize).2.cacheLoaded = true ∧
    (scrubExtension v' fcb' fcb.fileSize newSize).1.toGeometry = v.toGeometry := by
  obtain ⟨size, hcovers, hcached⟩ := h.cached
  obtain ⟨rfl, hbytes⟩ := hcached hloaded
  rw [← h.length] at hcovers hbytes ⊢
  have hscrubbed : ∀ p < newSize, _ := fun p => bytes_scrubbed hcovers hbytes hcache
  obtain ⟨hcovers', _, _⟩ := hcovers.resize hcache
  obtain ⟨hdirectory, hapart⟩ := hresized.keep h.directory h.apart
  have hcb := fatClusterBytes_congr hresized.geometry
  have hle : newSize ≤ cs'.length * fatClusterBytes v' := by
    rw [hlength, hcb]
    exact le_clustersOf v newSize
  have hchain' : v'.IsChain fcb'.firstCluster cs' := by
    rw [hfcb']
    exact hchain
  have hsize' : fcb'.fileSize = newSize := by rw [hfcb']
  obtain ⟨hfcb2, hwrote, hsized, hstored⟩ := hchain'.scrubExtension data.length hsize' hle
  rw [hfcb2] at hstored ⊢
  have hcache' : fcb'.cache = cache := by rw [hfcb']
  have hentry : fcb'.dirEntryIndex = fcb.dirEntryIndex := by rw [hfcb']
  have hlive : fcb'.entryDeleted = fcb.entryDeleted := by rw [hfcb']
  have hfile : fcb'.isDirectory = fcb.isDirectory := by rw [hfcb']
  have hloaded' : fcb'.cacheLoaded = fcb.cacheLoaded := by rw [hfcb']
  refine ⟨⟨hsized (hresized.sized h.sized), hwrote.isChain hdirectory, ?_, hlive.trans h.live,
    hfile.trans h.file, hwrote.isChain hchain', hapart, ?_, ?_, fun p hp => ?_, ?_⟩,
    hloaded'.trans hloaded, hwrote.geometry.trans hresized.geometry⟩
  · change fcb'.dirEntryIndex < _
    rw [hentry, fatSlotsPerCluster, hwrote.geometry, hresized.geometry]
    exact h.slot
  · rw [hlength, clustersOf_congr (hwrote.geometry.trans hresized.geometry)]
    exact congrArg _ hsize'.symm
  · exact (length_resizeData ..).trans hsize'.symm
  · change p < fcb'.fileSize at hp
    rw [hsize'] at hp
    obtain hcacheByte | ⟨hkept, hplace⟩ := hstored p hp
    · rw [hcacheByte]
      change (if _ then zeroRange fcb'.cache.bytes _ _ else fcb'.cache.bytes) p = _
      rw [hcache']
      exact hscrubbed p hp
    · rw [hkept, hresized.chainByte h.chain hchain' (by rw [← hcb]; omega), getD_resizeData hp, h.clusters,
        ← h.length]
      rw [clustersOf_congr hresized.geometry, hcb] at hplace
      have hcover := le_clustersOf v data.length
      by_cases hold : p < data.length
      · rw [if_pos (by omega), if_pos hold]
        exact h.stored p (by rw [← h.length]; exact hold)
      · rw [if_neg (by omega), if_neg hold]
  · refine ⟨newSize, ⟨?_, ?_, fun p hp hp' => ?_⟩, fun _ => ⟨hsize'.symm, fun p hp => ?_⟩⟩
    · change fcb'.cache.fileSize = newSize
      rw [hcache']
      exact hcovers'.fileSize
    · change _ ≤ fcb'.cache.pageCount
      rw [hcache']
      exact hcovers'.pages
    · change (if _ then zeroRange fcb'.cache.bytes _ _ else fcb'.cache.bytes) p = _
      change _ < fcb'.cache.pageCount * _ at hp'
      rw [hcache'] at hp' ⊢
      have hclear := hcovers'.clear p hp hp'
      split
      · rw [zeroRange, hclear, ite_self]
      · exact hclear
    · change (if _ then zeroRange fcb'.cache.bytes _ _ else fcb'.cache.bytes) p = _
      change p < fcb'.fileSize at hp
      rw [hcache']
      exact hscrubbed p (by omega)

theorem FileOn.setFileSize {env : Resize} (hlimit : v.WithinLimit) (h : FileOn v dir ds fcb cs data)
    (hset : fatSetFileSize env v dir fcb newSize = (.ok (), v', fcb')) :
    ∃ cs', FileOn v' dir ds fcb' cs' (resizeData data newSize) ∧ fcb'.cacheLoaded = true ∧
      v'.toGeometry = v.toGeometry := by
  rw [fatSetFileSize] at hset
  split at hset
  · cases hset
  · cases hensure : fatEnsureCache env.fill v fcb with
    | mk ensured fcb1 =>
      rw [hensure] at hset
      cases ensured with
      | error status => cases hset
      | ok _ =>
        obtain ⟨h1, hloaded, _⟩ := h.ensureCache hensure
        simp only at hset
        cases hchain : resizeChain env.cancelled v fcb1.firstCluster newSize with
        | mk resized v1 =>
          rw [hchain] at hset
          obtain ⟨first', cs', rfl, hlength, hchain', hresized⟩ | ⟨status, rfl, _⟩ :=
            resizeChain_spec hlimit h1.chain hchain
          · simp only at hset
            cases hcache : miResizePageCache env.memory fcb1.cache newSize with
            | mk resized cache =>
              rw [hcache] at hset
              cases resized with
              | error status => cases hset
              | ok _ =>
                obtain ⟨hfile, hloaded', hgeometry⟩ := h1.resized env.date env.time hloaded hlength hchain'
                  hresized hcache rfl
                obtain ⟨v3, hflush, hwrote, hsized⟩ := hfile.directory.flushFcbMetadata hfile.sized hfile.slot
                simp only [hflush] at hset
                cases hset
                exact ⟨cs', hfile.wrote hwrote hsized, hloaded', hwrote.geometry.trans hgeometry⟩
          · cases hset

/-! ## A write -/

theorem getD_splice {offset p : Nat} {buffer : List UInt8} (hin : offset + buffer.length ≤ data.length) :
    (splice data offset buffer).getD p 0 =
      if offset ≤ p ∧ p < offset + buffer.length then buffer.getD (p - offset) 0 else data.getD p 0 := by
  rw [getD_eq_getElem?_getD, getElem?_splice hin]
  split <;> rw [getD_eq_getElem?_getD]

theorem FileOn.write {date time offset : Nat} {buffer : List UInt8} (h : FileOn v dir ds fcb cs data)
    (hloaded : fcb.cacheLoaded = true) (hin : offset + buffer.length ≤ fcb.fileSize)
    (hwrite : fatVfsWritebackRange date time v dir
      { fcb with cache := miCacheWrite fcb.cache offset buffer } offset buffer.length =
        (.ok (), v', fcb')) :
    FileOn v' dir ds fcb' cs (splice data offset buffer) ∧ fcb'.cacheLoaded = true ∧
      v'.toGeometry = v.toGeometry := by
  rw [fatVfsWritebackRange, if_neg (show ¬ fcb.entryDeleted = true by rw [h.live]; nofun)] at hwrite
  simp only at hwrite
  generalize hfcb1 : ({ fcb with
    cache := miCacheWrite fcb.cache offset buffer, writeDate := date, writeTime := time } : Fcb) =
    fcb1 at hwrite
  obtain ⟨size, hcovers, hcached⟩ := h.cached
  obtain ⟨rfl, hbytes⟩ := hcached hloaded
  have hfirst : fcb1.firstCluster = fcb.firstCluster := by rw [← hfcb1]
  have hsize : fcb1.fileSize = fcb.fileSize := by rw [← hfcb1]
  have hcache : fcb1.cache = miCacheWrite fcb.cache offset buffer := by rw [← hfcb1]
  have hentry : fcb1.dirEntryIndex = fcb.dirEntryIndex := by rw [← hfcb1]
  have hlive : fcb1.entryDeleted = fcb.entryDeleted := by rw [← hfcb1]
  have hfile : fcb1.isDirectory = fcb.isDirectory := by rw [← hfcb1]
  have hloaded' : fcb1.cacheLoaded = fcb.cacheLoaded := by rw [← hfcb1]
  have hchain : v.IsChain fcb1.firstCluster cs := by
    rw [hfirst]
    exact h.chain
  have hle := h.size_le
  have hroom : offset + buffer.length ≤ data.length := by rwa [h.length]
  have hnew : ∀ p < fcb.fileSize, fcb1.cache.bytes p = (splice data offset buffer).getD p 0 := by
    intro p hp
    rw [hcache, getD_splice hroom, miCacheWrite]
    simp only
    split
    · rfl
    · exact hbytes p hp
  obtain ⟨hwrote, hsized, hstored⟩ := hchain.writebackRange offset buffer.length
  have hwritten : FileOn (fatWritebackRange v fcb1 offset buffer.length) dir ds fcb1 cs
      (splice data offset buffer) := by
    refine ⟨hsized h.sized, hwrote.isChain h.directory, ?_, hlive.trans h.live, hfile.trans h.file,
      hwrote.isChain hchain, h.apart, ?_, ?_, fun p hp => ?_, ⟨fcb.fileSize, ⟨?_, ?_, ?_⟩, ?_⟩⟩
    · rw [hentry, fatSlotsPerCluster, hwrote.geometry]
      exact h.slot
    · rw [hsize, clustersOf_congr hwrote.geometry]
      exact h.clusters
    · rw [length_splice hroom, hsize]
      exact h.length
    · rw [hsize] at hp
      rw [hstored p (by omega), hsize]
      split
      · exact hnew p hp
      case isFalse hout =>
        rw [getD_splice hroom, if_neg (by omega)]
        exact h.stored p hp
    · rw [hcache]
      exact hcovers.fileSize
    · rw [hcache]
      exact hcovers.pages
    · intro p hp hp'
      have hpages := le_pagesOf fcb.fileSize
      rw [hcache] at hp' ⊢
      rw [miCacheWrite]
      simp only
      rw [if_neg (by omega)]
      exact hcovers.clear p hp hp'
    · rw [hsize]
      exact fun _ => ⟨rfl, hnew⟩
  obtain ⟨v3, hflush, hwrote', hsized'⟩ := hwritten.directory.flushFcbMetadata hwritten.sized hwritten.slot
  rw [hflush] at hwrite
  cases hwrite
  exact ⟨hwritten.wrote hwrote' hsized', hloaded'.trans hloaded, hwrote'.geometry.trans hwrote.geometry⟩

end

/-! ## Runs -/

/-- An operation on the data of a file, with what it depends on besides. A write is the store to the
cache and the writeback of its range; a reload drops the cache and fills it again. -/
inductive DataOp where
  | setFileSize (env : Resize) (newSize : Nat)
  | prepareWrite (env : Resize) (offset length : Nat) (writeToEnd : Bool)
  | write (fill : Fill) (date time offset : Nat) (buffer : List UInt8)
  | reload (fill : Fill)

/-- The operation on the file; none unless it succeeds, and for a write that is not inside it. -/
def DataOp.run (dir : Nat) (op : DataOp) (v : Volume) (fcb : Fcb) : Option (Volume × Fcb) :=
  match op with
  | .setFileSize env newSize =>
    match fatSetFileSize env v dir fcb newSize with
    | (.error _, _) => none
    | (.ok (), v, fcb) => some (v, fcb)
  | .prepareWrite env offset length writeToEnd =>
    match fatVfsPrepareWrite env v dir fcb offset length writeToEnd with
    | (.error _, _) => none
    | (.ok _, v, fcb) => some (v, fcb)
  | .write fill date time offset buffer =>
    match fatEnsureCache fill v fcb with
    | (.error _, _) => none
    | (.ok (), fcb) =>
      if offset + buffer.length ≤ fcb.fileSize then
        match fatVfsWritebackRange date time v dir
            { fcb with cache := miCacheWrite fcb.cache offset buffer } offset buffer.length with
        | (.error _, _) => none
        | (.ok (), v, fcb) => some (v, fcb)
      else none
  | .reload fill =>
    match fatEnsureCache fill v { fcb with cache := miInitializePageCache, cacheLoaded := false } with
    | (.error _, _) => none
    | (.ok (), fcb) => some (v, fcb)

def DataOp.apply (op : DataOp) (data : List UInt8) : List UInt8 :=
  match op with
  | .setFileSize _ newSize => resizeData data newSize
  | .prepareWrite _ offset length writeToEnd =>
    let last := ((if writeToEnd then data.length else offset) + length) % 2 ^ 64
    if length ≠ 0 ∧ last > data.length then resizeData data last else data
  | .write _ _ _ offset buffer => splice data offset buffer
  | .reload _ => data

def runData (dir : Nat) : List DataOp → Volume → Fcb → Option (Volume × Fcb)
  | [], v, fcb => some (v, fcb)
  | op :: ops, v, fcb => (op.run dir v fcb).bind fun (v, fcb) => runData dir ops v fcb

/-- A byte of the chain of a file, none behind the end of the chain. -/
def storedByte (v : Volume) (firstCluster p : Nat) : Option UInt8 :=
  let cluster := fatWalkChain v firstCluster (p / fatClusterBytes v)
  if cluster = 0 then none else some (clusterByte v cluster (p % fatClusterBytes v))

/-- The bytes of the file are `data`: in its chain, and through its cache once that is loaded. -/
structure Holds (v : Volume) (fcb : Fcb) (data : List UInt8) : Prop where
  size : fcb.fileSize = data.length
  stored : ∀ p < data.length, storedByte v fcb.firstCluster p = data[p]?
  cached : fcb.cacheLoaded = true → miCacheRead fcb.cache 0 fcb.fileSize = data

section
variable {v v' : Volume} {dir : Nat} {fcb fcb' : Fcb} {ds cs : List Nat} {data : List UInt8}

theorem getElem?_eq_getD {p : Nat} (hp : p < data.length) : data[p]? = some (data.getD p 0) := by
  rw [getD_eq_getElem?_getD, getElem?_eq_getElem hp]
  rfl

theorem FileOn.holds (h : FileOn v dir ds fcb cs data) : Holds v fcb data := by
  refine ⟨h.length.symm, fun p hp => ?_, fun hloaded => ?_⟩
  · have hle := h.size_le
    rw [h.length] at hp
    have hi : p / fatClusterBytes v < cs.length :=
      Nat.div_lt_of_lt_mul (by rw [Nat.mul_comm]; omega)
    have hget : cs.getD (p / fatClusterBytes v) 0 = cs[p / fatClusterBytes v] := by
      rw [getD_eq_getElem?_getD, getElem?_eq_getElem hi]
      rfl
    have hdata := h.chain.data _ (getElem_mem hi)
    have hstored := h.stored p hp
    rw [chainByte, hget] at hstored
    rw [storedByte, h.chain.walk, hget, getElem?_eq_getD (by rwa [h.length])]
    rw [if_neg (by have := hdata.1; omega), hstored]
  · obtain ⟨size, _, hcached⟩ := h.cached
    obtain ⟨_, hbytes⟩ := hcached hloaded
    apply ext_getElem?
    intro p
    rw [miCacheRead, getElem?_map]
    by_cases hp : p < fcb.fileSize
    · rw [getElem?_range hp, getElem?_eq_getD (by rwa [h.length]), Option.map_some, Nat.zero_add,
        hbytes p hp]
    · rw [getElem?_eq_none (by rw [length_range]; omega),
        getElem?_eq_none (by rw [h.length]; omega)]
      rfl

theorem FileOn.step {op : DataOp} (hlimit : v.WithinLimit) (h : FileOn v dir ds fcb cs data)
    (hrun : op.run dir v fcb = some (v', fcb')) :
    ∃ cs', FileOn v' dir ds fcb' cs' (op.apply data) ∧ fcb'.cacheLoaded = true ∧
      v'.toGeometry = v.toGeometry := by
  cases op with
  | setFileSize env newSize =>
    rw [DataOp.run] at hrun
    cases hset : fatSetFileSize env v dir fcb newSize with
    | mk result rest =>
      rw [hset] at hrun
      cases result with
      | error status => cases hrun
      | ok _ =>
        cases hrun
        exact h.setFileSize hlimit hset
  | prepareWrite env offset length writeToEnd =>
    rw [DataOp.run, fatVfsPrepareWrite, if_neg (show ¬ fcb.isDirectory = true by rw [h.file]; nofun),
      if_neg (show ¬ fcb.entryDeleted = true by rw [h.live]; nofun)] at hrun
    cases hensure : fatEnsureCache env.fill v fcb with
    | mk ensured fcb1 =>
      rw [hensure] at hrun
      cases ensured with
      | error status => cases hrun
      | ok _ =>
        obtain ⟨h1, hloaded, hsize⟩ := h.ensureCache hensure
        simp only at hrun
        rw [DataOp.apply, h.length, ← hsize]
        generalize hlast : ((if writeToEnd = true then fcb1.fileSize else offset) + length) % 2 ^ 64 =
          last at hrun
        split
        case isTrue hgrow =>
          rw [if_pos hgrow] at hrun
          cases hset : fatSetFileSize env v dir fcb1 last with
          | mk result rest =>
            rw [hset] at hrun
            cases result with
            | error status => cases hrun
            | ok _ =>
              cases hrun
              exact h1.setFileSize hlimit hset
        case isFalse hkeep =>
          rw [if_neg hkeep] at hrun
          cases hrun
          exact ⟨cs, h1, hloaded, rfl⟩
  | write fill date time offset buffer =>
    rw [DataOp.run] at hrun
    cases hensure : fatEnsureCache fill v fcb with
    | mk ensured fcb1 =>
      rw [hensure] at hrun
      cases ensured with
      | error status => cases hrun
      | ok _ =>
        obtain ⟨h1, hloaded, _⟩ := h.ensureCache hensure
        simp only at hrun
        split at hrun
        case isTrue hin =>
          cases hwrite : fatVfsWritebackRange date time v dir
              { fcb1 with cache := miCacheWrite fcb1.cache offset buffer } offset buffer.length with
          | mk result rest =>
            rw [hwrite] at hrun
            cases result with
            | error status => cases hrun
            | ok _ =>
              cases hrun
              exact ⟨cs, h1.write hloaded hin hwrite⟩
        case isFalse => cases hrun
  | reload fill =>
    rw [DataOp.run] at hrun
    have hdropped : FileOn v dir ds { fcb with cache := miInitializePageCache, cacheLoaded := false } cs
        data :=
      ⟨h.sized, h.directory, h.slot, h.live, h.file, h.chain, h.apart, h.clusters, h.length, h.stored,
        0, PageCache.Covers.initialize, nofun⟩
    cases hensure : fatEnsureCache fill v { fcb with cache := miInitializePageCache, cacheLoaded := false }
      with
    | mk ensured fcb1 =>
      rw [hensure] at hrun
      cases ensured with
      | error status => cases hrun
      | ok _ =>
        cases hrun
        obtain ⟨h1, hloaded, _⟩ := hdropped.ensureCache hensure
        exact ⟨cs, h1, hloaded, rfl⟩

theorem FileOn.run {ops : List DataOp} (hlimit : v.WithinLimit) (h : FileOn v dir ds fcb cs data)
    (hrun : runData dir ops v fcb = some (v', fcb')) :
    (∃ cs', FileOn v' dir ds fcb' cs' (ops.foldl (fun data op => op.apply data) data)) ∧
      (ops ≠ [] → fcb'.cacheLoaded = true) := by
  induction ops generalizing v fcb cs data with
  | nil =>
    cases hrun
    exact ⟨⟨cs, h⟩, fun hne => absurd rfl hne⟩
  | cons op ops ih =>
    rw [runData] at hrun
    obtain ⟨⟨v1, fcb1⟩, hstep, hrun⟩ := Option.bind_eq_some_iff.mp hrun
    obtain ⟨cs1, h1, hloaded, hgeometry⟩ := h.step hlimit hstep
    have hlimit1 : v1.WithinLimit := by
      rw [Volume.WithinLimit, hgeometry]
      exact hlimit
    obtain ⟨hfile, hrest⟩ := ih hlimit1 h1 hrun
    refine ⟨hfile, fun _ => ?_⟩
    cases ops with
    | nil =>
      cases hrun
      exact hloaded
    | cons op ops => exact hrest (cons_ne_nil _ _)

/-- In a run on a volume whose cluster numbers fit into the FAT, the file is the abstract array in every
state that is reached. -/
theorem runData_holds {ops : List DataOp} (hlimit : v.WithinLimit) (h : FileOn v dir ds fcb cs data)
    (hrun : runData dir ops v fcb = some (v', fcb')) :
    Holds v' fcb' (ops.foldl (fun data op => op.apply data) data) ∧
      (ops ≠ [] → fcb'.cacheLoaded = true) := by
  obtain ⟨⟨cs', hfile⟩, hloaded⟩ := h.run hlimit hrun
  exact ⟨hfile.holds, hloaded⟩

end

/-! ## Two files -/

/-- A control block as `FatGetFcb` makes it, for the entry at slot 0 of the directory at cluster 2. -/
def openedFile (firstCluster fileSize : Nat) : Fcb where
  isDirectory := false
  isRoot := false
  parent := none
  parentDirCluster := 2
  dirEntryIndex := 0
  entryDeleted := false
  lfnStartIndex := 0
  firstCluster
  fileSize
  attributes := 0x20
  writeTime := 0
  writeDate := 0
  createTime := 0
  createDate := 0
  createTimeTenth := 0
  accessDate := 0
  longName := [0x61]
  cache := miInitializePageCache
  cacheLoaded := false
  referenceCount := 1
  openObjectCount := 1
  unlinkPending := false
  deletePending := false
  sectionCount := 0

/-- Memory for a hundred pages, and no cancellation. -/
def plenty : Resize where
  fill := ⟨⟨true, 100⟩, fun _ => false⟩
  cancelled := fun _ => false
  memory := ⟨true, 100⟩
  date := 0
  time := 0

theorem fileOn_emptyVolume : FileOn emptyVolume 2 [2] (openedFile 0 0) [] [] := by
  have hdirectory := directoryOn_emptyVolume
  exact ⟨hdirectory.sized, hdirectory.chain, by decide, rfl, rfl, ⟨.nil, nofun, nofun⟩, nofun, rfl, rfl,
    nofun, 0, PageCache.Covers.initialize, nofun⟩

/-- A file that is written, and read again from its chain. -/
theorem runData_holds_written : ∃ v' fcb',
    runData 2 [.prepareWrite plenty 0 3 false, .write plenty.fill 0 0 0 [1, 2, 3], .reload plenty.fill]
      emptyVolume (openedFile 0 0) = some (v', fcb') ∧ Holds v' fcb' [1, 2, 3] := by
  have hok : (runData 2 [.prepareWrite plenty 0 3 false, .write plenty.fill 0 0 0 [1, 2, 3],
      .reload plenty.fill] emptyVolume (openedFile 0 0)).isSome = true := by
    decide +kernel
  obtain ⟨⟨v', fcb'⟩, hrun⟩ := Option.isSome_iff_exists.mp hok
  exact ⟨v', fcb', hrun, (runData_holds directoryOn_emptyVolume.limit fileOn_emptyVolume hrun).1⟩

/-- A volume of 128 GiB whose allocation has come to cluster 0x0FFFFFF8. -/
def hugeVolume : Volume where
  sectorsPerCluster := 1
  reservedSectors := 32
  fatCount := 1
  fatSizeSectors := 2097156
  totalSectors := 270532900
  firstDataSector := 2097188
  clusterCount := 0x10000100
  rootCluster := 2
  sectorsPerCluster_pos := Nat.one_pos
  sectorsPerCluster_le := Nat.le_add_left 1 127
  reservedSectors_pos := by decide
  fatCount_pos := Nat.one_pos
  totalSectors_lt := by decide
  data_le_total := by decide
  fat_le_data := by decide
  fat_entries := by decide
  root_data := by decide
  nextFreeHint := 0x0FFFFFF8
  freeClusters := 0x100000FE
  fsInfoSector := 0
  fat := fun c => if c = 2 ∨ c = 3 then fatEntryMask else 0
  disk := fun _ => List.replicate fatSectorSize 0
  fsInfo_reserved := by decide

theorem getD_replicate_zero (n p : Nat) : (List.replicate n (0 : UInt8)).getD p 0 = 0 := by
  rw [getD_eq_getElem?_getD, getElem?_replicate]
  split <;> rfl

theorem fileOn_hugeVolume : FileOn hugeVolume 2 [2] (openedFile 3 512) [3] (List.replicate 512 0) := by
  refine ⟨fun _ _ => length_replicate, ⟨.cons .nil, by decide, by decide⟩, by decide, rfl, rfl,
    ⟨.cons .nil, by decide, by decide⟩, by decide, rfl, length_replicate, fun p _ => ?_, 0,
    PageCache.Covers.initialize, nofun⟩
  rw [chainByte, clusterByte, getD_replicate_zero]
  exact getD_replicate_zero ..

/-- On it a file of one cluster is grown to two. The second cluster is not in its chain. -/
theorem runData_loses_cluster :
    fatValidateBpb (bootSector 270532900 2097156) = some hugeVolume.toGeometry ∧
    FileOn hugeVolume 2 [2] (openedFile 3 512) [3] (List.replicate 512 0) ∧
    ∃ v' fcb', runData 2 [.setFileSize plenty 1024] hugeVolume (openedFile 3 512) = some (v', fcb') ∧
      ¬ Holds v' fcb' (resizeData (List.replicate 512 0) 1024) := by
  refine ⟨by decide +kernel, fileOn_hugeVolume, ?_⟩
  have hbyte : (runData 2 [.setFileSize plenty 1024] hugeVolume (openedFile 3 512)).map
      (fun state => storedByte state.1 state.2.firstCluster 512) = some none := by
    decide +kernel
  obtain ⟨⟨v', fcb'⟩, hrun, hnone⟩ := Option.map_eq_some_iff.mp hbyte
  refine ⟨v', fcb', hrun, fun hholds => ?_⟩
  have hlength := length_resizeData (List.replicate 512 0) 1024
  have hstored := hholds.stored 512 (by rw [hlength]; decide)
  rw [hnone, getElem?_eq_getElem (by rw [hlength]; decide)] at hstored
  cases hstored

end Proskrnl.Fat
