import Proskrnl.Fat.CacheCover

/-!
# Operations on a file that fail

What `FatEnsureCache`, `FatSetFileSize` and `FatVfsPrepareWrite` leave when they fail. The file is the
array it was, with one exception: a new size is taken before the frames for it, so that a file can be
left larger than its cache.
-/

namespace Proskrnl.Fat
open Bytes Mm.Cache Splice

/-- The place that a call names: an offset, which is a `LONGLONG` that is not negative, or the end of
the file. -/
structure Placement where
  offset : Nat
  writeToEnd : Bool
  offset_lt : offset < 2 ^ 63

def fatVfsGetCache (fill : Fill) (v : Volume) (fcb : Fcb) : Except NtStatus Unit × Fcb :=
  if fcb.isDirectory then (.error statusInvalidDeviceRequest, fcb) else fatEnsureCache fill v fcb

section
variable {v v' : Volume} {fcb fcb' : Fcb} {dir newSize : Nat} {ds cs : List Nat} {data : List UInt8}

theorem fillLoop_outside {cancelled : Nat → Bool} {limit rounds poll cluster position p : Nat}
    {bytes bytes' : Nat → UInt8} {result : Except NtStatus Unit} (haligned : position % 512 = 0)
    (hloop : fillLoop v cancelled limit rounds poll cluster position bytes = (result, bytes'))
    (hp : sectorEnd limit ≤ p) : bytes' p = bytes p := by
  have hend : sectorEnd limit % 512 = 0 := Nat.mul_mod_left ..
  have hmod := fatClusterBytes_mod v
  induction rounds generalizing cluster position poll bytes with
  | zero =>
    cases hloop
    rfl
  | succ rounds ih =>
    rw [fillLoop] at hloop
    split at hloop
    · split at hloop
      · cases hloop
        rfl
      · rw [fillCluster_eq (show position = position + 0 * 512 by omega) haligned (Nat.zero_le _)
          (by omega)] at hloop
        simp only at hloop
        rw [ih (by omega) hloop, if_neg (by omega)]
    · cases hloop
      rfl

theorem sectorEnd_le_pagesOf (size : Nat) : sectorEnd size ≤ pagesOf size * pageSize := by
  rw [sectorEnd, fatSectorSize, pagesOf, pageSize]
  omega

theorem FileOn.ensureCache_error {fill : Fill} {status : NtStatus} (h : FileOn v dir ds fcb cs data)
    (hensure : fatEnsureCache fill v fcb = (.error status, fcb')) :
    FileOn v dir ds fcb' cs data ∧ fcb.cacheLoaded = false ∧ fcb'.cacheLoaded = false ∧
      fcb'.fileSize = fcb.fileSize := by
  rw [fatEnsureCache, if_neg (show ¬ fcb.entryDeleted = true by rw [h.live]; simp)] at hensure
  split at hensure
  case isTrue => cases hensure
  case isFalse hunloaded =>
    have hfalse : fcb.cacheLoaded = false := Bool.eq_false_iff.mpr hunloaded
    obtain ⟨size, hcovers, _⟩ := h.cached
    cases hresize : miResizePageCache fill.memory fcb.cache fcb.fileSize with
    | mk resized cache =>
      rw [hresize] at hensure
      cases resized with
      | error status =>
        cases hensure
        have hcovers' := hcovers.resize_error hresize
        exact ⟨{ h with cached := ⟨size, hcovers', fun hload => absurd hload hunloaded⟩ }, hfalse, hfalse, rfl⟩
      | ok _ =>
        simp only at hensure
        obtain ⟨hcovers', _⟩ := hcovers.resize hresize
        cases hloop : fillLoop v fill.cancelled fcb.fileSize (fcb.fileSize / fatSectorSize + 1) 0
            fcb.firstCluster 0 cache.bytes with
        | mk filled bytes =>
          rw [hloop] at hensure
          cases filled with
          | ok _ => cases hensure
          | error status =>
            cases hensure
            have hclear : ∀ p, pagesOf fcb.fileSize * pageSize ≤ p → p < cache.pageCount * pageSize →
                bytes p = 0 := by
              intro p hp hp'
              have hlast := sectorEnd_le_pagesOf fcb.fileSize
              rw [fillLoop_outside (Nat.zero_mod 512) hloop (by omega)]
              exact hcovers'.clear p hp hp'
            refine ⟨{ h with cached := ⟨fcb.fileSize, ?_, fun hload => absurd hload hunloaded⟩ }, hfalse,
              hfalse, rfl⟩
            exact ⟨hcovers'.fileSize, hcovers'.pages, hclear⟩

theorem fatEnsureCache_loaded (fill : Fill) (v : Volume) (hlive : fcb.entryDeleted = false)
    (hloaded : fcb.cacheLoaded = true) : fatEnsureCache fill v fcb = (.ok (), fcb) := by
  rw [fatEnsureCache, hlive, if_neg (by simp), if_pos hloaded]

theorem miResizePageCache_ok_enough {memory : Memory} {cache cache' : PageCache}
    (h : miResizePageCache memory cache newSize = (.ok (), cache')) :
    pagesOf newSize ≤ cache.pageCount + memory.frames ∧
      (memory.slots = true ∨ pagesOf newSize ≤ cache.capacity) := by
  rw [miResizePageCache] at h
  split at h
  case isTrue => cases h
  case isFalse hslots =>
    split at h
    case isTrue => cases h
    case isFalse hframes =>
      refine ⟨by omega, ?_⟩
      cases hsome : memory.slots with
      | true => exact .inl rfl
      | false => exact .inr (Nat.not_lt.mp fun hlt => hslots ⟨hlt, hsome⟩)

theorem miResizePageCache_error {memory : Memory} {cache cache' : PageCache} {status : NtStatus}
    (hcapacity : cache.pageCount ≤ cache.capacity)
    (h : miResizePageCache memory cache newSize = (.error status, cache')) :
    cache'.pageCount < pagesOf newSize ∧
      ¬ (pagesOf newSize ≤ cache.pageCount + memory.frames ∧
        (memory.slots = true ∨ pagesOf newSize ≤ cache.capacity)) := by
  rw [miResizePageCache] at h
  split at h
  case isTrue hslots =>
    cases h
    refine ⟨by omega, fun henough => ?_⟩
    obtain hsome | hle := henough.2
    · rw [hslots.2] at hsome
      cases hsome
    · omega
  case isFalse =>
    split at h
    case isTrue hframes =>
      cases h
      exact ⟨by simp only; omega, by omega⟩
    case isFalse => cases h

theorem FileOn.unwound (h : FileOn v dir ds fcb cs data)
    (hunwound : Unwound v fcb.firstCluster cs v') : FileOn v' dir ds fcb cs data := by
  have hle := h.size_le
  have hkept : ∀ p < cs.length * fatClusterBytes v, chainByte v' cs p = chainByte v cs p := by
    intro p hp
    have hi : p / fatClusterBytes v < cs.length := Nat.div_lt_of_lt_mul (by rwa [Nat.mul_comm])
    have hc := List.getElem?_eq_getElem hi
    have hmem := List.mem_of_getElem? hc
    refine chainByte_of_disk hunwound.geometry hc hc fun j hj => ?_
    refine hunwound.disk _ (firstDataSector_le ..) fun c hdata hfree i hi' heq => ?_
    -- a sector of the chain is none of a free cluster
    have hsame := (clusterSector_inj hdata (h.chain.data _ hmem) hi' hj heq).1
    exact h.chain.used _ hmem (hsame ▸ hfree)
  refine { h with
    sized := hunwound.sized h.sized
    directory := h.directory.keep hunwound.geometry hunwound.entry h.apart
    chain := hunwound.chain
    slot := ?_
    clusters := ?_
    stored := fun p hp => ?_ }
  · rw [fatSlotsPerCluster, hunwound.geometry]
    exact h.slot
  · rw [clustersOf_congr hunwound.geometry]
    exact h.clusters
  · rw [hkept p (by omega)]
    exact h.stored p hp

/-- The new size is one that FAT can record, and the chain can be resized to it. -/
def ResizeFits (v : Volume) (env : Resize) (fcb : Fcb) (newSize : Nat) : Prop :=
  newSize ≤ 0xFFFFFFFF ∧ (resizeChain env.cancelled v fcb.firstCluster newSize).1.isOk = true

variable {env : Resize}

theorem ResizeHasMemory.loaded_iff (hlive : fcb.entryDeleted = false)
    (hloaded : fcb.cacheLoaded = true) (hcovers : pagesOf fcb.fileSize ≤ fcb.cache.pageCount)
    (hcapacity : fcb.cache.pageCount ≤ fcb.cache.capacity) :
    ResizeHasMemory v env fcb newSize ↔
      (ResizeFits v env fcb newSize →
        pagesOf newSize ≤ fcb.cache.pageCount + env.memory.frames ∧
          (env.memory.slots = true ∨ pagesOf newSize ≤ fcb.cache.capacity)) := by
  rw [ResizeHasMemory, Enough, fatEnsureCache_loaded _ _ hlive hloaded, Nat.max_eq_left hcovers,
    grownCapacity_eq (Nat.le_trans hcovers hcapacity)]
  exact ⟨fun h hfits => h hfits.1 rfl hfits.2, fun h hsmall _ hok => h ⟨hsmall, hok⟩⟩

theorem ResizeHasMemory.filled_iff (hinv : CacheInv fcb)
    (hensure : fatEnsureCache env.fill v fcb = (.ok (), fcb')) (hlive : fcb'.entryDeleted = false) :
    ResizeHasMemory v env fcb newSize ↔ ResizeHasMemory v env fcb' newSize := by
  obtain ⟨hinv', hfilled⟩ := hinv.ensureCache env.fill v
  rw [hensure] at hinv' hfilled
  obtain ⟨hloaded, hsize, hfirst, hcount, hcapacity⟩ := hfilled rfl
  simp only at hinv' hloaded hsize hfirst hcount hcapacity
  have hcovers := hinv'.frames hloaded
  rw [ResizeHasMemory.loaded_iff hlive hloaded hcovers hinv'.capacity, ResizeHasMemory, Enough, hensure,
    ResizeFits, hfirst, hcount, hcapacity]
  exact ⟨fun h hfits => h hfits.1 rfl hfits.2, fun h hsmall _ hok => h ⟨hsmall, hok⟩⟩

/-- What `FatSetFileSize` leaves of a file whose cache is loaded. When it has its memory the file has
the new size or is as it was; otherwise it has the new size and not the frames for it. -/
theorem FileOn.setFileSize_cases {result : Except NtStatus Unit} (hlimit : v.WithinLimit)
    (h : FileOn v dir ds fcb cs data) (hloaded : fcb.cacheLoaded = true)
    (hcapacity : fcb.cache.pageCount ≤ fcb.cache.capacity)
    (hset : fatSetFileSize env v dir fcb newSize = (result, v', fcb')) :
    fcb'.cacheLoaded = true ∧
      ((result = .ok () ∧ ResizeHasMemory v env fcb newSize ∧ ResizeFits v env fcb newSize ∧
          ∃ cs', FileOn v' dir ds fcb' cs' (resizeData data newSize)) ∨
        (∃ status, result = .error status ∧ ResizeHasMemory v env fcb newSize ∧
          ¬ ResizeFits v env fcb newSize ∧ FileOn v' dir ds fcb' cs data) ∨
        (∃ status, result = .error status ∧ ¬ ResizeHasMemory v env fcb newSize ∧
          fcb'.cache.pageCount < pagesOf fcb'.fileSize)) := by
  have hensured := fatEnsureCache_loaded env.fill v h.live hloaded
  obtain ⟨size, hcovers, hcached⟩ := h.cached
  obtain ⟨rfl, hbytes⟩ := hcached hloaded
  rw [ResizeHasMemory.loaded_iff h.live hloaded hcovers.pages hcapacity]
  rw [fatSetFileSize] at hset
  split at hset
  case isTrue hlarge =>
    cases hset
    have hnot : ¬ ResizeFits v env fcb newSize := fun hfits => absurd hfits.1 (by omega)
    exact ⟨hloaded, .inr (.inl ⟨_, rfl, fun hfits => absurd hfits hnot, hnot, h⟩)⟩
  case isFalse hsmall =>
    rw [hensured] at hset
    simp only at hset
    cases hchain : resizeChain env.cancelled v fcb.firstCluster newSize with
    | mk resized v1 =>
      rw [hchain] at hset
      obtain ⟨first', cs', rfl, hlength, hchain', hresized⟩ | ⟨status, rfl, hunwound⟩ :=
        resizeChain_spec hlimit h.chain hchain
      · have hfits : ResizeFits v env fcb newSize := ⟨by omega, by rw [hchain]; rfl⟩
        simp only at hset
        cases hcache : miResizePageCache env.memory fcb.cache newSize with
        | mk resized cache =>
          rw [hcache] at hset
          cases resized with
          | error status =>
            obtain ⟨hfew, hnot⟩ := miResizePageCache_error hcapacity hcache
            cases hset
            exact ⟨hloaded, .inr (.inr ⟨status, rfl, fun hmemory => hnot (hmemory hfits), hfew⟩)⟩
          | ok _ =>
            have henough := miResizePageCache_ok_enough hcache
            obtain ⟨hfile, hloaded', _⟩ := h.resized env.date env.time hloaded hlength hchain' hresized
              hcache rfl
            obtain ⟨v3, hflush, hwrote, hsized⟩ := hfile.directory.flushFcbMetadata hfile.sized hfile.slot
            simp only [hflush] at hset
            cases hset
            exact ⟨hloaded', .inl ⟨rfl, fun _ => henough, hfits, cs', hfile.wrote hwrote hsized⟩⟩
      · have hnot : ¬ ResizeFits v env fcb newSize := by
          intro hfits
          have hok := hfits.2
          rw [hchain] at hok
          cases hok
        cases hset
        exact ⟨hloaded, .inr (.inl ⟨status, rfl, fun hfits => absurd hfits hnot, hnot,
          h.unwound hunwound⟩)⟩

def writePlace (fcb : Fcb) (offset : Nat) (writeToEnd : Bool) : Nat :=
  if writeToEnd then fcb.fileSize else offset

def preparedData (data : List UInt8) (place length : Nat) : List UInt8 :=
  if length ≠ 0 ∧ place + length > data.length then resizeData data (place + length) else data

/-- The memory for the growth that a write needs, when its end is a number of 64 bits. -/
def WriteHasMemory (v : Volume) (env : Resize) (fcb : Fcb) (place length : Nat) : Prop :=
  length ≠ 0 ∧ place + length > fcb.fileSize → ResizeHasMemory v env fcb (place + length)

def WriteFits (v : Volume) (env : Resize) (fcb : Fcb) (place length : Nat) : Prop :=
  length ≠ 0 ∧ place + length > fcb.fileSize → ResizeFits v env fcb (place + length)

theorem FileOn.prepareWrite_cases {offset length : Nat} {writeToEnd : Bool}
    {result : Except NtStatus Nat} (hlimit : v.WithinLimit) (h : FileOn v dir ds fcb cs data)
    (hloaded : fcb.cacheLoaded = true) (hcapacity : fcb.cache.pageCount ≤ fcb.cache.capacity)
    (hrange : writePlace fcb offset writeToEnd + length < 2 ^ 64)
    (hprepare : fatVfsPrepareWrite env v dir fcb offset length writeToEnd = (result, v', fcb')) :
    fcb'.cacheLoaded = true ∧
      ((result = .ok (writePlace fcb offset writeToEnd) ∧
          WriteHasMemory v env fcb (writePlace fcb offset writeToEnd) length ∧
          WriteFits v env fcb (writePlace fcb offset writeToEnd) length ∧
          ∃ cs', FileOn v' dir ds fcb' cs'
            (preparedData data (writePlace fcb offset writeToEnd) length)) ∨
        (∃ status, result = .error status ∧
          WriteHasMemory v env fcb (writePlace fcb offset writeToEnd) length ∧
          ¬ WriteFits v env fcb (writePlace fcb offset writeToEnd) length ∧
          FileOn v' dir ds fcb' cs data) ∨
        (∃ status, result = .error status ∧
          ¬ WriteHasMemory v env fcb (writePlace fcb offset writeToEnd) length ∧
          fcb'.cache.pageCount < pagesOf fcb'.fileSize)) := by
  rw [fatVfsPrepareWrite, h.file, h.live, fatEnsureCache_loaded _ _ h.live hloaded] at hprepare
  simp only [Bool.false_eq_true, if_false] at hprepare
  rw [← writePlace, Nat.mod_eq_of_lt hrange] at hprepare
  rw [WriteHasMemory, WriteFits, preparedData, h.length]
  generalize writePlace fcb offset writeToEnd = place at hprepare ⊢
  split at hprepare
  case isTrue hgrow =>
    rw [if_pos hgrow]
    cases hset : fatSetFileSize env v dir fcb (place + length) with
    | mk set rest =>
      obtain ⟨v1, fcb1⟩ := rest
      rw [hset] at hprepare
      obtain ⟨hloaded', ⟨rfl, hmemory, hfits, hfile⟩ | ⟨status, rfl, hmemory, hnot, hfile⟩ | ⟨status, rfl, hnot, hfew⟩⟩ :=
        h.setFileSize_cases hlimit hloaded hcapacity hset
      · cases hprepare
        exact ⟨hloaded', .inl ⟨rfl, fun _ => hmemory, fun _ => hfits, hfile⟩⟩
      · cases hprepare
        exact ⟨hloaded', .inr (.inl ⟨status, rfl, fun _ => hmemory, fun hfits => hnot (hfits hgrow), hfile⟩)⟩
      · cases hprepare
        exact ⟨hloaded', .inr (.inr ⟨status, rfl, fun hmemory => hnot (hmemory hgrow), hfew⟩)⟩
  case isFalse hkeep =>
    rw [if_neg hkeep]
    cases hprepare
    exact ⟨hloaded, .inl ⟨rfl, fun hgrow => absurd hgrow hkeep, fun hgrow => absurd hgrow hkeep, cs, h⟩⟩

end

end Proskrnl.Fat
