import Proskrnl.Fat.FileFailure

/-!
# The data services and the disk

`kernel/io/rw.c`: the way of `NtWriteFile` and of `NtWriteFileGather` through the cache of a file, with
each of their exits. Behind a service the cache should hold what the chain holds, and a service that
fails should have changed no byte that the file had.
-/

namespace Proskrnl.Fat
open Bytes Mm.Cache Splice List

def statusInvalidUserBuffer : NtStatus := 0xC00000E8

/-! ## The calls -/

/-- What a probe finds in a buffer of this length that it accepts. -/
structure UserBytes (length : Nat) where
  bytes : List UInt8
  length_eq : bytes.length = length

/-- A call of `NtWriteFile` on a disk file, and what it meets: what `IopStartTransfer` makes of the byte
offset (under the lock of a synchronous handle), the access of the handle, the buffer at the first
probe and at the one behind the parks, the answers to `IoSyncIoCancelled` and the time. -/
structure WriteFile where
  placement : Except NtStatus Placement
  writeData : Bool
  appendData : Bool
  length : Fin (2 ^ 32)
  probe : Except NtStatus Unit
  env : Resize
  cancelled : Bool
  buffer : Except NtStatus (UserBytes length)
  date : Nat
  time : Nat

def segmentCount (length : Nat) : Nat := (length + pageSize - 1) / pageSize

/-- A call of `NtWriteFileGather` and what it meets; `refused` is a check of the request or of the handle
that fails, a page is an error where the probe of its segment fails. -/
structure WriteFileGather where
  length : Fin (2 ^ 32)
  refused : Option NtStatus
  segments : Except NtStatus { pages : List (Except NtStatus (UserBytes pageSize)) //
    pages.length = segmentCount length }
  placement : Except NtStatus Placement
  env : Resize
  date : Nat
  time : Nat

/-- `NtWriteFile`, from the placement on. It reports the file position behind the write. -/
def ntWriteFile (call : WriteFile) (v : Volume) (dir : Nat) (fcb : Fcb) :
    Except NtStatus Nat × Volume × Fcb :=
  match call.placement with
  | .error status => (.error status, v, fcb)
  | .ok place =>
    if !call.writeData && !call.appendData then (.error statusAccessDenied, v, fcb)
    else
      -- append-only: every write lands at the end
      let writeToEnd := place.writeToEnd || !call.writeData
      match call.probe with
      | .error _ => (.error statusInvalidUserBuffer, v, fcb)
      | .ok () =>
        match fatVfsGetCache call.env.fill v fcb with
        | (.error status, fcb) => (.error status, v, fcb)
        | (.ok (), fcb) =>
          match fatVfsPrepareWrite call.env v dir fcb place.offset call.length writeToEnd with
          | (.error status, v, fcb) => (.error status, v, fcb)
          | (.ok offset, v, fcb) =>
            if call.length.val = 0 then (.ok offset, v, fcb)
            else if call.cancelled then (.error statusCancelled, v, fcb)
            else
              match call.buffer with
              | .error status => (.error status, v, fcb)
              | .ok buffer =>
                match fatVfsWritebackRange call.date call.time v dir
                    { fcb with cache := miCacheWrite fcb.cache offset buffer.bytes } offset call.length with
                | (.error status, v, fcb) => (.error status, v, fcb)
                | (.ok (), v, fcb) => (.ok (offset + call.length), v, fcb)

/-- The loop of `IopSegmentedTransfer` over the pages of a gather. -/
def gatherPages (cache : PageCache) (offset : Nat) :
    List (Except NtStatus (UserBytes pageSize)) → Except NtStatus Unit × PageCache
  | [] => (.ok (), cache)
  | .error status :: _ => (.error status, cache)
  | .ok page :: pages => gatherPages (miCacheWrite cache offset page.bytes) (offset + pageSize) pages

/-- `IopSegmentedTransfer` for a write. -/
def ntWriteFileGather (call : WriteFileGather) (v : Volume) (dir : Nat) (fcb : Fcb) :
    Except NtStatus Nat × Volume × Fcb :=
  if call.length.val % pageSize ≠ 0 then (.error statusInvalidParameter, v, fcb)
  else
    match call.refused, call.segments with
    | some status, _ => (.error status, v, fcb)
    | none, .error status => (.error status, v, fcb)
    | none, .ok segments =>
      match fatVfsGetCache call.env.fill v fcb with
      | (.error status, fcb) => (.error status, v, fcb)
      | (.ok (), fcb) =>
        match call.placement with
        | .error status => (.error status, v, fcb)
        | .ok place =>
          match fatVfsPrepareWrite call.env v dir fcb place.offset call.length place.writeToEnd with
          | (.error status, v, fcb) => (.error status, v, fcb)
          | (.ok offset, v, fcb) =>
            match gatherPages fcb.cache offset segments.val with
            | (.error status, cache) => (.error status, v, { fcb with cache })
            | (.ok (), cache) =>
              if call.length.val = 0 then (.ok offset, v, { fcb with cache })
              else
                match fatVfsWritebackRange call.date call.time v dir { fcb with cache } offset
                    call.length with
                | (.error status, v, fcb) => (.error status, v, fcb)
                | (.ok (), v, fcb) => (.ok (offset + call.length), v, fcb)

inductive DataService where
  | writeFile (call : WriteFile)
  | writeFileGather (call : WriteFileGather)

/-- What the call returns, and the volume and the file behind it. -/
def DataService.run (service : DataService) (v : Volume) (dir : Nat) (fcb : Fcb) :
    Except NtStatus Nat × Volume × Fcb :=
  match service with
  | .writeFile call => ntWriteFile call v dir fcb
  | .writeFileGather call => ntWriteFileGather call v dir fcb

/-- Each byte of the file has a frame in a loaded cache, and is there what it is in the chain. -/
def CacheAgrees (v : Volume) (fcb : Fcb) : Prop :=
  fcb.cacheLoaded = true → ∀ p < fcb.fileSize, p / pageSize < fcb.cache.pageCount ∧
    storedByte v fcb.firstCluster p = some (fcb.cache.bytes p)

/-- The bytes that the file had are those it has, in the chain and in the cache. -/
structure BytesKept (v : Volume) (fcb : Fcb) (v' : Volume) (fcb' : Fcb) : Prop where
  size : fcb.fileSize ≤ fcb'.fileSize
  stored : ∀ p < fcb.fileSize,
    storedByte v' fcb'.firstCluster p = storedByte v fcb.firstCluster p
  cached : fcb.cacheLoaded = true → fcb'.cacheLoaded = true ∧
    ∀ p < fcb.fileSize, fcb'.cache.bytes p = fcb.cache.bytes p

/-- Cache and disk agree behind a service, and a service that failed has changed no byte. -/
structure Settles (v : Volume) (fcb : Fcb) (outcome : Except NtStatus Nat × Volume × Fcb) : Prop where
  agrees : CacheAgrees outcome.2.1 outcome.2.2
  kept : ∀ status, outcome.1 = .error status → BytesKept v fcb outcome.2.1 outcome.2.2

/-- The bytes of the pages in front of the first one that cannot be read. -/
def readable : List (Except NtStatus (UserBytes pageSize)) → List UInt8
  | [] => []
  | .error _ :: _ => []
  | .ok page :: pages => page.bytes ++ readable pages

def faultOf : List (Except NtStatus (UserBytes pageSize)) → Except NtStatus Unit
  | [] => .ok ()
  | .error status :: _ => .error status
  | .ok _ :: pages => faultOf pages

/-- The place of an `NtWriteFile` that comes to its data. -/
def WriteFile.Places (call : WriteFile) (fcb : Fcb) (place : Nat) : Prop :=
  ∃ placement, call.placement = .ok placement ∧ (call.writeData = true ∨ call.appendData = true) ∧
    call.probe = .ok () ∧ place = writePlace fcb placement.offset (placement.writeToEnd || !call.writeData)

/-- The place and the pages of an `NtWriteFileGather` that comes to its data. -/
def WriteFileGather.Places (call : WriteFileGather) (fcb : Fcb) (place : Nat)
    (pages : List (Except NtStatus (UserBytes pageSize))) : Prop :=
  call.length.val % pageSize = 0 ∧ call.refused = none ∧
    ∃ segments placement, call.segments = .ok segments ∧ pages = segments.val ∧
      call.placement = .ok placement ∧ place = writePlace fcb placement.offset placement.writeToEnd

/-- The growth that the call asks for has memory for the cache, and what a gather copies before a page
it cannot read is what the file, with zeros behind its end, has there already. -/
def DataService.Sound (service : DataService) (v : Volume) (fcb : Fcb) (data : List UInt8) : Prop :=
  match service with
  | .writeFile call =>
    ∀ place, call.Places fcb place → WriteHasMemory v call.env fcb place call.length
  | .writeFileGather call =>
    ∀ place pages, call.Places fcb place pages → WriteHasMemory v call.env fcb place call.length ∧
      ((fatEnsureCache call.env.fill v fcb).1.isOk = true → WriteFits v call.env fcb place call.length →
        (faultOf pages).isOk = false → ∀ i < (readable pages).length,
          (readable pages).getD i 0 = data.getD (place + i) 0)

section
variable {v v' : Volume} {fcb fcb' : Fcb} {dir : Nat} {ds cs cs' : List Nat} {data data' : List UInt8}

/-! ## The pages of a gather -/

theorem miCacheWrite_append (cache : PageCache) (offset : Nat) (first rest : List UInt8) :
    miCacheWrite (miCacheWrite cache offset first) (offset + first.length) rest =
      miCacheWrite cache offset (first ++ rest) := by
  simp only [miCacheWrite, PageCache.mk.injEq, true_and, length_append]
  funext p
  by_cases hfirst : p < offset + first.length
  · rw [if_neg (by omega)]
    by_cases hin : offset ≤ p
    · rw [if_pos ⟨hin, hfirst⟩, if_pos (by omega), getD_append _ _ _ _ (by omega)]
    · rw [if_neg (by omega), if_neg (by omega)]
  · by_cases hrest : p < offset + first.length + rest.length
    · rw [if_pos (by omega), if_pos (by omega), getD_append_right _ _ _ _ (by omega)]
      congr 1
      omega
    · rw [if_neg (by omega), if_neg (by omega), if_neg (by omega)]

theorem miCacheWrite_nil (cache : PageCache) (offset : Nat) : miCacheWrite cache offset [] = cache := by
  have hbytes : (miCacheWrite cache offset []).bytes = cache.bytes := by
    funext p
    rw [miCacheWrite]
    exact if_neg fun hin => absurd hin.2 (Nat.not_lt.mpr hin.1)
  rw [miCacheWrite] at hbytes ⊢
  simp only at hbytes
  rw [hbytes]

/-- The loop stores the pages in front of the first fault, and reports it. -/
theorem gatherPages_eq (cache : PageCache) (offset : Nat)
    (pages : List (Except NtStatus (UserBytes pageSize))) :
    gatherPages cache offset pages = (faultOf pages, miCacheWrite cache offset (readable pages)) := by
  induction pages generalizing cache offset with
  | nil => exact Prod.ext rfl (miCacheWrite_nil cache offset).symm
  | cons page pages ih =>
    cases page with
    | error status => exact Prod.ext rfl (miCacheWrite_nil cache offset).symm
    | ok page =>
      have happend := miCacheWrite_append cache offset page.bytes (readable pages)
      rw [page.length_eq] at happend
      rw [gatherPages, ih, happend]
      rfl

theorem length_readable_le (pages : List (Except NtStatus (UserBytes pageSize))) :
    (readable pages).length ≤ pages.length * pageSize := by
  induction pages with
  | nil => exact Nat.zero_le _
  | cons page pages ih =>
    cases page with
    | error status => exact Nat.zero_le _
    | ok page =>
      rw [readable, length_append, page.length_eq, length_cons, Nat.succ_mul]
      omega

theorem length_readable {pages : List (Except NtStatus (UserBytes pageSize))}
    (h : faultOf pages = .ok ()) : (readable pages).length = pages.length * pageSize := by
  induction pages with
  | nil => exact (Nat.zero_mul _).symm
  | cons page pages ih =>
    cases page with
    | error status => cases h
    | ok page =>
      rw [readable, length_append, page.length_eq, length_cons, Nat.succ_mul, ih h]
      omega

theorem segmentCount_zero : segmentCount 0 = 0 := by
  rw [segmentCount, pageSize]

variable {length place : Nat}

theorem segmentCount_mul (h : length % pageSize = 0) :
    segmentCount length * pageSize = length := by
  rw [segmentCount]
  rw [pageSize] at h ⊢
  omega

/-! ## What a file that is an array settles -/

section
variable (h : FileOn v dir ds fcb cs data)
include h

theorem FileOn.cacheAgrees : CacheAgrees v fcb := by
  intro hloaded p hp
  obtain ⟨size, hcovers, hcached⟩ := h.cached
  obtain ⟨rfl, hbytes⟩ := hcached hloaded
  refine ⟨Nat.lt_of_lt_of_le (lt_pagesOf hp) hcovers.pages, ?_⟩
  rw [h.holds.stored p (by rwa [h.length]), getElem?_eq_getD (by rwa [h.length]), hbytes p hp]

theorem FileOn.bytes (hloaded : fcb.cacheLoaded = true) {p : Nat}
    (hp : p < fcb.fileSize) : fcb.cache.bytes p = data.getD p 0 := by
  obtain ⟨size, _, hcached⟩ := h.cached
  exact (hcached hloaded).2 p hp

theorem FileOn.bytesKept (h' : FileOn v' dir ds fcb' cs' data')
    (hloaded : fcb.cacheLoaded = true → fcb'.cacheLoaded = true) (hle : data.length ≤ data'.length)
    (hsame : ∀ p < data.length, data'.getD p 0 = data.getD p 0) : BytesKept v fcb v' fcb' := by
  rw [h.length] at hle hsame
  have hsize : fcb.fileSize ≤ fcb'.fileSize := by rwa [← h'.length]
  refine ⟨hsize, fun p hp => ?_, fun hload => ⟨hloaded hload, fun p hp => ?_⟩⟩
  · have hp' : p < data'.length := by omega
    rw [h'.holds.stored p hp', h.holds.stored p (by rwa [h.length]), getElem?_eq_getD hp',
      getElem?_eq_getD (by rwa [h.length]), hsame p hp]
  · rw [h'.bytes (hloaded hload) (by omega), h.bytes hload hp, hsame p hp]

theorem FileOn.settles_kept (h' : FileOn v' dir ds fcb' cs' data)
    (hloaded : fcb.cacheLoaded = true → fcb'.cacheLoaded = true) (result : Except NtStatus Nat) :
    Settles v fcb (result, v', fcb') :=
  ⟨h'.cacheAgrees, fun _ _ => h.bytesKept h' hloaded (Nat.le_refl _) fun _ _ => rfl⟩

end

theorem length_preparedData (data : List UInt8) (place length : Nat) :
    (preparedData data place length).length =
      if length ≠ 0 then max data.length (place + length) else data.length := by
  rw [preparedData]
  by_cases hgrow : length ≠ 0 ∧ place + length > data.length
  · rw [if_pos hgrow, if_pos hgrow.1, length_resizeData]
    omega
  · rw [if_neg hgrow]
    split <;> omega

theorem getD_preparedData {p : Nat} (hp : p < (preparedData data place length).length) :
    (preparedData data place length).getD p 0 = data.getD p 0 := by
  rw [preparedData] at hp ⊢
  split
  case isTrue hgrow =>
    rw [if_pos hgrow, length_resizeData] at hp
    rw [getD_resizeData hp]
    split
    · rfl
    · rw [getD_eq_default _ _ (by omega)]
  case isFalse => rfl

theorem FileOn.settles_prepared (h : FileOn v dir ds fcb cs data)
    (h' : FileOn v' dir ds fcb' cs' (preparedData data place length))
    (hloaded : fcb.cacheLoaded = true → fcb'.cacheLoaded = true) (result : Except NtStatus Nat) :
    Settles v fcb (result, v', fcb') := by
  have hle : data.length ≤ (preparedData data place length).length := by
    rw [length_preparedData]
    split <;> omega
  exact ⟨h'.cacheAgrees, fun _ _ => h.bytesKept h' hloaded hle fun p hp => getD_preparedData (by omega)⟩

theorem not_cacheAgrees (hloaded : fcb.cacheLoaded = true)
    (hfew : fcb.cache.pageCount < pagesOf fcb.fileSize) : ¬ CacheAgrees v fcb := by
  intro h
  have hpos : 0 < fcb.fileSize := by
    apply Nat.pos_of_ne_zero
    intro hzero
    rw [hzero] at hfew
    exact absurd hfew (Nat.not_lt_zero _)
  have hlast := (h hloaded (fcb.fileSize - 1) (by omega)).1
  rw [pagesOf, pageSize] at hfew
  rw [pageSize] at hlast
  omega

/-! ## The way to the data -/

theorem FileOn.writeback_ok (h : FileOn v dir ds fcb cs data) (date time : Nat) (cache : PageCache)
    (offset length : Nat) : ∃ v' fcb',
      fatVfsWritebackRange date time v dir { fcb with cache } offset length = (.ok (), v', fcb') := by
  rw [fatVfsWritebackRange, if_neg (show ¬ fcb.entryDeleted = true by rw [h.live]; simp)]
  simp only
  generalize hfcb1 : ({ fcb with cache, writeDate := date, writeTime := time } : Fcb) = fcb1
  have hchain : v.IsChain fcb1.firstCluster cs := by
    rw [← hfcb1]
    exact h.chain
  obtain ⟨hwrote, hsized, _⟩ := hchain.writebackRange offset length
  have hslot : fcb1.dirEntryIndex < ds.length * fatSlotsPerCluster (fatWritebackRange v fcb1 offset length) := by
    rw [fatSlotsPerCluster, hwrote.geometry, ← hfcb1]
    exact h.slot
  obtain ⟨v3, hflush, _⟩ := (hwrote.isChain h.directory).flushFcbMetadata (hsized h.sized) hslot
  rw [hflush]
  exact ⟨v3, fcb1, rfl⟩

/-- What `GetCache` and `PrepareWrite` leave of a file that is an array: no cache; room for the write; the
array as it was; or a size without the frames for it. -/
theorem FileOn.place_cases (hlimit : v.WithinLimit) (hinv : CacheInv fcb)
    (h : FileOn v dir ds fcb cs data) (env : Resize) (placement : Placement) (length : Fin (2 ^ 32))
    (writeToEnd : Bool) (hplace : place = writePlace fcb placement.offset writeToEnd) :
    (∃ status fcb1, fatVfsGetCache env.fill v fcb = (.error status, fcb1) ∧
      (fatEnsureCache env.fill v fcb).1.isOk = false ∧ WriteHasMemory v env fcb place length ∧
      FileOn v dir ds fcb1 cs data ∧ fcb.cacheLoaded = false) ∨
    ∃ fcb1, fatVfsGetCache env.fill v fcb = (.ok (), fcb1) ∧
      (fatEnsureCache env.fill v fcb).1.isOk = true ∧ ∃ result v2 fcb2,
      fatVfsPrepareWrite env v dir fcb1 placement.offset length writeToEnd = (result, v2, fcb2) ∧
      fcb2.cacheLoaded = true ∧
      ((result = .ok place ∧ WriteHasMemory v env fcb place length ∧ WriteFits v env fcb place length ∧
          ∃ cs2, FileOn v2 dir ds fcb2 cs2 (preparedData data place length)) ∨
        (∃ status, result = .error status ∧ WriteHasMemory v env fcb place length ∧
          ¬ WriteFits v env fcb place length ∧ FileOn v2 dir ds fcb2 cs data) ∨
        (∃ status, result = .error status ∧ ¬ WriteHasMemory v env fcb place length ∧
          fcb2.cache.pageCount < pagesOf fcb2.fileSize)) := by
  rw [fatVfsGetCache, h.file, if_neg (by nofun)]
  cases hensure : fatEnsureCache env.fill v fcb with
  | mk ensured fcb1 =>
    cases ensured with
    | error status =>
      obtain ⟨h1, hunloaded, _, _⟩ := h.ensureCache_error hensure
      refine .inl ⟨status, fcb1, rfl, rfl, fun _ _ hok _ => ?_, h1, hunloaded⟩
      rw [hensure] at hok
      cases hok
    | ok _ =>
      obtain ⟨h1, hloaded, hsize⟩ := h.ensureCache hensure
      obtain ⟨hinv1, hfilled⟩ := hinv.ensureCache env.fill v
      rw [hensure] at hinv1 hfilled
      have hfirst : fcb1.firstCluster = fcb.firstCluster := (hfilled rfl).2.2.1
      have hplace1 : place = writePlace fcb1 placement.offset writeToEnd := by
        rw [hplace, writePlace, writePlace, hsize]
      have hrange : writePlace fcb1 placement.offset writeToEnd + length < 2 ^ 64 := by
        have hsmall := hinv.small
        have hoffset := placement.offset_lt
        have hlength := length.isLt
        rw [writePlace, hsize]
        split <;> omega
      have hmemory : WriteHasMemory v env fcb place length ↔ WriteHasMemory v env fcb1 place length := by
        rw [WriteHasMemory, WriteHasMemory, hsize, ResizeHasMemory.filled_iff hinv hensure h1.live]
      have hfits : WriteFits v env fcb place length ↔ WriteFits v env fcb1 place length := by
        rw [WriteFits, WriteFits, hsize, ResizeFits, ResizeFits, hfirst]
      cases hprepare : fatVfsPrepareWrite env v dir fcb1 placement.offset length writeToEnd with
      | mk result rest =>
        obtain ⟨v2, fcb2⟩ := rest
        have hcases := h1.prepareWrite_cases hlimit hloaded hinv1.capacity hrange hprepare
        rw [← hplace1, ← hmemory, ← hfits] at hcases
        exact .inr ⟨fcb1, rfl, rfl, result, v2, fcb2, hprepare, hcases⟩

/-! ## The services -/

theorem FileOn.writeFile_settles (hlimit : v.WithinLimit) (hinv : CacheInv fcb)
    (h : FileOn v dir ds fcb cs data) (call : WriteFile) :
    Settles v fcb (ntWriteFile call v dir fcb) ↔ (DataService.writeFile call).Sound v fcb data := by
  have hrefused : (∀ place, ¬ call.Places fcb place) → ∀ status,
      (Settles v fcb (.error status, v, fcb) ↔ (DataService.writeFile call).Sound v fcb data) := by
    intro hnone status
    exact iff_of_true (h.settles_kept h id _) fun place hplaces => absurd hplaces (hnone place)
  rw [ntWriteFile]
  cases hplacement : call.placement with
  | error status =>
    apply hrefused
    rintro place ⟨placement, hok, _⟩
    rw [hplacement] at hok
    cases hok
  | ok placement =>
    simp only
    split
    case isTrue haccess =>
      apply hrefused
      rintro place ⟨_, _, hgranted, _⟩
      revert haccess hgranted
      cases call.writeData <;> cases call.appendData <;> simp
    case isFalse haccess =>
      have hgranted : call.writeData = true ∨ call.appendData = true := by
        revert haccess
        cases call.writeData <;> cases call.appendData <;> simp
      cases hprobe : call.probe with
      | error status =>
        apply hrefused
        rintro place ⟨_, _, _, hok, _⟩
        rw [hprobe] at hok
        cases hok
      | ok _ =>
        obtain ⟨place, hplace⟩ : ∃ place, place =
            writePlace fcb placement.offset (placement.writeToEnd || !call.writeData) := ⟨_, rfl⟩
        -- the only place
        have hsound : (DataService.writeFile call).Sound v fcb data ↔
            WriteHasMemory v call.env fcb place call.length := by
          refine ⟨fun hsound => hsound place ⟨placement, hplacement, hgranted, hprobe, hplace⟩,
            fun hmemory place' hplaces => ?_⟩
          obtain ⟨placement', hplacement', _, _, rfl⟩ := hplaces
          rw [hplacement] at hplacement'
          cases hplacement'
          rwa [← hplace]
        rw [hsound]
        simp only
        obtain ⟨status, fcb1, hget, _, hmemory, h1, hunloaded⟩ | ⟨fcb1, hget, _, result, v2, fcb2, hprepare,
            hloaded, hcases⟩ :=
          h.place_cases hlimit hinv call.env placement call.length
            (placement.writeToEnd || !call.writeData) hplace
        · rw [hget]
          refine iff_of_true (h.settles_kept h1 (fun hload => ?_) _) hmemory
          rw [hunloaded] at hload
          cases hload
        · rw [hget]
          simp only [hprepare]
          obtain ⟨rfl, hmemory, _, cs2, h2⟩ | ⟨status, rfl, hmemory, _, h2⟩ | ⟨status, rfl, hnot, hfew⟩ :=
            hcases
          · refine iff_of_true ?_ hmemory
            simp only
            split
            · exact h.settles_prepared h2 (fun _ => hloaded) _
            · split
              · exact h.settles_prepared h2 (fun _ => hloaded) _
              · cases hbuffer : call.buffer with
                | error status => exact h.settles_prepared h2 (fun _ => hloaded) _
                | ok buffer =>
                  obtain ⟨v3, fcb3, hwrite⟩ := h2.writeback_ok call.date call.time
                    (miCacheWrite fcb2.cache place buffer.bytes) place call.length
                  simp only [hwrite]
                  have hin : place + buffer.bytes.length ≤ fcb2.fileSize := by
                    rw [← h2.length, length_preparedData, buffer.length_eq, if_pos (by assumption)]
                    exact Nat.le_max_right ..
                  obtain ⟨h3, _⟩ := h2.write hloaded hin (by rw [buffer.length_eq]; exact hwrite)
                  exact ⟨h3.cacheAgrees, nofun⟩
          · exact iff_of_true (h.settles_kept h2 (fun _ => hloaded) _) hmemory
          · exact iff_of_false (fun hsettles => not_cacheAgrees hloaded hfew hsettles.agrees) hnot

theorem FileOn.settles_stored {bytes : List UInt8} (h : FileOn v dir ds fcb cs data)
    (h' : FileOn v' dir ds fcb' cs' (preparedData data place length)) (hloaded : fcb'.cacheLoaded = true)
    (hin : place + bytes.length ≤ fcb'.fileSize) (status : NtStatus) :
    Settles v fcb (.error status, v', { fcb' with cache := miCacheWrite fcb'.cache place bytes }) ↔
      ∀ i < bytes.length, bytes.getD i 0 = data.getD (place + i) 0 := by
  have hdata : ∀ p < fcb'.fileSize, (preparedData data place length).getD p 0 = data.getD p 0 :=
    fun p hp => getD_preparedData (by rwa [h'.length])
  constructor
  · intro hsettles i hi
    have hagree := (hsettles.agrees hloaded (place + i) (show _ < fcb'.fileSize by omega)).2
    have hstored := h'.holds.stored (place + i) (by rw [h'.length]; omega)
    rw [getElem?_eq_getD (by rw [h'.length]; omega), hdata _ (by omega)] at hstored
    have hbyte := Option.some.inj (hstored.symm.trans hagree)
    rw [hbyte, miCacheWrite]
    simp only
    rw [if_pos (by omega), Nat.add_sub_cancel_left]
  · intro hsame
    have hbytes : ∀ p, p < fcb'.fileSize →
        (miCacheWrite fcb'.cache place bytes).bytes p = fcb'.cache.bytes p := by
      intro p hp
      rw [miCacheWrite]
      simp only
      split
      case isTrue hinside =>
        rw [hsame _ (by omega), h'.bytes hloaded hp, hdata p hp, Nat.add_sub_cancel' hinside.1]
      case isFalse => rfl
    have hprepared := h.settles_prepared h' (fun _ => hloaded) (.error status)
    refine ⟨fun _ p hp => ?_, fun _ _ => ?_⟩
    · obtain ⟨hframe, hstored⟩ := hprepared.agrees hloaded p hp
      exact ⟨hframe, hstored.trans (congrArg some (hbytes p hp).symm)⟩
    · have hkept := hprepared.kept status rfl
      refine ⟨hkept.size, hkept.stored, fun hload => ⟨hloaded, fun p hp => ?_⟩⟩
      have hp' : p < fcb'.fileSize := Nat.lt_of_lt_of_le hp hkept.size
      exact (hbytes p hp').trans ((hkept.cached hload).2 p hp)

theorem FileOn.writeFileGather_settles (hlimit : v.WithinLimit) (hinv : CacheInv fcb)
    (h : FileOn v dir ds fcb cs data) (call : WriteFileGather) :
    Settles v fcb (ntWriteFileGather call v dir fcb) ↔
      (DataService.writeFileGather call).Sound v fcb data := by
  have hrefused : (∀ place pages, ¬ call.Places fcb place pages) → ∀ status,
      (Settles v fcb (.error status, v, fcb) ↔
        (DataService.writeFileGather call).Sound v fcb data) := by
    intro hnone status
    exact iff_of_true (h.settles_kept h id _) fun place pages hplaces => absurd hplaces (hnone place pages)
  rw [ntWriteFileGather]
  split
  case isTrue hunaligned =>
    apply hrefused
    rintro place pages ⟨haligned, _⟩
    exact hunaligned haligned
  case isFalse haligned =>
    have haligned' : call.length.val % pageSize = 0 := not_not.mp haligned
    cases hchecks : call.refused with
    | some status =>
      apply hrefused
      rintro place pages ⟨_, hnone, _⟩
      rw [hchecks] at hnone
      cases hnone
    | none =>
      cases hsegments : call.segments with
      | error status =>
        apply hrefused
        rintro place pages ⟨_, _, segments, _, hok, _⟩
        rw [hsegments] at hok
        cases hok
      | ok segments =>
        simp only
        cases hplacement : call.placement with
        | error status =>
          have hnone : ∀ place pages, ¬ call.Places fcb place pages := by
            rintro place pages ⟨_, _, _, _, _, _, hok, _⟩
            rw [hplacement] at hok
            cases hok
          refine iff_of_true ?_ fun place pages hplaces => absurd hplaces (hnone place pages)
          rw [fatVfsGetCache, h.file, if_neg (by nofun)]
          cases hensure : fatEnsureCache call.env.fill v fcb with
          | mk ensured fcb1 =>
            cases ensured with
            | error status =>
              obtain ⟨h1, hunloaded, _⟩ := h.ensureCache_error hensure
              exact h.settles_kept h1 (fun hload => absurd (hunloaded.symm.trans hload) nofun) _
            | ok _ =>
              obtain ⟨h1, hloaded, _⟩ := h.ensureCache hensure
              exact h.settles_kept h1 (fun _ => hloaded) _
        | ok placement =>
          obtain ⟨place, hplace⟩ : ∃ place, place =
              writePlace fcb placement.offset placement.writeToEnd := ⟨_, rfl⟩
          -- the only place and the only pages
          have hsound : (DataService.writeFileGather call).Sound v fcb data ↔
              WriteHasMemory v call.env fcb place call.length ∧
                ((fatEnsureCache call.env.fill v fcb).1.isOk = true →
                  WriteFits v call.env fcb place call.length → (faultOf segments.val).isOk = false →
                  ∀ i < (readable segments.val).length,
                    (readable segments.val).getD i 0 = data.getD (place + i) 0) := by
            refine ⟨fun hsound => hsound place segments.val
              ⟨haligned', hchecks, segments, placement, hsegments, rfl, hplacement, hplace⟩,
              fun hsound place' pages' hplaces => ?_⟩
            obtain ⟨_, _, segments', placement', hsegments', rfl, hplacement', rfl⟩ := hplaces
            rw [hplacement] at hplacement'
            rw [hsegments] at hsegments'
            cases hplacement'
            cases hsegments'
            rwa [← hplace]
          rw [hsound]
          obtain ⟨status, fcb1, hget, hfill, hmemory, h1, hunloaded⟩ | ⟨fcb1, hget, hfill, result, v2, fcb2,
              hprepare, hloaded, hcases⟩ :=
            h.place_cases hlimit hinv call.env placement call.length placement.writeToEnd hplace
          · rw [hget, hfill]
            refine iff_of_true (h.settles_kept h1 (fun hload => ?_) _) ⟨hmemory, nofun⟩
            rw [hunloaded] at hload
            cases hload
          · rw [hget, hfill]
            simp only [hprepare]
            obtain ⟨rfl, hmemory, hfits, cs2, h2⟩ | ⟨status, rfl, hmemory, hnot, h2⟩ |
              ⟨status, rfl, hnot, hfew⟩ := hcases
            · simp only [gatherPages_eq]
              have hcount := segments.property
              have hmul := segmentCount_mul haligned'
              cases hfault : faultOf segments.val with
              | error status =>
                have hbound := length_readable_le segments.val
                rw [hcount, hmul] at hbound
                have hsome : call.length.val ≠ 0 := by
                  intro hzero
                  have hnil := hcount.trans ((congrArg segmentCount hzero).trans segmentCount_zero)
                  rw [length_eq_zero_iff.mp hnil] at hfault
                  cases hfault
                have hin : place + (readable segments.val).length ≤ fcb2.fileSize := by
                  rw [← h2.length, length_preparedData, if_pos hsome]
                  exact Nat.le_trans (Nat.add_le_add_left hbound place) (Nat.le_max_right ..)
                simp only
                rw [h.settles_stored h2 hloaded hin]
                exact ⟨fun hsame => ⟨hmemory, fun _ _ _ => hsame⟩, fun hall => hall.2 trivial hfits rfl⟩
              | ok _ =>
                have hlength := length_readable hfault
                rw [hcount, hmul] at hlength
                refine iff_of_true ?_ ⟨hmemory, fun _ _ hnone => nomatch hnone⟩
                simp only
                split
                case isTrue hzero =>
                  rw [length_eq_zero_iff.mp (hlength.trans hzero), miCacheWrite_nil]
                  exact h.settles_prepared h2 (fun _ => hloaded) _
                case isFalse hsome =>
                  obtain ⟨v3, fcb3, hwrite⟩ := h2.writeback_ok call.date call.time
                    (miCacheWrite fcb2.cache place (readable segments.val)) place call.length
                  simp only [hwrite]
                  have hin : place + (readable segments.val).length ≤ fcb2.fileSize := by
                    rw [← h2.length, length_preparedData, hlength, if_pos hsome]
                    exact Nat.le_max_right ..
                  obtain ⟨h3, _⟩ := h2.write hloaded hin (by rw [hlength]; exact hwrite)
                  exact ⟨h3.cacheAgrees, nofun⟩
            · exact iff_of_true (h.settles_kept h2 (fun _ => hloaded) _)
                ⟨hmemory, fun _ hfits => absurd hfits hnot⟩
            · exact iff_of_false (fun hsettles => not_cacheAgrees hloaded hfew hsettles.agrees)
                fun hsound => hnot hsound.1

/-- A service that writes to a file leaves cache and disk in agreement, and fails without a trace, just when
the growth it asks for has memory for the cache and, of a gather, no page that cannot be read comes behind
one that is different from what it goes over. -/
theorem dataService_settles_iff (service : DataService) (hlimit : v.WithinLimit) (hinv : CacheInv fcb)
    (h : FileOn v dir ds fcb cs data) :
    Settles v fcb (service.run v dir fcb) ↔ service.Sound v fcb data := by
  cases service with
  | writeFile call => exact h.writeFile_settles hlimit hinv call
  | writeFileGather call => exact h.writeFileGather_settles hlimit hinv call

end

/-! ## A page that cannot be read -/

theorem cacheInv_openedFile (firstCluster : Nat) (size : Fin (2 ^ 32)) :
    CacheInv (openedFile firstCluster size) :=
  ⟨Nat.le_of_lt_succ size.isLt, Nat.le_refl 0, nofun⟩

def writeThree : WriteFile where
  placement := .ok ⟨0, false, by decide⟩
  writeData := true
  appendData := true
  length := 3
  probe := .ok ()
  env := plenty
  cancelled := false
  buffer := .ok ⟨[1, 2, 3], rfl⟩
  date := 0
  time := 0

def pagedVolume : Volume :=
  { emptyVolume with
    sectorsPerCluster := 8
    totalSectors := 82
    sectorsPerCluster_pos := by decide
    sectorsPerCluster_le := by decide
    totalSectors_lt := by decide
    data_le_total := by decide }

theorem fileOn_pagedVolume : FileOn pagedVolume 2 [2] (openedFile 0 0) [] [] := by
  refine ⟨fun _ _ => length_replicate, ⟨.cons .nil, by decide, by decide⟩, by decide, rfl, rfl,
    ⟨.nil, nofun, nofun⟩, nofun, rfl, rfl, nofun, 0, PageCache.Covers.initialize, nofun⟩

/-- Two pages of which the second cannot be read, gathered to the start of a file. -/
def gatherTorn : WriteFileGather where
  length := 8192
  refused := none
  segments := .ok ⟨[.ok ⟨List.replicate pageSize 1, length_replicate⟩, .error statusAccessViolation],
    rfl⟩
  placement := .ok ⟨0, false, by decide⟩
  env := plenty
  date := 0
  time := 0

theorem dataService_settles_three :
    Settles emptyVolume (openedFile 0 0)
      ((DataService.writeFile writeThree).run emptyVolume 2 (openedFile 0 0)) := by
  apply (dataService_settles_iff (.writeFile writeThree) directoryOn_emptyVolume.limit
    (cacheInv_openedFile 0 0) fileOn_emptyVolume).mpr
  rintro place ⟨placement, hplacement, _, _, rfl⟩
  cases hplacement
  exact fun _ _ _ _ => ⟨by decide, .inl rfl⟩

/-- The first page stays in the cache and does not get to the disk. -/
theorem not_settles_gatherTorn :
    FileOn pagedVolume 2 [2] (openedFile 0 0) [] [] ∧ ¬ Settles pagedVolume (openedFile 0 0)
      ((DataService.writeFileGather gatherTorn).run pagedVolume 2 (openedFile 0 0)) := by
  refine ⟨fileOn_pagedVolume, fun hsettles => ?_⟩
  have hstate : ∀ outcome, outcome =
      (DataService.writeFileGather gatherTorn).run pagedVolume 2 (openedFile 0 0) →
      outcome.2.2.cacheLoaded = true ∧ 0 < outcome.2.2.fileSize ∧
        storedByte outcome.2.1 outcome.2.2.firstCluster 0 ≠ some (outcome.2.2.cache.bytes 0) := by
    rintro outcome rfl
    decide +kernel
  obtain ⟨hloaded, hsize, hne⟩ := hstate _ rfl
  exact hne (hsettles.agrees hloaded 0 hsize).2

end Proskrnl.Fat
