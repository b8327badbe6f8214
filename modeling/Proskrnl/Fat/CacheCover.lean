import Proskrnl.Fat.FileRun

/-!
# The cache covers the file

Whether a loaded cache has a frame for every page of its file, over runs of operations that may fail
at any point. A file that grows takes its new size before its cache does, so the answer is in the
memory there is for the frames of the new size.
-/

namespace Proskrnl.Fat
open Mm.Cache

/-- A loaded cache has the frames of the file, so that the range assertions of `MiCacheRead` and
`MiCacheWrite` hold inside it and every byte of it has its frame. -/
structure CacheCovers (fcb : Fcb) : Prop where
  frames : fcb.cacheLoaded = true → pagesOf fcb.fileSize ≤ fcb.cache.pageCount
  ranges : fcb.cacheLoaded = true → ∀ offset length, offset + length ≤ fcb.fileSize →
    offset + length ≤ fcb.cache.pageCount * pageSize
  indices : fcb.cacheLoaded = true → ∀ p < fcb.fileSize, p / pageSize < fcb.cache.pageCount

/-- An operation on the cache of a file, on the volume as it is then and with what it depends on
besides. `teardown` is what `FatVfsCleanup` and `FatVfsSectionsReleased` do to the cache of a file they
delete; `reopen` is a new control block for an entry with this size. -/
inductive CacheOp where
  | getCache (v : Volume) (fill : Fill)
  | setFileSize (v : Volume) (dir : Nat) (env : Resize) (newSize : Nat)
  | prepareWrite (v : Volume) (dir : Nat) (env : Resize) (offset length : Nat) (writeToEnd : Bool)
  | write (offset : Nat) (buffer : List UInt8)
  | teardown (memory : Memory)
  | reopen (firstCluster : Nat) (fileSize : Fin (2 ^ 32))

/-- The control block behind the operation, whether it succeeded or not. -/
def CacheOp.step (op : CacheOp) (fcb : Fcb) : Fcb :=
  match op with
  | .getCache v fill => (fatEnsureCache fill v fcb).2
  | .setFileSize v dir env newSize => (fatSetFileSize env v dir fcb newSize).2.2
  | .prepareWrite v dir env offset length writeToEnd =>
    (fatVfsPrepareWrite env v dir fcb offset length writeToEnd).2.2
  | .write offset buffer => { fcb with cache := miCacheWrite fcb.cache offset buffer }
  | .teardown memory =>
    { fcb with
      entryDeleted := true, cache := (miResizePageCache memory fcb.cache 0).2, cacheLoaded := false }
  | .reopen firstCluster fileSize =>
    { fcb with
      entryDeleted := false, firstCluster, fileSize, cache := miInitializePageCache,
      cacheLoaded := false }

/-- There is memory for the frames of a new size, beyond those the cache has once it is filled, and for
the array of slots if that has to grow. -/
def Enough (memory : Memory) (fcb : Fcb) (newSize : Nat) : Prop :=
  pagesOf newSize ≤ max fcb.cache.pageCount (pagesOf fcb.fileSize) + memory.frames ∧
    (memory.slots = true ∨ pagesOf newSize ≤ grownCapacity fcb.cache (pagesOf fcb.fileSize))

/-- A resize has its memory if it comes to that of the cache: the size is one FAT can record, the cache
can be filled and the chain resized. -/
def ResizeHasMemory (v : Volume) (env : Resize) (fcb : Fcb) (newSize : Nat) : Prop :=
  newSize ≤ 0xFFFFFFFF → (fatEnsureCache env.fill v fcb).1.isOk = true →
    (resizeChain env.cancelled v fcb.firstCluster newSize).1.isOk = true → Enough env.memory fcb newSize

def CacheOp.HasMemory (op : CacheOp) (fcb : Fcb) : Prop :=
  match op with
  | .setFileSize v _ env newSize => ResizeHasMemory v env fcb newSize
  | .prepareWrite v _ env offset length writeToEnd =>
    let last := ((if writeToEnd then fcb.fileSize else offset) + length) % 2 ^ 64
    length ≠ 0 ∧ last > fcb.fileSize → ResizeHasMemory v env fcb last
  | _ => True

def runCache : List CacheOp → Fcb → Fcb
  | [], fcb => fcb
  | op :: ops, fcb => runCache ops (op.step fcb)

def RunHasMemory : List CacheOp → Fcb → Prop
  | [], _ => True
  | op :: ops, fcb => op.HasMemory fcb ∧ RunHasMemory ops (op.step fcb)

section
variable {cache cache' : PageCache} {memory : Memory} {size newSize : Nat}

variable {pages : Nat}

theorem doubledCapacity_le {rounds capacity : Nat} (h : pages ≤ capacity * 2 ^ rounds) :
    pages ≤ doubledCapacity rounds capacity pages := by
  induction rounds generalizing capacity with
  | zero =>
    rw [doubledCapacity]
    omega
  | succ rounds ih =>
    rw [doubledCapacity]
    split
    · apply ih
      rw [Nat.mul_assoc, ← Nat.pow_succ']
      exact h
    · omega

theorem pagesOf_le (h : size ≤ 0xFFFFFFFF) : pagesOf size ≤ 2 ^ 20 := by
  rw [pagesOf, pageSize]
  omega

theorem le_grownCapacity (cache : PageCache) (h : pages ≤ 2 ^ 20) : pages ≤ grownCapacity cache pages := by
  rw [grownCapacity]
  split
  · apply doubledCapacity_le
    have hpos : 1 ≤ if cache.capacity ≠ 0 then cache.capacity else 8 := by
      split <;> omega
    calc pages ≤ 1 * 2 ^ 32 := by omega
      _ ≤ _ := Nat.mul_le_mul_right _ hpos
  · omega

theorem grownCapacity_eq (h : pages ≤ cache.capacity) :
    grownCapacity cache pages = cache.capacity := by
  rw [grownCapacity, if_neg (by omega)]

theorem capacity_le_grownCapacity (cache : PageCache) (h : pages ≤ 2 ^ 20) :
    cache.capacity ≤ grownCapacity cache pages := by
  by_cases hmore : pages ≤ cache.capacity
  · exact Nat.le_of_eq (grownCapacity_eq hmore).symm
  · have hle := le_grownCapacity cache h
    omega

theorem miResizePageCache_counts (memory : Memory) (hcapacity : cache.pageCount ≤ cache.capacity)
    (hsize : newSize ≤ 0xFFFFFFFF) :
    (miResizePageCache memory cache newSize).2.pageCount ≤
        (miResizePageCache memory cache newSize).2.capacity ∧
      cache.pageCount ≤ (miResizePageCache memory cache newSize).2.pageCount := by
  have hpages := pagesOf_le hsize
  have hgrown := le_grownCapacity cache hpages
  have hkept := capacity_le_grownCapacity cache hpages
  rw [miResizePageCache]
  split
  · exact ⟨hcapacity, Nat.le_refl _⟩
  · split
    · simp only
      omega
    · simp only
      constructor
      · split <;> omega
      · split <;> omega

theorem miResizePageCache_enough (hframes : pagesOf newSize ≤ cache.pageCount + memory.frames)
    (hslots : memory.slots = true ∨ pagesOf newSize ≤ cache.capacity) :
    ∃ cache', miResizePageCache memory cache newSize = (.ok (), cache') := by
  rw [miResizePageCache, if_neg, if_neg (by omega)]
  · exact ⟨_, rfl⟩
  · rintro ⟨hmore, hnone⟩
    obtain hslots | hslots := hslots
    · rw [hslots] at hnone
      cases hnone
    · omega

theorem miResizePageCache_ok_counts (h : miResizePageCache memory cache newSize = (.ok (), cache')) :
    cache'.pageCount = max cache.pageCount (pagesOf newSize) ∧
      cache'.capacity = grownCapacity cache (pagesOf newSize) := by
  refine ⟨(miResizePageCache_ok h).2.1, ?_⟩
  rw [miResizePageCache] at h
  split at h
  · cases h
  · split at h
    · cases h
    · cases h
      rfl

end

/-- What runs keep: the size is one FAT can record, the slots hold the frames, and a loaded cache has
those of the file. -/
structure CacheInv (fcb : Fcb) : Prop where
  small : fcb.fileSize ≤ 0xFFFFFFFF
  capacity : fcb.cache.pageCount ≤ fcb.cache.capacity
  frames : fcb.cacheLoaded = true → pagesOf fcb.fileSize ≤ fcb.cache.pageCount

section
variable {v : Volume} {fcb fcb' : Fcb} {dir newSize : Nat}

theorem CacheInv.covers (h : CacheInv fcb) : CacheCovers fcb := by
  have hle := le_pagesOf fcb.fileSize
  refine ⟨h.frames, fun hloaded offset length hin => ?_, fun hloaded p hp => ?_⟩
  · have hmul := Nat.mul_le_mul_right pageSize (h.frames hloaded)
    omega
  · exact Nat.lt_of_lt_of_le (lt_pagesOf hp) (h.frames hloaded)

theorem CacheInv.ensureCache (h : CacheInv fcb) (fill : Fill) (v : Volume) :
    CacheInv (fatEnsureCache fill v fcb).2 ∧
      ((fatEnsureCache fill v fcb).1.isOk = true →
        (fatEnsureCache fill v fcb).2.cacheLoaded = true ∧
        (fatEnsureCache fill v fcb).2.fileSize = fcb.fileSize ∧
        (fatEnsureCache fill v fcb).2.firstCluster = fcb.firstCluster ∧
        (fatEnsureCache fill v fcb).2.cache.pageCount =
          max fcb.cache.pageCount (pagesOf fcb.fileSize) ∧
        (fatEnsureCache fill v fcb).2.cache.capacity =
          grownCapacity fcb.cache (pagesOf fcb.fileSize)) := by
  rw [fatEnsureCache]
  split
  · exact ⟨h, by rintro ⟨⟩⟩
  · split
    case isTrue hloaded =>
      have hframes := h.frames hloaded
      have hcapacity := h.capacity
      exact ⟨h, fun _ => ⟨hloaded, rfl, rfl, (Nat.max_eq_left hframes).symm,
        (grownCapacity_eq (Nat.le_trans hframes hcapacity)).symm⟩⟩
    case isFalse hloaded =>
      obtain ⟨hcapacity, hkept⟩ := miResizePageCache_counts fill.memory h.capacity h.small
      cases hresize : miResizePageCache fill.memory fcb.cache fcb.fileSize with
      | mk resized cache =>
        rw [hresize] at hcapacity hkept
        cases resized with
        | error status => exact ⟨⟨h.small, hcapacity, fun hload => absurd hload hloaded⟩, by rintro ⟨⟩⟩
        | ok _ =>
          obtain ⟨hcount, hgrown⟩ := miResizePageCache_ok_counts hresize
          simp only
          cases fillLoop v fill.cancelled fcb.fileSize (fcb.fileSize / fatSectorSize + 1) 0
              fcb.firstCluster 0 cache.bytes with
          | mk filled bytes =>
            cases filled with
            | error status => exact ⟨⟨h.small, hcapacity, fun hload => absurd hload hloaded⟩, by rintro ⟨⟩⟩
            | ok _ =>
              refine ⟨⟨h.small, hcapacity, fun _ => ?_⟩, fun _ => ⟨rfl, rfl, rfl, hcount, hgrown⟩⟩
              exact Nat.le_trans (Nat.le_max_right ..) (Nat.le_of_eq hcount.symm)

theorem scrubExtension_withBytes (v : Volume) (fcb : Fcb) (oldSize newSize : Nat) :
    ∃ bytes, (scrubExtension v fcb oldSize newSize).2 = fcb.withBytes bytes := by
  rw [scrubExtension]
  split
  · exact ⟨_, rfl⟩
  · exact ⟨fcb.cache.bytes, rfl⟩

variable {env : Resize}

theorem CacheInv.setFileSize (h : CacheInv fcb) (hmemory : ResizeHasMemory v env fcb newSize) :
    CacheInv (fatSetFileSize env v dir fcb newSize).2.2 := by
  rw [fatSetFileSize]
  split
  · exact h
  case isFalse hsmall =>
    obtain ⟨hinv, hfilled⟩ := h.ensureCache env.fill v
    rw [ResizeHasMemory] at hmemory
    generalize fatEnsureCache env.fill v fcb = ensured at hinv hfilled hmemory
    obtain ⟨_ | _, fcb1⟩ := ensured
    · exact hinv
    · obtain ⟨hloaded, hsize, hfirst, hcount, hcapacity⟩ := hfilled rfl
      simp only at hinv hloaded hsize hfirst hcount hcapacity
      rw [← hfirst] at hmemory
      simp only
      generalize resizeChain env.cancelled v fcb1.firstCluster newSize = resized at hmemory
      obtain ⟨_ | first', v1⟩ := resized
      · exact hinv
      · obtain ⟨hframes, hslots⟩ := hmemory (by omega) rfl rfl
        rw [← hcount] at hframes
        rw [← hcapacity] at hslots
        obtain ⟨cache, hcache⟩ := miResizePageCache_enough hframes hslots
        obtain ⟨hcounts, _⟩ := miResizePageCache_counts env.memory hinv.capacity
          (show newSize ≤ 0xFFFFFFFF by omega)
        rw [hcache] at hcounts
        simp only [hcache]
        obtain ⟨hpages, _⟩ := miResizePageCache_ok_counts hcache
        generalize hfcb2 : ({ fcb1 with
          firstCluster := first', fileSize := newSize, writeDate := env.date, writeTime := env.time,
          cache := cache } : Fcb) = fcb2
        obtain ⟨bytes, hscrub⟩ := scrubExtension_withBytes v1 fcb2 fcb1.fileSize newSize
        rw [hscrub, ← hfcb2]
        refine ⟨show newSize ≤ _ by omega, hcounts, fun _ => ?_⟩
        exact Nat.le_trans (Nat.le_max_right ..) (Nat.le_of_eq hpages.symm)

theorem ResizeHasMemory.filled (h : ResizeHasMemory v env fcb newSize)
    (hinv : CacheInv fcb') (hok : (fatEnsureCache env.fill v fcb).1.isOk = true)
    (hsize : fcb'.fileSize = fcb.fileSize) (hfirst : fcb'.firstCluster = fcb.firstCluster)
    (hcount : fcb'.cache.pageCount = max fcb.cache.pageCount (pagesOf fcb.fileSize))
    (hcapacity : fcb'.cache.capacity = grownCapacity fcb.cache (pagesOf fcb.fileSize)) :
    ResizeHasMemory v env fcb' newSize := by
  intro hsmall _ hchain
  rw [hfirst] at hchain
  obtain ⟨hframes, hslots⟩ := h hsmall hok hchain
  have hslots' := hinv.capacity
  refine ⟨?_, ?_⟩
  · rw [hsize]
    omega
  · rw [hsize, grownCapacity_eq (show pagesOf fcb.fileSize ≤ fcb'.cache.capacity by omega), hcapacity]
    exact hslots

theorem CacheInv.prepareWrite (h : CacheInv fcb) {offset length : Nat} {writeToEnd : Bool}
    (hmemory : (CacheOp.prepareWrite v dir env offset length writeToEnd).HasMemory fcb) :
    CacheInv (fatVfsPrepareWrite env v dir fcb offset length writeToEnd).2.2 := by
  rw [fatVfsPrepareWrite]
  split
  · exact h
  · split
    · exact h
    · obtain ⟨hinv, hfilled⟩ := h.ensureCache env.fill v
      cases hensure : fatEnsureCache env.fill v fcb with
      | mk ensured fcb1 =>
        rw [hensure] at hinv hfilled
        cases ensured with
        | error status => exact hinv
        | ok _ =>
          obtain ⟨_, hsize, hfirst, hcount, hcapacity⟩ := hfilled rfl
          simp only at hinv hsize hfirst hcount hcapacity ⊢
          rw [CacheOp.HasMemory, ← hsize] at hmemory
          generalize (if writeToEnd = true then fcb1.fileSize else offset) = place at hmemory ⊢
          split
          case isTrue hgrow =>
            have hresize := (hmemory hgrow).filled hinv (by rw [hensure]; rfl) hsize hfirst hcount hcapacity
            have hset : CacheInv (fatSetFileSize env v dir fcb1 ((place + length) % 2 ^ 64)).2.2 :=
              hinv.setFileSize hresize
            generalize fatSetFileSize env v dir fcb1 ((place + length) % 2 ^ 64) = result at hset
            obtain ⟨_ | _, v2, fcb2⟩ := result
            · exact hset
            · exact hset
          case isFalse => exact hinv

theorem CacheInv.step {op : CacheOp} (h : CacheInv fcb) (hmemory : op.HasMemory fcb) :
    CacheInv (op.step fcb) := by
  cases op with
  | getCache v fill => exact (h.ensureCache fill v).1
  | setFileSize v dir env newSize => exact h.setFileSize hmemory
  | prepareWrite v dir env offset length writeToEnd => exact h.prepareWrite hmemory
  | write offset buffer => exact ⟨h.small, h.capacity, h.frames⟩
  | teardown memory =>
    exact ⟨h.small, (miResizePageCache_counts memory h.capacity (by decide)).1, nofun⟩
  | reopen firstCluster fileSize =>
    exact ⟨Nat.le_of_lt_succ fileSize.isLt, Nat.le_refl 0, nofun⟩

theorem CacheInv.run {ops : List CacheOp} (h : CacheInv fcb) (hmemory : RunHasMemory ops fcb) :
    CacheInv (runCache ops fcb) := by
  induction ops generalizing fcb with
  | nil => exact h
  | cons op ops ih => exact ih (h.step hmemory.1) hmemory.2

/-- In a run from a control block without a cache, in which the resizes have their memory, the cache
covers the file in every state that is reached. -/
theorem runCache_covers {ops : List CacheOp} (hsize : fcb.fileSize ≤ 0xFFFFFFFF)
    (hcache : fcb.cache = miInitializePageCache) (hloaded : fcb.cacheLoaded = false)
    (hmemory : RunHasMemory ops fcb) : CacheCovers (runCache ops fcb) := by
  have hinv : CacheInv fcb := by
    refine ⟨hsize, ?_, ?_⟩
    · rw [hcache]
      exact Nat.le_refl 0
    · rw [hloaded]
      nofun
  exact (hinv.run hmemory).covers

end

/-- A file grown to two pages, with memory for them. -/
theorem runCache_covers_grown :
    CacheCovers (runCache [.setFileSize emptyVolume 2 plenty 4097] (openedFile 0 0)) := by
  refine runCache_covers (by decide) rfl rfl ⟨fun _ _ _ => ⟨by decide, .inl rfl⟩, trivial⟩

/-- A file grown to two pages when there is one frame left. -/
theorem runCache_uncovered : ¬ CacheCovers
    (runCache [.setFileSize emptyVolume 2 { plenty with memory := ⟨true, 1⟩ } 4097] (openedFile 0 0)) := by
  intro h
  have hstate : (runCache [.setFileSize emptyVolume 2 { plenty with memory := ⟨true, 1⟩ } 4097]
      (openedFile 0 0)).cacheLoaded = true ∧
      ¬ pagesOf (runCache [.setFileSize emptyVolume 2 { plenty with memory := ⟨true, 1⟩ } 4097]
        (openedFile 0 0)).fileSize ≤
        (runCache [.setFileSize emptyVolume 2 { plenty with memory := ⟨true, 1⟩ } 4097]
          (openedFile 0 0)).cache.pageCount := by
    decide +kernel
  exact hstate.2 (h.frames hstate.1)

end Proskrnl.Fat
