import Proskrnl.Abi.Status
import Mathlib.Data.List.Basic

/-!
# The page cache of a file

`kernel/mm/pagecache.c`. The frames of a file stand behind one another here, so that byte `p` of the
file is byte `p` of the cache and a loop over the pages of a range is one store to the range.
-/

namespace Proskrnl.Mm.Cache

def pageSize : Nat := 4096

/-- `MI_PAGE_CACHE`. -/
structure PageCache where
  fileSize : Nat
  pageCount : Nat
  capacity : Nat
  bytes : Nat → UInt8

/-- `MiInitializePageCache`, and what `MiDeletePageCache` leaves. -/
def miInitializePageCache : PageCache where
  fileSize := 0
  pageCount := 0
  capacity := 0
  bytes := fun _ => 0

/-- What the allocators can give: the array of slots, and this many frames. -/
structure Memory where
  slots : Bool
  frames : Nat

/-- `memset` with zero of the bytes from `low` to `high`. -/
def zeroRange (bytes : Nat → UInt8) (low high : Nat) : Nat → UInt8 :=
  fun p => if low ≤ p ∧ p < high then 0 else bytes p

/-- The doubling of the capacity in `MiResizePageCache`. -/
def doubledCapacity : Nat → Nat → Nat → Nat
  | 0, capacity, _ => capacity
  | rounds + 1, capacity, pages =>
    if capacity < pages then doubledCapacity rounds (capacity * 2) pages else capacity

/-- The capacity of the slot array for this many pages; growing it doubles it. -/
def grownCapacity (cache : PageCache) (newPages : Nat) : Nat :=
  if newPages > cache.capacity then
    doubledCapacity 32 (if cache.capacity ≠ 0 then cache.capacity else 8) newPages
  else cache.capacity

def pagesOf (fileSize : Nat) : Nat := (fileSize + pageSize - 1) / pageSize

def miResizePageCache (memory : Memory) (cache : PageCache) (newFileSize : Nat) :
    Except NtStatus Unit × PageCache :=
  let newPages := pagesOf newFileSize
  if newPages > cache.capacity ∧ memory.slots = false then
    (.error statusInsufficientResources, cache)
  else
    let capacity := grownCapacity cache newPages
    if newPages - cache.pageCount > memory.frames then
      -- the frames there were are kept
      let pageCount := cache.pageCount + memory.frames
      (.error statusInsufficientResources,
        { cache with
          capacity
          pageCount
          bytes := zeroRange cache.bytes (cache.pageCount * pageSize) (pageCount * pageSize) })
    else
      let pageCount := if newPages > cache.pageCount then newPages else cache.pageCount
      let bytes := zeroRange cache.bytes (cache.pageCount * pageSize) (pageCount * pageSize)
      let bytes :=
        if newFileSize < cache.fileSize then zeroRange bytes newFileSize (pageCount * pageSize)
        else bytes
      (.ok (), { fileSize := newFileSize, pageCount, capacity, bytes })

def miCacheRead (cache : PageCache) (offset length : Nat) : List UInt8 :=
  (List.range length).map fun i => cache.bytes (offset + i)

def miCacheWrite (cache : PageCache) (offset : Nat) (buffer : List UInt8) : PageCache :=
  { cache with
    bytes := fun p =>
      if offset ≤ p ∧ p < offset + buffer.length then buffer.getD (p - offset) 0
      else cache.bytes p }

/-- A cache that holds a file of this size: every page of it, and pages past them that were never
written or were cleared. -/
structure PageCache.Covers (cache : PageCache) (size : Nat) : Prop where
  fileSize : cache.fileSize = size
  pages : pagesOf size ≤ cache.pageCount
  clear : ∀ p, pagesOf size * pageSize ≤ p → p < cache.pageCount * pageSize → cache.bytes p = 0

variable {cache cache' : PageCache} {memory : Memory} {size newSize : Nat}

theorem le_pagesOf (size : Nat) : size ≤ pagesOf size * pageSize := by
  rw [pagesOf, pageSize]
  omega

theorem pagesOf_mono {n m : Nat} (h : n ≤ m) : pagesOf n ≤ pagesOf m := by
  rw [pagesOf, pagesOf, pageSize]
  omega

/-- A byte of a page in front of the last one of a file, or in its last one. -/
theorem lt_pagesOf {p n : Nat} (h : p < n) : p / pageSize < pagesOf n := by
  rw [pagesOf, pageSize]
  omega

theorem miResizePageCache_ok (h : miResizePageCache memory cache newSize = (.ok (), cache')) :
    cache'.fileSize = newSize ∧ cache'.pageCount = max cache.pageCount (pagesOf newSize) ∧
      ∀ p, cache'.bytes p =
        if cache.pageCount * pageSize ≤ p ∧ p < cache'.pageCount * pageSize ∨
          newSize < cache.fileSize ∧ newSize ≤ p ∧ p < cache'.pageCount * pageSize then 0
        else cache.bytes p := by
  rw [miResizePageCache] at h
  split at h
  · cases h
  · split at h
    · cases h
    · have hcount : (if pagesOf newSize > cache.pageCount then pagesOf newSize else cache.pageCount) =
          max cache.pageCount (pagesOf newSize) := by
        split <;> omega
      cases h
      refine ⟨rfl, hcount, fun p => ?_⟩
      simp only [hcount]
      generalize max cache.pageCount (pagesOf newSize) * pageSize = covered
      by_cases hshrink : newSize < cache.fileSize
      · rw [if_pos hshrink, zeroRange, zeroRange]
        by_cases hscrub : newSize ≤ p ∧ p < covered
        · rw [if_pos hscrub, if_pos (.inr ⟨hshrink, hscrub⟩)]
        · rw [if_neg hscrub]
          by_cases hfresh : cache.pageCount * pageSize ≤ p ∧ p < covered
          · rw [if_pos hfresh, if_pos (.inl hfresh)]
          · rw [if_neg hfresh, if_neg]
            rintro (h | h)
            · exact hfresh h
            · exact hscrub h.2
      · rw [if_neg hshrink, zeroRange]
        by_cases hfresh : cache.pageCount * pageSize ≤ p ∧ p < covered
        · rw [if_pos hfresh, if_pos (.inl hfresh)]
        · rw [if_neg hfresh, if_neg]
          rintro (h | h)
          · exact hfresh h
          · exact hshrink h.1

/-- A resize keeps the bytes that stay in the file. The bytes from the end of the smaller size on are
zero in every page but the one that held the old end. -/
theorem PageCache.Covers.resize (hcovers : cache.Covers size)
    (h : miResizePageCache memory cache newSize = (.ok (), cache')) :
    cache'.Covers newSize ∧ (∀ p < min size newSize, cache'.bytes p = cache.bytes p) ∧
      ∀ p, pagesOf size * pageSize ≤ p → p < newSize → cache'.bytes p = 0 := by
  obtain ⟨hfileSize, hcount, hbytes⟩ := miResizePageCache_ok h
  have hpages := hcovers.pages
  have hsize := hcovers.fileSize
  have hle := le_pagesOf size
  have hle' := le_pagesOf newSize
  have hcovered : pagesOf size * pageSize ≤ cache.pageCount * pageSize :=
    Nat.mul_le_mul_right _ hpages
  have hcovered' : pagesOf newSize * pageSize ≤ cache'.pageCount * pageSize :=
    Nat.mul_le_mul_right _ (by rw [hcount]; exact Nat.le_max_right ..)
  have hgrown : cache.pageCount * pageSize ≤ cache'.pageCount * pageSize :=
    Nat.mul_le_mul_right _ (by rw [hcount]; exact Nat.le_max_left ..)
  -- past the pages of the old size nothing but zero was ever there
  have hzero : ∀ p, pagesOf size * pageSize ≤ p → p < cache'.pageCount * pageSize →
      cache'.bytes p = 0 := by
    intro p hp hp'
    rw [hbytes]
    split
    · rfl
    case isFalse hkept => exact hcovers.clear p hp (by omega)
  refine ⟨⟨hfileSize, ?_, fun p hp hp' => ?_⟩, fun p hp => ?_, fun p hp hp' => hzero p hp (by omega)⟩
  · rw [hcount]
    exact Nat.le_max_right ..
  · by_cases hshrink : newSize < cache.fileSize
    · rw [hbytes, if_pos (.inr ⟨hshrink, by omega, hp'⟩)]
    · have hmono : pagesOf size * pageSize ≤ pagesOf newSize * pageSize :=
        Nat.mul_le_mul_right _ (pagesOf_mono (by omega))
      exact hzero p (by omega) hp'
  · rw [hbytes, if_neg (by omega)]

theorem PageCache.Covers.resize_error {status : NtStatus} (hcovers : cache.Covers size)
    (h : miResizePageCache memory cache newSize = (.error status, cache')) : cache'.Covers size := by
  rw [miResizePageCache] at h
  split at h
  · cases h
    exact hcovers
  · split at h
    case isTrue =>
      cases h
      refine ⟨hcovers.fileSize, ?_, fun p hp hp' => ?_⟩
      · have hpages := hcovers.pages
        simp only
        omega
      · simp only at hp'
        simp only [zeroRange]
        split
        · rfl
        · exact hcovers.clear p hp (by omega)
    case isFalse => cases h

theorem PageCache.Covers.initialize : miInitializePageCache.Covers 0 :=
  ⟨rfl, Nat.le_of_eq rfl, fun _ _ _ => rfl⟩

end Proskrnl.Mm.Cache
