import Proskrnl.Library.Allocations
import Proskrnl.Mm.ImageLoads
import Proskrnl.Mm.PageCache

/-!
# Building an image master

`MipBuildImageMaster` of `kernel/mm/section.c` with what it calls: the raw bytes of the file, the frames
that are committed and filled, the relocation pass, and the unwinding when any of it fails. What the
allocators give and get back is logged, and the copy of the image a master holds is that of `ImageCopy`.
-/

namespace Proskrnl.Mm.Pe

open Traps Outcome List
open Allocations (Balanced)
open Intervals (Laid)

/-- `MI_IMAGE_MASTER`: the blocks of the pool it is made of, and its frames by page, `0` for none. What
is in a frame stands at the place of its page in the image. -/
structure Master where
  record : Nat
  table : Nat
  identity : Nat
  base : Nat
  pageCount : Nat
  refCount : Nat := 0
  frames : Nat → Nat := fun _ => 0
  byte : Nat → UInt8 := fun _ => 0

namespace Master

def copy (master : Master) : ImageCopy where
  committed page := decide (master.frames page ≠ 0)
  byte := master.byte

def put (master : Master) (page frame : Nat) : Master :=
  { master with
    frames := Function.update master.frames page frame
    byte := fun rva => if rva / pageSize = page then 0 else master.byte rva }

/-- `memcpy` into the frame of a page. -/
def write (master : Master) (rva : Nat) (bytes : List UInt8) : Master :=
  { master with
    byte := fun a =>
      if rva ≤ a ∧ a < rva + bytes.length then bytes.getD (a - rva) 0 else master.byte a }

end Master

/-- `MipImageMasterList` with its counters. -/
structure MasterList where
  masters : List Master := []
  masterBuilds : Nat := 0
  masterLive : Nat := 0

/-- What the allocators will answer, what they gave and got back, the frames that masters own by the
counter, and the list of the masters. -/
structure Loader where
  pool : List Bool
  pages : List Bool
  next : Nat := 1
  allocated : List Nat := []
  freed : List Nat := []
  masterFrames : Nat := 0
  list : MasterList := {}

namespace Loader

/-- A block or a frame that was not given before. -/
def take (l : Loader) : Loader := { l with next := l.next + 1, allocated := l.next :: l.allocated }

def miAllocatePool (l : Loader) : Option Nat × Loader :=
  match l.pool with
  | true :: pool => (some l.next, { l with pool }.take)
  | _ => (none, { l with pool := l.pool.tail })

def miAllocatePage (l : Loader) : Option Nat × Loader :=
  match l.pages with
  | true :: pages => (some l.next, { l with pages }.take)
  | _ => (none, { l with pages := l.pages.tail })

/-- `MiFreePool` and `MiFreePage`, which panic over what is not allocated. -/
def free (l : Loader) (block : Nat) : Load Loader := do
  assert (block ∈ l.allocated ∧ block ∉ l.freed)
  .ok { l with freed := block :: l.freed }

/-- The end of the list of the masters, and the counters of a build. -/
def link (l : Loader) (master : Master) : Loader :=
  { l with
    list :=
      { masters := l.list.masters ++ [master]
        masterBuilds := l.list.masterBuilds + 1
        masterLive := l.list.masterLive + 1 } }

end Loader

/-- Where a section has the bytes of its file: in the snapshot it was created over, or, when that is
released, in the cache of the file. -/
inductive RawSource
  | snapshot
  | cache (cache : Cache.PageCache) (resident : cache.Covers cache.fileSize)

/-- `MiAcquireImageRawBytes` for a section over `data`: the bytes, and the block to free, `0` for none. -/
def miAcquireImageRawBytes (data : List UInt8) (l : Loader) :
    RawSource → Load (Except NtStatus (List UInt8 × Nat) × Loader)
  | .snapshot => .ok (.ok (data, 0), l)
  | .cache cache _ =>
    if cache.fileSize < data.length then .ok (.error statusInvalidImageFormat, l)
    else match l.miAllocatePool with
      | (none, l) => .ok (.error statusNoMemory, l)
      | (some temp, l) => do
        assert (data.length ≤ cache.pageCount * Cache.pageSize)
        .ok (.ok (Cache.miCacheRead cache 0 data.length, temp), l)

def miReleaseImageRawBytes (temp : Nat) (l : Loader) : Load Loader :=
  if temp ≠ 0 then l.free temp else .ok l

/-- The first loop of `MipMasterCommitRange`. -/
def commitPages : List Nat → Master → Loader → Load (Except NtStatus Unit × Master × Loader)
  | [], master, l => .ok (.ok (), master, l)
  | page :: pages, master, l => do
    assert (page < master.pageCount ∧ master.frames page = 0)
    match l.miAllocatePage with
    | (none, l) => .ok (.error statusNoMemory, master, l)
    | (some frame, l) =>
      commitPages pages (master.put page frame) { l with masterFrames := l.masterFrames + 1 }

/-- The second loop of `MipMasterCommitRange`: a chunk of the file into each page. -/
def copyRange (raw : List UInt8) (range : ImageRange) (copied : Nat) (master : Master) : Load Master :=
  if range.rawSize ≤ copied then .ok master
  else
    let chunk := min pageSize (range.rawSize - copied)
    let page := range.rva / pageSize + copied / pageSize
    if master.pageCount ≤ page ∨ master.frames page = 0 then .error .outside
    else do
      let bytes ← Traps.copied raw (range.rawOffset + copied) chunk
      copyRange raw range (copied + chunk) (master.write (page * pageSize) bytes)
termination_by range.rawSize - copied
decreasing_by
  have hsize : pageSize = 4096 := rfl
  omega

def mipMasterCommitRange (raw : List UInt8) (range : ImageRange) (master : Master) (l : Loader) :
    Load (Except NtStatus Unit × Master × Loader) := do
  assert (range.rva % pageSize = 0)
  let (status, master, l) ← commitPages range.pageList master l
  match status with
  | .error status => .ok (.error status, master, l)
  | .ok () => do
    let master ← copyRange raw range 0 master
    .ok (.ok (), master, l)

/-- The headers and the segments, until one fails. -/
def commitRanges (raw : List UInt8) :
    List ImageRange → Master → Loader → Load (Except NtStatus Unit × Master × Loader)
  | [], master, l => .ok (.ok (), master, l)
  | range :: ranges, master, l => do
    let (status, master, l) ← mipMasterCommitRange raw range master l
    match status with
    | .error status => .ok (.error status, master, l)
    | .ok () => commitRanges raw ranges master l

/-- The loop of `MipFreeImageMaster`, with `n` pages to go. -/
def freeFrames (master : Master) : Nat → Nat → Loader → Load Loader
  | 0, _, l => .ok l
  | n + 1, page, l =>
    if master.frames page ≠ 0 then do
      let l ← l.free (master.frames page)
      assert (0 < l.masterFrames)
      freeFrames master n (page + 1) { l with masterFrames := l.masterFrames - 1 }
    else freeFrames master n (page + 1) l

def mipFreeImageMaster (master : Master) (l : Loader) : Load Loader := do
  let l ← freeFrames master master.pageCount 0 l
  let l ← l.free master.table
  l.free master.record

/-- The entries of a relocation block, from an offset of the file on. -/
def relocateEntries (image : ImageInfo) (raw : List UInt8) (delta blockRva : Nat) :
    Nat → Nat → Master → Load Master
  | 0, _, master => .ok master
  | n + 1, offset, master => do
    let entry ← member raw 2 offset 0 2
    match relocateEntry image delta blockRva entry master.copy with
    | .ok copy =>
      relocateEntries image raw delta blockRva n (offset + 2) { master with byte := copy.byte }
    | .error (.status status) => .error (.refused status)
    | .error .halt => .error .assertion

/-- The loop over the blocks of `MipRelocateImage`. -/
def relocateBlocks (image : ImageInfo) (raw : List UInt8) (delta end_ cursor : Nat) (master : Master) :
    Load Master :=
  if end_ < cursor + 8 then .ok master
  else do
    let blockRva ← copiedField raw cursor 4
    let sizeOfBlock ← copiedField raw (cursor + 4) 4
    if sizeOfBlock < 8 ∨ end_ < cursor + sizeOfBlock then .ok master
    else do
      let master ←
        relocateEntries image raw delta blockRva ((sizeOfBlock - 8) / 2) (cursor + 8) master
      relocateBlocks image raw delta end_ (cursor + sizeOfBlock) master
termination_by end_ - cursor

def mipRelocateImage (image : ImageInfo) (raw : List UInt8) (delta : Nat) (master : Master) :
    Load Master :=
  if image.relocRva = 0 ∨ image.relocSize = 0 then .ok master
  else match mipRvaToFileOffset image image.relocRva image.relocSize with
    | none => .error (.refused statusInvalidImageFormat)
    | some offset => relocateBlocks image raw delta (offset + image.relocSize) offset master

/-- The relocation of a master for a base, with the base stamped into its header. -/
def relocateMaster (image : ImageInfo) (raw : List UInt8) (master : Master) : Load Master :=
  if master.base = image.preferredBase then .ok master
  else do
    let delta := uint64 (master.base + 2 ^ 64 - image.preferredBase)
    let master ← mipRelocateImage image raw delta master
    match mipMasterAddDelta master.copy image.baseField.1 image.baseField.2 delta with
    | some copy => .ok { master with byte := copy.byte }
    | none => .error .assertion

def fillMaster (image : ImageInfo) (raw : List UInt8) (master : Master) (l : Loader) :
    Load (Except NtStatus Unit × Master × Loader) := do
  let (status, master, l) ← commitRanges raw (image.ranges raw.length) master l
  match status with
  | .error status => .ok (.error status, master, l)
  | .ok () =>
    match ← answered (relocateMaster image raw master) with
    | .error status => .ok (.error status, master, l)
    | .ok master => .ok (.ok (), master, l)

def allocateMaster (image : ImageInfo) (identity base : Nat) (l : Loader) :
    Load (Option Master × Loader) :=
  match l.miAllocatePool with
  | (none, l) => .ok (none, l)
  | (some record, l) =>
    match l.miAllocatePool with
    | (none, l) => do
      let l ← l.free record
      .ok (none, l)
    | (some table, l) =>
      .ok (some { record, table, identity, base, pageCount := ulong (image.sizeOfImage / pageSize) }, l)

/-- `MipBuildImageMaster` for a section over `data`, whose image is parsed. -/
def mipBuildImageMaster (data : List UInt8) (source : RawSource) (image : ImageInfo)
    (identity base : Nat) (l : Loader) : Load (Except NtStatus Master × Loader) := do
  let (acquired, l) ← miAcquireImageRawBytes data l source
  match acquired with
  | .error status => .ok (.error status, l)
  | .ok (raw, temp) => do
    let (master, l) ← allocateMaster image identity base l
    match master with
    | none => do
      let l ← miReleaseImageRawBytes temp l
      .ok (.error statusNoMemory, l)
    | some master => do
      let (status, master, l) ← fillMaster image raw master l
      let l ← miReleaseImageRawBytes temp l
      match status with
      | .error status => do
        let l ← mipFreeImageMaster master l
        .ok (.error status, l)
      | .ok () => .ok (.ok master, l.link master)

variable {live live' : Nat → Prop} {l l' : Loader} {master master' : Master} {a b n : Nat}

/-- What is live of what the allocators gave; what they will give is new. -/
structure Loader.Holds (l : Loader) (live : Nat → Prop) : Prop where
  balanced : Balanced live l.allocated l.freed
  below : ∀ a ∈ l.allocated, 0 < a ∧ a < l.next
  pos : 0 < l.next

def Loader.Same (l l' : Loader) : Prop := l'.list = l.list ∧ l'.masterFrames = l.masterFrames

theorem Loader.Holds.congr (h : l.Holds live) (hlive : ∀ a, live' a ↔ live a) : l.Holds live' :=
  ⟨h.balanced.congr hlive, h.below, h.pos⟩

theorem Loader.Holds.bound (h : l.Holds live) (ha : live a) : 0 < a ∧ a < l.next :=
  h.below a ((h.balanced.accounted a).mpr (.inl ha))

theorem Loader.Holds.next (h : l.Holds live) : ¬ live l.next :=
  fun ha => absurd (h.bound ha).2 (Nat.lt_irrefl _)

theorem Loader.Holds.take (h : l.Holds live) : l.take.Holds fun a => live a ∨ a = l.next := by
  have hnew : l.next ∉ l.allocated := fun hmem => absurd (h.below _ hmem).2 (Nat.lt_irrefl _)
  refine ⟨h.balanced.allocate hnew fun _ => Iff.rfl, fun a ha => ?_, Nat.succ_pos _⟩
  rcases mem_cons.mp ha with rfl | ha
  · exact ⟨h.pos, Nat.lt_succ_self _⟩
  · exact ⟨(h.below a ha).1, Nat.lt_succ_of_lt (h.below a ha).2⟩

def Allocates (l : Loader) (live : Nat → Prop) : Option Nat × Loader → Prop
  | (none, l') => l'.Holds live ∧ l.Same l'
  | (some b, l') => b ≠ 0 ∧ ¬ live b ∧ (l'.Holds fun a => live a ∨ a = b) ∧ l.Same l'

theorem miAllocatePool_allocates (h : l.Holds live) : Allocates l live l.miAllocatePool := by
  rw [Loader.miAllocatePool]
  split
  · exact ⟨h.pos.ne', h.next, Loader.Holds.take ⟨h.balanced, h.below, h.pos⟩, rfl, rfl⟩
  · exact ⟨⟨h.balanced, h.below, h.pos⟩, rfl, rfl⟩

theorem miAllocatePage_allocates (h : l.Holds live) : Allocates l live l.miAllocatePage := by
  rw [Loader.miAllocatePage]
  split
  · exact ⟨h.pos.ne', h.next, Loader.Holds.take ⟨h.balanced, h.below, h.pos⟩, rfl, rfl⟩
  · exact ⟨⟨h.balanced, h.below, h.pos⟩, rfl, rfl⟩

theorem Loader.Holds.free (h : l.Holds live) (ha : live a) :
    ∃ l', l.free a = .ok l' ∧ l.Same l' ∧ l'.pages = l.pages ∧ l'.Holds fun b => live b ∧ b ≠ a := by
  have hin : a ∈ l.allocated := (h.balanced.accounted a).mpr (.inl ha)
  refine ⟨{ l with freed := a :: l.freed }, ?_, ⟨rfl, rfl⟩, rfl, ?_, h.below, h.pos⟩
  · rw [Loader.free, assert_eq ⟨hin, fun hfreed => h.balanced.dead a hfreed ha⟩]
    rfl
  · exact h.balanced.free ha fun _ => Iff.rfl

def Master.Has (master : Master) (a : Nat) : Prop :=
  a = master.record ∨ a = master.table ∨ ∃ page, a = master.frames page ∧ a ≠ 0

structure Master.Apart (master : Master) (live : Nat → Prop) : Prop where
  record : ¬ live master.record
  table : ¬ live master.table ∧ master.table ≠ master.record
  frame : ∀ page, master.frames page ≠ 0 →
    ¬ live (master.frames page) ∧ master.frames page ≠ master.record ∧
      master.frames page ≠ master.table
  once : ∀ page page', master.frames page ≠ 0 → master.frames page = master.frames page' → page = page'
  inside : ∀ page, master.frames page ≠ 0 → page < master.pageCount

def Master.count (master : Master) (page n : Nat) : Nat :=
  (List.range' page n).countP fun page => master.frames page ≠ 0

/-- A master that is being built: it is live beside what else is, and `n` frames are other masters'. -/
structure Building (live : Nat → Prop) (n : Nat) (master : Master) (l : Loader) : Prop where
  holds : l.Holds fun a => live a ∨ master.Has a
  apart : master.Apart live
  frames : l.masterFrames = n + master.count 0 master.pageCount

theorem countP_turned {α : Type} {p p' : α → Bool} {xs : List α} {x : α} (hnodup : xs.Nodup)
    (hx : x ∈ xs) (hp : p x = false) (hp' : p' x = true) (hsame : ∀ y, y ≠ x → p' y = p y) :
    xs.countP p' = xs.countP p + 1 := by
  induction xs with
  | nil => cases hx
  | cons y xs ih =>
    obtain ⟨hy, hnodup⟩ := nodup_cons.mp hnodup
    rw [countP_cons, countP_cons]
    rcases mem_cons.mp hx with rfl | hx
    · have hrest : xs.countP p' = xs.countP p :=
        countP_congr fun z hz => by rw [hsame z fun heq => hy (heq ▸ hz)]
      rw [hrest, hp, hp']
      rfl
    · rw [ih hnodup hx, hsame y fun heq => hy (heq ▸ hx)]
      omega

theorem Building.put (h : Building live n master l) {page : Nat} (hpage : page < master.pageCount)
    (hnone : master.frames page = 0) (hb : b ≠ 0) (hfresh : ¬ (live b ∨ master.Has b))
    (hholds : l'.Holds fun a => (live a ∨ master.Has a) ∨ a = b)
    (hframes : l'.masterFrames = l.masterFrames + 1) : Building live n (master.put page b) l' := by
  have hself : (master.put page b).frames page = b := Function.update_self ..
  have hother {q : Nat} (hq : q ≠ page) : (master.put page b).frames q = master.frames q :=
    Function.update_of_ne hq ..
  obtain ⟨hlive, hhas⟩ := not_or.mp hfresh
  have hnew {q : Nat} (hq : master.frames q ≠ 0) : master.frames q ≠ b :=
    fun heq => hhas (.inr (.inr ⟨q, heq.symm, hb⟩))
  refine ⟨hholds.congr fun a => ?_, ⟨h.apart.record, h.apart.table, fun q hq => ?_, ?_, ?_⟩, ?_⟩
  · have hiff : (master.put page b).Has a ↔ master.Has a ∨ a = b := by
      constructor
      · rintro (rfl | rfl | ⟨q, rfl, hne⟩)
        · exact .inl (.inl rfl)
        · exact .inl (.inr (.inl rfl))
        · by_cases hq : q = page
          · exact .inr (hq ▸ hself)
          · rw [hother hq] at hne ⊢
            exact .inl (.inr (.inr ⟨q, rfl, hne⟩))
      · rintro ((rfl | rfl | ⟨q, rfl, hne⟩) | rfl)
        · exact .inl rfl
        · exact .inr (.inl rfl)
        · have hq : q ≠ page := fun heq => hne (heq ▸ hnone)
          exact .inr (.inr ⟨q, (hother hq).symm, hne⟩)
        · exact .inr (.inr ⟨page, hself.symm, hb⟩)
    rw [hiff, or_assoc]
  · by_cases heq : q = page
    · subst heq
      rw [hself]
      exact ⟨hlive, fun h => hhas (.inl h), fun h => hhas (.inr (.inl h))⟩
    · rw [hother heq] at hq ⊢
      exact h.apart.frame q hq
  · intro q q' hq heq
    by_cases hqp : q = page <;> by_cases hqp' : q' = page
    · rw [hqp, hqp']
    · rw [hqp, hself, hother hqp'] at heq
      exact absurd heq.symm (hnew (heq ▸ hb))
    · rw [hother hqp] at hq heq
      rw [hqp', hself] at heq
      exact absurd heq (hnew hq)
    · rw [hother hqp] at hq heq
      rw [hother hqp'] at heq
      exact h.apart.once q q' hq heq
  · intro q hq
    by_cases heq : q = page
    · exact heq ▸ hpage
    · rw [hother heq] at hq
      exact h.apart.inside q hq
  · have hcount : (master.put page b).count 0 master.pageCount = master.count 0 master.pageCount + 1 := by
      apply countP_turned (x := page)
      · exact nodup_range'
      · exact mem_range'_1.mpr ⟨Nat.zero_le _, by omega⟩
      · simp [hnone]
      · simp [hself, hb]
      · intro q hq
        rw [hother hq]
    change _ = n + (master.put page b).count 0 master.pageCount
    rw [hframes, h.frames, hcount, Nat.add_assoc]

def Master.HasFrom (master : Master) (page a : Nat) : Prop :=
  a = master.record ∨ a = master.table ∨ ∃ q, page ≤ q ∧ a = master.frames q ∧ a ≠ 0

variable {page : Nat} {raw : List UInt8} {range : ImageRange}

theorem freeFrames_spec (hapart : master.Apart live) {m : Nat}
    (hholds : l.Holds fun a => live a ∨ master.HasFrom page a)
    (hframes : l.masterFrames = n + master.count page m) :
    ∃ l', freeFrames master m page l = .ok l' ∧ l'.list = l.list ∧ l'.masterFrames = n ∧
      l'.Holds fun a => live a ∨ master.HasFrom (page + m) a := by
  induction m generalizing page l with
  | zero => exact ⟨l, rfl, rfl, hframes, hholds⟩
  | succ m ih =>
    rw [Master.count, range'_succ, countP_cons] at hframes
    by_cases hne : master.frames page ≠ 0
    · rw [if_pos (by simpa using hne)] at hframes
      obtain ⟨hlive, hrecord, htable⟩ := hapart.frame page hne
      obtain ⟨l', hfree, ⟨hlist, hsame⟩, -, hholds'⟩ :=
        hholds.free (.inr (.inr (.inr ⟨page, Nat.le_refl _, rfl, hne⟩)))
      have hcount : master.count (page + 1) m =
          (List.range' (page + 1) m).countP fun page => decide (master.frames page ≠ 0) := rfl
      rw [freeFrames, if_pos hne, hfree]
      simp only [bind, Except.bind]
      rw [assert_eq (by omega)]
      have hnext := @ih { l' with masterFrames := l'.masterFrames - 1 } (page + 1)
        ((Loader.Holds.mk hholds'.balanced hholds'.below hholds'.pos : Loader.Holds
          { l' with masterFrames := l'.masterFrames - 1 } _).congr fun a => ?_)
        (by change l'.masterFrames - 1 = _; omega)
      · obtain ⟨l'', hrest, hlist', hframes', hholds''⟩ := hnext
        exact ⟨l'', hrest, hlist'.trans hlist, hframes', by rwa [Nat.add_right_comm] at hholds''⟩
      · constructor
        · rintro (ha | rfl | rfl | ⟨q, hq, rfl, ha⟩)
          · exact ⟨.inl ha, fun heq => hlive (heq ▸ ha)⟩
          · exact ⟨.inr (.inl rfl), Ne.symm hrecord⟩
          · exact ⟨.inr (.inr (.inl rfl)), Ne.symm htable⟩
          · refine ⟨.inr (.inr (.inr ⟨q, by omega, rfl, ha⟩)), fun heq => ?_⟩
            have := hapart.once q page ha heq
            omega
        · rintro ⟨ha | rfl | rfl | ⟨q, hq, rfl, ha⟩, hnot⟩
          · exact .inl ha
          · exact .inr (.inl rfl)
          · exact .inr (.inr (.inl rfl))
          · refine .inr (.inr (.inr ⟨q, ?_, rfl, ha⟩))
            have : q ≠ page := fun heq => hnot (heq ▸ rfl)
            omega
    · rw [if_neg (by simpa using hne)] at hframes
      rw [freeFrames, if_neg hne]
      have hholds' : l.Holds fun a => live a ∨ master.HasFrom (page + 1) a := by
        refine hholds.congr fun a => or_congr_right (or_congr_right (or_congr_right ?_))
        constructor
        · rintro ⟨q, hq, rfl, ha⟩
          exact ⟨q, by omega, rfl, ha⟩
        · rintro ⟨q, hq, rfl, ha⟩
          have : q ≠ page := fun heq => hne (heq ▸ ha)
          exact ⟨q, by omega, rfl, ha⟩
      obtain ⟨l', hrest, hlist, hframes', hholds''⟩ := ih hholds' hframes
      exact ⟨l', hrest, hlist, hframes', by rwa [Nat.add_right_comm] at hholds''⟩

theorem mipFreeImageMaster_spec (h : Building live n master l) :
    ∃ l', mipFreeImageMaster master l = .ok l' ∧ l'.list = l.list ∧ l'.masterFrames = n ∧
      l'.Holds live := by
  have hfrom : l.Holds fun a => live a ∨ master.HasFrom 0 a := by
    refine h.holds.congr fun a => or_congr_right (or_congr_right (or_congr_right ?_))
    simp
  obtain ⟨l1, hloop, hlist, hframes, hholds⟩ := freeFrames_spec h.apart hfrom h.frames
  have hnone (a : Nat) : master.HasFrom (0 + master.pageCount) a ↔
      a = master.record ∨ a = master.table := by
    refine or_congr_right (or_iff_left ?_)
    rintro ⟨q, hq, rfl, ha⟩
    have := h.apart.inside q ha
    omega
  simp only [hnone] at hholds
  obtain ⟨hnotTable, htable⟩ := h.apart.table
  obtain ⟨l2, hfree2, ⟨hlist2, hframes2⟩, -, hholds2⟩ := hholds.free (.inr (.inr rfl))
  obtain ⟨l3, hfree3, ⟨hlist3, hframes3⟩, -, hholds3⟩ :=
    hholds2.free ⟨.inr (.inl rfl), Ne.symm htable⟩
  refine ⟨l3, ?_, hlist3.trans (hlist2.trans hlist), hframes3.trans (hframes2.trans hframes), ?_⟩
  · rw [mipFreeImageMaster, hloop]
    simp only [bind, Except.bind]
    rw [hfree2]
    exact hfree3
  · refine hholds3.congr fun a => ⟨fun ha => ?_, ?_⟩
    · exact ⟨⟨.inl ha, fun heq => hnotTable (heq ▸ ha)⟩, fun heq => h.apart.record (heq ▸ ha)⟩
    · rintro ⟨⟨ha | rfl | rfl, hnot⟩, hnot'⟩
      · exact ha
      · exact absurd rfl hnot'
      · exact absurd rfl hnot

def Master.Clean (master : Master) : Prop :=
  ∀ rva, master.frames (rva / pageSize) = 0 → master.byte rva = 0

def Master.Grows (master master' : Master) : Prop :=
  master' = { master with frames := master'.frames, byte := master'.byte }

theorem Master.Grows.trans {master'' : Master} (h : master.Grows master') (h' : master'.Grows master'') :
    master.Grows master'' := by
  rw [Master.Grows, h', h]

theorem Master.Clean.put_byte (h : master.Clean) (hnone : master.frames page = 0) :
    (master.put page b).byte = master.byte := by
  funext rva
  by_cases hpage : rva / pageSize = page
  · exact (if_pos hpage).trans (h rva (hpage ▸ hnone)).symm
  · exact if_neg hpage

def Plenty (k : Nat) (l : Loader) : Prop := ∃ rest, l.pages = List.replicate k true ++ rest

theorem miAllocatePage_plenty {k : Nat} (h : Plenty (k + 1) l) :
    l.miAllocatePage.1 ≠ none ∧ Plenty k l.miAllocatePage.2 := by
  obtain ⟨rest, hpages⟩ := h
  rw [replicate_succ, cons_append] at hpages
  rw [Loader.miAllocatePage, hpages]
  exact ⟨nofun, rest, rfl⟩

/-- What the loop over the pages leaves: the pages have frames, and failing takes too few pages. -/
structure Committed (pages : List Nat) (master : Master) (l : Loader) (live : Nat → Prop) (n : Nat)
    (r : Except NtStatus Unit × Master × Loader) : Prop where
  building : Building live n r.2.1 r.2.2
  grows : master.Grows r.2.1
  list : r.2.2.list = l.list
  frames : r.1 = .ok () → ∀ q, r.2.1.frames q ≠ 0 ↔ master.frames q ≠ 0 ∨ q ∈ pages
  plenty : ∀ k, Plenty (pages.length + k) l → r.1 = .ok () ∧ Plenty k r.2.2

theorem commitPages_ends {pages : List Nat} (h : Building live n master l) (hclean : master.Clean)
    (hnodup : pages.Nodup)
    (hfree : ∀ page ∈ pages, page < master.pageCount ∧ master.frames page = 0) :
    Ends (fun _ => False) (commitPages pages master l) fun r =>
      Committed pages master l live n r ∧ r.2.1.byte = master.byte := by
  induction pages generalizing master l with
  | nil => exact Ends.ok ⟨⟨h, rfl, rfl, fun _ q => by simp, fun k hk => ⟨rfl, by simpa using hk⟩⟩, rfl⟩
  | cons page pages ih =>
    obtain ⟨hpage, hnodup⟩ := nodup_cons.mp hnodup
    obtain ⟨hin, hnone⟩ := hfree page mem_cons_self
    have halloc := miAllocatePage_allocates h.holds
    have hplenty {k : Nat} : Plenty ((page :: pages).length + k) l →
        l.miAllocatePage.1 ≠ none ∧ Plenty (pages.length + k) l.miAllocatePage.2 := by
      rw [length_cons, Nat.add_right_comm]
      exact miAllocatePage_plenty
    rw [commitPages, assert_eq ⟨hin, hnone⟩]
    simp only [bind, Except.bind]
    generalize l.miAllocatePage = answer at halloc hplenty ⊢
    obtain ⟨_ | frame, l'⟩ := answer
    · obtain ⟨hholds, hlist, hframes⟩ := halloc
      refine Ends.ok ⟨⟨⟨hholds, h.apart, hframes.trans h.frames⟩, rfl, hlist, nofun, fun k hk => ?_⟩, rfl⟩
      exact absurd rfl (hplenty hk).1
    · obtain ⟨hne, hfresh, hholds, hlist, hframes⟩ := halloc
      have hput : Building live n (master.put page frame)
          { l' with masterFrames := l'.masterFrames + 1 } :=
        h.put hin hnone hne hfresh ⟨hholds.balanced, hholds.below, hholds.pos⟩
          (congrArg (· + 1) hframes)
      have hself : (master.put page frame).frames page = frame := Function.update_self ..
      have hother {q : Nat} (hq : q ≠ page) : (master.put page frame).frames q = master.frames q :=
        Function.update_of_ne hq ..
      have hbyte : (master.put page frame).byte = master.byte := hclean.put_byte hnone
      have hclean' : (master.put page frame).Clean := by
        intro rva hrva
        rw [hbyte]
        by_cases hq : rva / pageSize = page
        · exact hclean rva (hq ▸ hnone)
        · exact hclean rva (hother hq ▸ hrva)
      have hends := ih hput hclean' hnodup fun q hq =>
        ⟨(hfree q (.tail _ hq)).1, by
          rw [hother fun heq => hpage (heq ▸ hq)]
          exact (hfree q (.tail _ hq)).2⟩
      refine hends.mono ?_
      rintro ⟨status, master', l''⟩ ⟨⟨hbuilding, hgrows, hlist', hcommitted, hrest⟩, hbyte'⟩
      refine ⟨⟨hbuilding, ?_, hlist'.trans hlist, fun hok q => ?_, fun k hk => ?_⟩, hbyte'.trans hbyte⟩
      · have hput' : master.Grows (master.put page frame) := rfl
        exact hput'.trans hgrows
      · rw [hcommitted hok, mem_cons]
        by_cases hq : q = page
        · subst hq
          rw [hself]
          simp [hne]
        · rw [hother hq]
          simp [hq]
      · exact hrest k (hplenty hk).2

def Master.filled (master : Master) (raw : List UInt8) (range : ImageRange) (copied : Nat) : Master :=
  { master with
    byte := fun a =>
      if range.rva + copied ≤ a ∧ a < range.rva + range.rawSize then
        raw.getD (range.rawOffset + (a - range.rva)) 0
      else master.byte a }

theorem getD_drop_take {offset width i : Nat} (hi : i < width) :
    ((raw.drop offset).take width).getD i 0 = raw.getD (offset + i) 0 := by
  simp [getD_eq_getElem?_getD, hi]

theorem Master.filled_of_le {copied : Nat}
    (h : range.rawSize ≤ copied) : master.filled raw range copied = master := by
  have hbyte : (master.filled raw range copied).byte = master.byte := by
    funext a
    exact if_neg (by omega)
  exact congrArg (fun byte => { master with byte }) hbyte

theorem mem_pageList :
    page ∈ range.pageList ↔ range.rva / pageSize ≤ page ∧ page < range.rva / pageSize + range.pages :=
  mem_range'_1

theorem pageList_of_lt (hfilled : range.rawSize ≤ range.pages * pageSize) {k : Nat}
    (hk : k < range.rawSize) : range.rva / pageSize + k / pageSize ∈ range.pageList := by
  have : k / pageSize < range.pages := Nat.div_lt_of_lt_mul (by rw [Nat.mul_comm]; omega)
  exact mem_pageList.mpr ⟨Nat.le_add_right .., by omega⟩

theorem copyRange_eq {copied : Nat} (haligned : range.rva % pageSize = 0)
    (hraw : range.rawSize ≠ 0 → range.rawOffset + range.rawSize ≤ raw.length)
    (hframes : ∀ k, k < range.rawSize → range.rva / pageSize + k / pageSize < master.pageCount ∧
      master.frames (range.rva / pageSize + k / pageSize) ≠ 0)
    (hcopied : copied % pageSize = 0 ∨ range.rawSize ≤ copied) :
    copyRange raw range copied master = .ok (master.filled raw range copied) := by
  have hsize : pageSize = 4096 := rfl
  fun_induction copyRange raw range copied master with
  | case1 copied master hdone => rw [Master.filled_of_le hdone]
  | case2 copied master hmore page hbad =>
    obtain ⟨hin, hne⟩ := hframes copied (by omega)
    exact absurd hbad (not_or.mpr ⟨Nat.not_le.mpr hin, hne⟩)
  | case3 copied master hmore chunk page hgood ih =>
    have hchunk : chunk = min 4096 (range.rawSize - copied) := rfl
    have hread := hraw (by omega)
    rw [copied_eq (by omega)]
    have hplace : page * pageSize = range.rva + copied := by
      change (range.rva / pageSize + copied / pageSize) * pageSize = _
      rw [hsize] at haligned hcopied ⊢
      omega
    have hlength : ((raw.drop (range.rawOffset + copied)).take chunk).length = chunk := by
      rw [length_take, length_drop]
      omega
    refine (ih _ hframes (by rw [hsize] at hcopied ⊢; omega)).trans ?_
    congr 1
    rw [Master.filled, Master.filled, Master.write, hplace]
    congr 1
    funext a
    dsimp only
    rw [hlength]
    by_cases hlow : range.rva + (copied + chunk) ≤ a ∧ a < range.rva + range.rawSize
    · rw [if_pos hlow, if_pos (by omega)]
    · rw [if_neg hlow]
      by_cases hmid : range.rva + copied ≤ a ∧ a < range.rva + copied + chunk
      · rw [if_pos hmid, if_pos (by omega), getD_drop_take (by omega)]
        congr 1
        omega
      · rw [if_neg hmid, if_neg (by omega)]

theorem Building.with_byte (h : Building live n master l) (byte : Nat → UInt8) :
    Building live n { master with byte } l :=
  ⟨h.holds, ⟨h.apart.record, h.apart.table, h.apart.frame, h.apart.once, h.apart.inside⟩, h.frames⟩

theorem mipMasterCommitRange_ends (h : Building live n master l) (hclean : master.Clean)
    (hfits : range.Fits raw.length (master.pageCount * pageSize))
    (hnone : ∀ page ∈ range.pageList, master.frames page = 0) :
    Ends (fun _ => False) (mipMasterCommitRange raw range master l) fun r =>
      Committed range.pageList master l live n r ∧
      (r.1 = .ok () → r.2.1.Clean ∧
        Mm.mipMasterCommitRange raw master.pageCount master.copy range = some r.2.1.copy) := by
  have hsize : pageSize = 4096 := rfl
  have hin : ∀ page ∈ range.pageList, page < master.pageCount := by
    intro page hpage
    have hinside := hfits.inside
    have haligned := hfits.aligned
    obtain ⟨hlow, hhigh⟩ := mem_pageList.mp hpage
    rw [ImageRange.limit, hsize] at hinside
    rw [hsize] at haligned hlow hhigh
    omega
  rw [mipMasterCommitRange, assert_eq hfits.aligned]
  simp only [bind, Except.bind]
  have hends := commitPages_ends h hclean nodup_range' fun page hpage =>
    ⟨hin page hpage, hnone page hpage⟩
  refine Ends.bind hends ?_
  rintro ⟨status, master', l'⟩ ⟨hcommitted, hbyte⟩
  cases status with
  | error status =>
    refine Ends.ok ⟨⟨hcommitted.building, hcommitted.grows, hcommitted.list, by simp, fun k hk => ?_⟩, by simp⟩
    cases (hcommitted.plenty k hk).1
  | ok u =>
    have hframes := hcommitted.frames rfl
    have hgrows : master.Grows master' := hcommitted.grows
    have hcount : master'.pageCount = master.pageCount := by rw [hgrows]
    dsimp only at hframes hbyte ⊢
    rw [copyRange_eq hfits.aligned hfits.raw (fun k hk => ?_) (.inl rfl)]
    · refine Ends.ok ⟨⟨hcommitted.building.with_byte _, hgrows.trans rfl, hcommitted.list,
        fun _ => hframes, fun k hk => ⟨rfl, (hcommitted.plenty k hk).2⟩⟩, fun _ => ⟨fun rva hrva => ?_, ?_⟩⟩
      · have hrva' : master'.frames (rva / pageSize) = 0 := hrva
        have hnot := mt (hframes (rva / pageSize)).mpr (not_not.mpr hrva')
        refine (if_neg fun hrange => ?_).trans (hbyte ▸ hclean rva (not_not.mp (not_or.mp hnot).1))
        have hmem := pageList_of_lt hfits.filled
          (show rva - range.rva < range.rawSize by omega)
        have hpage : range.rva / pageSize + (rva - range.rva) / pageSize = rva / pageSize := by
          have haligned := hfits.aligned
          rw [hsize] at haligned ⊢
          omega
        exact (not_or.mp hnot).2 (hpage ▸ hmem)
      · rw [Mm.mipMasterCommitRange, if_neg]
        · refine congrArg some ?_
          rw [Master.copy, ImageCopy.mk.injEq]
          refine ⟨funext fun page => ?_, ?_⟩
          · have hpage : (master'.filled raw range 0).frames page ≠ 0 ↔
                master.frames page ≠ 0 ∨ page ∈ range.pageList := hframes page
            exact (Bool.decide_or _ _).symm.trans (decide_eq_decide.mpr hpage.symm)
          · simp only [Master.filled, Nat.add_zero]
            rw [hbyte]
            rfl
        · rw [not_or, not_not]
          refine ⟨hfits.aligned, ?_⟩
          simp only [List.any_eq_true, not_exists, not_and]
          intro page hpage
          simp [Master.copy, hnone page hpage, hin page hpage]
    · have hmem := pageList_of_lt hfits.filled hk
      exact ⟨hcount ▸ hin _ hmem, (hframes _).mpr (.inr hmem)⟩

def InFront (master : Master) (ranges : List ImageRange) : Prop :=
  ∀ q, master.frames q ≠ 0 → ∀ range ∈ ranges, q < range.rva / pageSize

theorem commitRanges_ends {ranges : List ImageRange} (h : Building live n master l)
    (hclean : master.Clean) (hlaid : Laid ImageRange.rva ImageRange.limit ranges)
    (hfits : ∀ range ∈ ranges, range.Fits raw.length (master.pageCount * pageSize))
    (hfront : InFront master ranges) :
    Ends (fun _ => False) (commitRanges raw ranges master l) fun r =>
      Committed (ranges.flatMap ImageRange.pageList) master l live n r ∧
      (r.1 = .ok () →
        ranges.foldlM (Mm.mipMasterCommitRange raw master.pageCount) master.copy = some r.2.1.copy) := by
  have hsize : pageSize = 4096 := rfl
  induction ranges generalizing master l with
  | nil =>
    exact Ends.ok ⟨⟨h, rfl, rfl, fun _ q => by simp, fun k hk => ⟨rfl, by simpa using hk⟩⟩, fun _ => rfl⟩
  | cons range ranges ih =>
    obtain ⟨hrange, hbehind, hlaid⟩ := Intervals.laid_cons.mp hlaid
    have hfit := hfits range mem_cons_self
    have hnone : ∀ page ∈ range.pageList, master.frames page = 0 := by
      intro page hpage
      by_contra hne
      have := hfront page hne range mem_cons_self
      have := (mem_pageList.mp hpage).1
      omega
    rw [commitRanges]
    refine Ends.bind (mipMasterCommitRange_ends h hclean hfit hnone) ?_
    rintro ⟨status, master', l'⟩ ⟨hcommitted, hcopy⟩
    have hlength : ((range :: ranges).flatMap ImageRange.pageList).length =
        range.pageList.length + (ranges.flatMap ImageRange.pageList).length := by
      rw [flatMap_cons, length_append]
    cases status with
    | error status =>
      refine Ends.ok ⟨⟨hcommitted.building, hcommitted.grows, hcommitted.list, nofun, fun k hk => ?_⟩, nofun⟩
      rw [hlength, Nat.add_assoc] at hk
      cases (hcommitted.plenty _ hk).1
    | ok u =>
      obtain ⟨hclean', hcopy⟩ := hcopy rfl
      have hframes : ∀ q, master'.frames q ≠ 0 ↔ master.frames q ≠ 0 ∨ q ∈ range.pageList :=
        hcommitted.frames rfl
      have hgrows : master.Grows master' := hcommitted.grows
      have hcount : master'.pageCount = master.pageCount := by rw [hgrows]
      have hfront' : InFront master' ranges := by
        intro q hq later hlater
        rcases (hframes q).mp hq with hq | hq
        · exact hfront q hq later (.tail _ hlater)
        · have hlow := hbehind later hlater
          have haligned := hfit.aligned
          have haligned' := (hfits later (.tail _ hlater)).aligned
          have hhigh := (mem_pageList.mp hq).2
          rw [ImageRange.limit, hsize] at hlow
          rw [hsize] at haligned haligned' hhigh ⊢
          omega
      have hends := ih hcommitted.building hclean' hlaid
        (fun later hlater => hcount ▸ hfits later (.tail _ hlater)) hfront'
      refine hends.mono ?_
      rintro ⟨status, master'', l''⟩ ⟨hrest, hfold⟩
      refine ⟨⟨hrest.building, hgrows.trans hrest.grows, hrest.list.trans hcommitted.list,
        fun hok q => ?_, fun k hk => ?_⟩, fun hok => ?_⟩
      · rw [hrest.frames hok, hframes, flatMap_cons, mem_append, or_assoc]
      · rw [hlength, Nat.add_assoc] at hk
        exact hrest.plenty k (hcommitted.plenty _ hk).2
      · have hfold := hfold hok
        rw [foldlM_cons, hcopy]
        exact hcount ▸ hfold

end Proskrnl.Mm.Pe
