import Proskrnl.Fat.FileFailure

/-!
# Sections that extend a file that others write

`IopBuildSectionBacking` finds a file smaller than the section, and extends it with `SetEndOfFile` when it
gets the gate of the volume; `NtWriteFile` and `NtWriteFileGather` place their range with `PrepareWrite`
under the same gate. Any number of threads does either with one file. The file should never get smaller
and lose no byte that was written.
-/

namespace Proskrnl.Fat
open Mm.Cache

inductive Stage where
  | idle
  /-- A section creation that found the file smaller than its maximum size. -/
  | measured (maximum : Nat)
  /-- A section creation that comes to the cache it is backed by. -/
  | backing
  /-- A write that has the cache. -/
  | opened (placement : Placement) (length : Fin (2 ^ 32))
  /-- A write that has its range, and has stored the first bytes of it in the cache. -/
  | placed (offset length done : Nat)

/-- A file and the threads at work on it. `largest` is the largest size that an operation gave the file,
and `written` what was written last to each place. -/
structure Shared where
  volume : Volume
  fcb : Fcb
  stage : Nat → Stage
  largest : Nat
  written : Nat → Option UInt8

inductive SharedEvent where
  /-- `IopBuildSectionBacking` to its decision; a maximum of 0 stands for none that counts. -/
  | createSection (t maximum : Nat) (writable : Bool) (fill : Fill)
  /-- Its `SetEndOfFile`. -/
  | extend (t : Nat) (env : Resize)
  /-- Its second `GetCache`, and the section counted. -/
  | back (t : Nat) (fill : Fill)
  /-- `GetCache` of a write. -/
  | startWrite (t : Nat) (placement : Placement) (length : Fin (2 ^ 32)) (fill : Fill)
  /-- `PrepareWrite`. -/
  | prepareWrite (t : Nat) (env : Resize)
  /-- A write ends here when it was cancelled or its buffer cannot be read. -/
  | abandon (t : Nat)
  /-- `MiCacheWrite` of the whole range, or of the next page of a gather. -/
  | store (t : Nat) (buffer : List UInt8)
  /-- `WritebackRange`. -/
  | writeback (t date time : Nat)

/-- A thread goes on to a stage, and leaves the volume and the file like this. -/
def Shared.put (s : Shared) (t : Nat) (stage : Stage) (volume : Volume) (fcb : Fcb) : Shared :=
  { s with
    volume
    fcb
    stage := Function.update s.stage t stage
    largest := max s.largest fcb.fileSize }

def fatVfsSetEndOfFile (env : Resize) (v : Volume) (dir : Nat) (fcb : Fcb) (endOfFile : Nat) :
    Except NtStatus Unit × Volume × Fcb :=
  if fcb.isDirectory then (.error statusInvalidDeviceRequest, v, fcb)
  else if fcb.entryDeleted then (.error statusFileClosed, v, fcb)
  else fatSetFileSize env v dir fcb endOfFile

/-- Where a section creation goes on once it has measured the file. -/
def measure (maximum : Nat) (writable : Bool) (cache : PageCache) : Stage :=
  if maximum > cache.fileSize then (if writable then .measured maximum else .idle) else .backing

/-- The bytes that were written, with those of a buffer over them. -/
def overwrite (written : Nat → Option UInt8) (offset : Nat) (buffer : List UInt8) : Nat → Option UInt8 :=
  fun p => if offset ≤ p ∧ p < offset + buffer.length then some (buffer.getD (p - offset) 0) else written p

/-- A step of a thread; none if the thread is elsewhere, and where an assertion stops the machine. -/
def Shared.step (dir : Nat) (s : Shared) : SharedEvent → Option Shared
  | .createSection t maximum writable fill =>
    match s.stage t with
    | .idle =>
      if maximum = 0 then some (s.put t .backing s.volume s.fcb)
      else
        match fatVfsGetCache fill s.volume s.fcb with
        | (.error _, fcb) => some (s.put t .idle s.volume fcb)
        | (.ok (), fcb) => some (s.put t (measure maximum writable fcb.cache) s.volume fcb)
    | _ => none
  | .extend t env =>
    match s.stage t with
    | .measured maximum =>
      match fatVfsSetEndOfFile env s.volume dir s.fcb maximum with
      | (.error _, v, fcb) => some (s.put t .idle v fcb)
      | (.ok (), v, fcb) => some (s.put t .backing v fcb)
    | _ => none
  | .back t fill =>
    match s.stage t with
    | .backing =>
      match fatVfsGetCache fill s.volume s.fcb with
      | (.error _, fcb) => some (s.put t .idle s.volume fcb)
      | (.ok (), fcb) => some (s.put t .idle s.volume { fcb with sectionCount := fcb.sectionCount + 1 })
    | _ => none
  | .startWrite t placement length fill =>
    match s.stage t with
    | .idle =>
      match fatVfsGetCache fill s.volume s.fcb with
      | (.error _, fcb) => some (s.put t .idle s.volume fcb)
      | (.ok (), fcb) => some (s.put t (.opened placement length) s.volume fcb)
    | _ => none
  | .prepareWrite t env =>
    match s.stage t with
    | .opened placement length =>
      match fatVfsPrepareWrite env s.volume dir s.fcb placement.offset length placement.writeToEnd with
      | (.error _, v, fcb) => some (s.put t .idle v fcb)
      | (.ok offset, v, fcb) =>
        some (s.put t (if length.val = 0 then .idle else .placed offset length 0) v fcb)
    | _ => none
  | .abandon t =>
    match s.stage t with
    | .placed .. => some (s.put t .idle s.volume s.fcb)
    | _ => none
  | .store t buffer =>
    match s.stage t with
    | .placed offset length done =>
      if done + buffer.length ≤ length ∧ offset + done + buffer.length ≤ s.fcb.cache.pageCount * pageSize then
        some
          { s.put t (.placed offset length (done + buffer.length)) s.volume
              { s.fcb with cache := miCacheWrite s.fcb.cache (offset + done) buffer } with
            written := overwrite s.written (offset + done) buffer }
      else none
    | _ => none
  | .writeback t date time =>
    match s.stage t with
    | .placed offset length done =>
      if done = length then
        match fatVfsWritebackRange date time s.volume dir s.fcb offset length with
        | (_, v, fcb) => some (s.put t .idle v fcb)
      else none
    | _ => none

/-- A file with these bytes before any thread comes to it. -/
def Shared.start (v : Volume) (fcb : Fcb) (data : List UInt8) : Shared where
  volume := v
  fcb
  stage := fun _ => .idle
  largest := fcb.fileSize
  written := fun p => data[p]?

def runShared (dir : Nat) : List SharedEvent → Shared → Option Shared
  | [], s => some s
  | event :: events, s => (s.step dir event).bind (runShared dir events)

def Shared.byte (s : Shared) (p : Nat) : Option UInt8 :=
  if p < s.fcb.fileSize then
    if s.fcb.cacheLoaded then
      if p / pageSize < s.fcb.cache.pageCount then some (s.fcb.cache.bytes p) else none
    else storedByte s.volume s.fcb.firstCluster p
  else none

/-- The file has the largest size it was ever given, and each byte is the one written last. -/
structure Shared.Keeps (s : Shared) : Prop where
  size : s.largest ≤ s.fcb.fileSize
  bytes : ∀ p b, s.written p = some b → s.byte p = some b

/-- A section creation that gets the gate to extend the file finds it no larger than its maximum. -/
def Shared.Meets (s : Shared) (event : SharedEvent) : Prop :=
  match event with
  | .extend t _ => ∀ maximum, s.stage t = .measured maximum → s.fcb.fileSize ≤ maximum
  | _ => True

/-- Each step of a run meets the condition when its turn comes. -/
def RunMeets (dir : Nat) : List SharedEvent → Shared → Prop
  | [], _ => True
  | event :: events, s => s.Meets event ∧ ∀ s', s.step dir event = some s' → RunMeets dir events s'

/-- A file behind an operation that does not make it smaller: what its cache held of it is there. -/
structure Grew (fcb fcb' : Fcb) : Prop where
  loaded : fcb'.cacheLoaded = true
  size : fcb.fileSize ≤ fcb'.fileSize
  cacheSize : fcb'.cache.fileSize ≤ fcb'.fileSize
  frames : fcb.cache.pageCount ≤ fcb'.cache.pageCount
  bytes : ∀ p < fcb.fileSize, p < fcb.cache.pageCount * pageSize →
    fcb'.cache.bytes p = fcb.cache.bytes p
  small : fcb.fileSize ≤ 0xFFFFFFFF → fcb'.fileSize ≤ 0xFFFFFFFF

section
variable {v v' : Volume} {fcb fcb' : Fcb} {dir newSize : Nat}

theorem Grew.refl (hloaded : fcb.cacheLoaded = true) (hcache : fcb.cache.fileSize ≤ fcb.fileSize) :
    Grew fcb fcb :=
  ⟨hloaded, Nat.le_refl _, hcache, Nat.le_refl _, fun _ _ _ => rfl, id⟩

theorem miResizePageCache_grows (memory : Memory) {cache : PageCache} (hle : cache.fileSize ≤ newSize) :
    cache.pageCount ≤ (miResizePageCache memory cache newSize).2.pageCount ∧
      (miResizePageCache memory cache newSize).2.fileSize ≤ newSize ∧
      ∀ p < cache.pageCount * pageSize,
        (miResizePageCache memory cache newSize).2.bytes p = cache.bytes p := by
  rw [miResizePageCache]
  split
  · exact ⟨Nat.le_refl _, hle, fun _ _ => rfl⟩
  · split
    · refine ⟨Nat.le_add_right _ _, hle, fun p hp => ?_⟩
      simp only [zeroRange]
      rw [if_neg (by omega)]
    · refine ⟨?_, Nat.le_refl _, fun p hp => ?_⟩
      · simp only
        split <;> omega
      · simp only [if_neg (Nat.not_lt.mpr hle), zeroRange]
        rw [if_neg (by omega)]

theorem fatEnsureCache_kept (fill : Fill) (v : Volume) (hloaded : fcb.cacheLoaded = true) :
    (fatEnsureCache fill v fcb).2 = fcb := by
  rw [fatEnsureCache, if_pos hloaded]
  split <;> rfl

theorem scrubExtension_before (v : Volume) (fcb : Fcb) {oldSize p : Nat} (newSize : Nat) (hp : p < oldSize) :
    (scrubExtension v fcb oldSize newSize).2.cache.bytes p = fcb.cache.bytes p := by
  rw [scrubExtension]
  split
  · simp only [zeroRange]
    rw [if_neg (by omega)]
  · rfl

theorem grew_setFileSize (env : Resize) (v : Volume) (dir : Nat) (hloaded : fcb.cacheLoaded = true)
    (hcache : fcb.cache.fileSize ≤ fcb.fileSize) (hle : fcb.fileSize ≤ newSize) :
    Grew fcb (fatSetFileSize env v dir fcb newSize).2.2 := by
  have hsame := Grew.refl hloaded hcache
  have hensured := fatEnsureCache_kept env.fill v hloaded
  rw [fatSetFileSize]
  split
  · exact hsame
  case isFalse hrecordable =>
    have hsmall : newSize ≤ 0xFFFFFFFF := by omega
    generalize fatEnsureCache env.fill v fcb = ensured at hensured
    obtain ⟨_ | _, fcb1⟩ := ensured
    · simp only at hensured
      rw [hensured]
      exact hsame
    · simp only at hensured
      subst hensured
      simp only
      generalize resizeChain env.cancelled v fcb1.firstCluster newSize = resized
      obtain ⟨_ | first', v1⟩ := resized
      · exact hsame
      · obtain ⟨hframes, hsize, hbytes⟩ := miResizePageCache_grows env.memory (Nat.le_trans hcache hle)
        simp only
        generalize miResizePageCache env.memory fcb1.cache newSize = result at hframes hsize hbytes
        obtain ⟨_ | _, cache⟩ := result
        · exact ⟨hloaded, hle, hsize, hframes, fun p _ hp => hbytes p hp, fun _ => hsmall⟩
        · simp only
          generalize hfcb2 : ({ fcb1 with
            firstCluster := first', fileSize := newSize, writeDate := env.date, writeTime := env.time,
            cache := cache } : Fcb) = fcb2
          have hbefore : ∀ p < fcb1.fileSize, _ := fun p =>
            scrubExtension_before v1 fcb2 newSize
          obtain ⟨bytes, hscrub⟩ := scrubExtension_withBytes v1 fcb2 fcb1.fileSize newSize
          rw [hscrub] at hbefore ⊢
          subst hfcb2
          exact ⟨hloaded, hle, hsize, hframes,
            fun p hp hp' => (hbefore p hp).trans (hbytes p hp'), fun _ => hsmall⟩

theorem grew_setEndOfFile (env : Resize) (v : Volume) (dir : Nat) (hloaded : fcb.cacheLoaded = true)
    (hcache : fcb.cache.fileSize ≤ fcb.fileSize) (hle : fcb.fileSize ≤ newSize) :
    Grew fcb (fatVfsSetEndOfFile env v dir fcb newSize).2.2 := by
  have hsame := Grew.refl hloaded hcache
  rw [fatVfsSetEndOfFile]
  split
  · exact hsame
  · split
    · exact hsame
    · exact grew_setFileSize env v dir hloaded hcache hle

theorem fatSetFileSize_ok_size {env : Resize}
    (h : fatSetFileSize env v dir fcb newSize = (.ok (), v', fcb')) : fcb'.fileSize = newSize := by
  rw [fatSetFileSize] at h
  split at h
  · cases h
  · generalize fatEnsureCache env.fill v fcb = ensured at h
    obtain ⟨_ | _, fcb1⟩ := ensured
    · cases h
    · simp only at h
      generalize resizeChain env.cancelled v fcb1.firstCluster newSize = resized at h
      obtain ⟨_ | first', v1⟩ := resized
      · cases h
      · simp only at h
        generalize miResizePageCache env.memory fcb1.cache newSize = result at h
        obtain ⟨_ | _, cache⟩ := result
        · cases h
        · simp only at h
          generalize hfcb2 : ({ fcb1 with
            firstCluster := first', fileSize := newSize, writeDate := env.date, writeTime := env.time,
            cache := cache } : Fcb) = fcb2 at h
          obtain ⟨bytes, hscrub⟩ := scrubExtension_withBytes v1 fcb2 fcb1.fileSize newSize
          rw [hscrub] at h
          have hfcb' : fcb2.withBytes bytes = fcb' := congrArg (fun outcome => outcome.2.2) h
          rw [← hfcb', ← hfcb2]
          rfl

/-- `FatVfsPrepareWrite`, which looks at the size it grows from. A write that it places ends in the file. -/
theorem grew_prepareWrite {env : Resize} {result : Except NtStatus Nat} (hloaded : fcb.cacheLoaded = true)
    (hcache : fcb.cache.fileSize ≤ fcb.fileSize) (hsmall : fcb.fileSize ≤ 0xFFFFFFFF)
    {placement : Placement} {length : Fin (2 ^ 32)}
    (h : fatVfsPrepareWrite env v dir fcb placement.offset length placement.writeToEnd =
      (result, v', fcb')) :
    Grew fcb fcb' ∧ ∀ offset, result = .ok offset → length.val ≠ 0 → offset + length ≤ fcb'.fileSize := by
  have hsame := Grew.refl hloaded hcache
  have hensured := fatEnsureCache_kept env.fill v hloaded
  rw [fatVfsPrepareWrite] at h
  split at h
  · cases h
    exact ⟨hsame, by simp⟩
  · split at h
    · cases h
      exact ⟨hsame, by simp⟩
    · generalize fatEnsureCache env.fill v fcb = ensured at h hensured
      obtain ⟨_ | _, fcb1⟩ := ensured
      · cases h
        simp only at hensured
        rw [hensured]
        exact ⟨hsame, by simp⟩
      · simp only at hensured h
        subst hensured
        have hrange : (if placement.writeToEnd = true then fcb1.fileSize else placement.offset) + length <
            2 ^ 64 := by
          have hoffset := placement.offset_lt
          have hlength := length.isLt
          split <;> omega
        rw [Nat.mod_eq_of_lt hrange] at h
        generalize (if placement.writeToEnd = true then fcb1.fileSize else placement.offset) = place at h
        split at h
        case isTrue hgrow =>
          have hgrew := grew_setFileSize env v dir hloaded hcache (Nat.le_of_lt hgrow.2)
          cases hset : fatSetFileSize env v dir fcb1 (place + length) with
          | mk set rest =>
            obtain ⟨v2, fcb2⟩ := rest
            rw [hset] at h hgrew
            cases set with
            | error status =>
              cases h
              exact ⟨hgrew, by simp⟩
            | ok _ =>
              have hsize := fatSetFileSize_ok_size hset
              cases h
              refine ⟨hgrew, fun offset hoffset _ => ?_⟩
              cases hoffset
              rw [hsize]
        case isFalse hkeep =>
          cases h
          refine ⟨hsame, fun offset hoffset hsome => ?_⟩
          cases hoffset
          omega

end

def Stage.Holds (fcb : Fcb) : Stage → Prop
  | .idle | .backing => True
  | .measured _ | .opened .. => fcb.cacheLoaded = true
  | .placed offset length _ => fcb.cacheLoaded = true ∧ offset + length ≤ fcb.fileSize

/-- What the steps keep of a file. Until its cache is loaded it is the array it started as; then the cache
has each byte that was written, in front of the end of the file. -/
structure Safe (dir : Nat) (ds : List Nat) (s : Shared) : Prop where
  small : s.fcb.fileSize ≤ 0xFFFFFFFF
  size : s.largest ≤ s.fcb.fileSize
  unloaded : s.fcb.cacheLoaded = false → ∃ cs data, FileOn s.volume dir ds s.fcb cs data ∧
    ∀ p b, s.written p = some b → p < data.length ∧ data.getD p 0 = b
  cacheSize : s.fcb.cacheLoaded = true → s.fcb.cache.fileSize ≤ s.fcb.fileSize
  loaded : s.fcb.cacheLoaded = true → ∀ p b, s.written p = some b →
    p < s.fcb.fileSize ∧ p < s.fcb.cache.pageCount * pageSize ∧ s.fcb.cache.bytes p = b
  stages : ∀ t, (s.stage t).Holds s.fcb

section
variable {s s' : Shared} {v : Volume} {fcb : Fcb} {dir t : Nat} {ds : List Nat} {stage : Stage}

theorem Stage.holds_idle (fcb : Fcb) : Stage.idle.Holds fcb := trivial

theorem Stage.holds_backing (fcb : Fcb) : Stage.backing.Holds fcb := trivial

theorem Stage.Holds.grew (h : stage.Holds s.fcb) (hgrew : Grew s.fcb fcb) : stage.Holds fcb := by
  have hsize := hgrew.size
  cases stage with
  | idle | backing => trivial
  | measured maximum | opened placement length => exact hgrew.loaded
  | placed offset length done => exact ⟨hgrew.loaded, Nat.le_trans h.2 hsize⟩

theorem Safe.put (h : Safe dir ds s) (hloaded : s.fcb.cacheLoaded = true) (hgrew : Grew s.fcb fcb)
    (hstage : stage.Holds fcb) (v : Volume) : Safe dir ds (s.put t stage v fcb) := by
  refine ⟨hgrew.small h.small, Nat.max_le.mpr ⟨Nat.le_trans h.size hgrew.size, Nat.le_refl _⟩,
    fun hunloaded => absurd (hgrew.loaded.symm.trans hunloaded) nofun, fun _ => hgrew.cacheSize,
    fun _ p b hwritten => ?_, fun t' => ?_⟩
  · obtain ⟨hp, hframe, hbyte⟩ := h.loaded hloaded p b hwritten
    have hframes := Nat.mul_le_mul_right pageSize hgrew.frames
    exact ⟨Nat.lt_of_lt_of_le hp hgrew.size, Nat.lt_of_lt_of_le hframe hframes,
      (hgrew.bytes p hp hframe).trans hbyte⟩
  · change (Function.update s.stage t stage t').Holds fcb
    rw [Function.update_apply]
    split
    · exact hstage
    · exact (h.stages t').grew hgrew

theorem Safe.moved (h : Safe dir ds s) (hstage : stage.Holds s.fcb) :
    Safe dir ds (s.put t stage s.volume s.fcb) := by
  refine ⟨h.small, Nat.max_le.mpr ⟨h.size, Nat.le_refl _⟩, h.unloaded, h.cacheSize, h.loaded, fun t' => ?_⟩
  change (Function.update s.stage t stage t').Holds s.fcb
  rw [Function.update_apply]
  split
  · exact hstage
  · exact h.stages t'

/-- `GetCache` fills the cache from the array that the file is, or leaves a loaded one alone. -/
theorem Safe.getCache {fill : Fill} {result : Except NtStatus Unit} (h : Safe dir ds s)
    (hget : fatVfsGetCache fill s.volume s.fcb = (result, fcb)) :
    Safe dir ds { s with fcb } ∧ (result = .ok () → fcb.cacheLoaded = true) := by
  cases hloaded : s.fcb.cacheLoaded with
  | true =>
    have hkept := fatEnsureCache_kept fill s.volume hloaded
    have hsame : fcb = s.fcb := by
      rw [fatVfsGetCache] at hget
      split at hget
      · cases hget
        rfl
      · rw [hget] at hkept
        exact hkept
    subst hsame
    exact ⟨h, fun _ => hloaded⟩
  | false =>
    obtain ⟨cs, data, hfile, hwritten⟩ := h.unloaded hloaded
    rw [fatVfsGetCache, hfile.file, if_neg (by nofun)] at hget
    -- no thread has the cache yet
    have hstages : ∀ fcb' t, (s.stage t).Holds fcb' := by
      intro fcb' t
      have hholds := h.stages t
      generalize s.stage t = stage at hholds
      cases stage with
      | idle | backing => trivial
      | measured maximum | opened placement length => exact absurd (hloaded.symm.trans hholds) nofun
      | placed offset length done => exact absurd (hloaded.symm.trans hholds.1) nofun
    cases result with
    | error status =>
      obtain ⟨hfile', _, hunloaded, hsize⟩ := hfile.ensureCache_error hget
      refine ⟨⟨?_, ?_, fun _ => ⟨cs, data, hfile', hwritten⟩,
        fun hload => absurd (hunloaded.symm.trans hload) nofun,
        fun hload => absurd (hunloaded.symm.trans hload) nofun, hstages fcb⟩, nofun⟩
      · exact Nat.le_trans (Nat.le_of_eq hsize) h.small
      · exact Nat.le_trans h.size (Nat.le_of_eq hsize.symm)
    | ok _ =>
      obtain ⟨hfile', hload, hsize⟩ := hfile.ensureCache hget
      obtain ⟨size, hcovers, hcached⟩ := hfile'.cached
      obtain ⟨rfl, hbytes⟩ := hcached hload
      refine ⟨⟨?_, ?_, fun hunload => absurd (hload.symm.trans hunload) nofun,
        fun _ => Nat.le_of_eq hcovers.fileSize, fun _ p b hp => ?_, hstages fcb⟩, fun _ => hload⟩
      · exact Nat.le_trans (Nat.le_of_eq hsize) h.small
      · exact Nat.le_trans h.size (Nat.le_of_eq hsize.symm)
      · obtain ⟨hlt, hbyte⟩ := hwritten p b hp
        rw [hfile'.length] at hlt
        have hpages := Nat.mul_le_mul_right pageSize hcovers.pages
        have hle := le_pagesOf fcb.fileSize
        exact ⟨hlt, show p < fcb.cache.pageCount * pageSize by omega, (hbytes p hlt).trans hbyte⟩

theorem grew_writebackRange (date time : Nat) (v : Volume) (dir offset length : Nat)
    (hloaded : fcb.cacheLoaded = true) (hcache : fcb.cache.fileSize ≤ fcb.fileSize) :
    Grew fcb (fatVfsWritebackRange date time v dir fcb offset length).2.2 := by
  rw [fatVfsWritebackRange]
  split
  · exact Grew.refl hloaded hcache
  · exact ⟨hloaded, Nat.le_refl _, hcache, Nat.le_refl _, fun _ _ _ => rfl, id⟩

theorem Safe.store {offset length done : Nat} {buffer : List UInt8} (h : Safe dir ds s)
    (hstage : s.stage t = .placed offset length done) (hwithin : done + buffer.length ≤ length)
    (hframes : offset + done + buffer.length ≤ s.fcb.cache.pageCount * pageSize) :
    Safe dir ds
      { s.put t (.placed offset length (done + buffer.length)) s.volume
          { s.fcb with cache := miCacheWrite s.fcb.cache (offset + done) buffer } with
        written := overwrite s.written (offset + done) buffer } := by
  have hholds := h.stages t
  rw [hstage] at hholds
  obtain ⟨hloaded, hin⟩ := hholds
  refine ⟨h.small, Nat.max_le.mpr ⟨h.size, Nat.le_refl _⟩,
    fun hunloaded => absurd (hloaded.symm.trans hunloaded) nofun, fun _ => h.cacheSize hloaded,
    fun _ p b hwritten => ?_, fun t' => ?_⟩
  · change overwrite s.written (offset + done) buffer p = some b at hwritten
    change p < s.fcb.fileSize ∧ p < s.fcb.cache.pageCount * pageSize ∧
      (if offset + done ≤ p ∧ p < offset + done + buffer.length then buffer.getD (p - (offset + done)) 0
        else s.fcb.cache.bytes p) = b
    rw [overwrite] at hwritten
    split at hwritten
    case isTrue hinside =>
      rw [if_pos hinside]
      exact ⟨by omega, by omega, Option.some.inj hwritten⟩
    case isFalse houtside =>
      rw [if_neg houtside]
      exact h.loaded hloaded p b hwritten
  · change (Function.update s.stage t (.placed offset length (done + buffer.length)) t').Holds _
    rw [Function.update_apply]
    split
    · exact ⟨hloaded, hin⟩
    · have hother := h.stages t'
      generalize s.stage t' = stage at hother ⊢
      cases stage <;> exact hother

theorem Safe.step {event : SharedEvent} (h : Safe dir ds s) (hmeets : s.Meets event)
    (hstep : s.step dir event = some s') : Safe dir ds s' := by
  cases event with
  | createSection t maximum writable fill =>
    rw [Shared.step] at hstep
    cases hstage : s.stage t <;> rw [hstage] at hstep <;> try cases hstep
    simp only at hstep
    split at hstep
    · cases hstep
      exact h.moved trivial
    · cases hget : fatVfsGetCache fill s.volume s.fcb with
      | mk result fcb =>
        rw [hget] at hstep
        obtain ⟨h', hloaded⟩ := h.getCache hget
        cases result with
        | error status =>
          cases hstep
          exact h'.moved trivial
        | ok _ =>
          cases hstep
          refine h'.moved ?_
          rw [measure]
          split
          · split
            · exact hloaded rfl
            · trivial
          · trivial
  | extend t env =>
    rw [Shared.step] at hstep
    cases hstage : s.stage t <;> rw [hstage] at hstep <;> try cases hstep
    case measured maximum =>
      have hloaded : s.fcb.cacheLoaded = true := by
        have hholds := h.stages t
        rwa [hstage] at hholds
      have hgrew := grew_setEndOfFile env s.volume dir hloaded (h.cacheSize hloaded) (hmeets maximum hstage)
      simp only at hstep
      generalize fatVfsSetEndOfFile env s.volume dir s.fcb maximum = outcome at hstep hgrew
      obtain ⟨_ | _, v, fcb⟩ := outcome
      · cases hstep
        exact h.put hloaded hgrew (Stage.holds_idle _) v
      · cases hstep
        exact h.put hloaded hgrew (Stage.holds_backing _) v
  | back t fill =>
    rw [Shared.step] at hstep
    cases hstage : s.stage t <;> rw [hstage] at hstep <;> try cases hstep
    simp only at hstep
    cases hget : fatVfsGetCache fill s.volume s.fcb with
    | mk result fcb =>
      rw [hget] at hstep
      obtain ⟨h', hloaded⟩ := h.getCache hget
      cases result with
      | error status =>
        cases hstep
        exact h'.moved trivial
      | ok _ =>
        cases hstep
        have hload := hloaded rfl
        have hgrew : Grew fcb { fcb with sectionCount := fcb.sectionCount + 1 } :=
          ⟨hload, Nat.le_refl _, h'.cacheSize hload, Nat.le_refl _, fun _ _ _ => rfl, id⟩
        exact h'.put hload hgrew (Stage.holds_idle _) s.volume
  | startWrite t placement length fill =>
    rw [Shared.step] at hstep
    cases hstage : s.stage t <;> rw [hstage] at hstep <;> try cases hstep
    simp only at hstep
    cases hget : fatVfsGetCache fill s.volume s.fcb with
    | mk result fcb =>
      rw [hget] at hstep
      obtain ⟨h', hloaded⟩ := h.getCache hget
      cases result with
      | error status =>
        cases hstep
        exact h'.moved trivial
      | ok _ =>
        cases hstep
        exact h'.moved (hloaded rfl)
  | prepareWrite t env =>
    rw [Shared.step] at hstep
    cases hstage : s.stage t <;> rw [hstage] at hstep <;> try cases hstep
    case opened placement length =>
      have hloaded : s.fcb.cacheLoaded = true := by
        have hholds := h.stages t
        rwa [hstage] at hholds
      simp only at hstep
      cases hprepare : fatVfsPrepareWrite env s.volume dir s.fcb placement.offset length
          placement.writeToEnd with
      | mk result rest =>
        obtain ⟨v, fcb⟩ := rest
        rw [hprepare] at hstep
        obtain ⟨hgrew, hplaced⟩ := grew_prepareWrite hloaded (h.cacheSize hloaded) h.small hprepare
        cases result with
        | error status =>
          cases hstep
          exact h.put hloaded hgrew (Stage.holds_idle _) v
        | ok offset =>
          cases hstep
          refine h.put hloaded hgrew ?_ v
          split
          case isTrue => trivial
          case isFalse hsome => exact ⟨hgrew.loaded, hplaced offset rfl hsome⟩
  | abandon t =>
    rw [Shared.step] at hstep
    cases hstage : s.stage t <;> rw [hstage] at hstep <;> try cases hstep
    exact h.moved trivial
  | store t buffer =>
    rw [Shared.step] at hstep
    cases hstage : s.stage t <;> rw [hstage] at hstep <;> try cases hstep
    simp only at hstep
    split at hstep
    case isTrue hroom =>
      cases hstep
      exact h.store hstage hroom.1 hroom.2
    case isFalse => cases hstep
  | writeback t date time =>
    rw [Shared.step] at hstep
    cases hstage : s.stage t <;> rw [hstage] at hstep <;> try cases hstep
    case placed offset length done =>
      have hholds := h.stages t
      rw [hstage] at hholds
      simp only at hstep
      split at hstep
      case isTrue =>
        cases hstep
        exact h.put hholds.1 (grew_writebackRange date time s.volume dir offset length hholds.1
          (h.cacheSize hholds.1)) (Stage.holds_idle _) _
      case isFalse => cases hstep

theorem RunMeets.append {events events' : List SharedEvent} (h : RunMeets dir events s)
    (h' : ∀ s', runShared dir events s = some s' → RunMeets dir events' s') :
    RunMeets dir (events ++ events') s := by
  induction events generalizing s with
  | nil => exact h' s rfl
  | cons event events ih =>
    refine ⟨h.1, fun s1 hstep => ih (h.2 s1 hstep) fun s' hrun => h' s' ?_⟩
    rw [runShared, hstep]
    exact hrun

theorem Safe.run {events : List SharedEvent} (h : Safe dir ds s) (hmeets : RunMeets dir events s)
    (hrun : runShared dir events s = some s') : Safe dir ds s' := by
  induction events generalizing s with
  | nil =>
    cases hrun
    exact h
  | cons event events ih =>
    obtain ⟨s1, hstep, hrest⟩ := Option.bind_eq_some_iff.mp hrun
    exact ih (h.step hmeets.1 hstep) (hmeets.2 s1 hstep) hrest

theorem Safe.keeps (h : Safe dir ds s) : s.Keeps := by
  refine ⟨h.size, fun p b hwritten => ?_⟩
  rw [Shared.byte]
  cases hloaded : s.fcb.cacheLoaded with
  | true =>
    obtain ⟨hp, hframe, hbyte⟩ := h.loaded hloaded p b hwritten
    rw [if_pos hp, if_pos rfl, if_pos (Nat.div_lt_of_lt_mul (by rwa [Nat.mul_comm])), hbyte]
  | false =>
    obtain ⟨cs, data, hfile, hdata⟩ := h.unloaded hloaded
    obtain ⟨hp, hbyte⟩ := hdata p b hwritten
    rw [if_pos (by rwa [← hfile.length]), if_neg (by nofun), hfile.holds.stored p hp, getElem?_eq_getD hp,
      hbyte]

theorem Safe.start {cs : List Nat} {data : List UInt8} (hsmall : fcb.fileSize ≤ 0xFFFFFFFF)
    (h : FileOn v dir ds fcb cs data) : Safe dir ds (.start v fcb data) := by
  have hdata : ∀ p b, data[p]? = some b → p < data.length ∧ data.getD p 0 = b := by
    intro p b hp
    obtain ⟨hlt, hget⟩ := List.getElem?_eq_some_iff.mp hp
    refine ⟨hlt, ?_⟩
    rw [List.getD_eq_getElem?_getD, hp]
    rfl
  obtain ⟨size, hcovers, hcached⟩ := h.cached
  refine ⟨hsmall, Nat.le_refl _, fun _ => ⟨cs, data, h, hdata⟩, fun hloaded => ?_, fun hloaded p b hp => ?_,
    fun _ => trivial⟩
  · obtain ⟨rfl, _⟩ := hcached hloaded
    exact Nat.le_of_eq hcovers.fileSize
  · obtain ⟨rfl, hbytes⟩ := hcached hloaded
    obtain ⟨hlt, hbyte⟩ := hdata p b hp
    rw [h.length] at hlt
    have hpages := Nat.mul_le_mul_right pageSize hcovers.pages
    have hle := le_pagesOf fcb.fileSize
    exact ⟨hlt, show p < fcb.cache.pageCount * pageSize by omega, (hbytes p hlt).trans hbyte⟩

/-- In a run in which each section creation that extends the file finds it no larger than its maximum, the
file has the largest size it was given, and loses no byte. -/
theorem runShared_keeps {cs : List Nat} {data : List UInt8} {events : List SharedEvent}
    (hsmall : fcb.fileSize ≤ 0xFFFFFFFF) (h : FileOn v dir ds fcb cs data)
    (hmeets : RunMeets dir events (.start v fcb data))
    (hrun : runShared dir events (.start v fcb data) = some s) : s.Keeps :=
  ((Safe.start hsmall h).run hmeets hrun).keeps

end

/-- A section over an empty file. Before it gets the gate to extend the file, a write of 200 bytes by
another thread begins. -/
def beforeExtend (maximum : Nat) : List SharedEvent :=
  [.createSection 0 maximum true plenty.fill,
   .startWrite 1 ⟨0, false, Nat.two_pow_pos 63⟩ ⟨200, by decide⟩ plenty.fill, .prepareWrite 1 plenty,
   .store 1 (List.replicate 200 1), .writeback 1 0 0]

def besideWrite (maximum : Nat) : List SharedEvent :=
  beforeExtend maximum ++ [.extend 0 plenty, .back 0 plenty.fill]

/-- The maximum is above what the write leaves. -/
theorem runShared_keeps_beside : ∃ s,
    runShared 2 (besideWrite 300) (.start emptyVolume (openedFile 0 0) []) = some s ∧ s.fcb.fileSize = 300 ∧
      s.Keeps := by
  have hsize : (runShared 2 (besideWrite 300) (.start emptyVolume (openedFile 0 0) [])).map
      (·.fcb.fileSize) = some 300 := by
    decide +kernel
  have hbefore : (runShared 2 (beforeExtend 300) (.start emptyVolume (openedFile 0 0) [])).map
      (fun s => (s.fcb.fileSize, match s.stage 0 with | .measured maximum => maximum | _ => 0)) =
      some (200, 300) := by
    decide +kernel
  obtain ⟨s, hrun, hs⟩ := Option.map_eq_some_iff.mp hsize
  have hmeets : RunMeets 2 (besideWrite 300) (.start emptyVolume (openedFile 0 0) []) := by
    refine RunMeets.append ?_ fun s1 hrun1 => ⟨fun maximum hmaximum => ?_, fun _ _ => ⟨trivial, fun _ _ => trivial⟩⟩
    · exact ⟨trivial, fun _ _ => ⟨trivial, fun _ _ => ⟨trivial, fun _ _ => ⟨trivial, fun _ _ =>
        ⟨trivial, fun _ _ => trivial⟩⟩⟩⟩⟩
    · rw [hrun1] at hbefore
      simp only [Option.map_some, hmaximum, Option.some.injEq, Prod.mk.injEq] at hbefore
      omega
  exact ⟨s, hrun, hs, runShared_keeps (by decide) fileOn_emptyVolume hmeets hrun⟩

/-- The write leaves more than the maximum, and the section takes it back. -/
theorem runShared_shrinks : FileOn emptyVolume 2 [2] (openedFile 0 0) [] [] ∧ ∃ s,
    runShared 2 (besideWrite 100) (.start emptyVolume (openedFile 0 0) []) = some s ∧ ¬ s.Keeps := by
  refine ⟨fileOn_emptyVolume, ?_⟩
  have hsizes : (runShared 2 (besideWrite 100) (.start emptyVolume (openedFile 0 0) [])).map
      (fun s => (s.largest, s.fcb.fileSize)) = some (200, 100) := by
    decide +kernel
  obtain ⟨s, hrun, hs⟩ := Option.map_eq_some_iff.mp hsizes
  refine ⟨s, hrun, fun hkeeps => ?_⟩
  have hle := hkeeps.size
  rw [Prod.mk.injEq] at hs
  omega

end Proskrnl.Fat
