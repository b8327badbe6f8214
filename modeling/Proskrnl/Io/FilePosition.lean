import Proskrnl.Abi.Status
import Mathlib.Data.List.Pairwise
import Mathlib.Logic.Function.Basic

/-!
# The position of a synchronous handle

`kernel/io/rw.c`: `NtReadFile` and `NtWriteFile` on one synchronous disk handle, at its current position.
`IopStartTransfer` takes the position down, `KiAcquireEventGate` may make the thread wait for the lock of
the file object, and the transfer moves the position under the lock. A byte offset of `NULL` and
`FILE_USE_FILE_POINTER_POSITION` should mean the same, for any number of threads.
-/

namespace Proskrnl.Io

/-- How a call says that it means the current position. -/
inductive ByteOffset where
  /-- `NULL`. -/
  | absent
  /-- `FILE_USE_FILE_POINTER_POSITION`. -/
  | filePointer

/-- A call of `NtReadFile` or of `NtWriteFile`. -/
structure PositionCall where
  write : Bool
  byteOffset : ByteOffset
  length : Nat

/-- Where a thread is in its call. -/
inductive CallStage where
  | idle
  /-- Behind `IopStartTransfer`, which gave this offset. -/
  | started (call : PositionCall) (offset : Nat)
  /-- With the lock, at this offset. -/
  | locked (call : PositionCall) (offset : Nat)
  /-- A write with the lock that `PrepareWrite` has placed, when the file had this size. -/
  | placed (call : PositionCall) (offset endOfFile : Nat)

/-- A transfer that succeeded, and the size that the file had when it was placed. -/
structure PositionTransfer where
  write : Bool
  start : Nat
  length : Nat
  endOfFile : Nat

/-- A `FILE_OBJECT` that is synchronous, the file behind it, and the transfers that succeeded on it, the
last one first. -/
structure SyncFile where
  currentByteOffset : Nat
  fileSize : Nat
  readData : Bool
  writeData : Bool
  appendData : Bool
  syncIoLock : Option Nat
  stage : Nat → CallStage
  transfers : List PositionTransfer

/-- What happens next. -/
inductive PositionEvent where
  /-- A thread calls, and `IopStartTransfer` takes the position down. -/
  | start (t : Nat) (call : PositionCall)
  /-- `KiAcquireEventGate` gives a thread the lock. -/
  | acquire (t : Nat)
  /-- A thread with the lock leaves with an error: from the fill of the cache, the placement, a cancellation,
  the probe of its buffer or the writeback. -/
  | abandon (t : Nat)
  /-- `NtReadFile` from the cache on. -/
  | read (t : Nat)
  /-- `PrepareWrite` of `NtWriteFile`. -/
  | place (t : Nat)
  /-- `NtWriteFile` from `MiCacheWrite` on. -/
  | write (t : Nat)
  /-- The file grows by other means. -/
  | grow (size : Nat)

/-- The access of the handle allows the call. -/
def SyncFile.allows (s : SyncFile) (call : PositionCall) : Bool :=
  if call.write then s.writeData || s.appendData else s.readData

/-- A write of the handle goes to the end of the file. -/
def SyncFile.appends (s : SyncFile) (write : Bool) : Bool := write && !s.writeData

/-- A thread goes on to a stage. -/
def SyncFile.move (s : SyncFile) (t : Nat) (stage : CallStage) : SyncFile :=
  { s with stage := Function.update s.stage t stage }

/-- A thread lets go of the lock and is done with its call. -/
def SyncFile.release (s : SyncFile) (t : Nat) : SyncFile :=
  { s.move t .idle with syncIoLock := none }

/-- A transfer that succeeds moves the position behind it. -/
def SyncFile.complete (s : SyncFile) (t : Nat) (transfer : PositionTransfer) : SyncFile :=
  { s.release t with
    currentByteOffset := transfer.start + transfer.length
    transfers := transfer :: s.transfers }

/-- The size of a file behind `PrepareWrite`; a write of no bytes does not extend it. -/
def preparedSize (fileSize offset length : Nat) : Nat :=
  if length ≠ 0 ∧ offset + length > fileSize then offset + length else fileSize

/-- A step; none if it is not the thread's next one, or the lock is taken. -/
def SyncFile.step (s : SyncFile) : PositionEvent → Option SyncFile
  | .start t call =>
    match s.stage t with
    | .idle =>
      if s.allows call then
        -- `NULL` and -2 alike
        some (s.move t (.started call s.currentByteOffset))
      else some s
    | _ => none
  | .acquire t =>
    match s.stage t, s.syncIoLock with
    | .started call offset, none =>
      let offset :=
        match call.byteOffset with
        | .absent => s.currentByteOffset
        | .filePointer => offset
      some { s.move t (.locked call offset) with syncIoLock := some t }
    | _, _ => none
  | .abandon t =>
    match s.stage t with
    | .locked .. | .placed .. => some (s.release t)
    | _ => none
  | .read t =>
    match s.stage t with
    | .locked call offset =>
      if call.write then none
      -- `STATUS_END_OF_FILE`
      else if offset ≥ s.fileSize then some (s.release t)
      else some (s.complete t ⟨false, offset, min call.length (s.fileSize - offset), s.fileSize⟩)
    | _ => none
  | .place t =>
    match s.stage t with
    | .locked call offset =>
      if call.write then
        let offset := if s.appends true then s.fileSize else offset
        some
          { s.move t (.placed call offset s.fileSize) with
            fileSize := preparedSize s.fileSize offset call.length }
      else none
    | _ => none
  | .write t =>
    match s.stage t with
    | .placed call offset endOfFile => some (s.complete t ⟨true, offset, call.length, endOfFile⟩)
    | _ => none
  | .grow size => some { s with fileSize := max s.fileSize size }

/-- Steps one after another. -/
def runPosition : List PositionEvent → SyncFile → Option SyncFile
  | [], s => some s
  | event :: events, s => (s.step event).bind (runPosition events)

/-- The position behind the transfers, from the one in front of them all. -/
def endOf (initial : Nat) : List PositionTransfer → Nat
  | [] => initial
  | transfer :: _ => transfer.start + transfer.length

/-- Each transfer starts where the one before it ended, or is an append at the end of the file. -/
def Consecutive (appends : Bool → Bool) (initial : Nat) : List PositionTransfer → Prop
  | [] => True
  | transfer :: earlier =>
    (transfer.start = endOf initial earlier ∨
      appends transfer.write = true ∧ transfer.start = transfer.endOfFile) ∧
    Consecutive appends initial earlier

/-- The transfers follow one another, those that move bytes go to places apart, and the position is the
end of the last one. -/
structure PositionAtomic (initial : Nat) (s : SyncFile) : Prop where
  consecutive : Consecutive s.appends initial s.transfers
  apart : s.transfers.Pairwise fun later earlier => later.length ≠ 0 → earlier.length ≠ 0 →
    earlier.start + earlier.length ≤ later.start
  distinct : s.transfers.Pairwise fun later earlier => later.length ≠ 0 → earlier.length ≠ 0 →
    earlier.start ≠ later.start
  position : s.currentByteOffset = endOf initial s.transfers

/-- A thread that asked for the position by value gets the lock before the position has moved, unless its
write goes to the end of the file. -/
def SyncFile.Meets (s : SyncFile) (event : PositionEvent) : Prop :=
  match event with
  | .acquire t => ∀ call offset, s.stage t = .started call offset → call.byteOffset = .filePointer →
    offset = s.currentByteOffset ∨ s.appends call.write = true
  | _ => True

/-- Each step of a run meets the condition when its turn comes. -/
def PositionMeets : List PositionEvent → SyncFile → Prop
  | [], _ => True
  | event :: events, s => s.Meets event ∧ ∀ s', s.step event = some s' → PositionMeets events s'

/-- A handle that no call is under way on. -/
structure SyncFile.Quiet (s : SyncFile) : Prop where
  idle : ∀ t, s.stage t = .idle
  unlocked : s.syncIoLock = none
  fresh : s.transfers = []

def CallStage.Holds (s : SyncFile) (t : Nat) : CallStage → Prop
  | .idle | .started .. => True
  | .locked call offset =>
    s.syncIoLock = some t ∧ (offset = s.currentByteOffset ∨ s.appends call.write = true)
  | .placed call offset endOfFile =>
    s.syncIoLock = some t ∧ call.write = true ∧ (call.length ≠ 0 → offset + call.length ≤ s.fileSize) ∧
      (offset = s.currentByteOffset ∨ s.appends true = true ∧ offset = endOfFile) ∧
      ∀ transfer ∈ s.transfers, transfer.length ≠ 0 → transfer.start + transfer.length ≤ offset

/-- What the steps keep of a handle. The transfers that moved bytes end in front of the position and of the
end of the file. -/
structure PositionInv (initial : Nat) (s : SyncFile) : Prop where
  atomic : PositionAtomic initial s
  behind : ∀ transfer ∈ s.transfers, transfer.length ≠ 0 →
    transfer.start + transfer.length ≤ s.currentByteOffset ∧ transfer.start + transfer.length ≤ s.fileSize
  stages : ∀ t, (s.stage t).Holds s t

section
variable {initial t : Nat} {s s' : SyncFile}

theorem stage_move (s : SyncFile) (t t' : Nat) (stage : CallStage) :
    (s.move t stage).stage t' = if t' = t then stage else s.stage t' := by
  rw [SyncFile.move]
  exact Function.update_apply ..

theorem PositionInv.unlocked (h : PositionInv initial s) (hlock : s.syncIoLock = some t) {t' : Nat}
    (hne : t' ≠ t) : s.stage t' = .idle ∨ ∃ call offset, s.stage t' = .started call offset := by
  have hholds := h.stages t'
  cases hstage : s.stage t' with
  | idle => exact .inl rfl
  | started call offset => exact .inr ⟨call, offset, rfl⟩
  | locked call offset =>
    rw [hstage] at hholds
    exact absurd (Option.some.inj (hholds.1.symm.trans hlock)) hne
  | placed call offset endOfFile =>
    rw [hstage] at hholds
    exact absurd (Option.some.inj (hholds.1.symm.trans hlock)) hne

theorem CallStage.holds_before {stage : CallStage}
    (h : stage = .idle ∨ ∃ call offset, stage = .started call offset) (s : SyncFile) (t : Nat) :
    stage.Holds s t := by
  obtain rfl | ⟨call, offset, rfl⟩ := h <;> trivial

section
variable (h : PositionInv initial s) (hlock : s.syncIoLock = some t)
include h hlock

theorem PositionInv.holds_release
    (s' : SyncFile) (t' : Nat) : ((s.release t).stage t').Holds s' t' := by
  apply CallStage.holds_before
  change (s.move t .idle).stage t' = _ ∨ ∃ call offset, (s.move t .idle).stage t' = _
  rw [stage_move]
  split
  case isTrue => exact .inl rfl
  case isFalse hne => exact h.unlocked hlock hne

theorem PositionInv.release :
    PositionInv initial (s.release t) :=
  ⟨⟨h.atomic.consecutive, h.atomic.apart, h.atomic.distinct, h.atomic.position⟩, h.behind,
    h.holds_release hlock _⟩

theorem PositionInv.complete {transfer : PositionTransfer}
    (hstart : transfer.start = s.currentByteOffset ∨
      s.appends transfer.write = true ∧ transfer.start = transfer.endOfFile)
    (hroom : transfer.length ≠ 0 → transfer.start + transfer.length ≤ s.fileSize)
    (hbehind : ∀ earlier ∈ s.transfers, earlier.length ≠ 0 →
      earlier.start + earlier.length ≤ transfer.start) :
    PositionInv initial (s.complete t transfer) := by
  have hconsecutive : Consecutive s.appends initial (transfer :: s.transfers) := by
    refine ⟨?_, h.atomic.consecutive⟩
    rw [← h.atomic.position]
    exact hstart
  refine ⟨⟨hconsecutive, ?_, ?_, rfl⟩, fun earlier hearlier hsome => ?_,
    h.holds_release hlock _⟩
  · exact List.pairwise_cons.mpr ⟨fun earlier hmem _ hsome => hbehind earlier hmem hsome, h.atomic.apart⟩
  · refine List.pairwise_cons.mpr ⟨fun earlier hmem _ hsome => ?_, h.atomic.distinct⟩
    have hle := hbehind earlier hmem hsome
    omega
  · change earlier.start + earlier.length ≤ transfer.start + transfer.length ∧
      earlier.start + earlier.length ≤ s.fileSize
    obtain rfl | hmem := List.mem_cons.mp hearlier
    · exact ⟨Nat.le_refl _, hroom hsome⟩
    · have hle := hbehind earlier hmem hsome
      exact ⟨by omega, (h.behind earlier hmem hsome).2⟩

end

theorem PositionInv.moved (stage : CallStage) {size : Nat} (h : PositionInv initial s)
    (hlock : s.syncIoLock = some t ∨ s.syncIoLock = none)
    (hs' : s' = { s.move t stage with syncIoLock := some t, fileSize := size })
    (hsize : s.fileSize ≤ size) (hstage : stage.Holds s' t) : PositionInv initial s' := by
  subst hs'
  refine ⟨⟨h.atomic.consecutive, h.atomic.apart, h.atomic.distinct, h.atomic.position⟩,
    fun transfer hmem hsome => ?_, fun t' => ?_⟩
  · obtain ⟨hposition, hend⟩ := h.behind transfer hmem hsome
    exact ⟨hposition, Nat.le_trans hend hsize⟩
  · change ((s.move t stage).stage t').Holds _ t'
    rw [stage_move]
    split
    case isTrue heq =>
      subst heq
      exact hstage
    case isFalse hne =>
      apply CallStage.holds_before
      obtain hmine | hnone := hlock
      · exact h.unlocked hmine hne
      · have hholds := h.stages t'
        cases hstage' : s.stage t' with
        | idle => exact .inl rfl
        | started call offset => exact .inr ⟨call, offset, rfl⟩
        | locked call offset =>
          rw [hstage'] at hholds
          exact absurd (hholds.1.symm.trans hnone) nofun
        | placed call offset endOfFile =>
          rw [hstage'] at hholds
          exact absurd (hholds.1.symm.trans hnone) nofun

theorem le_preparedSize (fileSize offset length : Nat) : fileSize ≤ preparedSize fileSize offset length := by
  rw [preparedSize]
  split <;> omega

theorem PositionInv.step {event : PositionEvent} (h : PositionInv initial s) (hmeets : s.Meets event)
    (hstep : s.step event = some s') : PositionInv initial s' := by
  cases event with
  | start t call =>
    rw [SyncFile.step] at hstep
    cases hstage : s.stage t <;> rw [hstage] at hstep <;> try cases hstep
    simp only at hstep
    split at hstep
    · cases hstep
      refine ⟨⟨h.atomic.consecutive, h.atomic.apart, h.atomic.distinct, h.atomic.position⟩, h.behind,
        fun t' => ?_⟩
      rw [stage_move]
      split
      · trivial
      · have hholds := h.stages t'
        generalize s.stage t' = stage at hholds ⊢
        cases stage <;> exact hholds
    · cases hstep
      exact h
  | acquire t =>
    rw [SyncFile.step] at hstep
    cases hstage : s.stage t <;> rw [hstage] at hstep <;> try cases hstep
    case started call offset =>
      cases hlock : s.syncIoLock with
      | some holder =>
        rw [hlock] at hstep
        cases hstep
      | none =>
        rw [hlock] at hstep
        cases hstep
        refine h.moved _ (.inr hlock) rfl (Nat.le_refl s.fileSize) ⟨rfl, ?_⟩
        cases hoffset : call.byteOffset with
        | absent => exact .inl rfl
        | filePointer => exact hmeets call offset hstage hoffset
  | abandon t =>
    rw [SyncFile.step] at hstep
    have hholds := h.stages t
    cases hstage : s.stage t <;> rw [hstage] at hstep hholds <;> try cases hstep
    · exact h.release hholds.1
    · exact h.release hholds.1
  | read t =>
    rw [SyncFile.step] at hstep
    have hholds := h.stages t
    cases hstage : s.stage t <;> rw [hstage] at hstep hholds <;> try cases hstep
    case locked call offset =>
      obtain ⟨hlock, hoffset⟩ := hholds
      simp only at hstep
      split at hstep
      case isTrue => cases hstep
      case isFalse hread =>
        have hposition : offset = s.currentByteOffset := by
          refine hoffset.resolve_right fun happends => ?_
          rw [SyncFile.appends, Bool.eq_false_iff.mpr hread] at happends
          cases happends
        split at hstep
        · cases hstep
          exact h.release hlock
        case isFalse hinside =>
          cases hstep
          refine h.complete hlock (.inl hposition) (fun _ => ?_) fun earlier hmem hsome => ?_
          · simp only
            omega
          · exact Nat.le_trans (h.behind earlier hmem hsome).1 (Nat.le_of_eq hposition.symm)
  | place t =>
    rw [SyncFile.step] at hstep
    have hholds := h.stages t
    cases hstage : s.stage t <;> rw [hstage] at hstep hholds <;> try cases hstep
    case locked call offset =>
      obtain ⟨hlock, hoffset⟩ := hholds
      simp only at hstep
      split at hstep
      case isFalse => cases hstep
      case isTrue hwrite =>
        rw [hwrite] at hoffset
        obtain ⟨place, hplace⟩ : ∃ place, place = if s.appends true = true then s.fileSize else offset :=
          ⟨_, rfl⟩
        rw [← hplace] at hstep
        cases hstep
        refine h.moved (.placed call place s.fileSize) (.inl hlock) (by rw [← hlock]; rfl)
          (le_preparedSize s.fileSize place call.length)
          ⟨hlock, hwrite, fun hsome => ?_, ?_, fun transfer hmem hsome => ?_⟩
        · change place + call.length ≤ preparedSize s.fileSize place call.length
          rw [preparedSize]
          split <;> omega
        · change place = s.currentByteOffset ∨ s.appends true = true ∧ place = s.fileSize
          by_cases happends : s.appends true = true
          · rw [if_pos happends] at hplace
            exact .inr ⟨happends, hplace⟩
          · rw [if_neg happends] at hplace
            exact .inl (hplace.trans (hoffset.resolve_right happends))
        · obtain ⟨hposition, hend⟩ := h.behind transfer hmem hsome
          by_cases happends : s.appends true = true
          · rw [hplace, if_pos happends]
            exact hend
          · rw [hplace, if_neg happends, hoffset.resolve_right happends]
            exact hposition
  | write t =>
    rw [SyncFile.step] at hstep
    have hholds := h.stages t
    cases hstage : s.stage t <;> rw [hstage] at hstep hholds <;> try cases hstep
    case write.placed.refl call offset endOfFile =>
      obtain ⟨hlock, _, hroom, hoffset, hbehind⟩ := hholds
      exact h.complete hlock hoffset hroom hbehind
  | grow size =>
    cases hstep
    refine ⟨⟨h.atomic.consecutive, h.atomic.apart, h.atomic.distinct, h.atomic.position⟩,
      fun transfer hmem hsome => ?_, fun t => ?_⟩
    · obtain ⟨hposition, hend⟩ := h.behind transfer hmem hsome
      exact ⟨hposition, Nat.le_trans hend (Nat.le_max_left ..)⟩
    · have hholds := h.stages t
      change (s.stage t).Holds _ t
      generalize s.stage t = stage at hholds ⊢
      cases stage with
      | idle | started call offset | locked call offset => exact hholds
      | placed call offset endOfFile =>
        obtain ⟨hlock, hwrite, hroom, hrest⟩ := hholds
        exact ⟨hlock, hwrite, fun hsome => Nat.le_trans (hroom hsome) (Nat.le_max_left ..), hrest⟩

theorem PositionInv.run {events : List PositionEvent} (h : PositionInv initial s)
    (hmeets : PositionMeets events s) (hrun : runPosition events s = some s') : PositionInv initial s' := by
  induction events generalizing s with
  | nil =>
    cases hrun
    exact h
  | cons event events ih =>
    obtain ⟨s1, hstep, hrest⟩ := Option.bind_eq_some_iff.mp hrun
    exact ih (h.step hmeets.1 hstep) (hmeets.2 s1 hstep) hrest

theorem SyncFile.Quiet.inv (h : s.Quiet) : PositionInv s.currentByteOffset s := by
  refine ⟨⟨?_, ?_, ?_, ?_⟩, ?_, fun t => ?_⟩
  · rw [h.fresh]
    trivial
  · rw [h.fresh]
    exact .nil
  · rw [h.fresh]
    exact .nil
  · rw [h.fresh]
    rfl
  · rw [h.fresh]
    nofun
  · rw [h.idle t]
    trivial

/-- In a run in which no thread that named the position by value finds it moved when it gets the lock, the
transfers of the handle are atomic. -/
theorem runPosition_atomic {events : List PositionEvent} (h : s.Quiet) (hmeets : PositionMeets events s)
    (hrun : runPosition events s = some s') : PositionAtomic s.currentByteOffset s' :=
  (h.inv.run hmeets hrun).atomic

end

/-- A handle on an empty file that may read and write. -/
def newHandle : SyncFile where
  currentByteOffset := 0
  fileSize := 0
  readData := true
  writeData := true
  appendData := true
  syncIoLock := none
  stage := fun _ => .idle
  transfers := []

theorem quiet_newHandle : newHandle.Quiet := ⟨fun _ => rfl, rfl, rfl⟩

/-- Two threads that write five bytes each at the current position. -/
def twoWrites (byteOffset : ByteOffset) : List PositionEvent :=
  [.start 0 ⟨true, byteOffset, 5⟩, .start 1 ⟨true, byteOffset, 5⟩,
   .acquire 0, .place 0, .write 0, .acquire 1, .place 1, .write 1]

theorem runPosition_atomic_absent : ∃ s, runPosition (twoWrites .absent) newHandle = some s ∧
    PositionAtomic 0 s := by
  refine ⟨_, rfl, runPosition_atomic quiet_newHandle (?_ : PositionMeets (twoWrites .absent) _) rfl⟩
  refine ⟨trivial, fun _ h => ?_⟩
  cases h
  refine ⟨trivial, fun _ h => ?_⟩
  cases h
  refine ⟨fun call offset h hvalue => ?_, fun _ h => ?_⟩
  · cases h
    cases hvalue
  cases h
  refine ⟨trivial, fun _ h => ?_⟩
  cases h
  refine ⟨trivial, fun _ h => ?_⟩
  cases h
  refine ⟨fun call offset h hvalue => ?_, fun _ h => ?_⟩
  · cases h
    cases hvalue
  cases h
  refine ⟨trivial, fun _ h => ?_⟩
  cases h
  exact ⟨trivial, fun _ _ => trivial⟩

/-- By value both write to the same place. -/
theorem runPosition_overlaps : newHandle.Quiet ∧ ∃ s,
    runPosition (twoWrites .filePointer) newHandle = some s ∧ ¬ PositionAtomic 0 s := by
  refine ⟨quiet_newHandle, _, rfl, fun h => ?_⟩
  have hapart := h.apart
  cases hapart with
  | cons hlater hearlier => exact absurd (hlater _ (.head _) (by decide) (by decide)) (by decide)

end Proskrnl.Io
