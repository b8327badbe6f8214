import Proskrnl.Abi.Status

/-!
# Byte-range locks

`kernel/io/lock.c` over the locks of one `IO_FCB`. An end of 0 stands for the end of the address space,
and a range that wraps to anything else is refused. `Covers` says which positions a range covers
without its end, and two locks are `Compatible` when they share no position or are both shared.
-/

namespace Proskrnl.Io
open List

/-- `IO_FILE_LOCK`; the owner is a `FILE_OBJECT`. -/
structure FileLock where
  owner : Nat
  offset : UInt64
  length : UInt64
  exclusive : Bool
  deriving DecidableEq

def iopLockEnd (offset length : UInt64) : UInt64 := offset + length

def iopRangesOverlap (aOffset aLength bOffset bLength : UInt64) : Bool :=
  if aLength = 0 ∨ bLength = 0 then false
  else if iopLockEnd aOffset aLength ≠ 0 ∧ iopLockEnd aOffset aLength ≤ bOffset then false
  else if iopLockEnd bOffset bLength ≠ 0 ∧ iopLockEnd bOffset bLength ≤ aOffset then false
  else true

def iopLockConflicts (lockList : List FileLock) (offset length : UInt64) (exclusive : Bool) : Bool :=
  lockList.any fun lock =>
    iopRangesOverlap offset length lock.offset lock.length && (exclusive || lock.exclusive)

/-- `allocated` is whether the pool has a block for the lock. -/
def iopLockRange (lockList : List FileLock) (owner : Nat) (offset length : UInt64) (exclusive allocated : Bool) :
    List FileLock × NtStatus :=
  if iopLockEnd offset length ≠ 0 ∧ iopLockEnd offset length < offset then
    (lockList, statusInvalidParameter)
  else if iopLockConflicts lockList offset length exclusive then (lockList, statusFileLockConflict)
  else if !allocated then (lockList, statusInsufficientResources)
  else (lockList ++ [FileLock.mk owner offset length exclusive], statusSuccess)

def iopUnlockRange (owner : Nat) (offset length : UInt64) : List FileLock → List FileLock × NtStatus
  | [] => ([], statusRangeNotLocked)
  | lock :: rest =>
    if lock.owner = owner ∧ lock.offset = offset ∧ lock.length = length then (rest, statusSuccess)
    else
      let (rest, status) := iopUnlockRange owner offset length rest
      (lock :: rest, status)

def iopReleaseAllLocks (owner : Nat) (lockList : List FileLock) : List FileLock :=
  lockList.filter fun lock => lock.owner ≠ owner

inductive LockOp
  | lock (owner : Nat) (offset length : UInt64) (exclusive allocated : Bool)
  | unlock (owner : Nat) (offset length : UInt64)
  | releaseAll (owner : Nat)

def LockOp.step (lockList : List FileLock) : LockOp → List FileLock
  | .lock owner offset length exclusive allocated =>
    (iopLockRange lockList owner offset length exclusive allocated).1
  | .unlock owner offset length => (iopUnlockRange owner offset length lockList).1
  | .releaseAll owner => iopReleaseAllLocks owner lockList

/-- The locks after some requests on a file that had none (`IopInitializeFcb`). -/
def runLocks (ops : List LockOp) : List FileLock := ops.foldl LockOp.step []

/-- The range has the position: the positions are counted from its offset on, around the end of the
address space. -/
def Covers (offset length position : UInt64) : Prop := position - offset < length

/-- The range goes past the end of the address space. -/
def Wraps (offset length : UInt64) : Prop := 2 ^ 64 < offset.toNat + length.toNat

/-- The locks share no position, or both are shared. -/
def Compatible (a b : FileLock) : Prop :=
  ∀ position, Covers a.offset a.length position → Covers b.offset b.length position →
    a.exclusive = false ∧ b.exclusive = false

variable {offset length position aOffset aLength bOffset bLength : UInt64} {lockList : List FileLock}
  {owner : Nat} {lock a b : FileLock} {ops : List LockOp}

theorem toNat_iopLockEnd :
    (iopLockEnd offset length).toNat = (offset.toNat + length.toNat) % 2 ^ 64 := by
  rw [iopLockEnd, UInt64.toNat_add]

theorem wraps_iff :
    Wraps offset length ↔ iopLockEnd offset length ≠ 0 ∧ iopLockEnd offset length < offset := by
  have ho := offset.toNat_lt
  have hl := length.toNat_lt
  rw [Wraps, UInt64.lt_iff_toNat_lt, ne_eq, ← UInt64.toNat_inj, toNat_iopLockEnd, UInt64.toNat_zero]
  omega

theorem covers_iff (h : ¬ Wraps offset length) : Covers offset length position ↔
    offset.toNat ≤ position.toNat ∧ position.toNat < offset.toNat + length.toNat := by
  have ho := offset.toNat_lt
  have hl := length.toNat_lt
  have hp := position.toNat_lt
  rw [Wraps] at h
  rw [Covers, UInt64.lt_iff_toNat_lt, UInt64.toNat_sub]
  omega

theorem iopLockEnd_le_iff (h : ¬ Wraps offset length) (hne : length ≠ 0) :
    iopLockEnd offset length ≠ 0 ∧ iopLockEnd offset length ≤ position ↔
      offset.toNat + length.toNat ≤ position.toNat := by
  have ho := offset.toNat_lt
  have hp := position.toNat_lt
  have hl : length.toNat ≠ 0 := fun h => hne (UInt64.toNat_inj.mp h)
  rw [Wraps] at h
  rw [UInt64.le_iff_toNat_le, ne_eq, ← UInt64.toNat_inj, toNat_iopLockEnd, UInt64.toNat_zero]
  omega

theorem iopRangesOverlap_iff (ha : ¬ Wraps aOffset aLength) (hb : ¬ Wraps bOffset bLength) :
    iopRangesOverlap aOffset aLength bOffset bLength = true ↔
      ∃ position, Covers aOffset aLength position ∧ Covers bOffset bLength position := by
  have hao := aOffset.toNat_lt
  have hbo := bOffset.toNat_lt
  simp only [covers_iff ha, covers_iff hb]
  rw [iopRangesOverlap]
  split
  case isTrue hzero =>
    refine iff_of_false Bool.false_ne_true ?_
    rintro ⟨position, hpa, hpb⟩
    rcases hzero with rfl | rfl
    · exact absurd hpa.2 (by rw [UInt64.toNat_zero]; omega)
    · exact absurd hpb.2 (by rw [UInt64.toNat_zero]; omega)
  case isFalse hlength =>
    obtain ⟨hane, hbne⟩ := not_or.mp hlength
    have hal : aLength.toNat ≠ 0 := fun h => hane (UInt64.toNat_inj.mp h)
    have hbl : bLength.toNat ≠ 0 := fun h => hbne (UInt64.toNat_inj.mp h)
    split
    case isTrue hafter =>
      rw [iopLockEnd_le_iff ha hane] at hafter
      refine iff_of_false Bool.false_ne_true ?_
      rintro ⟨position, hpa, hpb⟩
      omega
    case isFalse hafter =>
      rw [iopLockEnd_le_iff ha hane] at hafter
      split
      case isTrue hbefore =>
        rw [iopLockEnd_le_iff hb hbne] at hbefore
        refine iff_of_false Bool.false_ne_true ?_
        rintro ⟨position, hpa, hpb⟩
        omega
      case isFalse hbefore =>
        rw [iopLockEnd_le_iff hb hbne] at hbefore
        -- the one that starts later starts inside the other
        refine iff_of_true rfl ?_
        rcases Nat.le_total aOffset.toNat bOffset.toNat with hle | hle
        · exact ⟨bOffset, ⟨hle, by omega⟩, le_rfl, by omega⟩
        · exact ⟨aOffset, ⟨le_rfl, by omega⟩, hle, by omega⟩

theorem not_compatible_iff : ¬ Compatible a b ↔
    (∃ position, Covers a.offset a.length position ∧ Covers b.offset b.length position) ∧
      (a.exclusive = true ∨ b.exclusive = true) := by
  rw [Compatible]
  push Not
  constructor
  · rintro ⟨position, ha, hb, hne⟩
    refine ⟨⟨position, ha, hb⟩, ?_⟩
    cases hex : a.exclusive with
    | true => exact .inl rfl
    | false => exact .inr (by simpa using hne hex)
  · rintro ⟨⟨position, ha, hb⟩, hex⟩
    refine ⟨position, ha, hb, fun hfalse => ?_⟩
    rw [hfalse] at hex
    simpa using hex

def Straight (lockList : List FileLock) : Prop := ∀ lock ∈ lockList, ¬ Wraps lock.offset lock.length

theorem iopLockConflicts_iff (owner : Nat) (exclusive : Bool) (hs : Straight lockList)
    (h : ¬ Wraps offset length) : iopLockConflicts lockList offset length exclusive = true ↔
      ∃ other ∈ lockList, ¬ Compatible other ⟨owner, offset, length, exclusive⟩ := by
  rw [iopLockConflicts, List.any_eq_true]
  apply exists_congr
  intro other
  apply and_congr_right
  intro hmem
  rw [Bool.and_eq_true, iopRangesOverlap_iff h (hs other hmem), Bool.or_eq_true, not_compatible_iff]
  apply and_congr
  · exact exists_congr fun position => and_comm
  · exact or_comm

theorem pairwise_concat (h : lockList.Pairwise Compatible) :
    (lockList ++ [lock]).Pairwise Compatible ↔ ∀ other ∈ lockList, Compatible other lock := by
  rw [pairwise_append]
  constructor
  · rintro ⟨-, -, hall⟩ other hmem
    exact hall other hmem lock (mem_singleton_self lock)
  · intro hall
    refine ⟨h, pairwise_singleton _ _, fun other hmem added hadded => ?_⟩
    obtain rfl := mem_singleton.mp hadded
    exact hall other hmem

theorem conflicts_iff_breaks (owner : Nat) (exclusive : Bool) (hs : Straight lockList)
    (hc : lockList.Pairwise Compatible) (h : ¬ Wraps offset length) :
    iopLockConflicts lockList offset length exclusive = true ↔
      ¬ (lockList ++ [FileLock.mk owner offset length exclusive]).Pairwise Compatible := by
  rw [iopLockConflicts_iff owner exclusive hs h, pairwise_concat hc]
  push Not
  exact Iff.rfl

theorem iopLockRange_cases (owner : Nat) (offset length : UInt64) (exclusive allocated : Bool)
    (hs : Straight lockList) (hc : lockList.Pairwise Compatible) :
    let result := iopLockRange lockList owner offset length exclusive allocated
    let granted := lockList ++ [FileLock.mk owner offset length exclusive]
    (Wraps offset length ∧ result = (lockList, statusInvalidParameter)) ∨
      (¬ Wraps offset length ∧ ¬ granted.Pairwise Compatible ∧
        result = (lockList, statusFileLockConflict)) ∨
      (¬ Wraps offset length ∧ granted.Pairwise Compatible ∧ allocated = false ∧
        result = (lockList, statusInsufficientResources)) ∨
      (¬ Wraps offset length ∧ granted.Pairwise Compatible ∧ allocated = true ∧
        result = (granted, statusSuccess)) := by
  dsimp only
  rw [iopLockRange]
  by_cases hwraps : Wraps offset length
  · rw [if_pos (wraps_iff.mp hwraps)]
    exact .inl ⟨hwraps, rfl⟩
  · rw [if_neg (mt wraps_iff.mpr hwraps)]
    have hiff := conflicts_iff_breaks owner exclusive hs hc hwraps
    by_cases hconflict : iopLockConflicts lockList offset length exclusive = true
    · rw [if_pos hconflict]
      exact .inr (.inl ⟨hwraps, hiff.mp hconflict, rfl⟩)
    · rw [if_neg hconflict]
      have hgranted := not_not.mp (mt hiff.mpr hconflict)
      cases allocated with
      | false => exact .inr (.inr (.inl ⟨hwraps, hgranted, rfl, rfl⟩))
      | true => exact .inr (.inr (.inr ⟨hwraps, hgranted, rfl, rfl⟩))

def FileLock.Is (lock : FileLock) (owner : Nat) (offset length : UInt64) : Prop :=
  lock.owner = owner ∧ lock.offset = offset ∧ lock.length = length

theorem iopUnlockRange_cases (owner : Nat) (offset length : UInt64) (lockList : List FileLock) :
    (∃ before lock after, lockList = before ++ lock :: after ∧ lock.Is owner offset length ∧
      iopUnlockRange owner offset length lockList = (before ++ after, statusSuccess)) ∨
    ((∀ lock ∈ lockList, ¬ lock.Is owner offset length) ∧
      iopUnlockRange owner offset length lockList = (lockList, statusRangeNotLocked)) := by
  induction lockList with
  | nil => exact .inr ⟨nofun, rfl⟩
  | cons lock rest ih =>
    rw [iopUnlockRange]
    split
    case isTrue his => exact .inl ⟨[], lock, rest, rfl, his, rfl⟩
    case isFalse hnot =>
      rcases ih with ⟨before, found, after, rfl, his, heq⟩ | ⟨hnone, heq⟩
      · rw [heq]
        exact .inl ⟨lock :: before, found, after, rfl, his, rfl⟩
      · rw [heq]
        exact .inr ⟨forall_mem_cons.mpr ⟨hnot, hnone⟩, rfl⟩

theorem iopUnlockRange_sublist :
    (iopUnlockRange owner offset length lockList).1.Sublist lockList := by
  rcases iopUnlockRange_cases owner offset length lockList with
    ⟨before, lock, after, rfl, -, heq⟩ | ⟨-, heq⟩
  · rw [heq]
    exact (Sublist.refl before).append (sublist_cons_self lock after)
  · rw [heq]

theorem iopReleaseAllLocks_sublist : (iopReleaseAllLocks owner lockList).Sublist lockList :=
  filter_sublist

structure LocksInv (lockList : List FileLock) : Prop where
  straight : Straight lockList
  compatible : lockList.Pairwise Compatible

theorem LocksInv.sublist {l : List FileLock} (h : LocksInv lockList) (hl : l.Sublist lockList) :
    LocksInv l :=
  ⟨fun lock hmem => h.straight lock (hl.subset hmem), h.compatible.sublist hl⟩

theorem LocksInv.step (h : LocksInv lockList) (op : LockOp) : LocksInv (op.step lockList) := by
  cases op with
  | lock owner offset length exclusive allocated =>
    rw [LockOp.step]
    rcases iopLockRange_cases owner offset length exclusive allocated h.straight h.compatible with
      ⟨-, heq⟩ | ⟨-, -, heq⟩ | ⟨-, -, -, heq⟩ | ⟨hwraps, hgranted, -, heq⟩
    · rw [heq]; exact h
    · rw [heq]; exact h
    · rw [heq]; exact h
    · rw [heq]
      refine ⟨fun other hmem => ?_, hgranted⟩
      rcases mem_append.mp hmem with hmem | hmem
      · exact h.straight other hmem
      · obtain rfl := mem_singleton.mp hmem
        exact hwraps
  | unlock owner offset length => exact h.sublist iopUnlockRange_sublist
  | releaseAll owner => exact h.sublist iopReleaseAllLocks_sublist

theorem locksInv_foldl (h : LocksInv lockList) : LocksInv (ops.foldl LockOp.step lockList) := by
  induction ops generalizing lockList with
  | nil => exact h
  | cons op ops ih => exact ih (h.step op)

theorem runLocks_inv (ops : List LockOp) : LocksInv (runLocks ops) :=
  locksInv_foldl ⟨nofun, .nil⟩

/-- After any requests the locks are pairwise compatible, and the next request is answered by that. -/
theorem locks_compatible (ops : List LockOp) :
    let held := runLocks ops
    held.Pairwise Compatible ∧
    (∀ owner offset length exclusive allocated,
      let result := iopLockRange held owner offset length exclusive allocated
      let granted := held ++ [FileLock.mk owner offset length exclusive]
      (result.2 = statusInvalidParameter ↔ Wraps offset length) ∧
      (¬ Wraps offset length →
        (result.2 = statusFileLockConflict ↔ ¬ granted.Pairwise Compatible)) ∧
      (result.2 = statusSuccess → result.1 = granted) ∧
      (result.2 ≠ statusSuccess → result.1 = held)) ∧
    (∀ owner offset length,
      (∃ before lock after, held = before ++ lock :: after ∧ lock.Is owner offset length ∧
        iopUnlockRange owner offset length held = (before ++ after, statusSuccess)) ∨
      ((∀ lock ∈ held, ¬ lock.Is owner offset length) ∧
        iopUnlockRange owner offset length held = (held, statusRangeNotLocked))) ∧
    (∀ owner lock, (iopReleaseAllLocks owner held).count lock =
      if lock.owner = owner then 0 else held.count lock) := by
  have hinv := runLocks_inv ops
  refine ⟨hinv.compatible, fun owner offset length exclusive allocated => ?_,
    fun owner offset length => iopUnlockRange_cases owner offset length _, fun owner lock => ?_⟩
  · dsimp only
    rcases iopLockRange_cases owner offset length exclusive allocated hinv.straight
      hinv.compatible with
      ⟨hwraps, heq⟩ | ⟨hwraps, hbreaks, heq⟩ | ⟨hwraps, hgranted, -, heq⟩ | ⟨hwraps, hgranted, -, heq⟩
    · rw [heq]
      exact ⟨iff_of_true rfl hwraps, fun h => absurd hwraps h, nofun, fun _ => rfl⟩
    · rw [heq]
      exact ⟨iff_of_false nofun hwraps, fun _ => iff_of_true rfl hbreaks, nofun, fun _ => rfl⟩
    · rw [heq]
      exact ⟨iff_of_false nofun hwraps, fun _ => iff_of_false nofun (not_not_intro hgranted), nofun,
        fun _ => rfl⟩
    · rw [heq]
      exact ⟨iff_of_false nofun hwraps, fun _ => iff_of_false nofun (not_not_intro hgranted),
        fun _ => rfl, fun h => absurd rfl h⟩
  · rw [iopReleaseAllLocks]
    split
    case isTrue howner =>
      refine count_eq_zero.mpr fun hmem => ?_
      simpa [howner] using (mem_filter.mp hmem).2
    case isFalse hother => exact count_filter (by simpa using hother)

/-- A request that wraps is not refused as a conflict, though it covers a position that is exclusively
locked. -/
theorem locks_wrapping :
    let held := runLocks [.lock 1 16 (0 - 16) true true]
    (iopLockRange held 2 32 (0 - 1) true true).2 = statusInvalidParameter ∧
      ¬ (held ++ [FileLock.mk 2 32 (0 - 1) true]).Pairwise Compatible := by
  refine ⟨by decide, fun h => ?_⟩
  have hfirst : runLocks [.lock 1 16 (0 - 16) true true] = [⟨1, 16, 0 - 16, true⟩] := by decide
  rw [hfirst] at h
  have hpair : Compatible ⟨1, 16, 0 - 16, true⟩ ⟨2, 32, 0 - 1, true⟩ :=
    (pairwise_cons.mp h).1 _ (mem_singleton_self _)
  have hshared := hpair 32 (by show (32 : UInt64) - 16 < 0 - 16; decide)
    (by show (32 : UInt64) - 32 < 0 - 1; decide)
  cases hshared.1

end Proskrnl.Io
