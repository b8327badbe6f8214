import Proskrnl.Lib.Rtl
import Proskrnl.Library.Bytes
import Proskrnl.Library.Splice

/-!
# The chain of change records

What `IopDeliverRecords` of `kernel/io/notify.c` writes into a buffer: `FILE_NOTIFY_INFORMATION` records
with no padding between them, each with the offset of the next, and 0 in the last one. `decodeChain`
follows the offsets as a caller does (`decodeChain_notifyPayload`).
-/

namespace Proskrnl.Io
open List

open Splice (splice splice_append)

/-- `IOP_DIR_RECORD`; the name is made of two `UNICODE_STRING`s and a separator. -/
structure DirRecord where
  action : UInt32
  name : WStr
  bounded : name.length ≤ 65535
  deriving DecidableEq

/-- `offsetof(FILE_NOTIFY_INFORMATION, FileName) + record->nameBytes` -/
def DirRecord.size (r : DirRecord) : Nat := 12 + 2 * r.name.length

def DirRecord.entry (r : DirRecord) (nextEntryOffset : Nat) : List UInt8 :=
  Bytes.le 4 nextEntryOffset ++ Bytes.le 4 r.action.toNat ++ Bytes.le 4 (2 * r.name.length) ++
    Bytes.ofUnits r.name

/-- The second loop of `IopDeliverRecords`: the bytes that are written, and `lastOffset`. -/
def writeRecords (records : List DirRecord) : List UInt8 × Nat :=
  records.foldl (fun written r => (written.1 ++ r.entry r.size, written.1.length)) ([], 0)

/-- The buffer with `endOfChain` in its last record. -/
def notifyPayload (records : List DirRecord) : List UInt8 :=
  splice (writeRecords records).1 (writeRecords records).2 (Bytes.le 4 0)

def chainLength (records : List DirRecord) : Nat := (records.map DirRecord.size).sum

/-- The reader's side: one record and those that its `NextEntryOffset` leads to. -/
def decodeChain : Nat → List UInt8 → Option (List (UInt32 × WStr))
  | 0, _ => none
  | fuel + 1, bytes =>
    let nextEntryOffset := Bytes.field bytes 0 4
    let fileNameLength := Bytes.field bytes 8 4
    if bytes.length < 12 + fileNameLength then none
    else
      let record := (UInt32.ofNat (Bytes.field bytes 4 4),
        Bytes.toUnits ((bytes.drop 12).take fileNameLength))
      if nextEntryOffset = 0 then some [record]
      else (decodeChain fuel (bytes.drop nextEntryOffset)).map (record :: ·)

variable {r : DirRecord} {records : List DirRecord} {next : Nat} {rest : List UInt8}

theorem DirRecord.size_lt (r : DirRecord) : r.size < 2 ^ 32 := by
  have := r.bounded
  unfold DirRecord.size
  omega

@[simp] theorem DirRecord.length_entry (r : DirRecord) (next : Nat) : (r.entry next).length = r.size := by
  simp only [DirRecord.entry, DirRecord.size, length_append, Bytes.length_le, Bytes.length_ofUnits]

theorem DirRecord.fields_entry (r : DirRecord) (rest : List UInt8) (hnext : next < 2 ^ 32) :
    Bytes.field (r.entry next ++ rest) 0 4 = next ∧
      Bytes.field (r.entry next ++ rest) 4 4 = r.action.toNat ∧
      Bytes.field (r.entry next ++ rest) 8 4 = 2 * r.name.length ∧
      ((r.entry next ++ rest).drop 12).take (2 * r.name.length) = Bytes.ofUnits r.name := by
  have hparts : r.entry next ++ rest = Bytes.le 4 next ++ (Bytes.le 4 r.action.toNat ++
      (Bytes.le 4 (2 * r.name.length) ++ (Bytes.ofUnits r.name ++ rest))) := by
    simp only [DirRecord.entry, append_assoc]
  have hname : 2 * r.name.length < 256 ^ 4 := by
    have := r.bounded
    omega
  rw [hparts]
  refine ⟨?_, ?_, ?_, ?_⟩
  · rw [Bytes.field_le]
    exact Nat.mod_eq_of_lt hnext
  · rw [Bytes.field_append (Bytes.length_le ..).le, Bytes.length_le, Bytes.field_le]
    exact Nat.mod_eq_of_lt r.action.toNat_lt
  · rw [Bytes.field_append (by rw [Bytes.length_le]; decide), Bytes.length_le,
      Bytes.field_append (Bytes.length_le ..).le, Bytes.length_le, Bytes.field_le]
    exact Nat.mod_eq_of_lt hname
  · rw [← append_assoc, ← append_assoc,
      drop_left' (by simp only [length_append, Bytes.length_le])]
    exact take_left' (Bytes.length_ofUnits _)

theorem writeRecords_append (records : List DirRecord) (r : DirRecord) :
    writeRecords (records ++ [r]) =
      ((writeRecords records).1 ++ r.entry r.size, (writeRecords records).1.length) := by
  unfold writeRecords
  rw [foldl_append]
  rfl

theorem writeRecords_fst (records : List DirRecord) :
    (writeRecords records).1 = records.flatMap fun r => r.entry r.size := by
  induction records using List.reverseRecOn with
  | nil => rfl
  | append_singleton records r ih =>
    rw [writeRecords_append, ih, flatMap_append, flatMap_singleton]

theorem notifyPayload_append (records : List DirRecord) (r : DirRecord) :
    notifyPayload (records ++ [r]) = (records.flatMap fun r => r.entry r.size) ++ r.entry 0 := by
  have hentry (next : Nat) : r.entry next = Bytes.le 4 next ++
      (Bytes.le 4 r.action.toNat ++ Bytes.le 4 (2 * r.name.length) ++ Bytes.ofUnits r.name) := by
    simp only [DirRecord.entry, append_assoc]
  unfold notifyPayload
  rw [writeRecords_append, writeRecords_fst, hentry, hentry, ← append_assoc]
  refine (splice_append rfl ?_).trans (append_assoc _ _ _)
  rw [Bytes.length_le, Bytes.length_le]

theorem length_notifyPayload (hne : records ≠ []) : (notifyPayload records).length = chainLength records := by
  obtain ⟨init, r, rfl⟩ := eq_nil_or_concat' records |>.resolve_left hne
  rw [notifyPayload_append, length_append, DirRecord.length_entry, length_flatMap, chainLength,
    map_append, sum_append]
  simp only [DirRecord.length_entry, map_cons, map_nil, sum_singleton]

theorem decodeChain_notifyPayload (hne : records ≠ []) {fuel : Nat} (hfuel : records.length ≤ fuel) :
    decodeChain fuel (notifyPayload records) = some (records.map fun r => (r.action, r.name)) := by
  obtain ⟨init, last, rfl⟩ := eq_nil_or_concat' records |>.resolve_left hne
  rw [notifyPayload_append]
  rw [length_append, length_singleton] at hfuel
  clear hne
  have hread (r : DirRecord) (next : Nat) (rest : List UInt8) (hnext : next < 2 ^ 32) (fuel : Nat) :
      decodeChain (fuel + 1) (r.entry next ++ rest) =
        if next = 0 then some [(r.action, r.name)]
        else (decodeChain fuel ((r.entry next ++ rest).drop next)).map ((r.action, r.name) :: ·) := by
    obtain ⟨h0, h4, h8, h12⟩ := r.fields_entry rest hnext
    have hroom : ¬(r.entry next ++ rest).length < 12 + 2 * r.name.length := by
      rw [length_append, DirRecord.length_entry]
      exact Nat.not_lt.mpr (Nat.le_add_right _ _)
    rw [decodeChain]
    simp only [h0, h4, h8, h12, if_neg hroom, Bytes.toUnits_ofUnits, UInt32.ofNat_toNat]
  induction init generalizing fuel with
  | nil =>
    obtain ⟨fuel, rfl⟩ := Nat.exists_eq_succ_of_ne_zero (Nat.ne_of_gt hfuel)
    have hlast := hread last 0 [] (by decide) fuel
    rw [append_nil] at hlast
    exact hlast
  | cons r init ih =>
    obtain ⟨fuel, rfl⟩ := Nat.exists_eq_succ_of_ne_zero (Nat.ne_of_gt (Nat.lt_of_lt_of_le (Nat.succ_pos _) hfuel))
    have hfuel' : init.length + 1 ≤ fuel := Nat.le_of_succ_le_succ hfuel
    rw [flatMap_cons, append_assoc, hread r _ _ r.size_lt, if_neg (by unfold DirRecord.size; omega),
      drop_left' (r.length_entry _), ih hfuel']
    rfl

end Proskrnl.Io
