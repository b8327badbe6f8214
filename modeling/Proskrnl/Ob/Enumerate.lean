import Proskrnl.Library.Bytes
import Proskrnl.Library.Stores
import Proskrnl.Lib.Rtl
import Proskrnl.Abi.Status

/-!
# Enumeration of an object directory

`NtQueryDirectoryObject` of `kernel/ob/namespace.c`: a pass that measures which entries fit the
caller's buffer, and a pass that stores them. The buffer takes an array of
`DIRECTORY_BASIC_INFORMATION`, one more that is zero, and the strings behind it. Lengths are `ULONG`s
here as in the source.
-/

namespace Proskrnl.Ob
open Stores Bytes List

/-- An entry of a directory. A name is the rest of a counted string, and the name of a type is one of
those of the kernel. -/
structure DirectoryEntry where
  name : WStr
  typeName : List UInt8
  name_le : name.length ≤ 32767
  type_le : typeName.length ≤ 19

namespace DirectoryEntry

/-- `header->name.Length` -/
def nameBytes (e : DirectoryEntry) : UInt32 := .ofNat (2 * e.name.length)

/-- `KiStringLength(header->type->name) * sizeof(WCHAR)` -/
def typeBytes (e : DirectoryEntry) : UInt32 := .ofNat (2 * e.typeName.length)

def entrySize (e : DirectoryEntry) : UInt32 := 32 + e.nameBytes + e.typeBytes + 4

def typeUnits (e : DirectoryEntry) : WStr := e.typeName.map UInt8.toUInt16

end DirectoryEntry

structure Measure where
  usedCount : UInt32
  usedSize : UInt32
  totalLength : UInt32
  more : Bool
  seen : Bool

def Measure.start : Measure := ⟨0, 32, 0, false, false⟩

def measure (index size maxCount : UInt32) : UInt32 → List DirectoryEntry → Measure → Measure
  | _, [], m => m
  | position, e :: rest, m =>
    if m.usedCount < maxCount then
      if position < index then measure index size maxCount (position + 1) rest m
      else
        let m := { m with seen := true, totalLength := m.totalLength + (e.nameBytes + e.typeBytes) }
        if m.usedSize + e.entrySize > size then { m with more := true }
        else
          measure index size maxCount (position + 1) rest
            { m with usedCount := m.usedCount + 1, usedSize := m.usedSize + e.entrySize }
    else m

def typeHead (head : UInt32) (e : DirectoryEntry) : UInt32 := head + (e.nameBytes + 2)

/-- The stores for one entry, the `n`-th, with its strings from `head` on, and the head behind
them. -/
def emitEntry (buffer n : Nat) (head : UInt32) (e : DirectoryEntry) : List (Store UInt8) × UInt32 :=
  ([⟨32 * n + 8, le 8 (buffer + head.toNat)⟩,
    ⟨32 * n, le 2 (2 * e.name.length)⟩,
    ⟨32 * n + 2, le 2 (2 * e.name.length + 2)⟩,
    ⟨head.toNat, ofUnits e.name⟩,
    ⟨head.toNat + 2 * e.name.length, [0, 0]⟩,
    ⟨(typeHead head e).toNat, ofUnits e.typeUnits⟩,
    ⟨(typeHead head e).toNat + 2 * e.typeName.length, [0, 0]⟩,
    ⟨32 * n + 24, le 8 (buffer + (typeHead head e).toNat)⟩,
    ⟨32 * n + 16, le 2 (2 * e.typeName.length)⟩,
    ⟨32 * n + 18, le 2 (2 * e.typeName.length + 2)⟩],
   typeHead head e + (e.typeBytes + 2))

/-- The second pass: its stores, and `strpoolHead` behind them. -/
def emit (buffer : Nat) (index usedCount : UInt32) :
    UInt32 → UInt32 → UInt32 → List DirectoryEntry → List (Store UInt8) × UInt32
  | _, _, head, [] => ([], head)
  | position, emitted, head, e :: rest =>
    if emitted < usedCount then
      if position < index then emit buffer index usedCount (position + 1) emitted head rest
      else
        let (stores, head) := emitEntry buffer emitted.toNat head e
        let (stores', head) := emit buffer index usedCount (position + 1) (emitted + 1) head rest
        (stores ++ stores', head)
    else ([], head)

/-- The arguments of a call, with what its probes answer and the directory that its handle names. -/
structure DirectoryQuery where
  /-- The address of the buffer; 0 is none. -/
  buffer : Nat
  size : UInt32
  singleEntry : Bool
  restartScan : Bool
  /-- What `context` points to, if it is given. -/
  context : Option UInt32
  wantsReturnedSize : Bool
  probeContext : NtStatus := statusSuccess
  probeBuffer : NtStatus := statusSuccess
  probeReturnedSize : NtStatus := statusSuccess
  directory : Except NtStatus (List DirectoryEntry)

structure DirectoryReply where
  status : NtStatus
  stores : List (Store UInt8) := []
  /-- What is stored to `*context` and to `*returnedSize`. -/
  context : Option UInt32 := none
  returnedSize : Option UInt32 := none
  usedCount : UInt32 := 0

def maxCount (singleEntry : Bool) : UInt32 := if singleEntry then 1 else 0xFFFFFFFF

def queryEntries (q : DirectoryQuery) (index : UInt32) (entries : List DirectoryEntry) :
    DirectoryReply :=
  let m := measure index q.size (maxCount q.singleEntry) 0 entries .start
  let returned (n : UInt32) := if q.wantsReturnedSize then some n else none
  if !m.seen && !m.more then { status := statusNoMoreEntries, returnedSize := returned 32 }
  else if q.singleEntry && m.usedCount == 0 then
    { status := statusBufferTooSmall, returnedSize := returned (2 * 32 + 4 + m.totalLength) }
  else
    let (stores, head) :=
      emit q.buffer index m.usedCount 0 0 (.ofNat (32 * (m.usedCount + 1).toNat)) entries
    let terminator := if 32 ≤ q.size then [⟨32 * m.usedCount.toNat, List.replicate 32 0⟩] else []
    { status := if m.more then statusMoreEntries else statusSuccess
      stores := stores ++ terminator
      context := some (index + m.usedCount)
      returnedSize := returned head
      usedCount := m.usedCount }

def ntQueryDirectoryObject (q : DirectoryQuery) : DirectoryReply :=
  match q.context with
  | none => { status := statusAccessViolation }
  | some context =>
    if q.buffer = 0 then { status := statusAccessViolation }
    else if ¬ ntSuccess q.probeContext then { status := q.probeContext }
    else if ¬ ntSuccess q.probeBuffer then { status := q.probeBuffer }
    else if q.wantsReturnedSize ∧ ¬ ntSuccess q.probeReturnedSize then { status := q.probeReturnedSize }
    else
      match q.directory with
      | .error status => { status := status }
      | .ok entries => queryEntries q (if q.restartScan then 0 else context) entries

/-- Every store lies in the caller's bytes, and no two of them meet. -/
structure StoresFit (size : UInt32) (stores : List (Store UInt8)) : Prop where
  bounded : ∀ s ∈ stores, s.stop ≤ size.toNat
  apart : stores.Pairwise Store.Apart

structure Shows (buffer : Nat) (m : Nat → UInt8) (entries : List DirectoryEntry) : Prop where
  entry : ∀ n e, entries[n]? = some e → ∃ nameAt typeAt : Nat,
    Holds m (32 * n) (le 2 (2 * e.name.length)) ∧ Holds m (32 * n + 8) (le 8 (buffer + nameAt)) ∧
    Holds m nameAt (ofUnits e.name ++ [0, 0]) ∧
    Holds m (32 * n + 16) (le 2 (2 * e.typeName.length)) ∧
    Holds m (32 * n + 24) (le 8 (buffer + typeAt)) ∧
    Holds m typeAt (ofUnits e.typeUnits ++ [0, 0])
  terminator : Holds m (32 * entries.length) (List.replicate 32 0)

def DirectoryQuery.Reaches (q : DirectoryQuery) (size : UInt32) (single : Bool) (context : UInt32)
    (entries : List DirectoryEntry) : Prop :=
  q.buffer ≠ 0 ∧ q.size = size ∧ q.singleEntry = single ∧ q.restartScan = false ∧
    q.context = some context ∧ ntSuccess q.probeContext ∧ ntSuccess q.probeBuffer ∧
    ntSuccess q.probeReturnedSize ∧ q.directory = .ok entries

/-- Calls from a context on, each with the context that the one before has stored: what their buffers
show, up to the call that answers `STATUS_NO_MORE_ENTRIES`. -/
inductive Enumerates (size : UInt32) (single : Bool) (entries : List DirectoryEntry) :
    UInt32 → List DirectoryEntry → Prop
  | done {context : UInt32}
      (hstatus : ∀ q : DirectoryQuery, q.Reaches size single context entries →
        (ntQueryDirectoryObject q).status = statusNoMoreEntries) :
      Enumerates size single entries context []
  | next {context context' : UInt32} {shown rest : List DirectoryEntry} (hshown : shown ≠ [])
      (hcall : ∀ q : DirectoryQuery, q.Reaches size single context entries →
        ((ntQueryDirectoryObject q).status = statusSuccess ∨
          (ntQueryDirectoryObject q).status = statusMoreEntries) ∧
        (ntQueryDirectoryObject q).context = some context' ∧
        ∀ m, Shows q.buffer (applyAll (ntQueryDirectoryObject q).stores m) shown)
      (hrest : Enumerates size single entries context' rest) :
      Enumerates size single entries context (shown ++ rest)

def DirectoryEntry.bytes (e : DirectoryEntry) : Nat :=
  32 + 2 * e.name.length + 2 * e.typeName.length + 4

def LongestFits (size : UInt32) (entries : List DirectoryEntry) : Prop :=
  ∀ e ∈ entries, 32 + e.bytes ≤ size.toNat

structure EnumerationKept (size : UInt32) (single : Bool) (entries : List DirectoryEntry) : Prop where
  inBounds : ∀ q : DirectoryQuery, q.size = size → q.singleEntry = single →
    (∀ entries', q.directory = .ok entries' → entries' = entries) →
    StoresFit size (ntQueryDirectoryObject q).stores
  complete : LongestFits size entries → Enumerates size single entries 0 entries

/-- The entries that a call looks at: those whose position, as a `ULONG`, is not below the index. -/
def window (index : UInt32) : UInt32 → List DirectoryEntry → List DirectoryEntry
  | _, [] => []
  | position, e :: rest =>
    if position < index then window index (position + 1) rest
    else e :: window index (position + 1) rest

def total (entries : List DirectoryEntry) : Nat := 32 + (entries.map DirectoryEntry.bytes).sum

/-- In no call does the sum for an entry reach 2³² where the entries before it fit. -/
def SumsFit (size : UInt32) (single : Bool) (entries : List DirectoryEntry) : Prop :=
  ∀ index before e after, window index 0 entries = before ++ e :: after →
    before.length < (maxCount single).toNat → total before ≤ size.toNat → total before + e.bytes < 2 ^ 32

/-! ## The passes over a window -/

def measureFits (size maxCount : UInt32) : List DirectoryEntry → Measure → Measure
  | [], m => m
  | e :: rest, m =>
    if m.usedCount < maxCount then
      let m := { m with seen := true, totalLength := m.totalLength + (e.nameBytes + e.typeBytes) }
      if m.usedSize + e.entrySize > size then { m with more := true }
      else
        measureFits size maxCount rest
          { m with usedCount := m.usedCount + 1, usedSize := m.usedSize + e.entrySize }
    else m

def emitAll (buffer : Nat) : Nat → UInt32 → List DirectoryEntry → List (Store UInt8) × UInt32
  | _, head, [] => ([], head)
  | n, head, e :: rest =>
    ((emitEntry buffer n head e).1 ++ (emitAll buffer (n + 1) (emitEntry buffer n head e).2 rest).1,
      (emitAll buffer (n + 1) (emitEntry buffer n head e).2 rest).2)

section
variable {size index position limit emitted usedCount head : UInt32} {m : Measure} {buffer n : Nat}
  {entries before taken rest w : List DirectoryEntry} {e : DirectoryEntry} {single : Bool}

theorem measure_eq : measure index size limit position entries m =
    measureFits size limit (window index position entries) m := by
  induction entries generalizing position m with
  | nil => rfl
  | cons e rest ih =>
    unfold measure window
    by_cases hcount : m.usedCount < limit
    · rw [if_pos hcount]
      by_cases hskip : position < index
      · rw [if_pos hskip, if_pos hskip, ih]
      · rw [if_neg hskip, if_neg hskip]
        simp only [measureFits, if_pos hcount, ih]
    · rw [if_neg hcount]
      cases hwindow : (if position < index then window index (position + 1) rest
        else e :: window index (position + 1) rest) with
      | nil => rfl
      | cons e' w => simp only [measureFits, if_neg hcount]

theorem emit_eq (hle : emitted ≤ usedCount) : emit buffer index usedCount position emitted head entries =
    emitAll buffer emitted.toNat head
      ((window index position entries).take (usedCount.toNat - emitted.toNat)) := by
  induction entries generalizing position emitted head with
  | nil =>
    unfold emit window
    rw [take_nil]
    rfl
  | cons e rest ih =>
    unfold emit window
    by_cases hlt : emitted < usedCount
    · have hnat : emitted.toNat < usedCount.toNat := hlt
      have hsucc : (emitted + 1).toNat = emitted.toNat + 1 := by
        have := usedCount.toNat_lt
        rw [UInt32.toNat_add]
        exact Nat.mod_eq_of_lt (by show emitted.toNat + 1 < 2 ^ 32; omega)
      have hle' : emitted + 1 ≤ usedCount := by
        rw [UInt32.le_iff_toNat_le, hsucc]
        exact hnat
      rw [if_pos hlt]
      by_cases hskip : position < index
      · rw [if_pos hskip, if_pos hskip, ih hle]
      · rw [if_neg hskip, if_neg hskip]
        have htake : usedCount.toNat - emitted.toNat = (usedCount.toNat - (emitted + 1).toNat) + 1 := by
          omega
        rw [htake, take_succ_cons]
        simp only [ih hle', emitAll, hsucc]
    · rw [if_neg hlt]
      have hzero : usedCount.toNat - emitted.toNat = 0 := by
        have : ¬ emitted.toNat < usedCount.toNat := hlt
        omega
      rw [hzero, take_zero]
      rfl

def DirectoryEntry.strings (e : DirectoryEntry) : Nat := 2 * e.name.length + 2 + (2 * e.typeName.length + 2)

theorem bytes_eq (e : DirectoryEntry) : e.bytes = 32 + e.strings := by
  unfold DirectoryEntry.bytes DirectoryEntry.strings
  omega

theorem bytes_le (e : DirectoryEntry) : e.bytes ≤ 65608 := by
  have := e.name_le
  have := e.type_le
  unfold DirectoryEntry.bytes
  omega

theorem toNat_nameBytes (e : DirectoryEntry) : e.nameBytes.toNat = 2 * e.name.length := by
  have := e.name_le
  unfold DirectoryEntry.nameBytes
  exact UInt32.toNat_ofNat_of_lt' (by show _ < 2 ^ 32; omega)

theorem toNat_typeBytes (e : DirectoryEntry) : e.typeBytes.toNat = 2 * e.typeName.length := by
  have := e.type_le
  unfold DirectoryEntry.typeBytes
  exact UInt32.toNat_ofNat_of_lt' (by show _ < 2 ^ 32; omega)

theorem toNat_entrySize (e : DirectoryEntry) : e.entrySize.toNat = e.bytes := by
  have := bytes_le e
  unfold DirectoryEntry.entrySize DirectoryEntry.bytes at *
  simp only [UInt32.toNat_add, toNat_nameBytes, toNat_typeBytes]
  have h32 : (32 : UInt32).toNat = 32 := rfl
  have h4 : (4 : UInt32).toNat = 4 := rfl
  rw [h32, h4]
  omega

theorem total_concat : total (before ++ [e]) = total before + e.bytes := by
  simp [total, Nat.add_assoc]

theorem total_append_le : total before ≤ total (before ++ rest) := by
  simp [total]

theorem le_total (w : List DirectoryEntry) : 32 * (w.length + 1) ≤ total w := by
  induction w with
  | nil => simp [total]
  | cons e w ih =>
    have := bytes_eq e
    simp only [total, map_cons, sum_cons, length_cons] at ih ⊢
    omega

theorem maxCount_cases (single : Bool) : single = true ∧ (maxCount single).toNat = 1 ∨
    single = false ∧ (maxCount single).toNat = 4294967295 := by
  cases single
  · exact .inr ⟨rfl, rfl⟩
  · exact .inl ⟨rfl, rfl⟩

/-! ## The first pass -/

structure Counted (m : Measure) (before : List DirectoryEntry) : Prop where
  count : m.usedCount.toNat = before.length
  size : m.usedSize.toNat = total before

theorem counted_start : Counted .start [] := ⟨rfl, rfl⟩

def Measure.take (m : Measure) (e : DirectoryEntry) : Measure :=
  { m with
    seen := true
    totalLength := m.totalLength + (e.nameBytes + e.typeBytes)
    usedCount := m.usedCount + 1
    usedSize := m.usedSize + e.entrySize }

theorem toNat_usedCount_take (hlt : m.usedCount < limit) :
    (m.take e).usedCount.toNat = m.usedCount.toNat + 1 := by
  have := limit.toNat_lt
  have hnat : m.usedCount.toNat < limit.toNat := hlt
  show (m.usedCount + 1).toNat = _
  rw [UInt32.toNat_add]
  exact Nat.mod_eq_of_lt (by show m.usedCount.toNat + 1 < 2 ^ 32; omega)

theorem Counted.take (h : Counted m before) (hlt : m.usedCount < limit)
    (hsum : total before + e.bytes < 2 ^ 32) : Counted (m.take e) (before ++ [e]) where
  count := by rw [toNat_usedCount_take hlt, h.count, length_append, length_singleton]
  size := by
    show (m.usedSize + e.entrySize).toNat = _
    rw [UInt32.toNat_add, h.size, toNat_entrySize, total_concat]
    exact Nat.mod_eq_of_lt hsum

theorem Counted.fits_iff (h : Counted m before) (hsum : total before + e.bytes < 2 ^ 32) :
    m.usedSize + e.entrySize > size ↔ size.toNat < total before + e.bytes := by
  have hnat : (m.usedSize + e.entrySize).toNat = total before + e.bytes := by
    rw [UInt32.toNat_add, h.size, toNat_entrySize]
    exact Nat.mod_eq_of_lt hsum
  rw [gt_iff_lt, UInt32.lt_iff_toNat_lt, hnat]

theorem measureFits_cons (hlt : m.usedCount < limit) (hfits : ¬ m.usedSize + e.entrySize > size) :
    measureFits size limit (e :: rest) m = measureFits size limit rest (m.take e) := by
  rw [measureFits, if_pos hlt]
  simp only [if_neg hfits, Measure.take]

theorem measureFits_taken (size limit : UInt32) (h : Counted m before)
    (hfit : before = [] ∨ total before ≤ size.toNat)
    (hsums : ∀ mid e after, w = mid ++ e :: after → (before ++ mid).length < limit.toNat →
      total (before ++ mid) ≤ size.toNat → total (before ++ mid) + e.bytes < 2 ^ 32) :
    ∃ taken after, w = taken ++ after ∧
      (measureFits size limit w m).usedCount.toNat = (before ++ taken).length ∧
      (before ++ taken = [] ∨ total (before ++ taken) ≤ size.toNat) ∧
      ∀ e rest, after = e :: rest → (before ++ taken).length < limit.toNat →
        size.toNat < total (before ++ taken) + e.bytes := by
  induction w generalizing before m with
  | nil => exact ⟨[], [], rfl, by rw [append_nil]; exact h.count, by rwa [append_nil], nofun⟩
  | cons e w ih =>
    by_cases hlt : m.usedCount < limit
    · have hlength : before.length < limit.toNat := h.count ▸ UInt32.lt_iff_toNat_lt.mp hlt
      have hsum : total before + e.bytes < 2 ^ 32 := by
        rcases hfit with rfl | hfit
        · have := bytes_le e
          show 32 + 0 + e.bytes < 2 ^ 32
          omega
        · have := hsums [] e w rfl
          rw [append_nil] at this
          exact this hlength hfit
      by_cases hfits : m.usedSize + e.entrySize > size
      · refine ⟨[], e :: w, rfl, ?_, by rwa [append_nil], ?_⟩
        · rw [measureFits, if_pos hlt]
          simp only [if_pos hfits, append_nil]
          exact h.count
        · rintro _ _ ⟨⟩ -
          rw [append_nil]
          exact (h.fits_iff hsum).mp hfits
      · rw [measureFits_cons hlt hfits]
        have hle : total (before ++ [e]) ≤ size.toNat := by
          rw [total_concat]
          exact Nat.le_of_not_lt fun hgt => hfits ((h.fits_iff hsum).mpr hgt)
        obtain ⟨taken, after, rfl, hcount, htotal, hstop⟩ := ih (h.take hlt hsum) (.inr hle) (by
          intro mid e' after heq
          have := hsums (e :: mid) e' after (by rw [heq, cons_append])
          rwa [append_assoc, singleton_append])
        refine ⟨e :: taken, after, rfl, ?_⟩
        rw [append_assoc, singleton_append] at hcount htotal hstop
        exact ⟨hcount, htotal, hstop⟩
    · refine ⟨[], e :: w, rfl, ?_, by rwa [append_nil], ?_⟩
      · rw [measureFits, if_neg hlt, append_nil]
        exact h.count
      · intro e' rest _ hlength
        rw [append_nil, ← h.count] at hlength
        exact absurd (UInt32.lt_iff_toNat_lt.mpr hlength) hlt

theorem measureFits_append (rest : List DirectoryEntry) (h : Counted m before) (htotal : total (before ++ taken) ≤ size.toNat)
    (hlength : (before ++ taken).length ≤ limit.toNat) :
    ∃ m', Counted m' (before ++ taken) ∧
      measureFits size limit (taken ++ rest) m = measureFits size limit rest m' := by
  induction taken generalizing before m with
  | nil => exact ⟨m, by rwa [append_nil], rfl⟩
  | cons e taken ih =>
    have happend : before ++ e :: taken = before ++ [e] ++ taken := by simp
    rw [happend] at htotal hlength ⊢
    have hle : total before + e.bytes ≤ size.toNat := by
      rw [← total_concat]
      exact total_append_le.trans htotal
    have hsum : total before + e.bytes < 2 ^ 32 := Nat.lt_of_le_of_lt hle size.toNat_lt
    have hlt : m.usedCount < limit := by
      rw [UInt32.lt_iff_toNat_lt, h.count]
      simp only [length_append, length_singleton] at hlength
      omega
    have hfits : ¬ m.usedSize + e.entrySize > size := by
      rw [h.fits_iff hsum]
      omega
    rw [cons_append, measureFits_cons hlt hfits]
    exact ih (h.take hlt hsum) htotal hlength

theorem measureFits_count_le (size limit : UInt32) (w : List DirectoryEntry) (m : Measure) :
    m.usedCount.toNat ≤ (measureFits size limit w m).usedCount.toNat ∧
    (measureFits size limit w m).usedCount.toNat ≤ m.usedCount.toNat + w.length := by
  induction w generalizing m with
  | nil => exact ⟨le_rfl, Nat.le_add_right ..⟩
  | cons e w ih =>
    by_cases hlt : m.usedCount < limit
    · by_cases hfits : m.usedSize + e.entrySize > size
      · rw [measureFits, if_pos hlt]
        simp only [if_pos hfits]
        exact ⟨le_rfl, Nat.le_add_right ..⟩
      · rw [measureFits_cons hlt hfits, length_cons]
        obtain ⟨hlow, hhigh⟩ := ih (m.take e)
        rw [toNat_usedCount_take hlt] at hlow hhigh
        exact ⟨by omega, by omega⟩
    · rw [measureFits, if_neg hlt]
      exact ⟨le_rfl, Nat.le_add_right ..⟩

theorem measureFits_seen (h : m.seen = true) : (measureFits size limit w m).seen = true := by
  induction w generalizing m with
  | nil => exact h
  | cons e w ih =>
    unfold measureFits
    split
    · dsimp only
      split
      · rfl
      · exact ih rfl
    · exact h

theorem measureFits_seen_of_cons (hlt : m.usedCount < limit) :
    (measureFits size limit (e :: w) m).seen = true := by
  rw [measureFits, if_pos hlt]
  dsimp only
  split
  · rfl
  · exact measureFits_seen rfl

/-! ## The second pass -/

def stringBytes (entries : List DirectoryEntry) : Nat := (entries.map DirectoryEntry.strings).sum

theorem total_eq (w : List DirectoryEntry) : total w = 32 * (w.length + 1) + stringBytes w := by
  induction w with
  | nil => rfl
  | cons e w ih =>
    simp only [total, stringBytes, map_cons, sum_cons, length_cons, bytes_eq] at ih ⊢
    omega

theorem stringBytes_append : stringBytes (before ++ rest) = stringBytes before + stringBytes rest := by
  simp [stringBytes]

theorem toNat_typeHead (h : head.toNat + (2 * e.name.length + 2) < 2 ^ 32) :
    (typeHead head e).toNat = head.toNat + (2 * e.name.length + 2) := by
  unfold typeHead
  simp only [UInt32.toNat_add, toNat_nameBytes]
  rw [show (2 : UInt32).toNat = 2 from rfl]
  omega

theorem toNat_emitEntry (h : head.toNat + e.strings < 2 ^ 32) :
    (emitEntry buffer n head e).2.toNat = head.toNat + e.strings := by
  unfold DirectoryEntry.strings at *
  show (typeHead head e + (e.typeBytes + 2)).toNat = _
  simp only [UInt32.toNat_add, toNat_typeBytes]
  rw [toNat_typeHead (by omega), show (2 : UInt32).toNat = 2 from rfl]
  omega

def InRegions (a b c d : Nat) (stores : List (Store UInt8)) : Prop :=
  ∀ s ∈ stores, a ≤ s.offset ∧ s.stop ≤ b ∨ c ≤ s.offset ∧ s.stop ≤ d

theorem emitEntry_inRegions (buffer n : Nat) (head : UInt32) (e : DirectoryEntry)
    (h : head.toNat + e.strings < 2 ^ 32) :
    InRegions (32 * n) (32 * n + 32) head.toNat (head.toNat + e.strings)
      (emitEntry buffer n head e).1 := by
  have htype : (typeHead head e).toNat = head.toNat + (2 * e.name.length + 2) := by
    unfold DirectoryEntry.strings at h
    exact toNat_typeHead (by omega)
  intro s hs
  unfold DirectoryEntry.strings
  simp only [emitEntry, mem_cons, not_mem_nil, or_false] at hs
  rcases hs with rfl | rfl | rfl | rfl | rfl | rfl | rfl | rfl | rfl | rfl
  all_goals
    simp only [Store.stop, length_le, length_ofUnits, length_cons, length_nil,
      DirectoryEntry.typeUnits, length_map, htype]
    omega

theorem emitEntry_apart (h : head.toNat + e.strings < 2 ^ 32) (hn : 32 * n + 32 ≤ head.toNat) :
    (emitEntry buffer n head e).1.Pairwise Store.Apart := by
  have htype : (typeHead head e).toNat = head.toNat + (2 * e.name.length + 2) := by
    unfold DirectoryEntry.strings at h
    exact toNat_typeHead (by omega)
  simp only [emitEntry, pairwise_cons, List.Pairwise.nil, mem_cons,
    not_mem_nil, or_false, forall_eq_or_imp, forall_eq, and_true]
  simp only [Store.Apart, Store.stop, length_le, length_ofUnits, length_cons, length_nil,
    DirectoryEntry.typeUnits, length_map, htype, false_imp_iff, implies_true, and_true]
  omega

theorem InRegions.apart {a b c d a' b' c' d' : Nat} {stores stores' : List (Store UInt8)}
    (h : InRegions a b c d stores) (h' : InRegions a' b' c' d' stores') (harray : b ≤ a')
    (hpool : d ≤ c') (hbefore : b ≤ c') (hbehind : b' ≤ c) :
    ∀ s ∈ stores, ∀ t ∈ stores', s.Apart t := by
  intro s hs t ht
  unfold Store.Apart
  rcases h s hs with ⟨_, _⟩ | ⟨_, _⟩
  · rcases h' t ht with ⟨_, _⟩ | ⟨_, _⟩
    · exact .inl (by omega)
    · exact .inl (by omega)
  · rcases h' t ht with ⟨_, _⟩ | ⟨_, _⟩
    · exact .inr (by omega)
    · exact .inl (by omega)

theorem InRegions.mono {a b c d a' b' c' d' : Nat} {stores : List (Store UInt8)}
    (h : InRegions a b c d stores) (ha : a' ≤ a) (hb : b ≤ b') (hc : c' ≤ c) (hd : d ≤ d') :
    InRegions a' b' c' d' stores := by
  intro s hs
  rcases h s hs with ⟨_, _⟩ | ⟨_, _⟩
  · exact .inl ⟨by omega, by omega⟩
  · exact .inr ⟨by omega, by omega⟩

theorem emitAll_stores (buffer n : Nat) (head : UInt32) (w : List DirectoryEntry)
    (h : head.toNat + stringBytes w < 2 ^ 32)
    (hn : 32 * (n + w.length) ≤ head.toNat) :
    InRegions (32 * n) (32 * (n + w.length)) head.toNat (head.toNat + stringBytes w)
      (emitAll buffer n head w).1 ∧
    (emitAll buffer n head w).1.Pairwise Store.Apart := by
  induction w generalizing n head with
  | nil => exact ⟨nofun, .nil⟩
  | cons e w ih =>
    have hcons : stringBytes (e :: w) = e.strings + stringBytes w := rfl
    rw [hcons] at h ⊢
    rw [length_cons] at hn ⊢
    have hnext : (emitEntry buffer n head e).2.toNat = head.toNat + e.strings :=
      toNat_emitEntry (by omega)
    have hentry := emitEntry_inRegions buffer n head e (by omega)
    obtain ⟨hrest, hpairwise⟩ := ih (n + 1) (emitEntry buffer n head e).2
      (by omega) (by omega)
    rw [hnext] at hrest
    refine ⟨?_, ?_⟩
    · intro s hs
      rcases mem_append.mp hs with hs | hs
      · exact hentry.mono le_rfl (by omega) le_rfl (by omega) s hs
      · exact hrest.mono (by omega) (by omega) (by omega) (by omega) s hs
    · refine pairwise_append.mpr ⟨emitEntry_apart (by omega) (by omega), hpairwise, ?_⟩
      exact hentry.apart hrest (by omega) (by omega) (by omega) (by omega)

variable {k : Nat}

theorem emitAll_mem (buffer n : Nat) (head : UInt32) (hk : w[k]? = some e) : ∃ nameAt typeAt : Nat,
    ∀ s ∈ ([⟨32 * (n + k), le 2 (2 * e.name.length)⟩, ⟨32 * (n + k) + 8, le 8 (buffer + nameAt)⟩,
      ⟨nameAt, ofUnits e.name⟩, ⟨nameAt + 2 * e.name.length, [0, 0]⟩,
      ⟨32 * (n + k) + 16, le 2 (2 * e.typeName.length)⟩, ⟨32 * (n + k) + 24, le 8 (buffer + typeAt)⟩,
      ⟨typeAt, ofUnits e.typeUnits⟩, ⟨typeAt + 2 * e.typeName.length, [0, 0]⟩] : List (Store UInt8)),
      s ∈ (emitAll buffer n head w).1 := by
  induction w generalizing n head k with
  | nil => cases hk
  | cons e' w ih =>
    cases k with
    | zero =>
      obtain rfl := Option.some.inj hk
      refine ⟨head.toNat, (typeHead head e').toNat, ?_⟩
      intro s hs
      refine mem_append_left _ ?_
      simp only [mem_cons, not_mem_nil, or_false, Nat.add_zero] at hs
      simp only [emitEntry, mem_cons, not_mem_nil, or_false]
      tauto
    | succ k =>
      obtain ⟨nameAt, typeAt, hstores⟩ := ih (n + 1) (emitEntry buffer n head e').2 hk
      refine ⟨nameAt, typeAt, fun s hs => mem_append_right _ (hstores s ?_)⟩
      rwa [Nat.add_assoc, Nat.add_comm 1 k]

theorem emitAll_overrun (buffer n : Nat) (head : UInt32) (w : List DirectoryEntry) {stop : Nat}
    (hstop : stop < 2 ^ 32) (hhead : head.toNat ≤ stop)
    (h : stop < head.toNat + stringBytes w) :
    ∃ s ∈ (emitAll buffer n head w).1, stop < s.stop := by
  induction w generalizing n head with
  | nil => exact absurd h (by simp only [stringBytes, map_nil, sum_nil]; omega)
  | cons e w ih =>
    have hcons : stringBytes (e :: w) = e.strings + stringBytes w := rfl
    rw [hcons] at h
    by_cases hname : stop < head.toNat + (2 * e.name.length + 2)
    · refine ⟨⟨head.toNat + 2 * e.name.length, [0, 0]⟩, mem_append_left _ ?_, ?_⟩
      · simp [emitEntry]
      · simp only [Store.stop, length_cons, length_nil]
        omega
    · have htype : (typeHead head e).toNat = head.toNat + (2 * e.name.length + 2) :=
        toNat_typeHead (by omega)
      by_cases hentry : stop < head.toNat + e.strings
      · refine ⟨⟨(typeHead head e).toNat + 2 * e.typeName.length, [0, 0]⟩,
          mem_append_left _ ?_, ?_⟩
        · simp [emitEntry]
        · unfold DirectoryEntry.strings at hentry
          simp only [Store.stop, length_cons, length_nil, htype]
          omega
      · have hnext : (emitEntry buffer n head e).2.toNat = head.toNat + e.strings :=
          toNat_emitEntry (by omega)
        obtain ⟨s, hs, hover⟩ := ih (n + 1) (emitEntry buffer n head e).2
          (by omega) (by omega)
        exact ⟨s, mem_append_right _ hs, hover⟩

/-! ## A call -/

def callMeasure (size : UInt32) (single : Bool) (index : UInt32) (entries : List DirectoryEntry) :
    Measure :=
  measureFits size (maxCount single) (window index 0 entries) .start

structure Taken (size : UInt32) (single : Bool) (w taken after : List DirectoryEntry) : Prop where
  split : w = taken ++ after
  fits : taken = [] ∨ total taken ≤ size.toNat
  stop : ∀ e rest, after = e :: rest → taken.length < (maxCount single).toNat →
    size.toNat < total taken + e.bytes

theorem callMeasure_taken (index : UInt32) (hsums : SumsFit size single entries) : ∃ taken after,
    Taken size single (window index 0 entries) taken after ∧
      (callMeasure size single index entries).usedCount.toNat = taken.length := by
  obtain ⟨taken, after, hsplit, hcount, htotal, hstop⟩ :=
    measureFits_taken size (maxCount single) counted_start (.inl rfl)
      fun mid e after heq => hsums index mid e after heq
  exact ⟨taken, after, ⟨hsplit, htotal, hstop⟩, hcount⟩

theorem Taken.room (h : Taken size single w taken rest) (hsize : 32 ≤ size.toNat) :
    total taken ≤ size.toNat := by
  rcases h.fits with rfl | hfits
  · exact hsize
  · exact hfits

def callStores (buffer : Nat) (size : UInt32) (usedCount : Nat) (head : UInt32)
    (taken : List DirectoryEntry) : List (Store UInt8) :=
  (emitAll buffer 0 head taken).1 ++
    if 32 ≤ size then [⟨32 * usedCount, List.replicate 32 0⟩] else []

theorem toNat_head (usedCount : UInt32) (taken : List DirectoryEntry) (htaken : 32 * (taken.length + 1) < 2 ^ 32)
    (hcount : usedCount.toNat = taken.length) :
    (UInt32.ofNat (32 * (usedCount + 1).toNat)).toNat = 32 * (taken.length + 1) := by
  have hsucc : (usedCount + 1).toNat = taken.length + 1 := by
    rw [UInt32.toNat_add, hcount]
    exact Nat.mod_eq_of_lt (by show taken.length + 1 < 2 ^ 32; omega)
  rw [hsucc]
  exact UInt32.toNat_ofNat_of_lt' htaken

theorem callStores_fit (h : Taken size single w taken rest)
    (hcount : usedCount.toNat = taken.length) :
    StoresFit size (callStores buffer size taken.length
      (.ofNat (32 * (usedCount + 1).toNat)) taken) := by
  by_cases hsize : 32 ≤ size
  · have htotal := h.room hsize
    rw [total_eq] at htotal
    have hlt := size.toNat_lt
    have hhead := toNat_head usedCount taken (by omega) hcount
    obtain ⟨hregions, hpairwise⟩ := emitAll_stores buffer 0
      (.ofNat (32 * (usedCount + 1).toNat)) taken (by omega) (by omega)
    unfold callStores
    rw [if_pos hsize]
    rw [hhead] at hregions
    refine ⟨?_, pairwise_append.mpr ⟨hpairwise, pairwise_singleton .., ?_⟩⟩
    · intro s hs
      rcases mem_append.mp hs with hs | hs
      · rcases hregions s hs with ⟨_, _⟩ | ⟨_, _⟩
        · omega
        · omega
      · obtain rfl := mem_singleton.mp hs
        simp only [Store.stop, length_replicate]
        omega
    · intro s hs t ht
      obtain rfl := mem_singleton.mp ht
      simp only [Store.Apart, Store.stop, length_replicate]
      rcases hregions s hs with ⟨_, _⟩ | ⟨_, _⟩
      · exact .inl (by unfold Store.stop at *; omega)
      · exact .inr (by omega)
  · have hnil : taken = [] := by
      refine h.fits.resolve_right fun hfits => hsize ?_
      have := le_total taken
      rw [UInt32.le_iff_toNat_le]
      show 32 ≤ _
      omega
    subst hnil
    unfold callStores
    rw [if_neg hsize]
    exact ⟨nofun, .nil⟩

theorem queryEntries_eq (q : DirectoryQuery) :
    queryEntries q index entries =
      let m := callMeasure q.size q.singleEntry index entries
      let returned (n : UInt32) := if q.wantsReturnedSize then some n else none
      let head : UInt32 := .ofNat (32 * (m.usedCount + 1).toNat)
      let taken := (window index 0 entries).take m.usedCount.toNat
      if !m.seen && !m.more then { status := statusNoMoreEntries, returnedSize := returned 32 }
      else if q.singleEntry && m.usedCount == 0 then
        { status := statusBufferTooSmall, returnedSize := returned (2 * 32 + 4 + m.totalLength) }
      else
        { status := if m.more then statusMoreEntries else statusSuccess
          stores := callStores q.buffer q.size m.usedCount.toNat head taken
          context := some (index + m.usedCount)
          returnedSize := returned (emitAll q.buffer 0 head taken).2
          usedCount := m.usedCount } := by
  unfold queryEntries
  rw [measure_eq]
  dsimp only
  rw [emit_eq UInt32.zero_le]
  rfl

theorem queryEntries_fit (q : DirectoryQuery) (hsums : SumsFit q.size q.singleEntry entries) :
    StoresFit q.size (queryEntries q index entries).stores := by
  obtain ⟨taken, after, htaken, hcount⟩ := callMeasure_taken index hsums
  rw [queryEntries_eq]
  dsimp only
  split
  · exact ⟨nofun, .nil⟩
  · split
    · exact ⟨nofun, .nil⟩
    · rw [hcount, htaken.split, take_left' rfl]
      exact callStores_fit htaken hcount

theorem ntQueryDirectoryObject_fit (hsums : SumsFit size single entries) (q : DirectoryQuery)
    (hsize : q.size = size) (hsingle : q.singleEntry = single)
    (hdirectory : ∀ entries', q.directory = .ok entries' → entries' = entries) :
    StoresFit size (ntQueryDirectoryObject q).stores := by
  subst hsize hsingle
  have hnone : StoresFit q.size [] := ⟨nofun, .nil⟩
  unfold ntQueryDirectoryObject
  split
  · exact hnone
  · split
    · exact hnone
    · split
      · exact hnone
      · split
        · exact hnone
        · split
          · exact hnone
          · split
            · exact hnone
            · rename_i entries' hentries
              obtain rfl := hdirectory entries' hentries
              exact queryEntries_fit q hsums

theorem reaches_eq {q : DirectoryQuery} (hq : q.Reaches size single index entries) :
    ntQueryDirectoryObject q = queryEntries q index entries := by
  obtain ⟨hbuffer, -, -, hrestart, hcontext, hprobe, hprobe', hprobe'', hdirectory⟩ := hq
  unfold ntQueryDirectoryObject
  simp only [hcontext, hbuffer, hprobe, hprobe', hprobe'', hdirectory, hrestart, not_true, if_false,
    and_false, Bool.false_eq_true]

def sampleQuery (size : UInt32) (single : Bool) (context : UInt32) (entries : List DirectoryEntry) :
    DirectoryQuery where
  buffer := 0x10000
  size := size
  singleEntry := single
  restartScan := false
  context := some context
  wantsReturnedSize := false
  directory := .ok entries

theorem sampleQuery_reaches : (sampleQuery size single index entries).Reaches size single index entries :=
  ⟨nofun, rfl, rfl, rfl, rfl, rfl, rfl, rfl, rfl⟩

/-! ## The condition is needed -/

/-- A sum that wraps lets the second pass store past the end. -/
theorem overrun (size : UInt32) (single : Bool)
    (hwindow : window index 0 entries = before ++ e :: rest)
    (hlength : before.length < (maxCount single).toNat) (hfits : total before ≤ size.toNat)
    (hwrap : 2 ^ 32 ≤ total before + e.bytes) :
    ∃ s ∈ (queryEntries (sampleQuery size single index entries) index entries).stores,
      size.toNat < s.stop := by
  have hbytes := bytes_le e
  have hsize := size.toNat_lt
  -- the pass counts the entry whose sum wraps
  obtain ⟨m, hm, hwalk⟩ := measureFits_append (e :: rest) counted_start
    (by rwa [nil_append]) (by rw [nil_append]; exact hlength.le)
  rw [nil_append] at hm
  have hlt : m.usedCount < maxCount single := by
    rw [UInt32.lt_iff_toNat_lt, hm.count]
    exact hlength
  have hsmall : ¬ m.usedSize + e.entrySize > size := by
    rw [gt_iff_lt, UInt32.lt_iff_toNat_lt, UInt32.toNat_add, hm.size, toNat_entrySize]
    omega
  have hmeasure : callMeasure size single index entries =
      measureFits size (maxCount single) rest (m.take e) := by
    rw [callMeasure, hwindow, hwalk, measureFits_cons hlt hsmall]
  have hseen : (callMeasure size single index entries).seen = true := by
    rw [hmeasure]
    exact measureFits_seen rfl
  obtain ⟨hlow, hhigh⟩ :=
    measureFits_count_le size (maxCount single) rest (m.take e)
  rw [← hmeasure, toNat_usedCount_take hlt, hm.count] at hlow hhigh
  have hmulti : single = false := by
    rcases maxCount_cases single with ⟨-, hone⟩ | ⟨hmulti, -⟩
    · have hnil : before = [] := length_eq_zero_iff.mp (by omega)
      subst hnil
      have : total [] = 32 := rfl
      omega
    · exact hmulti
  subst hmulti
  rw [queryEntries_eq]
  simp only [sampleQuery, hwindow, hseen, Bool.not_true, Bool.false_and, Bool.false_eq_true, if_false]
  generalize callMeasure size false index entries = call at hlow hhigh
  -- and so the entry is among those that are stored
  generalize hcount : call.usedCount.toNat = count at hlow hhigh ⊢
  have hsplit : (before ++ e :: rest).take count =
      before ++ [e] ++ rest.take (count - (before.length + 1)) := by
    rw [append_cons, take_append, take_of_length_le (by simp; omega)]
    simp
  have hlen : ((before ++ e :: rest).take count).length = count := by
    rw [length_take, length_append, length_cons]
    omega
  have hstrings : stringBytes ((before ++ e :: rest).take count) ≥
      stringBytes before + e.strings := by
    rw [hsplit, stringBytes_append, stringBytes_append]
    simp [stringBytes]
  rw [total_eq] at hfits hwrap
  rw [bytes_eq] at hwrap
  have h32 : 32 ≤ size := by
    rw [UInt32.le_iff_toNat_le]
    show 32 ≤ _
    omega
  unfold callStores
  rw [if_pos h32]
  by_cases harray : size.toNat < 32 * (count + 1)
  · refine ⟨_, mem_append_right _ (mem_singleton_self _), ?_⟩
    simp only [Store.stop, length_replicate]
    omega
  · have hhead := toNat_head call.usedCount ((before ++ e :: rest).take count) (by omega) (by omega)
    rw [hlen] at hhead
    obtain ⟨s, hs, hover⟩ := emitAll_overrun 0x10000 0
      (.ofNat (32 * (call.usedCount + 1).toNat)) ((before ++ e :: rest).take count)
      hsize (by omega) (by omega)
    exact ⟨s, mem_append_left _ hs, hover⟩

/-! ## Complete enumeration -/

theorem window_ne_nil (hk : k < entries.length) (h : ¬ position + .ofNat k < index) :
    window index position entries ≠ [] := by
  induction entries generalizing position k with
  | nil => cases hk
  | cons e entries ih =>
    unfold window
    split
    · rename_i hskip
      cases k with
      | zero =>
        rw [show UInt32.ofNat 0 = 0 from rfl, UInt32.add_zero] at h
        exact absurd hskip h
      | succ k =>
        refine ih (k := k) (Nat.lt_of_succ_lt_succ hk) ?_
        rwa [UInt32.ofNat_add, UInt32.add_comm (.ofNat k), ← UInt32.add_assoc] at h
    · exact nofun

theorem window_drop {p : Nat} (hp : p + entries.length < 2 ^ 32) (hk : k < 2 ^ 32) :
    window (.ofNat k) (.ofNat p) entries = entries.drop (k - p) := by
  induction entries generalizing p with
  | nil => rw [drop_nil]; rfl
  | cons e entries ih =>
    rw [length_cons] at hp
    have hsucc : (UInt32.ofNat p + 1) = .ofNat (p + 1) := by rw [UInt32.ofNat_add]; rfl
    have hiff : UInt32.ofNat p < .ofNat k ↔ p < k := by
      rw [UInt32.lt_iff_toNat_lt, UInt32.toNat_ofNat_of_lt' hk,
        UInt32.toNat_ofNat_of_lt' (by show _ < 2 ^ 32; omega)]
    unfold window
    rw [hsucc, ih (by omega)]
    by_cases hlt : p < k
    · rw [if_pos (hiff.mpr hlt), show k - p = (k - (p + 1)) + 1 by omega, drop_succ_cons]
    · rw [if_neg (fun h => hlt (hiff.mp h)), show k - p = 0 by omega, show k - (p + 1) = 0 by omega]
      rfl

theorem callStores_shows {m : Nat → UInt8}
    (hfit : StoresFit size (callStores buffer size taken.length head taken)) (hsize : 32 ≤ size) :
    Shows buffer (applyAll (callStores buffer size taken.length head taken) m) taken where
  entry := by
    intro k e hk
    obtain ⟨nameAt, typeAt, hmem⟩ := emitAll_mem buffer 0 head hk
    have hholds (s : Store UInt8) (hs : s ∈ (emitAll buffer 0 head taken).1) :=
      holds_applyAll (m := m) hfit.apart (mem_append_left _ hs)
    simp only [Nat.zero_add, mem_cons, not_mem_nil, or_false, forall_eq_or_imp, forall_eq]
      at hmem
    obtain ⟨hlen, hbuf, hname, hnul, htlen, htbuf, htype, htnul⟩ := hmem
    refine ⟨nameAt, typeAt, hholds _ hlen, hholds _ hbuf, ?_, hholds _ htlen, hholds _ htbuf, ?_⟩
    · refine Holds.append (hholds _ hname) ?_
      rw [length_ofUnits]
      exact hholds _ hnul
    · refine Holds.append (hholds _ htype) ?_
      rw [length_ofUnits, DirectoryEntry.typeUnits, length_map]
      exact hholds _ htnul
  terminator := by
    refine holds_applyAll (s := ⟨32 * taken.length, List.replicate 32 0⟩) hfit.apart ?_
    unfold callStores
    rw [if_pos hsize]
    exact mem_append_right _ (mem_singleton_self _)

theorem callMeasure_seen (hne : window index 0 entries ≠ []) :
    (callMeasure size single index entries).seen = true := by
  obtain ⟨e, w, hw⟩ := exists_cons_of_ne_nil hne
  rw [callMeasure, hw]
  refine measureFits_seen_of_cons ?_
  show 0 < maxCount single
  cases single <;> decide

theorem status_noMoreEntries_iff (q : DirectoryQuery) :
    (queryEntries q index entries).status = statusNoMoreEntries ↔ window index 0 entries = [] := by
  rw [queryEntries_eq]
  refine ⟨fun hstatus => ?_, fun hnil => ?_⟩
  · by_contra hne
    simp only [callMeasure_seen hne, Bool.not_true, Bool.false_and, Bool.false_eq_true, if_false]
      at hstatus
    split at hstatus
    · dsimp only at hstatus
      exact absurd hstatus (by decide)
    · dsimp only at hstatus
      split at hstatus
      · exact absurd hstatus (by decide)
      · exact absurd hstatus (by decide)
  · simp [callMeasure, hnil, measureFits, Measure.start]

theorem queryEntries_next (hsums : SumsFit size single entries)
    (hfits : ∀ e ∈ window index 0 entries, 32 + e.bytes ≤ size.toNat)
    (hne : window index 0 entries ≠ []) : ∃ taken after, window index 0 entries = taken ++ after ∧
      taken ≠ [] ∧ ∀ q : DirectoryQuery, q.Reaches size single index entries →
        ((ntQueryDirectoryObject q).status = statusSuccess ∨
          (ntQueryDirectoryObject q).status = statusMoreEntries) ∧
        (ntQueryDirectoryObject q).context = some (index + .ofNat taken.length) ∧
        ∀ m, Shows q.buffer (applyAll (ntQueryDirectoryObject q).stores m) taken := by
  obtain ⟨taken, after, htaken, hcount⟩ := callMeasure_taken index hsums
  obtain ⟨e, w, hw⟩ := exists_cons_of_ne_nil hne
  have he : 32 + e.bytes ≤ size.toNat := hfits e (by rw [hw]; exact mem_cons_self)
  have hne' : taken ≠ [] := by
    rintro rfl
    have hstop := htaken.stop e w (htaken.split.symm.trans hw) (by
      rcases maxCount_cases single with ⟨-, h⟩ | ⟨-, h⟩
      · rw [h]; decide
      · rw [h]; decide)
    have : total [] = 32 := rfl
    omega
  have h32 : 32 ≤ size := by
    rw [UInt32.le_iff_toNat_le]
    show 32 ≤ _
    omega
  have hcontext : (callMeasure size single index entries).usedCount = .ofNat taken.length := by
    rw [← hcount, UInt32.ofNat_toNat]
  refine ⟨taken, after, htaken.split, hne', fun q hq => ?_⟩
  have hfit := ntQueryDirectoryObject_fit hsums q hq.2.1 hq.2.2.1 fun entries' h => by
    rw [hq.2.2.2.2.2.2.2.2] at h
    exact (Except.ok.inj h).symm
  rw [reaches_eq hq, queryEntries_eq] at hfit ⊢
  obtain ⟨-, rfl, rfl, -⟩ := hq
  have hzero : (callMeasure q.size q.singleEntry index entries).usedCount ≠ 0 := by
    intro hzero
    rw [hzero] at hcount
    exact hne' (length_eq_zero_iff.mp hcount.symm)
  simp only [callMeasure_seen hne, Bool.not_true, Bool.false_and, Bool.false_eq_true, if_false,
    beq_eq_false_iff_ne.mpr hzero, Bool.and_false, hcount, htaken.split, take_left'] at hfit ⊢
  refine ⟨?_, ?_, fun m => callStores_shows hfit h32⟩
  · split
    · exact .inr rfl
    · exact .inl rfl
  · rw [hcontext]

theorem enumerates_drop (hsums : SumsFit size single entries) (hfits : LongestFits size entries)
    (hlength : entries.length < 2 ^ 32) {k : Nat} (hk : k ≤ entries.length) :
    Enumerates size single entries (.ofNat k) (entries.drop k) := by
  have hwindow : window (.ofNat k) 0 entries = entries.drop k :=
    window_drop (p := 0) (by omega) (by omega)
  by_cases hend : k = entries.length
  · subst hend
    rw [drop_length] at hwindow ⊢
    refine .done fun q hq => ?_
    rw [reaches_eq hq]
    exact (status_noMoreEntries_iff q).mpr hwindow
  · have hne : window (.ofNat k) 0 entries ≠ [] := by
      rw [hwindow]
      exact fun hnil => hend (by have := drop_eq_nil_iff.mp hnil; omega)
    obtain ⟨taken, after, hsplit, hne', hcall⟩ := queryEntries_next hsums (fun e he => by
      rw [hwindow] at he
      exact hfits e (mem_of_mem_drop he)) hne
    have hdrop : entries.drop k = taken ++ entries.drop (k + taken.length) := by
      rw [← hwindow, hsplit, ← drop_drop, ← hwindow, hsplit, drop_left' rfl]
    have hle : k + taken.length ≤ entries.length := by
      have := congrArg List.length hdrop
      simp only [length_append, length_drop] at this
      omega
    have hpos : 0 < taken.length := length_pos_iff.mpr hne'
    rw [hdrop]
    rw [← UInt32.ofNat_add] at hcall
    exact .next hne' hcall (enumerates_drop hsums hfits hlength hle)
termination_by entries.length - k

theorem Enumerates.length_lt {context : UInt32} {shown : List DirectoryEntry}
    (h : Enumerates size single entries context shown) : entries.length < 2 ^ 32 := by
  induction h with
  | done hstatus =>
    rename_i context
    by_contra hlength
    have h := hstatus _ sampleQuery_reaches
    rw [reaches_eq sampleQuery_reaches, status_noMoreEntries_iff] at h
    refine window_ne_nil (k := 4294967295) (by omega) ?_ h
    rw [UInt32.lt_iff_toNat_lt]
    have := context.toNat_lt
    show ¬ 4294967295 < _
    omega
  | next _ _ _ ih => exact ih

/-- Every call stays in its bytes and the directory is enumerated, exactly where no sum for an entry
wraps and a directory that is enumerated has fewer than 2³² entries. -/
theorem enumerationKept_iff (size : UInt32) (single : Bool) (entries : List DirectoryEntry) :
    EnumerationKept size single entries ↔
      SumsFit size single entries ∧ (LongestFits size entries → entries.length < 2 ^ 32) := by
  refine ⟨fun h => ⟨?_, fun hfits => (h.complete hfits).length_lt⟩, fun ⟨hsums, hlength⟩ => ⟨?_, ?_⟩⟩
  · intro index before e after hwindow hbefore hfits
    by_contra hwrap
    obtain ⟨s, hs, hover⟩ := overrun size single hwindow hbefore hfits (by omega)
    rw [← reaches_eq sampleQuery_reaches] at hs
    have hfit := h.inBounds (sampleQuery size single index entries) rfl rfl
      fun entries' heq => (Except.ok.inj heq).symm
    exact absurd (hfit.bounded s hs) (by omega)
  · exact ntQueryDirectoryObject_fit hsums
  · intro hfits
    exact enumerates_drop hsums hfits (hlength hfits) (Nat.zero_le _)

end

def longName (i : Nat) : WStr :=
  .ofNat (0x100 + i / 256) :: .ofNat (0x100 + i % 256) :: List.replicate 32765 0x61

theorem length_longName (i : Nat) : (longName i).length = 32767 := by
  rw [longName, length_cons, length_cons, length_replicate]

def longEntry (i : Nat) : DirectoryEntry where
  name := longName i
  typeName := [0x45, 0x76, 0x65, 0x6E, 0x74]
  name_le := (length_longName i).le
  type_le := by decide

theorem longEntry_bytes (i : Nat) : (longEntry i).bytes = 65580 := by
  rw [DirectoryEntry.bytes, longEntry, length_longName]
  rfl

theorem total_longEntries (n : Nat) : total ((List.range n).map longEntry) = 32 + n * 65580 := by
  unfold total
  rw [List.map_map, show DirectoryEntry.bytes ∘ longEntry = fun _ => 65580 from
    funext longEntry_bytes, map_const', sum_replicate, length_range, smul_eq_mul]

/-- The sum for the last of 65493 such names wraps in a buffer of 2³² − 1 bytes. -/
theorem enumeration_overruns : ¬ ∀ (size : UInt32) (single : Bool) (entries : List DirectoryEntry),
    EnumerationKept size single entries := by
  intro h
  have hentries : window 0 0 ((List.range 65493).map longEntry) =
      (List.range 65492).map longEntry ++ longEntry 65492 :: [] := by
    rw [show (65493 : Nat) = 65492 + 1 from rfl, range_succ, map_append]
    exact window_drop (k := 0) (p := 0) (by simp) (by decide)
  obtain ⟨s, hs, hover⟩ := overrun 0xFFFFFFFF false hentries
    (by simp [maxCount]) (by rw [total_longEntries]; decide)
    (by rw [total_longEntries, longEntry_bytes]; decide)
  rw [← reaches_eq sampleQuery_reaches] at hs
  have hfit := (h 0xFFFFFFFF false ((List.range 65493).map longEntry)).inBounds
    (sampleQuery 0xFFFFFFFF false 0 ((List.range 65493).map longEntry)) rfl rfl
    fun entries' heq => (Except.ok.inj heq).symm
  exact absurd (hfit.bounded s hs) (Nat.not_le.mpr hover)

end Proskrnl.Ob
