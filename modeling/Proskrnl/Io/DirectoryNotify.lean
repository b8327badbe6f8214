import Proskrnl.Abi.Status
import Proskrnl.Io.NotifyChain

/-!
# Directory-change notification

`kernel/io/notify.c`: the notification state of the armed directory handles, the watches that are
parked, and what arms, reports, deliveries, cancels and deletions do to them. No allocation fails. A
step runs to its end: no statement of this file waits. Event, APC and references are not modelled.

`Notifies` is what a state owes its callers.
-/

namespace Proskrnl.Io
open List

/-- The arguments of `IoReportDirectoryChange`, with the lengths of two `UNICODE_STRING`s. -/
structure ChangeReport where
  device : Nat
  parentPath : WStr
  name : WStr
  filterBit : UInt32
  action : UInt32
  bounded : parentPath.length ≤ 32767 ∧ name.length ≤ 32767
  deriving DecidableEq

/-- `'\\'` -/
def backslash : UInt16 := 0x5C

def iopFileNotifyAll : UInt32 := 0x17F

/-- The notification state of a `FILE_OBJECT` in `IopArmedDirListHead`. No code reads `reports`, the
reports since the first arm. -/
structure ArmedDirectory where
  file : Nat
  device : Nat
  notifyPath : WStr
  notifyFilter : UInt32
  notifySubtree : Bool
  notifyWantData : Bool
  notifyWake : Bool := false
  notifyRecords : List DirRecord := []
  reports : List ChangeReport := []
  deriving DecidableEq

/-- `IOP_DIR_WATCH`. The number counts the arms before it. -/
structure DirWatch where
  number : Nat
  file : Nat
  issuer : Nat
  userIosb : Nat
  /-- `userBuffer != 0` -/
  hasBuffer : Bool
  bufferLength : UInt32
  /-- `event != 0` -/
  hasEvent : Bool
  deriving DecidableEq

/-- What `IopCompleteDirWatch` hands to the caller. No code reads `records`, those that left the queue
for this watch. -/
structure DirCompletion where
  watch : DirWatch
  status : NtStatus
  payload : List UInt8
  information : Nat
  /-- The status block, if it is written. -/
  iosb : Option (NtStatus × Nat)
  records : List DirRecord
  deriving DecidableEq

def iopCompleteDirWatch (watch : DirWatch) (status : NtStatus) (payload : List UInt8)
    (information : Nat) (records : List DirRecord) : DirCompletion where
  watch
  status
  payload
  information
  iosb := if status.toNat / 2 ^ 30 ≠ 3 ∨ !watch.hasEvent then some (status, information) else none
  records

/-- What can go wrong in `IopDeliverRecords`. -/
inductive NotifyFault
  /-- `ASSERT(total != 0)` -/
  | total
  /-- A record is written behind the end of the pool block. -/
  | overrun
  deriving DecidableEq

/-- The sum of the first loop of `IopDeliverRecords`. -/
def notifyTotal (records : List DirRecord) : UInt32 :=
  records.foldl (fun total r => total + UInt32.ofNat r.size) 0

/-- `records` are drained. -/
def iopDeliverRecords (records : List DirRecord) (watch : DirWatch) : Except NotifyFault DirCompletion :=
  let total := notifyTotal records
  if total = 0 then .error .total
  else if watch.hasBuffer ∧ total ≤ watch.bufferLength then
    if total.toNat < (notifyPayload records).length then .error .overrun
    else .ok (iopCompleteDirWatch watch statusSuccess (notifyPayload records) total.toNat records)
  else .ok (iopCompleteDirWatch watch statusNotifyEnumDir [] 0 records)

/-- The loop of `IopDeliverDirWatches` over the watches of one handle: what completes, and what is left of
the queue. -/
def serveWatches : List DirWatch → List DirRecord → Except NotifyFault (List DirCompletion × List DirRecord)
  | [], records => .ok ([], records)
  | watch :: rest, records => do
    let completion ←
      if records = [] then .ok (iopCompleteDirWatch watch statusNotifyEnumDir [] 0 [])
      else iopDeliverRecords records watch
    let (completions, records) ← serveWatches rest []
    .ok (completion :: completions, records)

/-- The armed handles in the order of `IopArmedDirListHead` and the watches in that of
`IopDirWatchListHead`. The last three fields are read by no code: the completions in their order, the
number of the arms, and the file objects that are deleted. -/
structure DirectoryNotify where
  armed : List ArmedDirectory := []
  watches : List DirWatch := []
  deliveryPending : Bool := false
  completions : List DirCompletion := []
  arms : Nat := 0
  deleted : List Nat := []
  deriving DecidableEq

namespace DirectoryNotify

def watchesOf (s : DirectoryNotify) (file : Nat) : List DirWatch := s.watches.filter (·.file = file)

/-- The watches of a file are served, and its notification state becomes `f` of what it was. -/
def served (s : DirectoryNotify) (file : Nat) (completions : List DirCompletion)
    (f : ArmedDirectory → ArmedDirectory) : DirectoryNotify :=
  { s with
    armed := s.armed.map fun d => if d.file = file then f d else d
    watches := s.watches.filter (·.file ≠ file)
    completions := s.completions ++ completions }

def iopDeliverDirWatches (s : DirectoryNotify) (file : Nat) : Except NotifyFault DirectoryNotify :=
  match s.armed.find? (·.file = file) with
  | none => .ok s
  | some d =>
    if d.notifyRecords = [] ∧ !d.notifyWake then .ok s
    else do
      let (completions, records) ← serveWatches (s.watchesOf file) d.notifyRecords
      .ok (s.served file completions fun d => { d with notifyWake := false, notifyRecords := records })

def ioDeliverDirectoryChanges (s : DirectoryNotify) : Except NotifyFault DirectoryNotify :=
  if s.deliveryPending then
    (s.armed.map (·.file)).foldlM iopDeliverDirWatches { s with deliveryPending := false }
  else .ok s

/-- The arguments of `NtNotifyChangeDirectoryFile` and what the calls it makes answer: `refusal` is that of
a probe, of the handle or of the event, and `queryName` is what the device says. -/
structure ArmArgs where
  file : Nat
  device : Nat
  issuer : Nat
  userIosb : Nat
  hasBuffer : Bool
  bufferLength : UInt32
  hasEvent : Bool
  filter : UInt32
  watchTree : Bool
  refusal : Option NtStatus
  queryName : Except NtStatus WStr
  deriving DecidableEq

def newWatch (s : DirectoryNotify) (a : ArmArgs) : DirWatch where
  number := s.arms
  file := a.file
  issuer := a.issuer
  userIosb := a.userIosb
  hasBuffer := a.hasBuffer
  bufferLength := a.bufferLength
  hasEvent := a.hasEvent

def parked (s : DirectoryNotify) (a : ArmArgs) : DirectoryNotify :=
  { s with watches := s.watches ++ [s.newWatch a], arms := s.arms + 1 }

def newDirectory (a : ArmArgs) (path : WStr) : ArmedDirectory where
  file := a.file
  device := a.device
  notifyPath := path
  notifyFilter := a.filter
  notifySubtree := a.watchTree
  notifyWantData := a.hasBuffer

/-- A handle gets its notification state. -/
def firstArmed (s : DirectoryNotify) (a : ArmArgs) (path : WStr) : DirectoryNotify :=
  { s with armed := s.armed ++ [newDirectory a path] }

def ntNotifyChangeDirectoryFile (s : DirectoryNotify) (a : ArmArgs) :
    Except NotifyFault (NtStatus × DirectoryNotify) :=
  if a.file ∈ s.deleted then .ok (statusInvalidHandle, s)
  else if a.filter = 0 ∨ a.filter &&& ~~~iopFileNotifyAll ≠ 0 then .ok (statusInvalidParameter, s)
  else
    match a.refusal with
    | some status => .ok (status, s)
    | none =>
      if s.armed.any (·.file = a.file) then do
        let s ← (s.parked a).iopDeliverDirWatches a.file
        .ok (statusPending, s)
      else
        match a.queryName with
        | .error status => .ok (status, s)
        | .ok path =>
          if 260 < path.length then .ok (statusObjectPathInvalid, s)
          else do
            let s ← ((s.firstArmed a path).parked a).iopDeliverDirWatches a.file
            .ok (statusPending, s)

end DirectoryNotify

/-- `prefix` in `IoReportDirectoryChange`: the path of the root is its separator. -/
def ArmedDirectory.base (d : ArmedDirectory) : Nat :=
  if d.notifyPath.length = 1 ∧ d.notifyPath[0]? = some backslash then 0 else d.notifyPath.length

/-- The test of `IoReportDirectoryChange`: the path from the watched directory to the changed one, which
is empty for a direct child. -/
def ArmedDirectory.tail? (d : ArmedDirectory) (parentPath : WStr) : Option WStr :=
  if d.notifyPath.length = parentPath.length ∧ d.notifyPath = parentPath then some []
  else if d.notifySubtree ∧ d.notifyPath.length < parentPath.length ∧
      d.notifyPath.take d.base = parentPath.take d.base ∧ parentPath[d.base]? = some backslash then
    some (parentPath.drop (d.base + 1))
  else none

def joined (tail name : WStr) : WStr := if tail ≠ [] then tail ++ backslash :: name else name

/-- What `IoReportDirectoryChange` looks for on one handle. -/
def ArmedDirectory.match? (d : ArmedDirectory) (r : ChangeReport) : Option WStr :=
  if d.device ≠ r.device ∨ d.notifyFilter &&& r.filterBit = 0 then none
  else (d.tail? r.parentPath).map (joined · r.name)

theorem ArmedDirectory.length_match? {d : ArmedDirectory} {r : ChangeReport} {name : WStr}
    (h : d.match? r = some name) : name.length ≤ 65535 := by
  obtain ⟨hparent, hname⟩ := r.bounded
  unfold match? at h
  split at h
  · cases h
  · obtain ⟨tail, htail, rfl⟩ := Option.map_eq_some_iff.mp h
    have hlength : tail.length ≤ r.parentPath.length - 1 := by
      unfold tail? at htail
      split at htail
      · cases htail
        exact Nat.zero_le _
      · split at htail
        · cases htail
          rw [length_drop]
          omega
        · cases htail
    unfold joined
    split
    · rw [length_append, length_cons]
      omega
    · omega

def ArmedDirectory.record? (d : ArmedDirectory) (r : ChangeReport) : Option DirRecord :=
  match h : d.match? r with
  | none => none
  | some name => some ⟨r.action, name, d.length_match? h⟩

/-- A handle without a buffer stores no record. A record always finds pool; where it finds none the source
sets `notifyWake` as well. -/
def ArmedDirectory.enqueue (d : ArmedDirectory) : Option DirRecord → ArmedDirectory
  | none => d
  | some record =>
    if d.notifyWantData then { d with notifyRecords := d.notifyRecords ++ [record] }
    else { d with notifyWake := true }

/-- `IoReportDirectoryChange` on one handle. -/
def ArmedDirectory.report (d : ArmedDirectory) (r : ChangeReport) : ArmedDirectory :=
  { d.enqueue (d.record? r) with reports := d.reports ++ [r] }

namespace DirectoryNotify

def ioReportDirectoryChange (s : DirectoryNotify) (r : ChangeReport) : DirectoryNotify :=
  { s with
    armed := s.armed.map (·.report r)
    deliveryPending := s.deliveryPending || s.armed.any fun d => (d.record? r).isSome }

/-- What `IopCancelDirectoryWatches` looks for. -/
def cancels (file : Nat) (issuer targetIosb : Option Nat) (watch : DirWatch) : Bool :=
  watch.file = file && issuer.all (· = watch.issuer) && targetIosb.all (· = watch.userIosb)

def iopCancelDirectoryWatches (s : DirectoryNotify) (file : Nat) (issuer targetIosb : Option Nat) :
    DirectoryNotify :=
  { s with
    watches := s.watches.filter fun w => !cancels file issuer targetIosb w
    completions := s.completions ++ (s.watches.filter (cancels file issuer targetIosb)).map fun w =>
      iopCompleteDirWatch w statusCancelled [] 0 [] }

/-- `IopDetachDirectoryNotify`, by the delete procedure of a file object: a watch refers to its file. -/
def iopDetachDirectoryNotify (s : DirectoryNotify) (file : Nat) : DirectoryNotify :=
  if s.watchesOf file ≠ [] then s
  else
    { s with
      armed := s.armed.filter (·.file ≠ file)
      deleted := file :: s.deleted }

end DirectoryNotify

inductive NotifyOp
  | arm (a : DirectoryNotify.ArmArgs)
  | report (r : ChangeReport)
  | deliver
  | cancel (file : Nat) (issuer targetIosb : Option Nat)
  | delete (file : Nat)
  deriving DecidableEq

def DirectoryNotify.step (s : DirectoryNotify) : NotifyOp → Except NotifyFault DirectoryNotify
  | .arm a => (s.ntNotifyChangeDirectoryFile a).map (·.2)
  | .report r => .ok (s.ioReportDirectoryChange r)
  | .deliver => s.ioDeliverDirectoryChanges
  | .cancel file issuer targetIosb => .ok (s.iopCancelDirectoryWatches file issuer targetIosb)
  | .delete file => .ok (s.iopDetachDirectoryNotify file)

inductive NotifyReaches (allowed : DirectoryNotify → NotifyOp → Prop) : DirectoryNotify → Prop
  | start : NotifyReaches allowed {}
  | step {s s' : DirectoryNotify} (op : NotifyOp) (hs : NotifyReaches allowed s) (hop : allowed s op)
    (h : s.step op = .ok s') : NotifyReaches allowed s'

/-! ## What a caller is owed -/

def ArmedDirectory.settings (d : ArmedDirectory) : Nat × WStr × UInt32 × Bool × Bool :=
  (d.device, d.notifyPath, d.notifyFilter, d.notifySubtree, d.notifyWantData)

def ArmedDirectory.below (d : ArmedDirectory) : WStr :=
  if d.notifyPath = [backslash] then [backslash] else d.notifyPath ++ [backslash]

/-- What a report is to an armed handle: nothing, or an action on a name. -/
def ArmedDirectory.due? (d : ArmedDirectory) (r : ChangeReport) : Option (UInt32 × WStr) :=
  if d.device = r.device ∧ d.notifyFilter &&& r.filterBit ≠ 0 then
    if r.parentPath = d.notifyPath then some (r.action, r.name)
    else if d.notifySubtree ∧ d.below <+: r.parentPath then
      some (r.action, joined (r.parentPath.drop d.below.length) r.name)
    else none
  else none

def DirRecord.content (r : DirRecord) : UInt32 × WStr := (r.action, r.name)

def DirectoryNotify.handed (s : DirectoryNotify) (file : Nat) : List DirRecord :=
  (s.completions.filter (·.watch.file = file)).flatMap (·.records)

inductive DirCompletion.Answers (c : DirCompletion) : Prop
  | handed (hrecords : c.records ≠ []) (hstatus : c.status = statusSuccess)
    (hdecode : decodeChain c.records.length c.payload = some (c.records.map DirRecord.content))
    (hinformation : c.information = c.payload.length) (hlength : c.payload.length = chainLength c.records)
    (hfits : c.watch.hasBuffer = true ∧ c.payload.length ≤ c.watch.bufferLength.toNat)
    (hiosb : c.iosb = some (c.status, c.information))
  | enumerate (hrecords : c.records ≠ []) (hstatus : c.status = statusNotifyEnumDir)
    (hpayload : c.payload = []) (hinformation : c.information = 0)
    (hfits : ¬(c.watch.hasBuffer = true ∧ chainLength c.records ≤ c.watch.bufferLength.toNat))
    (hiosb : c.iosb = some (c.status, c.information))
  | woken (hrecords : c.records = []) (hstatus : c.status = statusNotifyEnumDir)
    (hpayload : c.payload = []) (hinformation : c.information = 0)
    (hiosb : c.iosb = some (c.status, c.information))
  | cancelled (hrecords : c.records = []) (hstatus : c.status = statusCancelled)
    (hpayload : c.payload = []) (hinformation : c.information = 0)

/-- `c` took a queue, so that of the watches of its file it was the oldest. -/
def DirCompletion.Before (c : DirCompletion) (w : DirWatch) : Prop :=
  c.records ≠ [] → w.file = c.watch.file → c.watch.number < w.number

/-- What a state owes its callers: the queue of each handle whose first arm had a buffer is what its
reports came to, less what was handed out. Each watch is parked or completed once. A queue goes to the
oldest watch as a whole, and no watch waits where there is something to deliver. -/
structure Notifies (s : DirectoryNotify) : Prop where
  queue : ∀ d ∈ s.armed, d.notifyWantData = true →
    (s.handed d.file ++ d.notifyRecords).map DirRecord.content = d.reports.filterMap d.due?
  once : (s.completions.map (·.watch.number) ++ s.watches.map (·.number)).Perm (List.range s.arms)
  answers : ∀ c ∈ s.completions, c.Answers
  oldest : s.completions.Pairwise (fun c c' => c.Before c'.watch) ∧
    ∀ c ∈ s.completions, ∀ w ∈ s.watches, c.Before w
  delivered : s.deliveryPending = false → ∀ d ∈ s.armed, d.notifyRecords ≠ [] ∨ d.notifyWake = true →
    s.watchesOf d.file = []

def NotifyOp.reports : NotifyOp → List ChangeReport
  | .report r => [r]
  | _ => []

/-- What a step does to the notification states: those that stay have their settings and the report, and a
first arm adds one. -/
def Carries (s : DirectoryNotify) (op : NotifyOp) (s' : DirectoryNotify) : Prop :=
  ∀ d' ∈ s'.armed,
    (∃ d ∈ s.armed, d'.file = d.file ∧ d'.settings = d.settings ∧ d'.reports = d.reports ++ op.reports) ∨
    ∃ a path, op = .arm a ∧ a.queryName = .ok path ∧ (∀ d ∈ s.armed, d.file ≠ a.file) ∧
      d'.file = a.file ∧ d'.settings = (a.device, path, a.filter, a.watchTree, a.hasBuffer) ∧ d'.reports = []

/-- The sum of a queue does no harm: a `ULONG` holds it, or it neither is 0 nor seems to fit. -/
def SumSafe (records : List DirRecord) (w : DirWatch) : Prop :=
  chainLength records < 2 ^ 32 ∨
    (chainLength records % 2 ^ 32 ≠ 0 ∧
      ¬(w.hasBuffer = true ∧ chainLength records % 2 ^ 32 ≤ w.bufferLength.toNat))

def QueueSafe (s : DirectoryNotify) (file : Nat) : Prop :=
  ∀ d ∈ s.armed, d.file = file → d.notifyRecords ≠ [] → ∀ w, (s.watchesOf file).head? = some w →
    SumSafe d.notifyRecords w

def DirectoryNotify.ArmArgs.Valid (s : DirectoryNotify) (a : DirectoryNotify.ArmArgs) : Prop :=
  a.file ∉ s.deleted ∧ ¬(a.filter = 0 ∨ a.filter &&& ~~~iopFileNotifyAll ≠ 0) ∧ a.refusal = none

/-- No step delivers a queue with a sum that does harm. -/
def NotifySafe (s : DirectoryNotify) : NotifyOp → Prop
  | .arm a => a.Valid s → QueueSafe (s.parked a) a.file
  | .deliver => s.deliveryPending = true → ∀ d ∈ s.armed, QueueSafe s d.file
  | _ => True

/-! ## Matching -/

variable {s s' : DirectoryNotify} {d d' : ArmedDirectory} {r : ChangeReport} {file : Nat}
  {records : List DirRecord} {w : DirWatch} {ws : List DirWatch} {c : DirCompletion} {a : DirectoryNotify.ArmArgs}

theorem ArmedDirectory.base_le (d : ArmedDirectory) : d.base ≤ d.notifyPath.length := by
  unfold base
  split
  · exact Nat.zero_le _
  · exact Nat.le_refl _

theorem ArmedDirectory.below_eq (d : ArmedDirectory) :
    d.below = d.notifyPath.take d.base ++ [backslash] := by
  unfold below base
  cases hpath : d.notifyPath with
  | nil => rfl
  | cons x xs =>
    cases xs with
    | nil =>
      simp only [length_singleton, getElem?_cons_zero, Option.some.injEq, true_and,
        List.cons.injEq, and_true]
      split <;> rfl
    | cons y ys => simp

theorem ArmedDirectory.length_below (d : ArmedDirectory) : d.below.length = d.base + 1 := by
  rw [d.below_eq, length_append, length_take, Nat.min_eq_left d.base_le]
  rfl

theorem ArmedDirectory.below_isPrefix_iff (d : ArmedDirectory) (parentPath : WStr) :
    d.below <+: parentPath ↔
      d.notifyPath.take d.base = parentPath.take d.base ∧ parentPath[d.base]? = some backslash := by
  have hbase : (d.notifyPath.take d.base).length = d.base := by
    rw [length_take, Nat.min_eq_left d.base_le]
  rw [d.below_eq]
  constructor
  · intro ⟨rest, hrest⟩
    rw [← hrest, append_assoc, take_left' hbase, getElem?_append_right hbase.le, hbase,
      Nat.sub_self]
    exact ⟨rfl, rfl⟩
  · intro ⟨htake, hget⟩
    obtain ⟨hlt, hget⟩ := List.getElem?_eq_some_iff.mp hget
    refine ⟨parentPath.drop (d.base + 1), ?_⟩
    rw [htake, ← hget, take_append_getElem hlt, take_append_drop]

theorem ArmedDirectory.record?_content (d : ArmedDirectory) (r : ChangeReport) :
    (d.record? r).map DirRecord.content = d.due? r := by
  have hrecord : (d.record? r).map DirRecord.content = (d.match? r).map fun name => (r.action, name) := by
    unfold record?
    split
    · next hmatch => exact (congrArg (Option.map fun name => (r.action, name)) hmatch).symm
    · next hmatch => exact (congrArg (Option.map fun name => (r.action, name)) hmatch).symm
  have hlonger (hbelow : d.below <+: r.parentPath) (hne : r.parentPath ≠ d.notifyPath) :
      d.notifyPath.length < r.parentPath.length := by
    have hle := hbelow.length_le
    unfold below at hle hbelow
    split at hle
    · next hroot =>
      rw [if_pos hroot] at hbelow
      refine Nat.lt_of_le_of_ne (by rw [hroot]; exact hle) fun hlength => hne ?_
      rw [hroot] at hlength ⊢
      exact (hbelow.eq_of_length hlength).symm
    · rw [length_append] at hle
      exact hle
  rw [hrecord]
  unfold match? due? tail?
  by_cases hclass : d.device = r.device ∧ d.notifyFilter &&& r.filterBit ≠ 0
  · rw [if_neg (by tauto), if_pos hclass]
    by_cases hchild : r.parentPath = d.notifyPath
    · rw [if_pos ⟨by rw [hchild], hchild.symm⟩, if_pos hchild]
      rfl
    · rw [if_neg fun h => hchild h.2.symm, if_neg hchild]
      by_cases hsub : d.notifySubtree = true ∧ d.below <+: r.parentPath
      · rw [if_pos hsub, if_pos ⟨hsub.1, hlonger hsub.2 hchild, (d.below_isPrefix_iff _).mp hsub.2⟩,
          d.length_below]
        rfl
      · rw [if_neg hsub, if_neg fun h => hsub ⟨h.1, (d.below_isPrefix_iff _).mpr h.2.2⟩]
        rfl
  · rw [if_pos (by tauto), if_neg hclass]
    rfl

/-! ## One delivery -/

theorem toNat_notifyTotal (records : List DirRecord) :
    (notifyTotal records).toNat = chainLength records % 2 ^ 32 := by
  induction records using List.reverseRecOn with
  | nil => rfl
  | append_singleton records r ih =>
    have hlast : notifyTotal (records ++ [r]) = notifyTotal records + UInt32.ofNat r.size := by
      unfold notifyTotal
      rw [foldl_append]
      rfl
    have hchain : chainLength (records ++ [r]) = chainLength records + r.size := by
      rw [chainLength, map_append, sum_append]
      rfl
    rw [hlast, hchain, UInt32.toNat_add, ih, UInt32.toNat_ofNat', Nat.add_mod (chainLength records)]

theorem chainLength_pos (hne : records ≠ []) : 0 < chainLength records := by
  cases records with
  | nil => exact absurd rfl hne
  | cons r rest =>
    rw [chainLength, map_cons, sum_cons]
    unfold DirRecord.size
    omega

theorem iopDeliverRecords_ok (hne : records ≠ []) (hsafe : SumSafe records w) :
    ∃ c, iopDeliverRecords records w = .ok c ∧ c.watch = w ∧ c.records = records ∧ c.Answers := by
  have htotal := toNat_notifyTotal records
  have hpos := chainLength_pos hne
  have hzero : notifyTotal records ≠ 0 := by
    intro h
    rw [h, UInt32.toNat_zero] at htotal
    rcases hsafe with hlt | hsafe
    · rw [Nat.mod_eq_of_lt hlt] at htotal
      omega
    · exact hsafe.1 htotal.symm
  unfold iopDeliverRecords
  rw [if_neg hzero]
  by_cases hfits : w.hasBuffer = true ∧ notifyTotal records ≤ w.bufferLength
  · have hle : (notifyTotal records).toNat ≤ w.bufferLength.toNat := UInt32.le_iff_toNat_le.mp hfits.2
    have hlt : chainLength records < 2 ^ 32 :=
      hsafe.resolve_right fun h => h.2 ⟨hfits.1, htotal ▸ hle⟩
    rw [Nat.mod_eq_of_lt hlt] at htotal
    have hlength := length_notifyPayload hne
    rw [if_pos hfits, if_neg (by rw [htotal, hlength]; exact Nat.lt_irrefl _)]
    refine ⟨_, rfl, rfl, rfl, .handed hne rfl (decodeChain_notifyPayload hne (Nat.le_refl _)) ?_ hlength ?_ rfl⟩
    · exact htotal.trans hlength.symm
    · exact ⟨hfits.1, hlength.le.trans (htotal ▸ hle)⟩
  · rw [if_neg hfits]
    refine ⟨_, rfl, rfl, rfl, .enumerate hne rfl rfl rfl (fun h => hfits ⟨h.1, ?_⟩) rfl⟩
    refine UInt32.le_iff_toNat_le.mpr (htotal ▸ ?_)
    exact (Nat.mod_le _ _).trans h.2

/-- A watch that is told to look again, since others took the queue or there is none. -/
def wokenCompletion (w : DirWatch) : DirCompletion := iopCompleteDirWatch w statusNotifyEnumDir [] 0 []

theorem wokenCompletion_answers (w : DirWatch) : (wokenCompletion w).Answers := .woken rfl rfl rfl rfl rfl

theorem serveWatches_nil (ws : List DirWatch) : serveWatches ws [] = .ok (ws.map wokenCompletion, []) := by
  induction ws with
  | nil => rfl
  | cons w ws ih =>
    rw [serveWatches, if_pos rfl, ih]
    rfl

theorem serveWatches_ok (hsafe : records ≠ [] → ∀ w, ws.head? = some w → SumSafe records w) :
    ∃ completions left, serveWatches ws records = .ok (completions, left) ∧
      completions.map (·.watch) = ws ∧ completions.flatMap (·.records) ++ left = records ∧
      (ws ≠ [] → left = []) ∧ ∀ c ∈ completions, c.Answers := by
  have hwoken (ws : List DirWatch) : (ws.map wokenCompletion).map (·.watch) = ws ∧
      (ws.map wokenCompletion).flatMap (·.records) = [] ∧ ∀ c ∈ ws.map wokenCompletion, c.Answers := by
    refine ⟨?_, ?_, ?_⟩
    · rw [List.map_map]
      exact List.map_id ws
    · rw [flatMap_map]
      exact flatMap_eq_nil_iff.mpr fun _ _ => rfl
    · intro c hc
      obtain ⟨w, -, rfl⟩ := List.mem_map.mp hc
      exact wokenCompletion_answers w
  cases ws with
  | nil => exact ⟨[], records, rfl, rfl, rfl, fun h => absurd rfl h, by nofun⟩
  | cons w ws =>
    obtain ⟨hwatches, hrecords, hanswers⟩ := hwoken ws
    by_cases hne : records = []
    · subst hne
      refine ⟨(w :: ws).map wokenCompletion, [], serveWatches_nil _, ?_⟩
      obtain ⟨hwatches, hrecords, hanswers⟩ := hwoken (w :: ws)
      exact ⟨hwatches, by rw [hrecords]; rfl, fun _ => rfl, hanswers⟩
    · obtain ⟨c, hdeliver, hwatch, htaken, hanswer⟩ := iopDeliverRecords_ok hne (hsafe hne w rfl)
      refine ⟨c :: ws.map wokenCompletion, [], ?_, ?_, ?_, fun _ => rfl, ?_⟩
      · rw [serveWatches, if_neg hne, hdeliver, serveWatches_nil]
        rfl
      · rw [map_cons, hwatches, hwatch]
      · rw [flatMap_cons, hrecords, htaken, append_nil, append_nil]
      · exact forall_mem_cons.mpr ⟨hanswer, hanswers⟩

/-! ## The watches -/

structure WatchInv (s : DirectoryNotify) : Prop where
  once : (s.completions.map (·.watch.number) ++ s.watches.map (·.number)).Perm (List.range s.arms)
  ascending : s.watches.Pairwise (·.number < ·.number)
  answers : ∀ c ∈ s.completions, c.Answers
  completed : s.completions.Pairwise (fun c c' => c.Before c'.watch)
  parked : ∀ c ∈ s.completions, ∀ w ∈ s.watches, c.Before w

theorem WatchInv.complete (hs : WatchInv s) {p : DirWatch → Bool} {completions : List DirCompletion}
    (hwatches : completions.map (·.watch) = s.watches.filter p)
    (hanswers : ∀ c ∈ completions, c.Answers)
    (hrest : ∀ c ∈ completions, c.records ≠ [] → ∀ w ∈ s.watches, p w = false → w.file ≠ c.watch.file)
    (hs'w : s'.watches = s.watches.filter (!p ·)) (hs'c : s'.completions = s.completions ++ completions)
    (hs'a : s'.arms = s.arms) : WatchInv s' := by
  have hmem {c : DirCompletion} (hc : c ∈ completions) : c.watch ∈ s.watches := by
    have hc' := List.mem_map_of_mem (f := (·.watch)) hc
    rw [hwatches] at hc'
    exact mem_of_mem_filter hc'
  have hsorted : (completions.map (·.watch)).Pairwise (·.number < ·.number) := by
    rw [hwatches]
    exact hs.ascending.filter _
  refine ⟨?_, ?_, ?_, ?_, ?_⟩
  · have hsplit : (completions.map (·.watch.number) ++ (s.watches.filter (!p ·)).map (·.number)).Perm
        (s.watches.map (·.number)) := by
      have hnumbers : completions.map (·.watch.number) = (s.watches.filter p).map (·.number) := by
        rw [← hwatches, List.map_map]
        rfl
      rw [hnumbers, ← map_append]
      exact (filter_append_perm p s.watches).map _
    rw [hs'w, hs'c, hs'a, map_append, append_assoc]
    exact (hsplit.append_left _).trans hs.once
  · rw [hs'w]
    exact hs.ascending.filter _
  · rw [hs'c]
    exact forall_mem_append.mpr ⟨hs.answers, hanswers⟩
  · rw [hs'c]
    refine pairwise_append.mpr ⟨hs.completed, ?_, fun c hc c' hc' => hs.parked c hc _ (hmem hc')⟩
    exact (pairwise_map.mp hsorted).imp fun h _ _ => h
  · rw [hs'w, hs'c]
    intro c hc w hw
    obtain ⟨hw, hpw⟩ := mem_filter.mp hw
    rcases mem_append.mp hc with hc | hc
    · exact hs.parked c hc w hw
    · intro hne hfile
      exact absurd hfile (hrest c hc hne w hw (by simpa using hpw))

theorem WatchInv.park (hs : WatchInv s) (hw : w.number = s.arms) (hs'w : s'.watches = s.watches ++ [w])
    (hs'c : s'.completions = s.completions) (hs'a : s'.arms = s.arms + 1) : WatchInv s' := by
  have hlt {n : Nat} (hn : n ∈ s.completions.map (·.watch.number) ++ s.watches.map (·.number)) :
      n < w.number := by
    rw [hw]
    exact mem_range.mp (hs.once.mem_iff.mp hn)
  refine ⟨?_, ?_, ?_, ?_, ?_⟩
  · rw [hs'w, hs'c, hs'a, map_append, ← append_assoc, range_succ, map_singleton, hw]
    exact hs.once.append_right _
  · rw [hs'w]
    refine pairwise_append.mpr ⟨hs.ascending, pairwise_singleton _ _, fun v hv w' hw' => ?_⟩
    cases mem_singleton.mp hw'
    exact hlt (mem_append_right _ (List.mem_map_of_mem hv))
  · rw [hs'c]
    exact hs.answers
  · rw [hs'c]
    exact hs.completed
  · rw [hs'w, hs'c]
    intro c hc w' hw' hne hfile
    rcases mem_append.mp hw' with hw' | hw'
    · exact hs.parked c hc w' hw' hne hfile
    · cases mem_singleton.mp hw'
      exact hlt (mem_append_left _ (List.mem_map_of_mem hc))

/-! ## The handles -/

def DirectoryNotify.files (s : DirectoryNotify) : List Nat := s.armed.map (·.file)

structure DirInv (s : DirectoryNotify) (owed : Bool) (d : ArmedDirectory) : Prop where
  queue : d.notifyWantData = true →
    (s.handed d.file ++ d.notifyRecords).map DirRecord.content = d.reports.filterMap d.due?
  idle : s.deliveryPending = false → owed = false → d.notifyRecords ≠ [] ∨ d.notifyWake = true →
    s.watchesOf d.file = []

/-- The state, when the handles in `owed` are still to be served. -/
structure NotifyInv (owed : List Nat) (s : DirectoryNotify) : Prop extends WatchInv s where
  distinct : s.files.Nodup
  dirs : ∀ d ∈ s.armed, DirInv s (decide (d.file ∈ owed)) d
  alive : ∀ file ∈ s.files, file ∉ s.deleted
  known : ∀ c ∈ s.completions, c.watch.file ∈ s.files ∨ c.watch.file ∈ s.deleted
  watched : ∀ w ∈ s.watches, w.file ∈ s.files

theorem NotifyInv.notifies (hs : NotifyInv [] s) : Notifies s where
  queue := fun d hd => (hs.dirs d hd).queue
  once := hs.once
  answers := hs.answers
  oldest := ⟨hs.completed, hs.parked⟩
  delivered := fun hpending d hd => (hs.dirs d hd).idle hpending (by simp)

theorem NotifyInv.eq_of_file (hs : NotifyInv owed s) (hd : d ∈ s.armed) (hd' : d' ∈ s.armed)
    (h : d.file = d'.file) : d = d' := inj_on_of_nodup_map hs.distinct hd hd' h

theorem handed_append (s : DirectoryNotify) (completions : List DirCompletion) (file : Nat) :
    DirectoryNotify.handed { s with completions := s.completions ++ completions } file =
      s.handed file ++ (completions.filter (·.watch.file = file)).flatMap (·.records) := by
  unfold DirectoryNotify.handed
  rw [filter_append, flatMap_append]

structure Keeps (s s' : DirectoryNotify) : Prop where
  files : s'.files = s.files
  deleted : s'.deleted = s.deleted
  settings : ∀ d' ∈ s'.armed, ∃ d ∈ s.armed, d'.file = d.file ∧ d'.settings = d.settings ∧ d'.reports = d.reports

theorem Keeps.refl (s : DirectoryNotify) : Keeps s s where
  files := rfl
  deleted := rfl
  settings := fun d hd => ⟨d, hd, rfl, rfl, rfl⟩

theorem Keeps.trans {s1 : DirectoryNotify} (h : Keeps s s1) (h' : Keeps s1 s') : Keeps s s' where
  files := h'.files.trans h.files
  deleted := h'.deleted.trans h.deleted
  settings := by
    intro d' hd'
    obtain ⟨d1, hd1, hfile1, hsettings1, hreports1⟩ := h'.settings d' hd'
    obtain ⟨d, hd, hfile, hsettings, hreports⟩ := h.settings d1 hd1
    exact ⟨d, hd, hfile1.trans hfile, hsettings1.trans hsettings, hreports1.trans hreports⟩

structure Serves (s s' : DirectoryNotify) (file : Nat) : Prop extends Keeps s s' where
  others : ∀ d' ∈ s'.armed, d'.file ≠ file → d' ∈ s.armed
  watches : ∀ file', file' ≠ file → s'.watchesOf file' = s.watchesOf file'

theorem Serves.refl (s : DirectoryNotify) (file : Nat) : Serves s s file where
  toKeeps := .refl s
  others := fun _ hd _ => hd
  watches := fun _ _ => rfl

theorem Serves.queueSafe (h : Serves s s' file) {file' : Nat} (hne : file' ≠ file)
    (hsafe : QueueSafe s file') : QueueSafe s' file' := by
  intro d' hd' hfile hrecords w hw
  rw [h.watches file' hne] at hw
  exact hsafe d' (h.others d' hd' (hfile ▸ hne)) hfile hrecords w hw

def ArmedDirectory.left (d : ArmedDirectory) (records : List DirRecord) : ArmedDirectory :=
  { d with notifyWake := false, notifyRecords := records }

theorem serves_served (s : DirectoryNotify) (file : Nat) (completions : List DirCompletion)
    (left : List DirRecord) : Serves s (s.served file completions (·.left left)) file where
  files := by
    unfold DirectoryNotify.files DirectoryNotify.served
    rw [List.map_map]
    refine map_congr_left fun d _ => ?_
    rw [Function.comp_apply]
    split <;> rfl
  deleted := rfl
  settings := by
    intro d' hd'
    obtain ⟨d, hd, rfl⟩ := List.mem_map.mp hd'
    refine ⟨d, hd, ?_⟩
    split <;> exact ⟨rfl, rfl, rfl⟩
  others := by
    intro d' hd' hfile
    obtain ⟨d, hd, rfl⟩ := List.mem_map.mp hd'
    split at hfile
    · next h => exact absurd h hfile
    · next h =>
      rw [if_neg h]
      exact hd
  watches := by
    intro file' hne
    unfold DirectoryNotify.watchesOf DirectoryNotify.served
    rw [List.filter_filter]
    refine filter_congr fun w _ => ?_
    by_cases hw : w.file = file'
    · simp [hw, hne]
    · simp [hw]

theorem iopDeliverDirWatches_serves (h : s.iopDeliverDirWatches file = .ok s') : Serves s s' file := by
  unfold DirectoryNotify.iopDeliverDirWatches at h
  split at h
  · cases h
    exact .refl s file
  · next d _ =>
    split at h
    · cases h
      exact .refl s file
    · cases hserve : serveWatches (s.watchesOf file) d.notifyRecords with
      | error fault =>
        rw [hserve] at h
        cases h
      | ok served =>
        rw [hserve] at h
        cases h
        exact serves_served s file served.1 served.2

theorem foldlM_deliver_keeps {files : List Nat}
    (h : files.foldlM DirectoryNotify.iopDeliverDirWatches s = .ok s') : Keeps s s' := by
  induction files generalizing s with
  | nil =>
    cases h
    exact .refl _
  | cons file files ih =>
    rw [foldlM_cons] at h
    cases hstep : s.iopDeliverDirWatches file with
    | error fault =>
      rw [hstep] at h
      cases h
    | ok s1 =>
      rw [hstep] at h
      exact (iopDeliverDirWatches_serves hstep).toKeeps.trans (ih h)

theorem NotifyInv.served {owed : List Nat} {completions : List DirCompletion} {left : List DirRecord}
    (hs : NotifyInv (d.file :: owed) s) (hd : d ∈ s.armed)
    (hwatches : completions.map (·.watch) = s.watchesOf d.file)
    (hrecords : completions.flatMap (·.records) ++ left = d.notifyRecords)
    (hanswers : ∀ c ∈ completions, c.Answers) :
    NotifyInv owed (s.served d.file completions (·.left left)) := by
  have hserves := serves_served s d.file completions left
  have hfile {c : DirCompletion} (hc : c ∈ completions) : c.watch.file = d.file := by
    have hc' := List.mem_map_of_mem (f := (·.watch)) hc
    rw [hwatches] at hc'
    exact of_decide_eq_true (mem_filter.mp hc').2
  have hwatch : WatchInv (s.served d.file completions (·.left left)) := by
    refine hs.toWatchInv.complete hwatches hanswers ?_ ?_ rfl rfl
    · intro c hc _ w _ hw
      rw [hfile hc]
      exact of_decide_eq_false hw
    · exact filter_congr fun w _ => by simp
  have hhanded (file : Nat) : (s.served d.file completions (·.left left)).handed file =
      s.handed file ++ if file = d.file then completions.flatMap (·.records) else [] := by
    refine (handed_append s completions file).trans (congrArg _ ?_)
    split
    · next h => rw [filter_eq_self.mpr fun c hc => decide_eq_true (h ▸ hfile hc)]
    · next h =>
      rw [filter_eq_nil_iff.mpr fun c hc hc' => h (hfile hc ▸ (of_decide_eq_true hc').symm)]
      rfl
  refine { hwatch with distinct := ?_, dirs := ?_, alive := ?_, known := ?_, watched := ?_ }
  · rw [hserves.files]
    exact hs.distinct
  · intro d' hd'
    obtain ⟨e, he, rfl⟩ := List.mem_map.mp hd'
    have heinv := hs.dirs e he
    by_cases hefile : e.file = d.file
    · cases hs.eq_of_file he hd hefile
      rw [if_pos rfl]
      refine ⟨fun hwant => ?_, fun _ _ _ => ?_⟩
      · have hqueue := heinv.queue hwant
        rw [← hrecords, ← append_assoc] at hqueue
        rw [hhanded]
        change ((s.handed d.file ++ if d.file = d.file then _ else _) ++ left).map DirRecord.content = _
        rw [if_pos rfl]
        exact hqueue
      · unfold DirectoryNotify.watchesOf DirectoryNotify.served
        rw [List.filter_filter]
        refine filter_eq_nil_iff.mpr fun w _ h => ?_
        rw [Bool.and_eq_true, decide_eq_true_eq, decide_eq_true_eq] at h
        exact h.2 h.1
    · rw [if_neg hefile]
      refine ⟨fun hwant => ?_, fun hpending howed hqueued => ?_⟩
      · rw [hhanded, if_neg hefile, append_nil]
        exact heinv.queue hwant
      · rw [hserves.watches _ hefile]
        refine heinv.idle hpending ?_ hqueued
        exact decide_eq_false fun h => (mem_cons.mp h).elim hefile (of_decide_eq_false howed)
  · rw [hserves.files]
    exact hs.alive
  · rw [hserves.files]
    refine forall_mem_append.mpr ⟨hs.known, fun c hc => .inl ?_⟩
    rw [hfile hc]
    exact List.mem_map_of_mem hd
  · rw [hserves.files]
    exact fun w hw => hs.watched w (mem_of_mem_filter hw)

theorem NotifyInv.iopDeliverDirWatches {owed : List Nat} (hs : NotifyInv (file :: owed) s)
    (hsafe : QueueSafe s file) :
    ∃ s', s.iopDeliverDirWatches file = .ok s' ∧ NotifyInv owed s' := by
  -- A handle that has nothing to deliver counts as served.
  have hskip (hidle : ∀ d ∈ s.armed, d.file = file → d.notifyRecords = [] ∧ d.notifyWake = false) :
      NotifyInv owed s := by
    refine { hs with dirs := fun d hd => ⟨(hs.dirs d hd).queue, fun hpending howed hqueued => ?_⟩ }
    by_cases hfile : d.file = file
    · obtain ⟨hrecords, hwake⟩ := hidle d hd hfile
      rw [hrecords, hwake] at hqueued
      exact absurd hqueued (by simp)
    · refine (hs.dirs d hd).idle hpending (decide_eq_false fun h => ?_) hqueued
      exact (mem_cons.mp h).elim hfile (of_decide_eq_false howed)
  unfold DirectoryNotify.iopDeliverDirWatches
  cases hfind : s.armed.find? (·.file = file) with
  | none =>
    refine ⟨s, rfl, hskip fun d hd hfile => ?_⟩
    exact absurd (decide_eq_true hfile) (find?_eq_none.mp hfind d hd)
  | some d =>
    have hd := mem_of_find?_eq_some hfind
    have hfile : d.file = file := of_decide_eq_true (find?_some (p := fun e : ArmedDirectory => e.file = file) hfind)
    subst hfile
    dsimp only
    split
    · next hidle =>
      refine ⟨s, rfl, hskip fun e he hfile => ?_⟩
      cases hs.eq_of_file he hd hfile
      exact ⟨hidle.1, by simpa using hidle.2⟩
    · obtain ⟨completions, left, hserve, hwatches, hrecords, -, hanswers⟩ :=
        serveWatches_ok fun hne => hsafe d hd rfl hne
      rw [hserve]
      exact ⟨_, rfl, hs.served hd hwatches hrecords hanswers⟩

theorem NotifyInv.foldlM_deliver {files : List Nat} (hfiles : files.Nodup) (hs : NotifyInv files s)
    (hsafe : ∀ file ∈ files, QueueSafe s file) :
    ∃ s', files.foldlM DirectoryNotify.iopDeliverDirWatches s = .ok s' ∧ NotifyInv [] s' := by
  induction files generalizing s with
  | nil => exact ⟨s, rfl, hs⟩
  | cons file files ih =>
    obtain ⟨hnot, hfiles⟩ := nodup_cons.mp hfiles
    obtain ⟨s1, hstep, hs1⟩ := hs.iopDeliverDirWatches (hsafe file mem_cons_self)
    obtain ⟨s2, hrest, hs2⟩ := ih hfiles hs1 fun file' hfile' =>
      (iopDeliverDirWatches_serves hstep).queueSafe (fun h => hnot (h ▸ hfile'))
        (hsafe file' (mem_cons_of_mem _ hfile'))
    refine ⟨s2, ?_, hs2⟩
    rw [foldlM_cons, hstep]
    exact hrest

/-! ## The steps -/

variable {op : NotifyOp}

theorem Carries.of_settings (h : ∀ d' ∈ s'.armed, ∃ d ∈ s.armed,
      d'.file = d.file ∧ d'.settings = d.settings ∧ d'.reports = d.reports ++ op.reports) :
    Carries s op s' := fun d' hd' => .inl (h d' hd')

theorem Carries.of_keeps (hop : op.reports = []) (h : Keeps s s') : Carries s op s' := by
  apply Carries.of_settings
  rw [hop]
  intro d' hd'
  obtain ⟨d, hd, hfile, hsettings, hreports⟩ := h.settings d' hd'
  exact ⟨d, hd, hfile, hsettings, hreports.trans (append_nil _).symm⟩

theorem ntNotifyChangeDirectoryFile_cases {status : NtStatus}
    (h : s.ntNotifyChangeDirectoryFile a = .ok (status, s')) :
    s' = s ∨ Keeps s s' ∨ ∃ path, a.queryName = .ok path ∧ path.length ≤ 260 ∧ a.file ∉ s.deleted ∧
      (∀ d ∈ s.armed, d.file ≠ a.file) ∧ Keeps (s.firstArmed a path) s' := by
  have hserved {s0 : DirectoryNotify}
      (h : (do let s ← s0.iopDeliverDirWatches a.file; .ok (statusPending, s)) = .ok (status, s')) :
      Keeps s0 s' := by
    cases hstep : s0.iopDeliverDirWatches a.file with
    | error fault =>
      rw [hstep] at h
      cases h
    | ok s1 =>
      rw [hstep] at h
      cases h
      exact (iopDeliverDirWatches_serves hstep).toKeeps
  unfold DirectoryNotify.ntNotifyChangeDirectoryFile at h
  split at h
  · cases h
    exact .inl rfl
  next halive =>
  split at h
  · cases h
    exact .inl rfl
  split at h
  · cases h
    exact .inl rfl
  split at h
  · exact .inr (.inl ⟨(hserved h).files, (hserved h).deleted, (hserved h).settings⟩)
  next hany =>
  split at h
  · cases h
    exact .inl rfl
  next path hquery =>
  split at h
  · cases h
    exact .inl rfl
  next hlength =>
  refine .inr (.inr ⟨path, hquery, Nat.not_lt.mp hlength, halive, fun d hd hfile => hany ?_, ?_⟩)
  · exact List.any_eq_true.mpr ⟨d, hd, decide_eq_true hfile⟩
  · exact ⟨(hserved h).files, (hserved h).deleted, (hserved h).settings⟩

theorem NotifyInv.arms (hs : NotifyInv [] s) (hfile : a.file ∈ s.files) : NotifyInv [a.file] (s.parked a) := by
  have hpark : WatchInv (s.parked a) := by
    apply hs.toWatchInv.park (w := s.newWatch a)
    all_goals rfl
  refine { hpark with
    distinct := hs.distinct, dirs := ?_, alive := hs.alive, known := hs.known, watched := ?_ }
  · intro d hd
    refine ⟨(hs.dirs d hd).queue, fun hpending howed hqueued => ?_⟩
    have hne : d.file ≠ a.file := by simpa using howed
    have hidle := (hs.dirs d hd).idle hpending (by simp) hqueued
    unfold DirectoryNotify.watchesOf DirectoryNotify.parked at *
    rw [filter_append, hidle, nil_append]
    exact filter_eq_nil_iff.mpr fun w hw h => by
      cases mem_singleton.mp hw
      exact hne (of_decide_eq_true h).symm
  · refine forall_mem_append.mpr ⟨hs.watched, fun w hw => ?_⟩
    cases mem_singleton.mp hw
    exact hfile

theorem NotifyInv.firstArmed (hs : NotifyInv [] s) (hfile : a.file ∉ s.files) (halive : a.file ∉ s.deleted)
    (path : WStr) : NotifyInv [] (s.firstArmed a path) := by
  have hfiles : (s.firstArmed a path).files = s.files ++ [a.file] := by
    unfold DirectoryNotify.files DirectoryNotify.firstArmed
    rw [map_append]
    rfl
  have hhanded : s.handed a.file = [] := by
    unfold DirectoryNotify.handed
    rw [filter_eq_nil_iff.mpr, flatMap_nil]
    intro c hc h
    have hc' := hs.known c hc
    rw [of_decide_eq_true h] at hc'
    exact hc'.elim hfile halive
  refine { hs with
    toWatchInv := ⟨hs.once, hs.ascending, hs.answers, hs.completed, hs.parked⟩
    distinct := ?_, dirs := ?_, alive := ?_, known := ?_, watched := ?_ }
  · rw [hfiles]
    exact nodup_append.mpr ⟨hs.distinct, nodup_singleton _, fun x hx y hy h =>
      hfile (mem_singleton.mp hy ▸ h ▸ hx)⟩
  · refine forall_mem_append.mpr ⟨fun d hd => ⟨(hs.dirs d hd).queue, (hs.dirs d hd).idle⟩, fun d hd => ?_⟩
    cases mem_singleton.mp hd
    refine ⟨fun _ => ?_, fun _ _ h => ?_⟩
    · change (s.handed a.file ++ []).map DirRecord.content = []
      rw [hhanded]
      rfl
    · exact absurd h (by simp [DirectoryNotify.newDirectory])
  · rw [hfiles]
    refine forall_mem_append.mpr ⟨hs.alive, fun x hx => ?_⟩
    rw [mem_singleton.mp hx]
    exact halive
  · rw [hfiles]
    exact fun c hc => (hs.known c hc).imp (mem_append_left _) id
  · rw [hfiles]
    exact fun w hw => mem_append_left _ (hs.watched w hw)

theorem NotifyInv.arm (hs : NotifyInv [] s) (hsafe : NotifySafe s (.arm a)) :
    ∃ s', s.step (.arm a) = .ok s' ∧ NotifyInv [] s' := by
  change ∃ s', (s.ntNotifyChangeDirectoryFile a).map (·.2) = .ok s' ∧ _
  unfold DirectoryNotify.ntNotifyChangeDirectoryFile
  split
  · exact ⟨s, rfl, hs⟩
  next halive =>
  split
  · exact ⟨s, rfl, hs⟩
  next hfilter =>
  cases hrefusal : a.refusal with
  | some status => exact ⟨s, rfl, hs⟩
  | none =>
    by_cases hany : (s.armed.any (·.file = a.file)) = true
    · rw [if_pos hany]
      obtain ⟨d, hd, hdfile⟩ := List.any_eq_true.mp hany
      have hfile : a.file ∈ s.files := of_decide_eq_true hdfile ▸ List.mem_map_of_mem hd
      obtain ⟨s', hstep, hs'⟩ :=
        (hs.arms hfile).iopDeliverDirWatches (hsafe ⟨halive, hfilter, hrefusal⟩)
      exact ⟨s', by rw [hstep]; rfl, hs'⟩
    · rw [if_neg hany]
      have hnew : ∀ d ∈ s.armed, d.file ≠ a.file := by
        intro d hd h
        exact hany (List.any_eq_true.mpr ⟨d, hd, decide_eq_true h⟩)
      have hfile : a.file ∉ s.files := by
        intro h
        obtain ⟨d, hd, h⟩ := List.mem_map.mp h
        exact hnew d hd h
      cases hquery : a.queryName with
      | error status => exact ⟨s, rfl, hs⟩
      | ok path =>
        dsimp only
        split
        · exact ⟨s, rfl, hs⟩
        · have harmed : a.file ∈ (s.firstArmed a path).files :=
            List.mem_map_of_mem (f := (·.file)) (mem_append_right s.armed mem_cons_self)
          have hempty : QueueSafe ((s.firstArmed a path).parked a) a.file := by
            intro d hd hdfile hrecords
            rcases mem_append.mp hd with hd | hd
            · exact absurd hdfile (hnew d hd)
            · cases mem_singleton.mp hd
              exact absurd rfl hrecords
          obtain ⟨s', hstep, hs'⟩ :=
            ((hs.firstArmed hfile halive path).arms harmed).iopDeliverDirWatches hempty
          exact ⟨s', by rw [hstep]; rfl, hs'⟩

theorem ArmedDirectory.report_cases (d : ArmedDirectory) (r : ChangeReport) :
    (d.report r).file = d.file ∧ (d.report r).settings = d.settings ∧
      (d.report r).reports = d.reports ++ [r] ∧
      (d.notifyWantData = true → (d.report r).notifyRecords = d.notifyRecords ++ (d.record? r).toList) ∧
      (d.record? r = none → (d.report r).notifyRecords = d.notifyRecords ∧
        (d.report r).notifyWake = d.notifyWake) := by
  unfold report
  cases d.record? r with
  | none => exact ⟨rfl, rfl, rfl, fun _ => (append_nil _).symm, fun _ => ⟨rfl, rfl⟩⟩
  | some record =>
    unfold enqueue
    by_cases hwant : d.notifyWantData = true
    · simp only [if_pos hwant]
      exact ⟨trivial, rfl, trivial, fun _ => rfl, by nofun⟩
    · simp only [if_neg hwant]
      exact ⟨trivial, rfl, trivial, fun h => absurd h hwant, by nofun⟩

theorem ArmedDirectory.due?_congr (h : d'.settings = d.settings) : d'.due? = d.due? := by
  have hfields : d'.device = d.device ∧ d'.notifyPath = d.notifyPath ∧ d'.notifyFilter = d.notifyFilter ∧
      d'.notifySubtree = d.notifySubtree ∧ d'.notifyWantData = d.notifyWantData := by
    simpa only [settings, Prod.mk.injEq] using h
  obtain ⟨hdevice, hpath, hfilter, hsubtree, -⟩ := hfields
  funext r
  unfold due? below
  rw [hdevice, hpath, hfilter, hsubtree]

section
variable (hs : NotifyInv [] s)
include hs

theorem NotifyInv.report (r : ChangeReport) :
    NotifyInv [] (s.ioReportDirectoryChange r) := by
  have hfiles : (s.ioReportDirectoryChange r).files = s.files := by
    unfold DirectoryNotify.files DirectoryNotify.ioReportDirectoryChange
    rw [List.map_map]
    exact map_congr_left fun d _ => (d.report_cases r).1
  refine { hs with
    toWatchInv := ⟨hs.once, hs.ascending, hs.answers, hs.completed, hs.parked⟩
    distinct := hfiles ▸ hs.distinct, dirs := ?_, alive := hfiles ▸ hs.alive, known := hfiles ▸ hs.known
    watched := hfiles ▸ hs.watched }
  intro d' hd'
  obtain ⟨d, hd, rfl⟩ := List.mem_map.mp hd'
  obtain ⟨hfile, hsettings, hreports, hqueue, hsame⟩ := d.report_cases r
  refine ⟨fun hwant => ?_, fun hpending howed hqueued => ?_⟩
  · have hwant : d.notifyWantData = true := by
      rw [← hwant]
      exact (congrArg (·.2.2.2.2) hsettings).symm
    rw [hfile, hreports, ArmedDirectory.due?_congr hsettings, hqueue hwant, ← append_assoc,
      map_append, filterMap_append]
    refine congrArg₂ _ ((hs.dirs d hd).queue hwant) ?_
    rw [filterMap_cons, filterMap_nil, ← d.record?_content r]
    cases d.record? r <;> rfl
  · obtain ⟨hpending, hnone⟩ := Bool.or_eq_false_iff.mp hpending
    have hrecord : d.record? r = none := by
      have h := List.any_eq_false.mp hnone d hd
      simpa using h
    obtain ⟨hrecords, hwake⟩ := hsame hrecord
    rw [hrecords, hwake] at hqueued
    rw [hfile]
    exact (hs.dirs d hd).idle hpending (by simp) hqueued

theorem NotifyInv.deliver (hsafe : NotifySafe s .deliver) :
    ∃ s', s.step .deliver = .ok s' ∧ NotifyInv [] s' := by
  change ∃ s', s.ioDeliverDirectoryChanges = .ok s' ∧ _
  unfold DirectoryNotify.ioDeliverDirectoryChanges
  by_cases hpending : s.deliveryPending = true
  · rw [if_pos hpending]
    have howed : NotifyInv s.files { s with deliveryPending := false } := by
      refine { hs with
        toWatchInv := ⟨hs.once, hs.ascending, hs.answers, hs.completed, hs.parked⟩
        distinct := hs.distinct, dirs := fun d hd => ⟨(hs.dirs d hd).queue, fun _ howed _ => ?_⟩
        alive := hs.alive, known := hs.known, watched := hs.watched }
      exact absurd (List.mem_map_of_mem hd) (of_decide_eq_false howed)
    apply NotifyInv.foldlM_deliver hs.distinct howed
    intro file hfile
    obtain ⟨d, hd, rfl⟩ := List.mem_map.mp hfile
    exact hsafe hpending d hd
  · rw [if_neg hpending]
    exact ⟨s, rfl, hs⟩

theorem NotifyInv.cancel (file : Nat) (issuer targetIosb : Option Nat) :
    NotifyInv [] (s.iopCancelDirectoryWatches file issuer targetIosb) := by
  have hwatch : WatchInv (s.iopCancelDirectoryWatches file issuer targetIosb) := by
    refine hs.toWatchInv.complete (p := DirectoryNotify.cancels file issuer targetIosb) ?_ ?_ ?_ rfl rfl rfl
    · rw [List.map_map]
      exact List.map_id _
    · intro c hc
      obtain ⟨w, -, rfl⟩ := List.mem_map.mp hc
      exact .cancelled rfl rfl rfl rfl
    · intro c hc hne
      obtain ⟨w, -, rfl⟩ := List.mem_map.mp hc
      exact absurd rfl hne
  refine { hwatch with distinct := hs.distinct, dirs := ?_, alive := hs.alive, known := ?_, watched := ?_ }
  · intro d hd
    refine ⟨fun hwant => ?_, fun hpending howed hqueued => ?_⟩
    · have hhanded : (s.iopCancelDirectoryWatches file issuer targetIosb).handed d.file = s.handed d.file := by
        refine (handed_append s _ d.file).trans ?_
        rw [flatMap_eq_nil_iff.mpr, append_nil]
        intro c hc
        obtain ⟨w, -, rfl⟩ := List.mem_map.mp (mem_of_mem_filter hc)
        rfl
      rw [hhanded]
      exact (hs.dirs d hd).queue hwant
    · have hidle := (hs.dirs d hd).idle hpending howed hqueued
      refine filter_eq_nil_iff.mpr fun w hw => ?_
      exact filter_eq_nil_iff.mp hidle w (mem_of_mem_filter hw)
  · refine forall_mem_append.mpr ⟨hs.known, fun c hc => .inl ?_⟩
    obtain ⟨w, hw, rfl⟩ := List.mem_map.mp hc
    exact hs.watched w (mem_of_mem_filter hw)
  · exact fun w hw => hs.watched w (mem_of_mem_filter hw)

theorem NotifyInv.delete (file : Nat) :
    NotifyInv [] (s.iopDetachDirectoryNotify file) := by
  unfold DirectoryNotify.iopDetachDirectoryNotify
  split
  · exact hs
  next hnone =>
  have hnone : s.watchesOf file = [] := by simpa using hnone
  refine { hs with
    toWatchInv := ⟨hs.once, hs.ascending, hs.answers, hs.completed, hs.parked⟩
    distinct := ?_, dirs := ?_, alive := ?_, known := ?_, watched := ?_ }
  · exact (hs.distinct.sublist (filter_sublist.map _))
  · intro d hd
    have hd := mem_of_mem_filter hd
    exact ⟨(hs.dirs d hd).queue, (hs.dirs d hd).idle⟩
  · intro file' hfile' hdeleted
    obtain ⟨d, hd, rfl⟩ := List.mem_map.mp hfile'
    obtain ⟨hd, hne⟩ := mem_filter.mp hd
    rcases mem_cons.mp hdeleted with h | h
    · exact of_decide_eq_true hne h
    · exact hs.alive _ (List.mem_map_of_mem hd) h
  · intro c hc
    by_cases hfile : c.watch.file = file
    · exact .inr (hfile ▸ mem_cons_self)
    · refine (hs.known c hc).imp (fun h => ?_) (mem_cons_of_mem _)
      obtain ⟨d, hd, h⟩ := List.mem_map.mp h
      exact List.mem_map.mpr ⟨d, mem_filter.mpr ⟨hd, decide_eq_true (h ▸ hfile)⟩, h⟩
  · intro w hw
    obtain ⟨d, hd, h⟩ := List.mem_map.mp (hs.watched w hw)
    refine List.mem_map.mpr ⟨d, mem_filter.mpr ⟨hd, decide_eq_true fun hfile => ?_⟩, h⟩
    exact filter_eq_nil_iff.mp hnone w hw (decide_eq_true (h.symm.trans hfile))

theorem NotifyInv.step {op : NotifyOp} (hsafe : NotifySafe s op) :
    ∃ s', s.step op = .ok s' ∧ NotifyInv [] s' := by
  cases op with
  | arm a => exact hs.arm hsafe
  | report r => exact ⟨_, rfl, hs.report r⟩
  | deliver => exact hs.deliver hsafe
  | cancel file issuer targetIosb => exact ⟨_, rfl, hs.cancel file issuer targetIosb⟩
  | delete file => exact ⟨_, rfl, hs.delete file⟩

end

theorem step_carries (h : s.step op = .ok s') : Carries s op s' := by
  cases op with
  | arm a =>
    change (s.ntNotifyChangeDirectoryFile a).map (·.2) = .ok s' at h
    cases harm : s.ntNotifyChangeDirectoryFile a with
    | error fault =>
      rw [harm] at h
      cases h
    | ok answer =>
      rw [harm] at h
      cases h
      obtain ⟨status, s'⟩ := answer
      rcases ntNotifyChangeDirectoryFile_cases harm with hsame | hkeeps | ⟨path, hquery, -, -, hnew, hkeeps⟩
      · cases hsame
        exact .of_keeps rfl (.refl s)
      · exact .of_keeps rfl hkeeps
      · intro d' hd'
        obtain ⟨d, hd, hfile, hsettings, hreports⟩ := hkeeps.settings d' hd'
        rcases mem_append.mp hd with hd | hd
        · exact .inl ⟨d, hd, hfile, hsettings, hreports.trans (append_nil _).symm⟩
        · cases mem_singleton.mp hd
          exact .inr ⟨a, path, rfl, hquery, hnew, hfile, hsettings, hreports⟩
  | report r =>
    cases h
    refine .of_settings fun d' hd' => ?_
    obtain ⟨d, hd, rfl⟩ := List.mem_map.mp hd'
    obtain ⟨hfile, hsettings, hreports, -, -⟩ := d.report_cases r
    exact ⟨d, hd, hfile, hsettings, hreports⟩
  | deliver =>
    change s.ioDeliverDirectoryChanges = .ok s' at h
    unfold DirectoryNotify.ioDeliverDirectoryChanges at h
    split at h
    · have hkeeps := foldlM_deliver_keeps h
      exact .of_keeps rfl ⟨hkeeps.files, hkeeps.deleted, hkeeps.settings⟩
    · cases h
      exact .of_keeps rfl (.refl s)
  | cancel file issuer targetIosb =>
    cases h
    exact .of_keeps rfl ⟨rfl, rfl, fun d hd => ⟨d, hd, rfl, rfl, rfl⟩⟩
  | delete file =>
    cases h
    refine .of_settings fun d hd => ?_
    unfold DirectoryNotify.iopDetachDirectoryNotify at hd
    split at hd
    · exact ⟨d, hd, rfl, rfl, (append_nil _).symm⟩
    · exact ⟨d, mem_of_mem_filter hd, rfl, rfl, (append_nil _).symm⟩

theorem notifyInv_start : NotifyInv [] {} where
  once := .refl _
  ascending := .nil
  answers := by nofun
  completed := .nil
  parked := by nofun
  distinct := .nil
  dirs := by nofun
  alive := by nofun
  known := by nofun
  watched := by nofun

theorem NotifyReaches.inv (hs : NotifyReaches NotifySafe s) : NotifyInv [] s := by
  induction hs with
  | start => exact notifyInv_start
  | step op _ hop h ih =>
    obtain ⟨s', hstep, hs'⟩ := ih.step hop
    rw [h] at hstep
    cases hstep
    exact hs'

/-- Nothing is lost on the way to the callers: in every state of a run with safe deliveries each queue is
what it is to be, and the next step is made without a fault. -/
theorem directoryNotify_delivers (hs : NotifyReaches NotifySafe s) :
    Notifies s ∧ ∀ op, NotifySafe s op → ∃ s', s.step op = .ok s' ∧ Carries s op s' := by
  refine ⟨hs.inv.notifies, fun op hop => ?_⟩
  obtain ⟨s', hstep, -⟩ := hs.inv.step hop
  exact ⟨s', hstep, step_carries hstep⟩

def rootArm : DirectoryNotify.ArmArgs where
  file := 0
  device := 0
  issuer := 0
  userIosb := 0
  hasBuffer := true
  bufferLength := 4096
  hasEvent := false
  filter := 1
  watchTree := false
  refusal := none
  queryName := .ok [backslash]

/-- A file `ab` of the root is created or deleted. -/
def rootReport : ChangeReport := ⟨0, [backslash], [0x61, 0x62], 1, 1, by decide⟩

def rootRecord : DirRecord := ⟨1, [0x61, 0x62], by decide⟩

/-- A report after the first arm, handed to the watch that was parked. -/
theorem directoryNotify_delivers_sample :
    ∃ s, Notifies s ∧ s.watches = [] ∧ s.completions.map (·.records) = [[rootRecord]] ∧
      s.completions.map (·.iosb) = [some (statusSuccess, 16)] ∧ s.armed.map (·.reports) = [[rootReport]] := by
  have hstart : NotifyReaches NotifySafe {} := .start
  have harm := hstart.step (.arm rootArm)
    (fun _ d hd => absurd hd (not_mem_nil)) rfl
  have hreport := harm.step (.report rootReport) trivial rfl
  have hdeliver := hreport.step .deliver (fun _ d hd => ?_) rfl
  · exact ⟨_, (directoryNotify_delivers hdeliver).1, rfl, rfl, rfl, rfl⟩
  · intro d' hd' _ _ w _
    obtain rfl := mem_singleton.mp hd'
    exact .inl (by decide)

/-! ## A sum that wraps -/

theorem iopDeliverDirWatches_error (hd : s.armed = [d]) (hw : s.watchesOf d.file = w :: ws)
    (hrecords : d.notifyRecords ≠ []) (htotal : chainLength d.notifyRecords % 2 ^ 32 = 0) :
    s.iopDeliverDirWatches d.file = .error .total := by
  have hzero : notifyTotal d.notifyRecords = 0 :=
    UInt32.toNat_inj.mp ((toNat_notifyTotal d.notifyRecords).trans htotal)
  have hfind : s.armed.find? (·.file = d.file) = some d := by
    rw [hd, find?_cons_of_pos (by simp)]
  unfold DirectoryNotify.iopDeliverDirWatches
  rw [hfind]
  dsimp only
  rw [if_neg fun h => hrecords h.1, hw, serveWatches, if_neg hrecords]
  unfold iopDeliverRecords
  rw [hzero, if_pos rfl]
  rfl

theorem exists_reported (n : Nat) : ∃ s, NotifyReaches (fun _ _ => True) s ∧ s.deleted = [] ∧ s.watches = [] ∧
    ∃ d, s.armed = [d] ∧ d.file = 0 ∧ d.settings = (DirectoryNotify.newDirectory rootArm [backslash]).settings ∧
      d.notifyRecords = List.replicate n rootRecord := by
  induction n with
  | zero =>
    have hstart : NotifyReaches (fun _ _ => True) {} := .start
    have harm := hstart.step (.arm rootArm) trivial rfl
    exact ⟨_, harm.step (.cancel 0 none none) trivial rfl, rfl, rfl, _, rfl, rfl, rfl, rfl⟩
  | succ n ih =>
    obtain ⟨s, hs, hdeleted, hwatches, d, hd, hfile, hsettings, hrecords⟩ := ih
    obtain ⟨hfile', hsettings', -, hqueue, -⟩ := d.report_cases rootReport
    have hrecord : d.record? rootReport = some rootRecord := by
      have hcontent := d.record?_content rootReport
      rw [ArmedDirectory.due?_congr hsettings] at hcontent
      obtain ⟨⟨action, name, _⟩, hrecord, heq⟩ := Option.map_eq_some_iff.mp (hcontent.trans (by rfl))
      cases heq
      exact hrecord
    have hwant : d.notifyWantData = true := congrArg (·.2.2.2.2) hsettings
    refine ⟨_, hs.step (.report rootReport) trivial rfl, hdeleted, hwatches, d.report rootReport, ?_,
      hfile'.trans hfile, hsettings'.trans hsettings, ?_⟩
    · change s.armed.map _ = _
      rw [hd]
      rfl
    · rw [hqueue hwant, hrecord, hrecords]
      exact replicate_succ'.symm

/-- After 2 ^ 28 reports of 16 bytes each the next arm meets `ASSERT(total != 0)`. -/
theorem directoryNotify_wraps :
    ¬∀ s, NotifyReaches (fun _ _ => True) s →
      Notifies s ∧ ∀ op, ∃ s', s.step op = .ok s' ∧ Carries s op s' := by
  intro hall
  -- A literal would be unfolded.
  obtain ⟨n, hn⟩ : ∃ n, n = 2 ^ 28 := ⟨_, rfl⟩
  obtain ⟨s, hs, hdeleted, hwatches, d, hd, hfile, -, hrecords⟩ := exists_reported n
  obtain ⟨-, hsteps⟩ := hall s hs
  obtain ⟨s', hstep, -⟩ := hsteps (.arm rootArm)
  have herror : (s.parked rootArm).iopDeliverDirWatches d.file = .error .total := by
    refine iopDeliverDirWatches_error hd (?_ : _ = [s.newWatch rootArm]) ?_ ?_
    · unfold DirectoryNotify.watchesOf DirectoryNotify.parked
      rw [hwatches, hfile]
      rfl
    · rw [hrecords]
      intro hnil
      rw [replicate_eq_nil_iff] at hnil
      omega
    · have hsize : rootRecord.size = 16 := rfl
      rw [hrecords, chainLength, map_replicate, sum_replicate, hsize, smul_eq_mul]
      omega
  change (s.ntNotifyChangeDirectoryFile rootArm).map (·.2) = .ok s' at hstep
  unfold DirectoryNotify.ntNotifyChangeDirectoryFile at hstep
  have hany : (s.armed.any (·.file = rootArm.file)) = true := by
    rw [hd, any_cons, hfile]
    rfl
  rw [hfile] at herror
  rw [hdeleted, if_neg (by decide), if_neg (by decide)] at hstep
  change Except.map _ (if s.armed.any _ then _ else _) = _ at hstep
  rw [if_pos hany] at hstep
  change Except.map _ ((s.parked rootArm).iopDeliverDirWatches 0 >>= _) = _ at hstep
  rw [herror] at hstep
  cases hstep

end Proskrnl.Io
