import Proskrnl.Fat.Names
import Proskrnl.Io.DirectoryNotify
import Proskrnl.Library.Forest
import Proskrnl.Library.NamedTrees

/-!
# Directory watches on a volume

The change reports of `fs/fat32/file.c` for the control blocks of one volume, which form a tree of
names: `FatBuildFcbPath`, `FatReportChange` and the mutations that report, with `FatVfsRenameLocked`
among them. What the device answers is an argument. A new volume has its root alone. A record always
finds pool here; without it `IoReportDirectoryChange` wakes the handle the record is due to.

`Follows` says that a change is heard by the handles that have its directory open, or with a subtree
one above it.
-/

namespace Proskrnl.Fat
open List Option

open Io (ArmedDirectory ChangeReport DirRecord DirectoryNotify NotifyFault)
open NamedTrees (Descends Distinct Rooted Proper spelled)

/-- A component, as `FatResolveParent` and `FatWriteEntrySlots` let through. -/
structure FileName where
  units : WStr
  proper : units ≠ [] ∧ separator ∉ units
  bounded : units.length ≤ 255
  deriving DecidableEq

/-- What a `FAT_FCB` that is not the root has of its entry, with the rendered name of the short entry.
`dirEntryIndex` is the slot of the short entry in the directory. -/
structure NamedFcb where
  parent : Nat
  longName : FileName
  shortName : WStr
  dirEntryIndex : Nat
  isDirectory : Bool
  deriving DecidableEq

/-- The control blocks by number, 0 being the root, which has no entry; `fsContext` by file object. -/
structure WatchedVolume where
  fcbs : List (Option NamedFcb) := [none]
  fsContext : List Nat := []
  notify : DirectoryNotify := {}
  deriving DecidableEq

/-- The arguments of `FatReportChange`. -/
structure FatChange where
  parent : Nat
  name : FileName
  filterBit : UInt32
  action : UInt32
  deriving DecidableEq

def fileNotifyChangeFileName : UInt32 := 0x00000001
def fileNotifyChangeDirName : UInt32 := 0x00000002
def fileActionAdded : UInt32 := 0x00000001
def fileActionRemoved : UInt32 := 0x00000002
def fileActionRenamedOldName : UInt32 := 0x00000004
def fileActionRenamedNewName : UInt32 := 0x00000005

def NamedFcb.fatNameFilterBit (f : NamedFcb) : UInt32 :=
  if f.isDirectory then fileNotifyChangeDirName else fileNotifyChangeFileName

/-- The path of the names from the root; the root is `\`. -/
def pathText (names : List WStr) : WStr := if names = [] then [separator] else spelled separator names

namespace WatchedVolume

def fcb (v : WatchedVolume) (i : Nat) : Option NamedFcb := v.fcbs.getD i none

def parent (v : WatchedVolume) (i : Nat) : Option Nat := (v.fcb i).map (·.parent)

def isDirectory (v : WatchedVolume) (i : Nat) : Bool :=
  match v.fcb i with
  | none => i = 0
  | some f => f.isDirectory

/-- The first loop of `FatBuildFcbPath`. -/
def fcbChain (v : WatchedVolume) : Nat → Nat → Option (List WStr)
  | 0, i => if (v.fcb i).isSome then none else some []
  | depth + 1, i =>
    match v.fcb i with
    | none => some []
    | some f => (fcbChain v depth f.parent).map (· ++ [f.longName.units])

def fatBuildFcbPath (v : WatchedVolume) (target : Nat) : Except NtStatus WStr :=
  match v.fcbChain 64 target with
  | none => .error statusObjectPathInvalid
  | some names => if (pathText names).length ≤ 260 then .ok (pathText names) else .error statusBufferOverflow

/-- The report that `FatReportChange` makes of a change; the volume is device 0. -/
def report? (v : WatchedVolume) (c : FatChange) : Option ChangeReport :=
  match v.fatBuildFcbPath c.parent with
  | .error _ => none
  | .ok path =>
    if h : path.length ≤ 260 then
      some ⟨0, path, c.name.units, c.filterBit, c.action,
        h.trans (by decide), c.name.bounded.trans (by decide)⟩
    else none

def fatReportChange (v : WatchedVolume) (c : FatChange) : WatchedVolume :=
  match v.report? c with
  | none => v
  | some r => { v with notify := v.notify.ioReportDirectoryChange r }

/-! ## Mutations -/

/-- The blocks of a directory whose entries have a name. -/
def named (v : WatchedVolume) (dir : Nat) (component : WStr) : List Nat :=
  (List.range v.fcbs.length).filter fun c =>
    (v.fcb c).any fun f => f.parent = dir &&
      (fatNamesEqualInsensitive component f.longName.units || fatNamesEqualInsensitive component f.shortName)

def slotOf (v : WatchedVolume) (i : Nat) : Nat := ((v.fcb i).map (·.dirEntryIndex)).getD 0

/-- `FatWalkNext` goes by slot, so that the first entry with the name is the one with the lowest. -/
def fatLookup (v : WatchedVolume) (dir : Nat) (component : WStr) : Option Nat :=
  (v.named dir component).argmin v.slotOf

/-- The file objects that have a block open. -/
def openers (v : WatchedVolume) (i : Nat) : List Nat :=
  (List.range v.fsContext.length).filter fun k => v.fsContext[k]? = some i && k ∉ v.notify.deleted

def children (v : WatchedVolume) (i : Nat) : List Nat :=
  (List.range v.fcbs.length).filter fun c => v.parent c = some i

def added (v : WatchedVolume) (f : NamedFcb) : WatchedVolume := { v with fcbs := v.fcbs ++ [some f] }

def without (v : WatchedVolume) (i : Nat) : WatchedVolume := { v with fcbs := v.fcbs.set i none }

/-- `FatVfsRenameLocked` up to `FatRenameEntry`: the volume in which the entry is renamed, if it comes to
that. `replaceable` is whether the flags, the attributes and the sections of an existing target let it go. -/
def renameTarget (v : WatchedVolume) (i newParent : Nat) (leaf : FileName) (replaceable : Bool) :
    Option WatchedVolume :=
  match v.fcb i with
  | none => none
  | some f =>
    if !v.isDirectory newParent then none
    -- The ancestors of the new parent are no more than the blocks.
    else if Forest.search v.parent i (v.fcbs.length + 1) (some newParent) ≠ some false then none
    else
      match v.fatLookup newParent leaf.units with
      | none => some v
      | some existing =>
        if existing = i then if leaf = f.longName then none else some v
        else if v.isDirectory existing || !replaceable || v.openers existing ≠ [] then none
        else some (v.without existing)

/-- The block after `FatRenameEntry`. -/
def renamed (v : WatchedVolume) (i : Nat) (f : NamedFcb) (newParent : Nat) (leaf : FileName)
    (shortName : WStr) (dirEntryIndex : Nat) : WatchedVolume :=
  { v with fcbs := v.fcbs.set i (some { f with parent := newParent, longName := leaf, shortName, dirEntryIndex }) }

/-- The reports of `FatVfsRenameLocked`. -/
def renameChanges (f : NamedFcb) (newParent : Nat) (leaf : FileName) : List FatChange :=
  let bit := f.fatNameFilterBit
  if f.parent = newParent then
    [⟨f.parent, f.longName, bit, fileActionRenamedOldName⟩, ⟨newParent, leaf, bit, fileActionRenamedNewName⟩]
  else
    [⟨f.parent, f.longName, bit, fileActionRemoved⟩, ⟨newParent, leaf, bit, fileActionAdded⟩]

/-- `FatVfsCreateLocked` on a leaf that may be missing. -/
def fatVfsCreate (v : WatchedVolume) (f : NamedFcb) : WatchedVolume × List FatChange :=
  if !v.isDirectory f.parent || (v.fatLookup f.parent f.longName.units).isSome then (v, [])
  else (v.added f, [⟨f.parent, f.longName, f.fatNameFilterBit, fileActionAdded⟩])

def modified (v : WatchedVolume) (i : Nat) (filterBit action : UInt32) : WatchedVolume × List FatChange :=
  match v.fcb i with
  | none => (v, [])
  | some f => (v, [⟨f.parent, f.longName, filterBit, action⟩])

/-- The deletion of `FatVfsCleanupLocked` and `FatVfsSectionsReleasedLocked`. -/
def removed (v : WatchedVolume) (i : Nat) : WatchedVolume × List FatChange :=
  match v.fcb i with
  | none => (v, [])
  | some f =>
    if v.openers i ≠ [] ∨ v.children i ≠ [] then (v, [])
    else (v.without i, [⟨f.parent, f.longName, f.fatNameFilterBit, fileActionRemoved⟩])

/-- `FatVfsRenameLocked`; `written` is whether `FatRenameEntry` succeeds. -/
def fatVfsRename (v : WatchedVolume) (i newParent : Nat) (leaf : FileName) (shortName : WStr)
    (dirEntryIndex : Nat) (replaceable written : Bool) : WatchedVolume × List FatChange :=
  match v.fcb i, v.renameTarget i newParent leaf replaceable with
  | some f, some target =>
    if written then (target.renamed i f newParent leaf shortName dirEntryIndex, renameChanges f newParent leaf)
    else (target, [])
  | _, _ => (v, [])

end WatchedVolume

inductive VolumeOp
  /-- The short name and the slot are those that `FatWriteEntrySlots` gives the entry. -/
  | create (f : NamedFcb)
  | modify (i : Nat) (filterBit action : UInt32)
  | remove (i : Nat)
  | rename (i newParent : Nat) (leaf : FileName) (shortName : WStr) (dirEntryIndex : Nat) (replaceable written : Bool)
  | openFile (i : Nat)
  | arm (a : DirectoryNotify.ArmArgs)
  | deliver
  | cancel (file : Nat) (issuer targetIosb : Option Nat)
  /-- The last handle is closed, and the file object deleted. -/
  | close (file : Nat)
  deriving DecidableEq

namespace WatchedVolume

/-- What an operation does to the tree, and the changes that it reports then. -/
def changes (v : WatchedVolume) : VolumeOp → WatchedVolume × List FatChange
  | .create f => v.fatVfsCreate f
  | .modify i filterBit action => v.modified i filterBit action
  | .remove i => v.removed i
  | .rename i newParent leaf shortName dirEntryIndex replaceable written =>
    v.fatVfsRename i newParent leaf shortName dirEntryIndex replaceable written
  | _ => (v, [])

def notified (v : WatchedVolume) (result : Except NotifyFault DirectoryNotify) :
    Except NotifyFault WatchedVolume := result.map fun notify => { v with notify }

def step (v : WatchedVolume) : VolumeOp → Except NotifyFault WatchedVolume
  | .openFile i =>
    if i = 0 ∨ (v.fcb i).isSome then .ok { v with fsContext := v.fsContext ++ [i] } else .ok v
  | .arm a =>
    match v.fsContext[a.file]? with
    | none => .ok v
    | some i =>
      if !v.isDirectory i then .ok v
      else v.notified (v.notify.step (.arm { a with device := 0, queryName := v.fatBuildFcbPath i }))
  | .deliver => v.notified (v.notify.step .deliver)
  | .cancel file issuer targetIosb => v.notified (v.notify.step (.cancel file issuer targetIosb))
  | .close file =>
    v.notified ((v.notify.iopCancelDirectoryWatches file none none).step (.delete file))
  | op => .ok ((v.changes op).2.foldl fatReportChange (v.changes op).1)

end WatchedVolume

inductive VolumeReaches (allowed : WatchedVolume → VolumeOp → Prop) : WatchedVolume → Prop
  | start : VolumeReaches allowed {}
  | step {v v' : WatchedVolume} (op : VolumeOp) (hv : VolumeReaches allowed v) (hop : allowed v op)
    (h : v.step op = .ok v') : VolumeReaches allowed v'

namespace WatchedVolume

/-- What is above a block: its parent, and its name there. -/
def up (v : WatchedVolume) (i : Nat) : Option (Nat × WStr) :=
  (v.fcb i).map fun f => (f.parent, f.longName.units)

end WatchedVolume

def relativeName (names : List WStr) (name : WStr) : WStr := names.flatMap (· ++ [separator]) ++ name

/-- What a change is to a handle that has a directory open: it is told of what happens in there, and with a
subtree of what happens below, and of nothing else. -/
inductive Due (v : WatchedVolume) (w : Nat) (d : ArmedDirectory) (c : FatChange) :
    Option (UInt32 × WStr) → Prop
  | told {names : List WStr} (hclass : d.notifyFilter &&& c.filterBit ≠ 0)
    (hbelow : Descends v.up w names c.parent) (hscope : names = [] ∨ d.notifySubtree = true) :
    Due v w d c (some (c.action, relativeName names c.name.units))
  | other (h : d.notifyFilter &&& c.filterBit = 0 ∨
    ∀ names, Descends v.up w names c.parent → names ≠ [] ∧ d.notifySubtree = false) : Due v w d c none

/-- A handle takes what is due into its queue, or without a buffer is woken. -/
structure Hears (d d' : ArmedDirectory) (due : Option (UInt32 × WStr)) : Prop where
  queue : d.notifyWantData = true →
    d'.notifyRecords.map DirRecord.content = d.notifyRecords.map DirRecord.content ++ due.toList
  wake : d.notifyWantData = false →
    d'.notifyRecords = d.notifyRecords ∧ d'.notifyWake = (d.notifyWake || due.isSome)

def heard (d : ArmedDirectory) : Option ChangeReport → ArmedDirectory
  | none => d
  | some r => d.report r

def Follows (v : WatchedVolume) (c : FatChange) : Prop :=
  ∀ d ∈ v.notify.armed, ∀ w, v.fsContext[d.file]? = some w →
    ∃ due, Due v w d c due ∧ Hears d (heard d (v.report? c)) due

/-- No entry is moved that has an armed handle at or below it, or to a name that is in use there; and a
change in the scope of an armed handle is in a directory with a path of 64 names and 260 units at most. -/
structure WatchSafe (v : WatchedVolume) (op : VolumeOp) : Prop where
  stays (i newParent : Nat) (leaf : FileName) (shortName : WStr) (dirEntryIndex : Nat) (replaceable written : Bool)
    (target : WatchedVolume) (hop : op = .rename i newParent leaf shortName dirEntryIndex replaceable written)
    (htarget : v.renameTarget i newParent leaf replaceable = some target) :
    (∀ d ∈ v.notify.armed, ∀ w, v.fsContext[d.file]? = some w → ∀ names, ¬Descends v.up i names w) ∧
      ∀ j, j ≠ i → target.up j ≠ some (newParent, leaf.units)
  short : ∀ c ∈ (v.changes op).2, ∀ d ∈ v.notify.armed, ∀ w, v.fsContext[d.file]? = some w → ∀ due,
    Due (v.changes op).1 w d c (some due) → ∃ path, (v.changes op).1.fatBuildFcbPath c.parent = .ok path

/-! ## Paths -/

variable {v v' : WatchedVolume} {i j n w : Nat} {names names' : List WStr} {f f' : NamedFcb} {c : FatChange}
  {d : ArmedDirectory} {op : VolumeOp}

namespace WatchedVolume

@[simp] theorem up_eq_none : v.up i = none ↔ v.fcb i = none := map_eq_none_iff

theorem up_of_fcb (h : v.fcb i = some f) : v.up i = some (f.parent, f.longName.units) := by
  rw [up, h]
  rfl

theorem proper_of_descends (h : Descends v.up w names i) : Proper separator names := by
  induction h with
  | refl => exact fun _ h => nomatch h
  | step _ hc ih =>
    obtain ⟨f, -, heq⟩ := map_eq_some_iff.mp hc
    cases heq
    exact forall_mem_append.mpr ⟨ih, forall_mem_singleton.mpr f.longName.proper⟩

section
variable (htop : v.up 0 = none) (h : Descends v.up 0 names i)
include htop h

theorem fcbChain_eq (depth : Nat) :
    v.fcbChain depth i = if names.length ≤ depth then some names else none := by
  induction h generalizing depth with
  | refl =>
    rw [up_eq_none] at htop
    cases depth with
    | zero => rw [fcbChain, htop]; rfl
    | succ depth => rw [fcbChain, htop]; rfl
  | @step p c names n _ hc ih =>
    obtain ⟨f, hf, heq⟩ := map_eq_some_iff.mp hc
    cases heq
    rw [length_append, length_singleton]
    cases depth with
    | zero =>
      rw [fcbChain, hf, if_neg (Nat.not_succ_le_zero _)]
      rfl
    | succ depth =>
      rw [fcbChain, hf]
      simp only [ih depth, Nat.add_le_add_iff_right]
      split <;> rfl

theorem fatBuildFcbPath_eq :
    v.fatBuildFcbPath i =
      if 64 < names.length then .error statusObjectPathInvalid
      else if (pathText names).length ≤ 260 then .ok (pathText names)
      else .error statusBufferOverflow := by
  rw [fatBuildFcbPath, fcbChain_eq htop h]
  by_cases hdepth : names.length ≤ 64
  · rw [if_pos hdepth, if_neg (Nat.not_lt.mpr hdepth)]
  · rw [if_neg hdepth, if_pos (Nat.lt_of_not_le hdepth)]

theorem eq_pathText {path : WStr}
    (hpath : v.fatBuildFcbPath i = .ok path) : path = pathText names ∧ path.length ≤ 260 := by
  rw [fatBuildFcbPath_eq htop h] at hpath
  split at hpath
  · cases hpath
  · split at hpath
    · next hlength =>
      cases hpath
      exact ⟨rfl, hlength⟩
    · cases hpath

end

end WatchedVolume

section
variable (h : Proper separator names)
include h

theorem pathText_ne_root (hne : names ≠ []) : pathText names ≠ [separator] := by
  intro hroot
  rw [pathText, if_neg hne] at hroot
  cases names with
  | nil => exact hne rfl
  | cons n rest =>
    rw [NamedTrees.spelled_cons] at hroot
    have hnil := (append_eq_nil_iff.mp (List.cons.inj hroot).2).1
    exact (h n mem_cons_self).1 hnil

theorem pathText_inj (h' : Proper separator names') :
    pathText names = pathText names' ↔ names = names' := by
  refine ⟨fun heq => ?_, fun heq => heq ▸ rfl⟩
  by_cases hnil : names = []
  · by_cases hnil' : names' = []
    · rw [hnil, hnil']
    · rw [hnil] at heq
      exact absurd heq.symm (pathText_ne_root h' hnil')
  · by_cases hnil' : names' = []
    · rw [hnil'] at heq
      exact absurd heq (pathText_ne_root h hnil)
    · rw [pathText, pathText, if_neg hnil, if_neg hnil'] at heq
      exact NamedTrees.spelled_injective h h' heq

theorem below_eq_spelled (hpath : d.notifyPath = pathText names) :
    d.below = spelled separator names ++ [separator] := by
  have hback : Io.backslash = separator := rfl
  unfold ArmedDirectory.below
  rw [hpath, hback]
  by_cases hnil : names = []
  · subst hnil
    exact if_pos rfl
  · rw [if_neg (pathText_ne_root h hnil), pathText, if_neg hnil]

theorem below_isPrefix_pathText_iff (h' : Proper separator names')
    (hpath : d.notifyPath = pathText names) (hne : names' ≠ names) :
    d.below <+: pathText names' ↔ ∃ n rest, names' = names ++ n :: rest := by
  rw [below_eq_spelled h hpath]
  by_cases hnil' : names' = []
  · subst hnil'
    constructor
    · intro hprefix
      have hlength := hprefix.length_le
      cases names with
      | nil => exact absurd rfl hne
      | cons n rest =>
        rw [NamedTrees.spelled_cons, length_append] at hlength
        simp [pathText] at hlength
    · rintro ⟨n, rest, heq⟩
      simp at heq
  · rw [pathText, if_neg hnil']
    exact NamedTrees.spelled_isPrefix_iff h h'

end

theorem spelled_append_separator (rest : List WStr) (name : WStr) :
    spelled separator rest ++ separator :: name = separator :: relativeName rest name := by
  induction rest with
  | nil => rfl
  | cons m rest ih =>
    rw [NamedTrees.spelled_cons, cons_append, append_assoc, ih]
    simp [relativeName]

theorem joined_eq_relativeName (h : Proper separator names) (hpath : d.notifyPath = pathText names) (n : WStr)
    (hn : n ≠ []) (rest : List WStr) (name : WStr) :
    Io.joined ((pathText (names ++ n :: rest)).drop d.below.length) name = relativeName (n :: rest) name := by
  have htext : pathText (names ++ n :: rest) = d.below ++ (n ++ spelled separator rest) := by
    rw [below_eq_spelled h hpath, pathText, if_neg (by simp)]
    unfold spelled
    rw [flatMap_append, append_assoc]
    rfl
  rw [htext, drop_left, Io.joined, if_pos (by simp [hn])]
  change n ++ spelled separator rest ++ separator :: name = _
  rw [append_assoc, spelled_append_separator]
  simp [relativeName]

/-! ## The tree and its handles -/

structure Located (v : WatchedVolume) (d : ArmedDirectory) : Prop where
  alive : d.file ∉ v.notify.deleted
  device : d.device = 0
  place : ∃ w names, v.fsContext[d.file]? = some w ∧ v.isDirectory w = true ∧ Descends v.up 0 names w ∧
    d.notifyPath = pathText names

structure VolumeInv (v : WatchedVolume) : Prop where
  root : 0 < v.fcbs.length
  rooted : Rooted v.up 0
  distinct : Distinct v.up
  parents : ∀ i f, v.fcb i = some f → v.isDirectory f.parent = true
  located : ∀ d ∈ v.notify.armed, Located v d

namespace WatchedVolume

theorem isDirectory_of_fcb (h : v.fcb i = some f) : v.isDirectory i = f.isDirectory := by
  rw [isDirectory, h]

theorem exists_names (hv : VolumeInv v) (h : v.isDirectory i = true) : ∃ names, Descends v.up 0 names i := by
  cases hf : v.fcb i with
  | none =>
    rw [isDirectory, hf] at h
    exact ⟨[], of_decide_eq_true h ▸ .refl⟩
  | some f => exact hv.rooted.reached i _ (up_of_fcb hf)

end WatchedVolume

theorem heard_hears (d : ArmedDirectory) (r : ChangeReport) : Hears d (heard d (some r)) (d.due? r) := by
  have hcontent := d.record?_content r
  change Hears d (d.report r) _
  constructor
  · intro hwant
    obtain ⟨-, -, -, hqueue, -⟩ := d.report_cases r
    rw [hqueue hwant, map_append, ← hcontent]
    cases d.record? r <;> rfl
  · intro hwant
    rw [← hcontent]
    unfold ArmedDirectory.report
    cases d.record? r with
    | none => exact ⟨rfl, (Bool.or_false _).symm⟩
    | some record =>
      unfold ArmedDirectory.enqueue
      simp only [hwant, Bool.false_eq_true, if_false]
      exact ⟨trivial, (Bool.or_true _).symm⟩

theorem heard_none (d : ArmedDirectory) : Hears d (heard d none) none :=
  ⟨fun _ => (append_nil _).symm, fun _ => ⟨rfl, (Bool.or_false _).symm⟩⟩

theorem due_report (hv : VolumeInv v) (hw : Descends v.up 0 names w) (hpath : d.notifyPath = pathText names)
    (hdevice : d.device = 0) (hc : Descends v.up 0 names' c.parent) {r : ChangeReport}
    (hr : r.device = 0 ∧ r.parentPath = pathText names' ∧ r.name = c.name.units ∧ r.filterBit = c.filterBit ∧
      r.action = c.action) : Due v w d c (d.due? r) := by
  obtain ⟨hrdevice, hrpath, hrname, hrbit, hraction⟩ := hr
  have hproper := WatchedVolume.proper_of_descends hw
  have hproper' := WatchedVolume.proper_of_descends hc
  have hbelow (rest : List WStr) := NamedTrees.descends_iff hv.rooted hv.distinct hw hc rest
  unfold ArmedDirectory.due?
  rw [hdevice, hrdevice, hrpath, hrname, hrbit, hraction, hpath]
  by_cases hclass : d.notifyFilter &&& c.filterBit = 0
  · rw [if_neg fun h => h.2 hclass]
    exact .other (.inl hclass)
  rw [if_pos ⟨rfl, hclass⟩]
  by_cases hsame : names' = names
  · rw [if_pos (by rw [hsame])]
    have hhere : Descends v.up w [] c.parent := (hbelow []).mpr (by rw [hsame, append_nil])
    exact .told hclass hhere (.inl rfl)
  rw [if_neg fun h => hsame ((pathText_inj hproper' hproper).mp h)]
  have hprefix := below_isPrefix_pathText_iff hproper hproper' hpath hsame
  by_cases hscope : d.notifySubtree = true ∧ d.below <+: pathText names'
  · rw [if_pos hscope]
    obtain ⟨n, rest, hrest⟩ := hprefix.mp hscope.2
    have hn : n ≠ [] := (hproper' n (by rw [hrest]; simp)).1
    rw [hrest, joined_eq_relativeName hproper hpath n hn rest]
    exact .told hclass ((hbelow _).mpr hrest) (.inr hscope.1)
  · rw [if_neg hscope]
    refine .other (.inr fun rest hrest => ?_)
    have hnames := (hbelow rest).mp hrest
    cases rest with
    | nil =>
      rw [append_nil] at hnames
      exact absurd hnames hsame
    | cons n rest =>
      refine ⟨cons_ne_nil _ _, Bool.eq_false_iff.mpr fun hsub => hscope ⟨hsub, ?_⟩⟩
      exact hprefix.mpr ⟨n, rest, hnames⟩

theorem VolumeInv.follows (hv : VolumeInv v) (hc : v.isDirectory c.parent = true)
    (hshort : ∀ d ∈ v.notify.armed, ∀ w, v.fsContext[d.file]? = some w → ∀ due,
      Due v w d c (some due) → ∃ path, v.fatBuildFcbPath c.parent = .ok path) : Follows v c := by
  intro d hd w hw
  obtain ⟨w', names, hw', -, hdesc, hpath⟩ := (hv.located d hd).place
  cases hw.symm.trans hw'
  obtain ⟨names', hdesc'⟩ := WatchedVolume.exists_names hv hc
  have hreport : (∃ r, v.report? c = some r ∧ r.device = 0 ∧ r.parentPath = pathText names' ∧
      r.name = c.name.units ∧ r.filterBit = c.filterBit ∧ r.action = c.action) ∨
      v.report? c = none ∧ ∀ path, v.fatBuildFcbPath c.parent ≠ .ok path := by
    unfold WatchedVolume.report?
    cases hbuild : v.fatBuildFcbPath c.parent with
    | error status => exact .inr ⟨rfl, by nofun⟩
    | ok path =>
      obtain ⟨htext, hlength⟩ := WatchedVolume.eq_pathText hv.rooted.top hdesc' hbuild
      refine .inl ⟨_, dif_pos hlength, rfl, htext, rfl, rfl, rfl⟩
  rcases hreport with ⟨r, hr, hfields⟩ | ⟨hnone, hnot⟩
  · rw [hr]
    exact ⟨_, due_report hv hdesc hpath (hv.located d hd).device hdesc' hfields, heard_hears d r⟩
  · rw [hnone]
    refine ⟨none, .other ?_, heard_none d⟩
    by_contra hscope
    rw [not_or, not_forall] at hscope
    obtain ⟨hclass, rest, hrest⟩ := hscope
    rw [Classical.not_imp, not_and_or, Bool.not_eq_false] at hrest
    obtain ⟨path, hbuild⟩ := hshort d hd w hw _ (.told hclass hrest.1 (hrest.2.imp_left not_not.mp))
    exact hnot path hbuild

/-! ## The mutations of the tree -/

namespace WatchedVolume

theorem lt_length_of_fcb (h : v.fcb i = some f) : i < v.fcbs.length := by
  by_contra hge
  rw [fcb, getD_eq_default _ _ (Nat.not_lt.mp hge)] at h
  cases h

theorem fcb_set (x : Option NamedFcb) (hi : i < v.fcbs.length) (j : Nat) :
    ({ v with fcbs := v.fcbs.set i x } : WatchedVolume).fcb j = if j = i then x else v.fcb j := by
  rw [fcb, fcb, getD_eq_getElem?_getD, getElem?_set, getD_eq_getElem?_getD]
  by_cases hj : j = i
  · rw [if_pos hj.symm, if_pos hi, if_pos hj]
    rfl
  · rw [if_neg (Ne.symm hj), if_neg hj]

theorem fcb_added (f : NamedFcb) (j : Nat) :
    (v.added f).fcb j = if j = v.fcbs.length then some f else v.fcb j := by
  rw [fcb, fcb, added, getD_eq_getElem?_getD, getD_eq_getElem?_getD, getElem?_append]
  by_cases hlt : j < v.fcbs.length
  · rw [if_pos hlt, if_neg (Nat.ne_of_lt hlt)]
  · rw [if_neg hlt]
    by_cases heq : j = v.fcbs.length
    · rw [if_pos heq, heq, Nat.sub_self]
      rfl
    · rw [if_neg heq, getElem?_eq_none (Nat.not_lt.mp hlt), getElem?_eq_none]
      simp only [length_singleton]
      omega

theorem up_congr (h : v'.fcb i = v.fcb i) : v'.up i = v.up i := by rw [up, up, h]

theorem isDirectory_congr (h : v'.fcb i = v.fcb i) : v'.isDirectory i = v.isDirectory i := by
  rw [isDirectory, isDirectory, h]

theorem ne_of_fatLookup_none {dir : Nat} {component : WStr} (h : v.fatLookup dir component = none)
    (hf : v.fcb j = some f) (hparent : f.parent = dir) : f.longName.units ≠ component := by
  rintro rfl
  have hfound := filter_eq_nil_iff.mp (argmin_eq_none.mp h) j (mem_range.mpr (lt_length_of_fcb hf))
  rw [hf] at hfound
  simp [hparent, fatNamesEqualInsensitive, rtlEqualUnicodeString_self] at hfound

theorem ne_parent_of_file (hv : VolumeInv v) (hfile : v.isDirectory i = false) (hj : v.fcb j = some f) :
    f.parent ≠ i := by
  rintro rfl
  rw [hv.parents j f hj] at hfile
  cases hfile

theorem ne_parent_of_children (h : v.children i = []) (hj : v.fcb j = some f) : f.parent ≠ i := by
  rintro rfl
  refine filter_eq_nil_iff.mp h j (mem_range.mpr (lt_length_of_fcb hj)) (decide_eq_true ?_)
  rw [parent, hj]
  rfl

theorem leaf_of_ne_parent (h : ∀ j f, v.fcb j = some f → f.parent ≠ i) (c : Nat) (name : WStr) :
    v.up c ≠ some (i, name) := by
  intro hup
  obtain ⟨f, hf, heq⟩ := map_eq_some_iff.mp hup
  exact h c f hf (Prod.mk.inj heq).1

theorem ne_of_openers (hopen : v.openers i = []) (hd : Located v d) (hw : v.fsContext[d.file]? = some w) :
    w ≠ i := by
  rintro rfl
  have hlt : d.file < v.fsContext.length := (List.getElem?_eq_some_iff.mp hw).1
  refine filter_eq_nil_iff.mp hopen d.file (mem_range.mpr hlt) ?_
  simpa [hw] using hd.alive

theorem isDirectory_renamed (hf : v.fcb i = some f) (newParent : Nat) (leaf : FileName) (shortName : WStr)
    (dirEntryIndex j : Nat) : (v.renamed i f newParent leaf shortName dirEntryIndex).isDirectory j = v.isDirectory j := by
  have hfcb := fcb_set (some { f with parent := newParent, longName := leaf, shortName, dirEntryIndex }) (lt_length_of_fcb hf)
  by_cases hj : j = i
  · subst hj
    exact (isDirectory_of_fcb ((hfcb j).trans (if_pos rfl))).trans (isDirectory_of_fcb hf).symm
  · exact isDirectory_congr ((hfcb j).trans (if_neg hj))

theorem isDirectory_added (f : NamedFcb) (hroot : 0 < v.fcbs.length) (hj : v.isDirectory j = true) :
    (v.added f).isDirectory j = true := by
  refine (isDirectory_congr ((fcb_added f j).trans (if_neg ?_))).trans hj
  rintro rfl
  rw [isDirectory, fcb, getD_eq_default _ _ (Nat.le_refl _)] at hj
  exact hroot.ne' (of_decide_eq_true hj)

theorem fcb_without (hi : i < v.fcbs.length) (hj : j ≠ i) : (v.without i).fcb j = v.fcb j :=
  (fcb_set none hi j).trans (if_neg hj)

theorem up_of_up_without (hi : i < v.fcbs.length) {x : Nat × WStr} (h : (v.without i).up j = some x) :
    v.up j = some x := by
  by_cases hj : j = i
  · have hgone : (v.without i).fcb j = none := (fcb_set none hi j).trans (if_pos hj)
    rw [up_eq_none.mpr hgone] at h
    cases h
  · exact (up_congr (fcb_without hi hj)).symm.trans h

end WatchedVolume

variable {d' : ArmedDirectory}

theorem Located.transport (h : Located v d) (hfile : d'.file = d.file)
    (hsettings : d'.settings = d.settings) (halive : d.file ∉ v'.notify.deleted)
    (hplace : ∀ w names, v.fsContext[d.file]? = some w → v.isDirectory w = true → Descends v.up 0 names w →
      v'.fsContext[d.file]? = some w ∧ v'.isDirectory w = true ∧ Descends v'.up 0 names w) : Located v' d' := by
  obtain ⟨w, names, hw, hdir, hdesc, hpath⟩ := h.place
  obtain ⟨hw', hdir', hdesc'⟩ := hplace w names hw hdir hdesc
  refine ⟨hfile ▸ halive, (congrArg (·.1) hsettings).trans h.device, w, names, hfile ▸ hw', hdir', hdesc', ?_⟩
  exact (congrArg (·.2.1) hsettings).trans hpath

theorem VolumeInv.without (hv : VolumeInv v) (hf : v.fcb i = some f) (hopen : v.openers i = [])
    (hleaf : ∀ j f, v.fcb j = some f → f.parent ≠ i) : VolumeInv (v.without i) := by
  have hfcb := WatchedVolume.fcb_set none (WatchedVolume.lt_length_of_fcb hf)
  have hother {j : Nat} (hj : j ≠ i) : (v.without i).fcb j = v.fcb j := (hfcb j).trans (if_neg hj)
  have hgone : (v.without i).fcb i = none := (hfcb i).trans (if_pos rfl)
  have hup (j : Nat) (hj : j ≠ i) : (v.without i).up j = v.up j := WatchedVolume.up_congr (hother hj)
  have hne {j : Nat} {x : Nat × WStr} (hj : (v.without i).up j = some x) : j ≠ i := by
    rintro rfl
    rw [WatchedVolume.up_eq_none.mpr hgone] at hj
    cases hj
  refine ⟨?_, ?_, ?_, ?_, ?_⟩
  · exact (length_set ..).symm ▸ hv.root
  · exact hv.rooted.remove hup (WatchedVolume.up_eq_none.mpr hgone) (WatchedVolume.leaf_of_ne_parent hleaf)
  · intro j k x hj hk
    exact hv.distinct j k x ((hup j (hne hj)).symm.trans hj) ((hup k (hne hk)).symm.trans hk)
  · intro j f' hj
    have hji : j ≠ i := by
      rintro rfl
      exact nomatch hgone.symm.trans hj
    rw [hother hji] at hj
    exact (WatchedVolume.isDirectory_congr (hother (hleaf j f' hj))).trans (hv.parents j f' hj)
  · intro d hd
    refine (hv.located d hd).transport rfl rfl (hv.located d hd).alive fun w names hw hdir hdesc => ?_
    have hwi := WatchedVolume.ne_of_openers hopen (hv.located d hd) hw
    refine ⟨hw, (WatchedVolume.isDirectory_congr (hother hwi)).trans hdir, hdesc.congr_off hup fun _ hbelow => ?_⟩
    exact hwi (hbelow.eq_of_leaf (WatchedVolume.leaf_of_ne_parent hleaf))

theorem VolumeInv.added (hv : VolumeInv v) (hdir : v.isDirectory f.parent = true)
    (hlookup : v.fatLookup f.parent f.longName.units = none) : VolumeInv (v.added f) := by
  have hfcb := WatchedVolume.fcb_added (v := v) f
  have hfree : v.fcb v.fcbs.length = none := getD_eq_default _ _ (Nat.le_refl _)
  have hother {j : Nat} (hj : j ≠ v.fcbs.length) : (v.added f).fcb j = v.fcb j := (hfcb j).trans (if_neg hj)
  have hnew : (v.added f).fcb v.fcbs.length = some f := (hfcb _).trans (if_pos rfl)
  have hup (j : Nat) (hj : j ≠ v.fcbs.length) : (v.added f).up j = v.up j := WatchedVolume.up_congr (hother hj)
  have hdirs {j : Nat} (hj : v.isDirectory j = true) := WatchedVolume.isDirectory_added f hv.root hj
  have hplace {j : Nat} (hj : (v.added f).up v.fcbs.length = (v.added f).up j) : j = v.fcbs.length := by
    by_contra hne
    rw [WatchedVolume.up_of_fcb hnew, hup j hne] at hj
    obtain ⟨f', hf', heq⟩ := map_eq_some_iff.mp hj.symm
    exact WatchedVolume.ne_of_fatLookup_none hlookup hf' (Prod.mk.inj heq).1 (Prod.mk.inj heq).2
  refine ⟨?_, ?_, ?_, ?_, ?_⟩
  · unfold WatchedVolume.added
    rw [length_append]
    exact Nat.succ_pos _
  · exact hv.rooted.add hup (WatchedVolume.up_eq_none.mpr hfree) hv.root.ne' (WatchedVolume.exists_names hv hdir)
      (WatchedVolume.up_of_fcb hnew)
  · intro j k x hj hk
    by_cases hj' : j = v.fcbs.length
    · subst hj'
      exact (hplace (hj.trans hk.symm)).symm
    · by_cases hk' : k = v.fcbs.length
      · subst hk'
        exact hplace (hk.trans hj.symm)
      · exact hv.distinct j k x ((hup j hj').symm.trans hj) ((hup k hk').symm.trans hk)
  · intro j f' hj
    by_cases hj' : j = v.fcbs.length
    · subst hj'
      cases hnew.symm.trans hj
      exact hdirs hdir
    · exact hdirs (hv.parents j f' ((hother hj').symm.trans hj))
  · intro d hd
    refine (hv.located d hd).transport rfl rfl (hv.located d hd).alive fun w names hw hdir hdesc => ?_
    refine ⟨hw, hdirs hdir, hdesc.mono fun j x hj => ?_⟩
    refine (hup j ?_).trans hj
    rintro rfl
    rw [WatchedVolume.up_eq_none.mpr hfree] at hj
    cases hj

theorem VolumeInv.renamed (hv : VolumeInv v) (hf : v.fcb i = some f) {newParent : Nat} {leaf : FileName}
    (hdir : v.isDirectory newParent = true) (hnot : ∀ names, ¬Descends v.up i names newParent)
    (hstays : ∀ d ∈ v.notify.armed, ∀ w, v.fsContext[d.file]? = some w → ∀ names, ¬Descends v.up i names w)
    (hapart : ∀ j, j ≠ i → v.up j ≠ some (newParent, leaf.units)) (shortName : WStr) (dirEntryIndex : Nat) :
    VolumeInv (v.renamed i f newParent leaf shortName dirEntryIndex) := by
  have hfcb := WatchedVolume.fcb_set (some { f with parent := newParent, longName := leaf, shortName, dirEntryIndex })
    (WatchedVolume.lt_length_of_fcb hf)
  have hother {j : Nat} (hj : j ≠ i) : (v.renamed i f newParent leaf shortName dirEntryIndex).fcb j = v.fcb j :=
    (hfcb j).trans (if_neg hj)
  have hnew := (hfcb i).trans (if_pos rfl)
  have hup (j : Nat) (hj : j ≠ i) : (v.renamed i f newParent leaf shortName dirEntryIndex).up j = v.up j :=
    WatchedVolume.up_congr (hother hj)
  have hmoved : (v.renamed i f newParent leaf shortName dirEntryIndex).up i = some (newParent, leaf.units) :=
    WatchedVolume.up_of_fcb hnew
  have hroot : i ≠ 0 := by
    rintro rfl
    exact nomatch hf.symm.trans (WatchedVolume.up_eq_none.mp hv.rooted.top)
  have hdirs := WatchedVolume.isDirectory_renamed hf newParent leaf shortName dirEntryIndex
  refine ⟨?_, ?_, ?_, ?_, ?_⟩
  · exact (length_set ..).symm ▸ hv.root
  · exact hv.rooted.move hup hroot (WatchedVolume.exists_names hv hdir) hnot hmoved
  · intro j k x hj hk
    by_cases hji : j = i
    · subst hji
      by_contra hkj
      rw [hup k (Ne.symm hkj)] at hk
      exact hapart k (Ne.symm hkj) (hk.trans (hj.symm.trans hmoved))
    · by_cases hki : k = i
      · subst hki
        rw [hup j hji] at hj
        exact absurd (hj.trans (hk.symm.trans hmoved)) (hapart j hji)
      · exact hv.distinct j k x ((hup j hji).symm.trans hj) ((hup k hki).symm.trans hk)
  · intro j f' hj
    rw [hdirs]
    by_cases hji : j = i
    · subst hji
      cases hnew.symm.trans hj
      exact hdir
    · exact hv.parents j f' ((hother hji).symm.trans hj)
  · intro d hd
    refine (hv.located d hd).transport rfl rfl (hv.located d hd).alive fun w names hw hdir hdesc => ?_
    exact ⟨hw, (hdirs w).trans hdir, hdesc.congr_off hup (hstays d hd w hw)⟩

/-! ## The steps -/

namespace WatchedVolume

theorem fatReportChange_eq (v : WatchedVolume) (c : FatChange) :
    (v.fatReportChange c).fcbs = v.fcbs ∧ (v.fatReportChange c).fsContext = v.fsContext ∧
      (v.fatReportChange c).notify.deleted = v.notify.deleted ∧
      ∀ d' ∈ (v.fatReportChange c).notify.armed, ∃ d ∈ v.notify.armed,
        d'.file = d.file ∧ d'.settings = d.settings := by
  unfold fatReportChange
  cases v.report? c with
  | none => exact ⟨rfl, rfl, rfl, fun d hd => ⟨d, hd, rfl, rfl⟩⟩
  | some r =>
    refine ⟨rfl, rfl, rfl, fun d' hd' => ?_⟩
    obtain ⟨d, hd, rfl⟩ := List.mem_map.mp hd'
    obtain ⟨hfile, hsettings, -⟩ := d.report_cases r
    exact ⟨d, hd, hfile, hsettings⟩

theorem fcb_congr (h : v'.fcbs = v.fcbs) : v'.fcb = v.fcb := by
  funext i
  rw [fcb, fcb, h]

theorem up_eq (h : v'.fcbs = v.fcbs) : v'.up = v.up := by
  funext i
  exact up_congr (congrFun (fcb_congr h) i)

end WatchedVolume

theorem VolumeInv.congr (hv : VolumeInv v) (v' : WatchedVolume) (hfcbs : v'.fcbs = v.fcbs)
    (hlocated : ∀ d ∈ v'.notify.armed, Located v' d) : VolumeInv v' where
  root := hfcbs ▸ hv.root
  rooted := WatchedVolume.up_eq hfcbs ▸ hv.rooted
  distinct := WatchedVolume.up_eq hfcbs ▸ hv.distinct
  parents := by
    intro i f hf
    rw [WatchedVolume.fcb_congr hfcbs] at hf
    exact (WatchedVolume.isDirectory_congr (congrFun (WatchedVolume.fcb_congr hfcbs) _)).trans (hv.parents i f hf)
  located := hlocated

theorem Located.congr (h : Located v d) (hfcbs : v'.fcbs = v.fcbs)
    (hcontext : v'.fsContext = v.fsContext) (halive : d.file ∉ v'.notify.deleted) (hfile : d'.file = d.file)
    (hsettings : d'.settings = d.settings) : Located v' d' := by
  refine h.transport hfile hsettings halive fun w names hw hdir hdesc => ⟨hcontext ▸ hw, ?_, ?_⟩
  · exact (WatchedVolume.isDirectory_congr (congrFun (WatchedVolume.fcb_congr hfcbs) _)).trans hdir
  · rwa [WatchedVolume.up_eq hfcbs]

theorem VolumeInv.report (hv : VolumeInv v) (c : FatChange) : VolumeInv (v.fatReportChange c) := by
  obtain ⟨hfcbs, hcontext, hdeleted, harmed⟩ := v.fatReportChange_eq c
  refine hv.congr _ hfcbs fun d' hd' => ?_
  obtain ⟨d, hd, hfile, hsettings⟩ := harmed d' hd'
  exact (hv.located d hd).congr hfcbs hcontext (hdeleted ▸ (hv.located d hd).alive) hfile hsettings

theorem VolumeInv.foldl_report (hv : VolumeInv v) (changes : List FatChange) :
    VolumeInv (changes.foldl WatchedVolume.fatReportChange v) := by
  induction changes generalizing v with
  | nil => exact hv
  | cons c rest ih => exact ih (hv.report c)

theorem Due.congr {due : Option (UInt32 × WStr)} (hup : v'.up = v.up)
    (hsettings : d'.settings = d.settings) (h : Due v w d c due) : Due v' w d' c due := by
  have hfilter : d'.notifyFilter = d.notifyFilter := congrArg (·.2.2.1) hsettings
  have hsubtree : d'.notifySubtree = d.notifySubtree := congrArg (·.2.2.2.1) hsettings
  cases h with
  | told hclass hbelow hscope => exact .told (hfilter ▸ hclass) (hup ▸ hbelow) (hsubtree ▸ hscope)
  | other h =>
    refine .other (h.imp (fun h => hfilter ▸ h) fun h names hnames => ?_)
    rw [hup] at hnames
    exact ⟨(h names hnames).1, hsubtree ▸ (h names hnames).2⟩

theorem not_descends_of_search {rounds : Nat} (h : Forest.search v.parent i rounds (some j) = some false)
    (names : List WStr) : ¬Descends v.up i names j := by
  intro hdesc
  induction rounds generalizing j names with
  | zero => cases h
  | succ rounds ih =>
    rw [Forest.search] at h
    split at h
    · cases h
    · next hne =>
      cases hdesc with
      | refl => exact hne rfl
      | step hdesc hc =>
        obtain ⟨f, hf, heq⟩ := map_eq_some_iff.mp hc
        cases heq
        rw [WatchedVolume.parent, hf] at h
        exact ih h _ hdesc

theorem renameTarget_cases {newParent : Nat} {leaf : FileName} {replaceable : Bool} {target : WatchedVolume}
    (hf : v.fcb i = some f) (h : v.renameTarget i newParent leaf replaceable = some target) :
    v.isDirectory newParent = true ∧ (∀ names, ¬Descends v.up i names newParent) ∧
      (target = v ∨ ∃ existing, existing ≠ i ∧ (v.fcb existing).isSome ∧ v.isDirectory existing = false ∧
        v.openers existing = [] ∧ target = v.without existing) := by
  unfold WatchedVolume.renameTarget at h
  rw [hf] at h
  dsimp only at h
  split at h
  · cases h
  next hdir =>
  split at h
  · cases h
  next hsearch =>
  refine ⟨by simpa using hdir, fun names => not_descends_of_search (not_not.mp hsearch) names, ?_⟩
  cases hlookup : v.fatLookup newParent leaf.units with
  | none =>
    rw [hlookup] at h
    cases h
    exact .inl rfl
  | some existing =>
    rw [hlookup] at h
    dsimp only at h
    split at h
    · split at h
      · cases h
      · cases h
        exact .inl rfl
    · next hne =>
      split at h
      · cases h
      · next hlets =>
        cases h
        have hfound : (v.fcb existing).isSome := by
          have := (mem_filter.mp (argmin_mem hlookup)).2
          cases hx : v.fcb existing with
          | none => simp [hx] at this
          | some x => rfl
        simp only [Bool.or_eq_true, not_or, Bool.not_eq_true, decide_eq_true_eq, not_not] at hlets
        exact .inr ⟨existing, hne, hfound, hlets.1.1, hlets.2, rfl⟩

structure Mutated (v : WatchedVolume) (result : WatchedVolume × List FatChange) : Prop where
  inv : VolumeInv result.1
  dirs : ∀ c ∈ result.2, result.1.isDirectory c.parent = true
  notify : result.1.notify = v.notify
  fsContext : result.1.fsContext = v.fsContext

section
variable (hv : VolumeInv v)
include hv

theorem VolumeInv.refused : Mutated v (v, []) := ⟨hv, by nofun, rfl, rfl⟩

theorem VolumeInv.fatVfsCreate (f : NamedFcb) : Mutated v (v.fatVfsCreate f) := by
  unfold WatchedVolume.fatVfsCreate
  split
  · exact hv.refused
  · next hnew =>
    simp only [Bool.or_eq_true, not_or, Bool.not_eq_true', Bool.not_eq_false, isSome_iff_ne_none,
      not_not] at hnew
    refine ⟨hv.added hnew.1 hnew.2, forall_mem_singleton.mpr ?_, rfl, rfl⟩
    exact WatchedVolume.isDirectory_added f hv.root hnew.1

theorem VolumeInv.modified (i : Nat) (filterBit action : UInt32) :
    Mutated v (v.modified i filterBit action) := by
  unfold WatchedVolume.modified
  cases hf : v.fcb i with
  | none => exact hv.refused
  | some f => exact ⟨hv, forall_mem_singleton.mpr (hv.parents i f hf), rfl, rfl⟩

theorem VolumeInv.removed (i : Nat) : Mutated v (v.removed i) := by
  unfold WatchedVolume.removed
  cases hf : v.fcb i with
  | none => exact hv.refused
  | some f =>
    dsimp only
    split
    · exact hv.refused
    · next hlets =>
      rw [not_or, not_not, not_not] at hlets
      have hleaf : ∀ j f, v.fcb j = some f → f.parent ≠ i :=
        fun j f => WatchedVolume.ne_parent_of_children hlets.2
      refine ⟨hv.without hf hlets.1 hleaf, forall_mem_singleton.mpr ?_, rfl, rfl⟩
      have hsame := WatchedVolume.fcb_without (WatchedVolume.lt_length_of_fcb hf) (hleaf i f hf)
      exact (WatchedVolume.isDirectory_congr hsame).trans (hv.parents i f hf)

theorem VolumeInv.renameTarget (hf : v.fcb i = some f) {newParent : Nat} {leaf : FileName}
    {replaceable : Bool} {target : WatchedVolume}
    (htarget : v.renameTarget i newParent leaf replaceable = some target) :
    VolumeInv target ∧ target.fcb i = some f ∧ target.isDirectory newParent = true ∧
      target.notify = v.notify ∧ target.fsContext = v.fsContext ∧ ∀ j x, target.up j = some x → v.up j = some x := by
  obtain ⟨hdir, -, hcases⟩ := renameTarget_cases hf htarget
  rcases hcases with rfl | ⟨existing, hne, hfound, hfile, hopen, rfl⟩
  · exact ⟨hv, hf, hdir, rfl, rfl, fun _ _ h => h⟩
  · obtain ⟨e, he⟩ := isSome_iff_exists.mp hfound
    have hlt := WatchedVolume.lt_length_of_fcb he
    refine ⟨hv.without he hopen fun j f => WatchedVolume.ne_parent_of_file hv hfile, ?_, ?_, rfl, rfl,
      fun j x => WatchedVolume.up_of_up_without hlt⟩
    · exact (WatchedVolume.fcb_without hlt hne.symm).trans hf
    · refine (WatchedVolume.isDirectory_congr (WatchedVolume.fcb_without hlt ?_)).trans hdir
      rintro rfl
      rw [hdir] at hfile
      cases hfile

theorem VolumeInv.fatVfsRename {newParent : Nat} {leaf : FileName} {shortName : WStr} {dirEntryIndex : Nat}
    {replaceable written : Bool}
    (hsafe : WatchSafe v (.rename i newParent leaf shortName dirEntryIndex replaceable written)) :
    Mutated v (v.fatVfsRename i newParent leaf shortName dirEntryIndex replaceable written) := by
  unfold WatchedVolume.fatVfsRename
  cases hf : v.fcb i with
  | none => exact hv.refused
  | some f =>
    cases htarget : v.renameTarget i newParent leaf replaceable with
    | none => exact hv.refused
    | some target =>
      obtain ⟨hstays, hapart⟩ := hsafe.stays _ _ _ _ _ _ _ target rfl htarget
      obtain ⟨-, hnot, -⟩ := renameTarget_cases hf htarget
      obtain ⟨htv, htf, htdir, hnotify, hcontext, hmono⟩ := hv.renameTarget hf htarget
      dsimp only
      split
      · have hrenamed := htv.renamed htf htdir (fun names h => hnot names (h.mono hmono))
          (fun d hd w hw names h => hstays d (hnotify ▸ hd) w (hcontext ▸ hw) names (h.mono hmono)) hapart shortName dirEntryIndex
        refine ⟨hrenamed, fun c hc => ?_, hnotify, hcontext⟩
        rw [WatchedVolume.isDirectory_renamed htf]
        have hold := htv.parents i f htf
        unfold WatchedVolume.renameChanges at hc
        dsimp only at hc
        split at hc
        · rcases mem_pair.mp hc with rfl | rfl
          · exact hold
          · exact htdir
        · rcases mem_pair.mp hc with rfl | rfl
          · exact hold
          · exact htdir
      · exact ⟨htv, by nofun, hnotify, hcontext⟩

theorem VolumeInv.changes (hsafe : WatchSafe v op) : Mutated v (v.changes op) := by
  cases op with
  | create f => exact hv.fatVfsCreate f
  | modify i filterBit action => exact hv.modified i filterBit action
  | remove i => exact hv.removed i
  | rename i newParent leaf shortName dirEntryIndex replaceable written => exact hv.fatVfsRename hsafe
  | openFile => exact hv.refused
  | arm => exact hv.refused
  | deliver => exact hv.refused
  | cancel => exact hv.refused
  | close => exact hv.refused

theorem VolumeInv.keeps {notify : DirectoryNotify} (h : Io.Keeps v.notify notify) :
    VolumeInv { v with notify } := by
  refine hv.congr _ rfl fun d' hd' => ?_
  obtain ⟨d, hd, hfile, hsettings, -⟩ := h.settings d' hd'
  exact (hv.located d hd).congr rfl rfl (h.deleted ▸ (hv.located d hd).alive) hfile hsettings

theorem VolumeInv.arm {a : DirectoryNotify.ArmArgs} {notify : DirectoryNotify} {status : NtStatus}
    (hcontext : v.fsContext[a.file]? = some i) (hdir : v.isDirectory i = true)
    (h : v.notify.ntNotifyChangeDirectoryFile { a with device := 0, queryName := v.fatBuildFcbPath i } =
      .ok (status, notify)) : VolumeInv { v with notify } := by
  rcases Io.ntNotifyChangeDirectoryFile_cases h with rfl | hkeeps | ⟨path, hquery, -, halive, -, hkeeps⟩
  · exact hv
  · exact hv.keeps hkeeps
  · refine hv.congr _ rfl fun d' hd' => ?_
    obtain ⟨d, hd, hfile, hsettings, -⟩ := hkeeps.settings d' hd'
    have hdeleted : notify.deleted = v.notify.deleted := hkeeps.deleted
    rcases mem_append.mp hd with hd | hd
    · exact (hv.located d hd).congr rfl rfl (hdeleted ▸ (hv.located d hd).alive) hfile hsettings
    · cases mem_singleton.mp hd
      obtain ⟨names, hdesc⟩ := WatchedVolume.exists_names hv hdir
      have htext := (WatchedVolume.eq_pathText hv.rooted.top hdesc hquery).1
      refine ⟨?_, congrArg (·.1) hsettings, i, names, ?_, hdir, hdesc, ?_⟩
      · rw [hfile]
        exact hdeleted ▸ halive
      · rw [hfile]
        exact hcontext
      · exact (congrArg (·.2.1) hsettings).trans htext

theorem VolumeInv.close (file : Nat) :
    VolumeInv { v with
      notify := (v.notify.iopCancelDirectoryWatches file none none).iopDetachDirectoryNotify file } := by
  unfold DirectoryNotify.iopDetachDirectoryNotify
  split
  · exact hv.keeps ⟨rfl, rfl, fun d hd => ⟨d, hd, rfl, rfl, rfl⟩⟩
  · refine hv.congr _ rfl fun d hd => ?_
    obtain ⟨hd, hne⟩ := mem_filter.mp hd
    refine (hv.located d hd).congr rfl rfl (fun hmem => ?_) rfl rfl
    rcases mem_cons.mp hmem with heq | hmem
    · exact of_decide_eq_true hne heq
    · exact (hv.located d hd).alive hmem

end

theorem notified_ok {result : Except NotifyFault DirectoryNotify} (h : v.notified result = .ok v') :
    ∃ notify, result = .ok notify ∧ v' = { v with notify } := by
  cases result with
  | error fault => cases h
  | ok notify =>
    cases h
    exact ⟨notify, rfl, rfl⟩

theorem VolumeInv.step (hv : VolumeInv v) (hsafe : WatchSafe v op) (h : v.step op = .ok v') : VolumeInv v' := by
  have hreported : VolumeInv ((v.changes op).2.foldl WatchedVolume.fatReportChange (v.changes op).1) :=
    (hv.changes hsafe).inv.foldl_report _
  cases op with
  | create => cases h; exact hreported
  | modify => cases h; exact hreported
  | remove => cases h; exact hreported
  | rename => cases h; exact hreported
  | openFile i =>
    unfold WatchedVolume.step at h
    dsimp only at h
    split at h
    · cases h
      refine hv.congr _ rfl fun d hd => ?_
      refine (hv.located d hd).transport rfl rfl (hv.located d hd).alive fun w names hw hdir hdesc => ?_
      refine ⟨?_, hdir, hdesc⟩
      change (v.fsContext ++ _)[d.file]? = some w
      rw [getElem?_append_left (List.getElem?_eq_some_iff.mp hw).1]
      exact hw
    · cases h
      exact hv
  | arm a =>
    unfold WatchedVolume.step at h
    dsimp only at h
    split at h
    · cases h
      exact hv
    next i hcontext =>
    split at h
    · cases h
      exact hv
    next hdir =>
    obtain ⟨notify, hstep, rfl⟩ := notified_ok h
    change (v.notify.ntNotifyChangeDirectoryFile _).map (·.2) = .ok notify at hstep
    generalize harm : v.notify.ntNotifyChangeDirectoryFile _ = result at hstep
    cases result with
    | error fault => cases hstep
    | ok answer =>
      cases hstep
      exact hv.arm hcontext (by simpa using hdir) harm
  | deliver =>
    obtain ⟨notify, hstep, rfl⟩ := notified_ok h
    change v.notify.ioDeliverDirectoryChanges = .ok notify at hstep
    unfold DirectoryNotify.ioDeliverDirectoryChanges at hstep
    split at hstep
    · have hkeeps := Io.foldlM_deliver_keeps hstep
      exact hv.keeps ⟨hkeeps.files, hkeeps.deleted, hkeeps.settings⟩
    · cases hstep
      exact hv
  | cancel file issuer targetIosb =>
    obtain ⟨notify, hstep, rfl⟩ := notified_ok h
    cases hstep
    exact hv.keeps ⟨rfl, rfl, fun d hd => ⟨d, hd, rfl, rfl, rfl⟩⟩
  | close file =>
    obtain ⟨notify, hstep, rfl⟩ := notified_ok h
    cases hstep
    exact hv.close file

theorem volumeInv_start : VolumeInv {} := by
  have hnone (i : Nat) : WatchedVolume.fcb {} i = none := by
    cases i <;> rfl
  have hup (i : Nat) : WatchedVolume.up {} i = none := WatchedVolume.up_eq_none.mpr (hnone i)
  refine ⟨by decide, ⟨hup 0, fun i x h => ?_⟩, fun i j x h => ?_, fun i f h => ?_, by nofun⟩
  · exact nomatch (hup i).symm.trans h
  · exact nomatch (hup i).symm.trans h
  · exact nomatch (hnone i).symm.trans h

theorem VolumeReaches.inv (hv : VolumeReaches WatchSafe v) : VolumeInv v := by
  induction hv with
  | start => exact volumeInv_start
  | step op _ hop h ih => exact ih.step hop h

end Proskrnl.Fat
