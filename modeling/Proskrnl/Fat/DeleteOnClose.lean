import Proskrnl.Library.Outcome
import Proskrnl.Fat.OpenFile

/-!
# When the entry of a file goes

Delete-on-close over every order of opens, cleanups, dispositions and sections of one file: the entry is
removed once, by the last open or the last section, and an intent that had to wait is applied then. The
counters of the control block agree with its file objects and sections (`Accounts`), so that no assertion
fails on the way.
-/

namespace Proskrnl.Fat

open Io List
open Outcome (bind_eq_ok)

variable {s s' : OpenFile} {op : FileOp} {status : NtStatus} {i : Nat} {file : FileObject}
  {share : ShareAccess} {x : BackedSection} {r : OpenRequest} {empty : Bool}

/-! ## Accounts -/

def FileObject.shares (file : FileObject) : Bool :=
  file.isOpen && (iopShareRelevantAccess file.grantedAccess).any

structure Accounts (s : OpenFile) : Prop where
  opens : s.fcb.openObjectCount = s.files.countP FileObject.isOpen
  share : s.fcb.header.shareAccess.openCount = s.files.countP FileObject.shares
  counted : ∀ f ∈ s.files, f.shareCounted = f.isOpen
  sectionCount : s.fcb.header.sectionCount = s.sections.length
  imageSectionCount : s.fcb.header.imageSectionCount = s.sections.countP BackedSection.isImage
  writableSectionCount : s.fcb.header.writableSectionCount = s.sections.countP BackedSection.holdsWrite

theorem accounts_fresh (isRoot isDirectory readOnly : Bool) :
    Accounts (.fresh isRoot isDirectory readOnly) :=
  ⟨rfl, rfl, fun _ hf => absurd hf not_mem_nil, rfl, rfl, rfl⟩

theorem Accounts.flags (h : Accounts s) (hfiles : s'.files = s.files) (hsections : s'.sections = s.sections)
    (hcount : s'.fcb.openObjectCount = s.fcb.openObjectCount)
    (hheader : s'.fcb.header = { s.fcb.header with deletePending := s'.fcb.header.deletePending }) :
    Accounts s' := by
  refine ⟨?_, ?_, ?_, ?_, ?_, ?_⟩
  · rw [hcount, hfiles]
    exact h.opens
  · rw [hheader, hfiles]
    exact h.share
  · rw [hfiles]
    exact h.counted
  · rw [hheader, hsections]
    exact h.sectionCount
  · rw [hheader, hsections]
    exact h.imageSectionCount
  · rw [hheader, hsections]
    exact h.writableSectionCount

theorem Accounts.closed (h : Accounts s) (hzero : s.fcb.openObjectCount = 0) :
    ∀ f ∈ s.files, f.isOpen = false := by
  intro f hf
  rw [h.opens, countP_eq_zero] at hzero
  exact Bool.eq_false_iff.mpr (hzero f hf)

theorem Accounts.openObjectCount_pos (h : Accounts s) (hfile : s.files[i]? = some file)
    (hopen : file.isOpen = true) : 0 < s.fcb.openObjectCount := by
  rw [h.opens]
  exact countP_pos_iff.mpr ⟨file, mem_of_getElem? hfile, hopen⟩

theorem Accounts.opened (h : Accounts s) (r : OpenRequest) (readOnly : Bool) :
    Accounts (s.opened r readOnly) := by
  refine ⟨?_, ?_, fun f hf => ?_, h.sectionCount, h.imageSectionCount, h.writableSectionCount⟩
  · change s.fcb.openObjectCount + 1 = (s.files ++ [_]).countP FileObject.isOpen
    rw [countP_append, ← h.opens]
    rfl
  · change (ioSetShareAccess r.grantedAccess r.shareAccess s.fcb.header.shareAccess).openCount =
      (s.files ++ [_]).countP FileObject.shares
    rw [countP_append, ← h.share, ioSetShareAccess, countP_singleton, FileObject.shares]
    cases (iopShareRelevantAccess r.grantedAccess).any with
    | true => rfl
    | false => rfl
  · rcases mem_append.mp hf with hf | hf
    · exact h.counted f hf
    · obtain rfl := mem_singleton.mp hf
      rfl

theorem Accounts.removeShare (h : Accounts s) (hfile : s.files[i]? = some file)
    (hopen : file.isOpen = true) :
    ∃ share, ioRemoveShareAccess file.grantedAccess file.shareAccess s.fcb.header.shareAccess = .ok share ∧
      share.openCount + file.shares.toNat = s.fcb.header.shareAccess.openCount := by
  rw [ioRemoveShareAccess, FileObject.shares, hopen, Bool.true_and]
  cases hany : (iopShareRelevantAccess file.grantedAccess).any with
  | false => exact ⟨_, rfl, rfl⟩
  | true =>
    have hpos : 0 < s.fcb.header.shareAccess.openCount := by
      rw [h.share]
      refine countP_pos_iff.mpr ⟨file, mem_of_getElem? hfile, ?_⟩
      rw [FileObject.shares, hopen, hany]
      rfl
    refine ⟨_, if_neg hpos.ne', ?_⟩
    exact Nat.sub_add_cancel hpos

def OpenFile.uncounted (s : OpenFile) (i : Nat) (file : FileObject) (share : ShareAccess) : OpenFile :=
  (s.closing i file share).uncount

theorem Accounts.uncounted (h : Accounts s) (hfile : s.files[i]? = some file)
    (hopen : file.isOpen = true)
    (hshare : share.openCount + file.shares.toNat = s.fcb.header.shareAccess.openCount) :
    Accounts (s.uncounted i file share) := by
  obtain ⟨hlt, hget⟩ := List.getElem?_eq_some_iff.mp hfile
  refine ⟨?_, ?_, fun f hf => ?_, h.sectionCount, h.imageSectionCount, h.writableSectionCount⟩
  · change s.fcb.openObjectCount - 1 = (s.files.set i _).countP FileObject.isOpen
    rw [countP_set hlt, hget, h.opens, hopen]
    rfl
  · change share.openCount = (s.files.set i _).countP FileObject.shares
    rw [countP_set hlt, hget, ← h.share]
    cases hshares : file.shares with
    | true =>
      rw [hshares] at hshare
      exact (Nat.sub_eq_of_eq_add hshare.symm).symm
    | false =>
      rw [hshares] at hshare
      exact hshare
  · rcases mem_or_eq_of_mem_set hf with hf | rfl
    · exact h.counted f hf
    · rfl

theorem Accounts.sectionCounts (h : Accounts s) : SectionCounts s.fcb.header s.sections :=
  ⟨h.sectionCount, h.imageSectionCount, h.writableSectionCount⟩

theorem Accounts.addSection (h : Accounts s) (x : BackedSection) :
    Accounts { s with
      fcb := { s.fcb with header := s.fcb.header.addSection x }
      sections := x :: s.sections } := by
  have hcounts := h.sectionCounts.add x
  exact ⟨h.opens, h.share, h.counted, hcounts.1, hcounts.2, hcounts.3⟩

theorem Accounts.removeSection (h : Accounts s) (hx : x ∈ s.sections) :
    ∃ header, s.fcb.header.removeSection x = .ok header ∧
      header.sectionCount = (s.sections.erase x).length ∧
      Accounts { s with fcb := { s.fcb with header }, sections := s.sections.erase x } ∧
      header.deletePending = s.fcb.header.deletePending := by
  obtain ⟨header, hremove, hrest, hshare, hpending⟩ := h.sectionCounts.remove hx
  exact ⟨header, hremove, hrest.sectionCount, ⟨h.opens, hshare ▸ h.share, h.counted, hrest.1, hrest.2, hrest.3⟩,
    hpending⟩

/-! ## One call -/

theorem fatVfsCreate_cases (s : OpenFile) (r : OpenRequest) :
    (s.fatVfsCreate false r).1 = s ∨ ∃ readOnly, (s.fatVfsCreate false r).1 = s.opened r readOnly := by
  rw [OpenFile.fatVfsCreate]
  split
  · exact .inl rfl
  · split
    · split
      · exact .inl rfl
      · exact .inr ⟨_, rfl⟩
    · exact .inr ⟨_, rfl⟩

theorem fatVfsCreate_created (s : OpenFile) (r : OpenRequest) :
    (s.fatVfsCreate true r).1 = s.deleteEntry ∨ ∃ readOnly, (s.fatVfsCreate true r).1 = s.opened r readOnly := by
  rw [OpenFile.fatVfsCreate]
  split
  · exact .inl rfl
  · split
    case isTrue hexists => exact absurd hexists.1 (by decide)
    case isFalse => exact .inr ⟨_, rfl⟩

inductive Cleaned (c : OpenFile) (deleteOnClose empty : Bool) : OpenFile → Prop
  | kept (h : c.wantDelete deleteOnClose = false ∨ c.fcb.isRoot = true) : Cleaned c deleteOnClose empty c
  | nonEmpty (hcount : c.fcb.openObjectCount = 0) (h : c.fcb.isDirectory = true) (hempty : empty = false) :
    Cleaned c deleteOnClose empty c
  | latched (hroot : c.fcb.isRoot = false)
    (h : c.fcb.openObjectCount ≠ 0 ∨ c.fcb.header.sectionCount ≠ 0) : Cleaned c deleteOnClose empty c.latched
  | unlinked (hroot : c.fcb.isRoot = false) (hcount : c.fcb.openObjectCount = 0)
    (hsections : c.fcb.header.sectionCount = 0) : Cleaned c deleteOnClose empty c.unlink

theorem applyDelete_cleaned (c : OpenFile) (deleteOnClose empty : Bool) :
    Cleaned c deleteOnClose empty (c.applyDelete deleteOnClose empty) := by
  rw [OpenFile.applyDelete]
  split
  case isTrue hkept => exact .kept (by simpa using hkept)
  case isFalse hwant =>
    have hroot : c.fcb.isRoot = false := Bool.eq_false_iff.mpr fun hr => hwant (.inr hr)
    split
    case isTrue hcount => exact .latched hroot (.inl hcount)
    case isFalse hcount =>
      have hzero := Decidable.not_not.mp hcount
      split
      case isTrue hdir => exact .nonEmpty hzero hdir.1 (by simpa using hdir.2)
      case isFalse =>
        split
        case isTrue hsections => exact .latched hroot (.inr hsections)
        case isFalse hsections => exact .unlinked hroot hzero (Decidable.not_not.mp hsections)

theorem Accounts.cleanup (h : Accounts s) (hfile : s.files[i]? = some file) (hopen : file.isOpen = true)
    (empty : Bool) :
    ∃ share s', s.step (.cleanup i empty) = .ok (s', statusSuccess) ∧
      Accounts (s.uncounted i file share) ∧
      Cleaned (s.uncounted i file share) file.deleteOnClose empty s' := by
  obtain ⟨share, hremove, hshare⟩ := h.removeShare hfile hopen
  have hpos := h.openObjectCount_pos hfile hopen
  have hcounted : file.shareCounted = true :=
    (h.counted file (mem_of_getElem? hfile)).trans hopen
  have haccounts := h.uncounted hfile hopen hshare
  refine ⟨share, _, ?_, haccounts, applyDelete_cleaned _ _ _⟩
  rw [OpenFile.step, OpenFile.iopCleanupFileObject, hfile]
  dsimp only
  rw [if_neg (by rw [hopen]; decide), OpenFile.releasedShare, if_pos hcounted, hremove]
  dsimp only [bind, Except.bind]
  rw [OpenFile.fatVfsCleanup, if_neg (show ¬ (s.closing i file share).fcb.openObjectCount = 0 from hpos.ne')]
  rfl

/-! ## The invariant -/

/-- While a call of `FatVfsSectionsReleased` waits for the gate, no section is made, and no disposition
is set through a file object whose last handle is closed. -/
def Undisturbed (s : OpenFile) : FileOp → Prop
  | .createSection .. => s.waiting = 0
  | .setDisposition i _ _ => s.waiting = 0 ∨ ∃ file, s.files[i]? = some file ∧ file.isOpen = true
  | _ => True

def OpenFile.Owes (s : OpenFile) : Prop := ∃ f ∈ s.files, f.isOpen = false ∧ f.deleteOnClose = true

structure Inv (s : OpenFile) : Prop extends Accounts s where
  waiting : s.waiting ≠ 0 → s.sections = []
  plain : s.sections ≠ [] → s.fcb.isDirectory = false
  removals : s.removals = s.fcb.entryDeleted.toNat
  gone : s.fcb.entryDeleted = true → s.fcb.openObjectCount = 0 ∧ s.sections = [] ∧
    (s.waiting ≠ 0 → s.fcb.unlinkPending = false ∧ s.fcb.header.deletePending = false)
  owes : s.fcb.isRoot = false → s.fcb.isDirectory = false → s.Owes →
    s.fcb.unlinkPending = true ∨ s.fcb.entryDeleted = true

theorem inv_fresh (isRoot isDirectory readOnly : Bool) : Inv (.fresh isRoot isDirectory readOnly) where
  toAccounts := accounts_fresh isRoot isDirectory readOnly
  waiting _ := rfl
  plain h := absurd rfl h
  removals := rfl
  gone h := absurd h Bool.false_ne_true
  owes _ _ := fun ⟨_, hf, _⟩ => absurd hf not_mem_nil

theorem Inv.opened (h : Inv s) (hentry : s.fcb.entryDeleted = false) (r : OpenRequest) (readOnly : Bool) :
    Inv (s.opened r readOnly) where
  toAccounts := h.toAccounts.opened r readOnly
  waiting := h.waiting
  plain := h.plain
  removals := h.removals
  gone hgone := absurd (hentry.symm.trans hgone) Bool.false_ne_true
  owes hroot hdir := by
    rintro ⟨f, hf, hclosed, hdelete⟩
    rcases mem_append.mp hf with hf | hf
    · exact h.owes hroot hdir ⟨f, hf, hclosed, hdelete⟩
    · obtain rfl := mem_singleton.mp hf
      cases hclosed

theorem inv_created (isDirectory readOnly : Bool) (r : OpenRequest) :
    Inv ((OpenFile.fresh false isDirectory readOnly).fatVfsCreate true r).1 := by
  rcases fatVfsCreate_created (.fresh false isDirectory readOnly) r with hs | ⟨readOnly', hs⟩
  · rw [hs]
    exact { toAccounts := (accounts_fresh false isDirectory readOnly).flags rfl rfl rfl rfl
            waiting := fun _ => rfl
            plain := fun hne => absurd rfl hne
            removals := rfl
            gone := fun _ => ⟨rfl, rfl, fun hne => absurd rfl hne⟩
            owes := fun _ _ ⟨_, hf, _⟩ => absurd hf not_mem_nil }
  · rw [hs]
    exact (inv_fresh false isDirectory readOnly).opened rfl r readOnly'

theorem Inv.entry (h : Inv s) (hfile : s.files[i]? = some file) (hopen : file.isOpen = true) :
    s.fcb.entryDeleted = false := by
  by_contra hdeleted
  have hzero := (h.gone (Bool.of_not_eq_false hdeleted)).1
  exact absurd hzero (h.openObjectCount_pos hfile hopen).ne'

theorem Inv.cleaned (h : Inv s) (hfile : s.files[i]? = some file)
    (hopen : file.isOpen = true) (haccounts : Accounts (s.uncounted i file share))
    (hcleaned : Cleaned (s.uncounted i file share) file.deleteOnClose empty s') : Inv s' := by
  have hentry := h.entry hfile hopen
  have hremovals : s.removals = 0 := by
    rw [h.removals, hentry]
    rfl
  -- an intent of the handles closed so far
  have howes : (s.uncounted i file share).Owes → s.Owes ∨ file.deleteOnClose = true := by
    rintro ⟨f, hf, hclosed, hdelete⟩
    rcases mem_or_eq_of_mem_set hf with hf | rfl
    · exact .inl ⟨f, hf, hclosed, hdelete⟩
    · exact .inr hdelete
  cases hcleaned with
  | kept hkept =>
    refine ⟨haccounts, h.waiting, h.plain, h.removals, fun hgone => ?_, fun hroot hdir hows => ?_⟩
    · exact absurd (hentry.symm.trans hgone) Bool.false_ne_true
    · rcases howes hows with hows | hdelete
      · exact h.owes hroot hdir hows
      · rcases hkept with hnone | hr
        · rw [OpenFile.wantDelete, hdelete] at hnone
          cases hnone
        · rw [hroot] at hr
          cases hr
  | nonEmpty hcount hdirectory hempty =>
    refine ⟨haccounts, h.waiting, h.plain, h.removals, fun hgone => ?_, fun hroot hdir hows => ?_⟩
    · exact absurd (hentry.symm.trans hgone) Bool.false_ne_true
    · rw [hdir] at hdirectory
      cases hdirectory
  | latched hroot hbusy =>
    refine ⟨haccounts.flags rfl rfl rfl rfl, h.waiting, h.plain, h.removals, fun hgone => ?_, fun _ _ _ => .inl rfl⟩
    exact absurd (hentry.symm.trans hgone) Bool.false_ne_true
  | unlinked hroot hcount hsections =>
    have hnone : s.sections = [] := by
      rw [haccounts.sectionCount] at hsections
      exact length_eq_zero_iff.mp hsections
    refine ⟨haccounts.flags rfl rfl rfl rfl, h.waiting, h.plain, congrArg Nat.succ hremovals, fun _ => ?_, fun _ _ _ => .inr rfl⟩
    exact ⟨hcount, hnone, fun _ => ⟨rfl, rfl⟩⟩

theorem Inv.setPending {pending : Bool} (h : Inv s)
    (hquiet : s.waiting = 0 ∨ ∃ file, s.files[i]? = some file ∧ file.isOpen = true) :
    Inv (s.setPending pending) where
  toAccounts := h.toAccounts.flags rfl rfl rfl rfl
  waiting := h.waiting
  plain := h.plain
  removals := h.removals
  gone hgone := by
    obtain ⟨hcount, hsections, -⟩ := h.gone hgone
    refine ⟨hcount, hsections, fun hwaiting => ?_⟩
    rcases hquiet with hzero | ⟨file, hfile, hopen⟩
    · exact absurd hzero hwaiting
    · exact absurd hcount (h.openObjectCount_pos hfile hopen).ne'
  owes := h.owes

theorem Inv.addSection (h : Inv s) (hquiet : s.waiting = 0) (hplain : s.fcb.isDirectory = false)
    (hentry : s.fcb.entryDeleted = false) (x : BackedSection) :
    Inv { s with
      fcb := { s.fcb with header := s.fcb.header.addSection x }
      sections := x :: s.sections } where
  toAccounts := h.toAccounts.addSection x
  waiting hwaiting := absurd hquiet hwaiting
  plain _ := hplain
  removals := h.removals
  gone hgone := absurd (hentry.symm.trans hgone) Bool.false_ne_true
  owes := h.owes

/-- The release of a section fails no assertion; whoever takes the last one waits for the gate. -/
theorem Inv.release (h : Inv s) (hx : x ∈ s.sections) :
    ∃ s', s.step (.releaseSection x) = .ok (s', statusSuccess) ∧ Inv s' ∧
      s'.fcb.isRoot = s.fcb.isRoot ∧ s'.files = s.files ∧ s'.removals = s.removals ∧
      s'.fcb.openObjectCount = s.fcb.openObjectCount ∧ s'.fcb.unlinkPending = s.fcb.unlinkPending ∧
      s'.fcb.isDirectory = s.fcb.isDirectory ∧ s'.fcb.entryDeleted = s.fcb.entryDeleted ∧
      s'.fcb.header.deletePending = s.fcb.header.deletePending ∧
      (s.sections.erase x = [] → s'.waiting = s.waiting + 1) := by
  obtain ⟨header, hremove, hcount, haccounts, hpending⟩ := h.toAccounts.removeSection hx
  have hne : s.sections ≠ [] := ne_nil_of_mem hx
  have hidle : s.waiting = 0 := by
    by_contra hwaiting
    exact hne (h.waiting hwaiting)
  have hentry : s.fcb.entryDeleted = false := by
    by_contra hdeleted
    exact hne (h.gone (Bool.of_not_eq_false hdeleted)).2.1
  refine ⟨{ s with
      fcb := { s.fcb with header }
      sections := s.sections.erase x
      waiting := if header.sectionCount = 0 then s.waiting + 1 else s.waiting }, ?_,
    ⟨⟨haccounts.opens, haccounts.share, haccounts.counted, haccounts.sectionCount,
      haccounts.imageSectionCount, haccounts.writableSectionCount⟩, fun hwaiting => ?_,
      fun _ => h.plain hne, h.removals,
      fun hgone => absurd (hentry.symm.trans hgone) Bool.false_ne_true, h.owes⟩,
    rfl, rfl, rfl, rfl, rfl, rfl, rfl, hpending, fun hlast => ?_⟩
  · rw [OpenFile.step, OpenFile.iopSectionBackingReleased, if_neg (not_not_intro hx), hremove]
    rfl
  · change (if header.sectionCount = 0 then s.waiting + 1 else s.waiting) ≠ 0 at hwaiting
    split at hwaiting
    case isTrue hzero =>
      rw [hcount] at hzero
      exact length_eq_zero_iff.mp hzero
    case isFalse => exact absurd hidle hwaiting
  · change (if header.sectionCount = 0 then s.waiting + 1 else s.waiting) = s.waiting + 1
    rw [hlast] at hcount
    exact if_pos hcount

theorem fatVfsSectionsReleased_cases (s : OpenFile) (empty : Bool) (hwaiting : s.waiting ≠ 0) :
    (s.fatVfsSectionsReleased empty).1 = { s with waiting := s.waiting - 1 } ∨
      s.fcb.openObjectCount = 0 ∧
        (s.fcb.unlinkPending = true ∨ s.fcb.header.deletePending = true) ∧
        (s.fatVfsSectionsReleased empty).1 = { s with waiting := s.waiting - 1 }.unlink := by
  rw [OpenFile.fatVfsSectionsReleased, if_neg hwaiting]
  dsimp only
  split
  · exact .inl rfl
  case isFalse hcount =>
    split
    · exact .inl rfl
    case isFalse hintent =>
      split
      · exact .inl rfl
      · refine .inr ⟨?_, ?_, rfl⟩
        · by_contra hne
          exact hcount (.inr hne)
        · cases hunlink : s.fcb.unlinkPending with
          | true => exact .inl rfl
          | false =>
            refine .inr ?_
            by_contra hpending
            exact hintent ⟨by rw [hunlink]; rfl, by simpa using hpending⟩

theorem Inv.sectionsReleased (h : Inv s) (empty : Bool) : Inv (s.fatVfsSectionsReleased empty).1 := by
  by_cases hwaiting : s.waiting = 0
  · rw [OpenFile.fatVfsSectionsReleased, if_pos hwaiting]
    exact h
  · have hsections := h.waiting hwaiting
    rcases fatVfsSectionsReleased_cases s empty hwaiting with hs | ⟨hcount, hintent, hs⟩
    · rw [hs]
      refine ⟨h.toAccounts.flags rfl rfl rfl rfl, fun _ => hsections, h.plain, h.removals, fun hgone => ?_,
        h.owes⟩
      obtain ⟨hcount, -, hflags⟩ := h.gone hgone
      exact ⟨hcount, hsections, fun _ => hflags hwaiting⟩
    · -- the entry is still there, or no intent would be left
      have hentry : s.fcb.entryDeleted = false := by
        by_contra hdeleted
        obtain ⟨-, -, hflags⟩ := h.gone (Bool.of_not_eq_false hdeleted)
        obtain ⟨hunlink, hpending⟩ := hflags hwaiting
        rw [hunlink, hpending] at hintent
        rcases hintent with hf | hf <;> cases hf
      have hremovals : s.removals = 0 := by
        rw [h.removals, hentry]
        rfl
      rw [hs]
      exact ⟨h.toAccounts.flags rfl rfl rfl rfl, fun _ => hsections, h.plain, congrArg Nat.succ hremovals,
        fun _ => ⟨hcount, hsections, fun _ => ⟨rfl, rfl⟩⟩, fun _ _ _ => .inr rfl⟩

/-! ## Steps -/

inductive Stepped (s : OpenFile) : OpenFile → Prop
  | same : Stepped s s
  | opened (r : OpenRequest) (readOnly : Bool) (hentry : s.fcb.entryDeleted = false) :
    Stepped s (s.opened r readOnly)
  | cleaned {i : Nat} {file : FileObject} {share : ShareAccess} {empty : Bool} {s' : OpenFile}
    (hfile : s.files[i]? = some file) (hopen : file.isOpen = true)
    (haccounts : Accounts (s.uncounted i file share))
    (hcleaned : Cleaned (s.uncounted i file share) file.deleteOnClose empty s') : Stepped s s'
  | pending {i : Nat} {pending : Bool}
    (hquiet : s.waiting = 0 ∨ ∃ file, s.files[i]? = some file ∧ file.isOpen = true) :
    Stepped s (s.setPending pending)
  | section_ {x : BackedSection} (hquiet : s.waiting = 0) (hplain : s.fcb.isDirectory = false)
    (hentry : s.fcb.entryDeleted = false) : Stepped s { s with
      fcb := { s.fcb with header := s.fcb.header.addSection x }
      sections := x :: s.sections }
  | released {s' : OpenFile} (hinv : Inv s') (hentry : s'.fcb.entryDeleted = s.fcb.entryDeleted)
    (hunlink : s'.fcb.unlinkPending = s.fcb.unlinkPending) : Stepped s s'
  | callback (empty : Bool) : Stepped s (s.fatVfsSectionsReleased empty).1

theorem Inv.stepped (h : Inv s) (hop : Undisturbed s op) (hstep : s.step op = .ok (s', status)) :
    Stepped s s' := by
  cases op with
  | open_ r =>
    rw [OpenFile.step] at hstep
    split at hstep
    · cases hstep
      exact .same
    case isFalse hentry =>
      obtain rfl : (s.fatVfsCreate false r).1 = s' := congrArg Prod.fst (Except.ok.inj hstep)
      rcases fatVfsCreate_cases s r with hs | ⟨readOnly, hs⟩
      · rw [hs]
        exact .same
      · rw [hs]
        exact .opened r readOnly (Bool.eq_false_iff.mpr hentry)
  | cleanup i empty =>
    cases hfile : s.files[i]? with
    | none =>
      rw [OpenFile.step, OpenFile.iopCleanupFileObject, hfile] at hstep
      cases hstep
      exact .same
    | some file =>
      cases hopen : file.isOpen with
      | false =>
        rw [OpenFile.step, OpenFile.iopCleanupFileObject, hfile] at hstep
        dsimp only at hstep
        rw [if_pos (by rw [hopen]; rfl)] at hstep
        cases hstep
        exact .same
      | true =>
        obtain ⟨share, s1, hrun, haccounts, hcleaned⟩ := h.toAccounts.cleanup hfile hopen empty
        cases hstep.symm.trans hrun
        exact .cleaned hfile hopen haccounts hcleaned
  | setDisposition i deleteFile empty =>
    rw [OpenFile.step] at hstep
    split at hstep
    · cases hstep
      exact .same
    · obtain rfl : (s.fatVfsSetDisposition deleteFile empty).1 = s' :=
        congrArg Prod.fst (Except.ok.inj hstep)
      rw [OpenFile.fatVfsSetDisposition]
      repeat' split
      all_goals first | exact .same | exact .pending hop
  | createSection i x built =>
    rw [OpenFile.step, OpenFile.iopBuildSectionBacking] at hstep
    split at hstep
    · cases hstep
      exact .same
    dsimp only at hstep
    split at hstep
    · cases hstep
      exact .same
    split at hstep
    · cases hstep
      exact .same
    case isFalse hplain =>
    split at hstep
    · cases hstep
      exact .same
    case isFalse hentry =>
    split at hstep
    · cases hstep
      exact .same
    · cases hstep
      exact .section_ hop (Bool.eq_false_iff.mpr hplain) (Bool.eq_false_iff.mpr hentry)
  | releaseSection x =>
    by_cases hx : x ∈ s.sections
    · obtain ⟨s1, hrun, hinv, -, -, -, -, hunlink, -, hentry, -⟩ := h.release hx
      cases hstep.symm.trans hrun
      exact .released hinv hentry hunlink
    · rw [OpenFile.step, OpenFile.iopSectionBackingReleased, if_pos hx] at hstep
      cases hstep
      exact .same
  | sectionsReleased empty =>
    obtain rfl : (s.fatVfsSectionsReleased empty).1 = s' := congrArg Prod.fst (Except.ok.inj hstep)
    exact .callback empty

theorem Inv.step (h : Inv s) (hstep : Stepped s s') : Inv s' := by
  cases hstep with
  | same => exact h
  | opened r readOnly hentry => exact h.opened hentry r readOnly
  | cleaned hfile hopen haccounts hcleaned => exact h.cleaned hfile hopen haccounts hcleaned
  | pending hquiet => exact h.setPending hquiet
  | section_ hquiet hplain hentry => exact h.addSection hquiet hplain hentry _
  | released hinv _ _ => exact hinv
  | callback empty => exact h.sectionsReleased empty

theorem Stepped.entryDeleted (hstep : Stepped s s') (h : s.fcb.entryDeleted = true) :
    s'.fcb.entryDeleted = true := by
  cases hstep with
  | same | opened | pending | section_ => exact h
  | cleaned _ _ _ hcleaned =>
    cases hcleaned with
    | kept | nonEmpty | latched => exact h
    | unlinked => rfl
  | released _ hentry _ => exact hentry.trans h
  | callback empty =>
    by_cases hwaiting : s.waiting = 0
    · rw [OpenFile.fatVfsSectionsReleased, if_pos hwaiting]
      exact h
    · rcases fatVfsSectionsReleased_cases s empty hwaiting with hs | ⟨-, -, hs⟩
      · rw [hs]
        exact h
      · rw [hs]
        rfl

theorem Stepped.unlinkPending (hstep : Stepped s s') (h : s.fcb.unlinkPending = true) :
    s'.fcb.unlinkPending = true ∨ s'.fcb.entryDeleted = true := by
  cases hstep with
  | same | opened | pending | section_ => exact .inl h
  | cleaned _ _ _ hcleaned =>
    cases hcleaned with
    | kept | nonEmpty => exact .inl h
    | latched => exact .inl rfl
    | unlinked => exact .inr rfl
  | released _ _ hunlink => exact .inl (hunlink.trans h)
  | callback empty =>
    by_cases hwaiting : s.waiting = 0
    · rw [OpenFile.fatVfsSectionsReleased, if_pos hwaiting]
      exact .inl h
    · rcases fatVfsSectionsReleased_cases s empty hwaiting with hs | ⟨-, -, hs⟩
      · rw [hs]
        exact .inl h
      · rw [hs]
        exact .inr rfl

theorem Reaches.inv (h : Reaches Undisturbed s) : Inv s := by
  induction h with
  | found isRoot isDirectory readOnly => exact inv_fresh isRoot isDirectory readOnly
  | created isDirectory readOnly r => exact inv_created isDirectory readOnly r
  | step _ hop hstep ih => exact ih.step (ih.stepped hop hstep)

/-! ## The entry of the file -/

/-- A delete intent is latched. A directory that was not empty when its handle closed has none. -/
def OpenFile.Intended (s : OpenFile) : Prop :=
  s.fcb.header.deletePending = true ∨ s.fcb.unlinkPending = true ∨
    (s.fcb.isDirectory = false ∧ s.Owes)

theorem Inv.wantDelete (h : Inv s) (hfile : s.files[i]? = some file) (hopen : file.isOpen = true)
    (hroot : s.fcb.isRoot = false) (hintent : s.Intended ∨ file.deleteOnClose = true)
    (share : ShareAccess) : (s.uncounted i file share).wantDelete file.deleteOnClose = true := by
  change (file.deleteOnClose || s.fcb.header.deletePending || s.fcb.unlinkPending) = true
  rw [Bool.or_eq_true, Bool.or_eq_true]
  rcases hintent with (hpending | hunlink | ⟨hplain, howes⟩) | hdelete
  · exact .inl (.inr hpending)
  · exact .inr hunlink
  · rcases h.owes hroot hplain howes with hunlink | hdeleted
    · exact .inr hunlink
    · exact absurd ((h.entry hfile hopen).symm.trans hdeleted) Bool.false_ne_true
  · exact .inl (.inl hdelete)

def OpenFile.run (s : OpenFile) : List FileOp → Except Assertion OpenFile
  | [] => .ok s
  | op :: ops => do
    let (s, _) ← s.step op
    s.run ops

theorem Reaches.run {ops : List FileOp} (h : Reaches (fun _ _ => True) s) (hrun : s.run ops = .ok s') :
    Reaches (fun _ _ => True) s' := by
  induction ops generalizing s with
  | nil =>
    cases hrun
    exact h
  | cons op ops ih =>
    obtain ⟨⟨s1, status⟩, hstep, hrun⟩ := bind_eq_ok hrun
    exact ih (h.step trivial hstep) hrun

end Proskrnl.Fat
