import Proskrnl.Io.ShareAccess
import Proskrnl.Library.ListUpdate
import Proskrnl.Library.Outcome

/-!
# Who may have a file open together

Share modes are a relation between two opens (`ShareOpen.Compatible`) that `IO_SHARE_ACCESS` keeps as
seven sums. The opens, cleanups and
sections of one file keep the counters at these sums and the counted opens compatible
(`ShareInv`), so that `IoCheckShareAccess` reads the relation off the counters
(`shareModes_compatible`). `FatVfsCreate` may park in `FatSetFileSize` with its open counted: other
calls run before it returns.
-/

namespace Proskrnl.Io
open List

open Mm (hasFlag)
open ListUpdate (eq_append_of_getElem?)

/-- The fields of a `FILE_OBJECT` for the share modes. -/
structure ShareOpen where
  grantedAccess : Nat
  shareAccess : Nat
  shareCounted : Bool := true
  /-- `fsContext != 0`: the create has returned. -/
  fsContext : Bool
  deriving DecidableEq

namespace ShareOpen

def relevant (file : ShareOpen) : RelevantAccess := iopShareRelevantAccess file.grantedAccess

def reads (file : ShareOpen) : Bool := file.relevant.reads
def writes (file : ShareOpen) : Bool := file.relevant.writes
def deletes (file : ShareOpen) : Bool := file.relevant.deletes
def sharesRead (file : ShareOpen) : Bool := hasFlag file.shareAccess fileShareRead
def sharesWrite (file : ShareOpen) : Bool := hasFlag file.shareAccess fileShareWrite
def sharesDelete (file : ShareOpen) : Bool := hasFlag file.shareAccess fileShareDelete

/-- The counters count it: an open of attributes alone is exempt. -/
def isCounted (file : ShareOpen) : Bool := file.shareCounted && file.relevant.any

def AllowedBy (file other : ShareOpen) : Prop :=
  (file.reads → other.sharesRead) ∧ (file.writes → other.sharesWrite) ∧
    (file.deletes → other.sharesDelete)

def Compatible (file other : ShareOpen) : Prop := file.AllowedBy other ∧ other.AllowedBy file

end ShareOpen

structure SharedFile where
  fcb : IoFcb := {}
  opens : List ShareOpen := []
  sections : List BackedSection := []
  deriving DecidableEq

/-- A create that leads to the file. `checked` is the answer of what `FatVfsCreate` looks at before the
share modes. -/
structure ShareRequest where
  grantedAccess : Nat
  shareAccess : Nat
  disposition : Disposition
  options : Nat
  created : Bool := false
  isDirectory : Bool := false
  checked : NtStatus := statusSuccess
  deriving DecidableEq

/-- The create goes on to `FatSetFileSize`. -/
def ShareRequest.truncates (r : ShareRequest) : Bool :=
  !r.created && !r.isDirectory && iopDispositionTruncates r.disposition

/-- Its file object as `FatVfsCreate` counts it. -/
def ShareRequest.file (r : ShareRequest) : ShareOpen where
  grantedAccess := r.grantedAccess
  shareAccess := r.shareAccess
  fsContext := !r.truncates

namespace SharedFile

def counted (s : SharedFile) : List ShareOpen := s.opens.filter ShareOpen.isCounted

/-- `IoSetShareAccess` and `file->shareCounted = TRUE` -/
def admitted (s : SharedFile) (r : ShareRequest) : SharedFile :=
  { s with
    fcb := { s.fcb with
      shareAccess := ioSetShareAccess r.grantedAccess r.shareAccess s.fcb.shareAccess }
    opens := s.opens ++ [r.file] }

/-- `IoCheckShareAccess` of a create. -/
def shareStatus (s : SharedFile) (r : ShareRequest) : NtStatus :=
  ioCheckShareAccess r.grantedAccess r.shareAccess r.disposition r.options s.fcb

/-- `FatVfsCreate` up to `FatSetFileSize`. -/
def create (s : SharedFile) (r : ShareRequest) : SharedFile :=
  if !ntSuccess r.checked then s
  else if !ntSuccess (s.shareStatus r) then s
  else s.admitted r

/-- `IoRemoveShareAccess` and `file->shareCounted = FALSE` -/
def uncounted (s : SharedFile) (i : Nat) (file : ShareOpen) : Except Assertion SharedFile := do
  let shareAccess ← ioRemoveShareAccess file.grantedAccess file.shareAccess s.fcb.shareAccess
  .ok { s with
    fcb := { s.fcb with shareAccess }
    opens := s.opens.set i { file with shareCounted := false } }

/-- `FatVfsCreate` behind `FatSetFileSize`. -/
def truncated (s : SharedFile) (i : Nat) (status : NtStatus) : Except Assertion SharedFile :=
  match s.opens[i]? with
  | none => .ok s
  | some file =>
    if file.fsContext ∨ !file.shareCounted then .ok s
    else if ntSuccess status then .ok { s with opens := s.opens.set i { file with fsContext := true } }
    else s.uncounted i file

/-- `IopCleanupFileObject`, at the last handle or where `ObpCreateHandle` fails. -/
def cleanup (s : SharedFile) (i : Nat) : Except Assertion SharedFile :=
  match s.opens[i]? with
  | none => .ok s
  | some file => if !file.fsContext ∨ !file.shareCounted then .ok s else s.uncounted i file

/-- `IopBuildSectionBacking`; `built` is its answer before the counters. -/
def createSection (s : SharedFile) (x : BackedSection) (built : NtStatus) : SharedFile :=
  if !ntSuccess built then s
  else { s with fcb := s.fcb.addSection x, sections := x :: s.sections }

/-- `IopSectionBackingReleased` -/
def releaseSection (s : SharedFile) (x : BackedSection) : Except Assertion SharedFile :=
  if x ∉ s.sections then .ok s
  else do
    let fcb ← s.fcb.removeSection x
    .ok { s with fcb, sections := s.sections.erase x }

end SharedFile

inductive ShareOp
  | create (r : ShareRequest)
  | truncated (i : Nat) (status : NtStatus)
  | cleanup (i : Nat)
  | createSection (x : BackedSection) (built : NtStatus)
  | releaseSection (x : BackedSection)
  deriving DecidableEq

def SharedFile.step (s : SharedFile) : ShareOp → Except Assertion SharedFile
  | .create r => .ok (s.create r)
  | .truncated i status => s.truncated i status
  | .cleanup i => s.cleanup i
  | .createSection x built => .ok (s.createSection x built)
  | .releaseSection x => s.releaseSection x

/-- Some calls on a file whose control block is new (`IopInitializeFcb`). -/
def runShares (ops : List ShareOp) : Except Assertion SharedFile :=
  ops.foldlM SharedFile.step {}

def WantsUnshared (desiredAccess : Nat) (share : ShareAccess) : Prop :=
  let a := iopShareRelevantAccess desiredAccess
  (a.reads ∧ share.sharedRead ≠ share.openCount) ∨ (a.writes ∧ share.sharedWrite ≠ share.openCount) ∨
    (a.deletes ∧ share.sharedDelete ≠ share.openCount)

instance : Decidable (WantsUnshared a share) := by unfold WantsUnshared; infer_instance

def sectionHold (desiredAccess shareAccess : Nat) (disposition : Disposition) (options : Nat)
    (fcb : IoFcb) : NtStatus :=
  if (fcb.writableSectionCount ≠ 0 ∧ !hasFlag shareAccess fileShareWrite) ∨
      (fcb.imageSectionCount ≠ 0 ∧ hasFlag desiredAccess fileWriteData) then statusSharingViolation
  else if fcb.imageSectionCount ≠ 0 ∧ hasFlag options fileDeleteOnClose then statusCannotDelete
  else if fcb.sectionCount ≠ 0 ∧ iopDispositionTruncates disposition then statusUserMappedFile
  else statusSuccess

theorem sectionHold_fails {desiredAccess shareAccess options : Nat} {disposition : Disposition}
    {fcb : IoFcb} (h : sectionHold desiredAccess shareAccess disposition options fcb ≠ statusSuccess) :
    ntSuccess (sectionHold desiredAccess shareAccess disposition options fcb) = false := by
  unfold sectionHold at h ⊢
  split_ifs at h ⊢
  · rfl
  · rfl
  · rfl
  · exact absurd rfl h

def SharesTooLittle (shareAccess : Nat) (share : ShareAccess) : Prop :=
  (!hasFlag shareAccess fileShareRead ∧ share.readers ≠ 0) ∨
    (!hasFlag shareAccess fileShareWrite ∧ share.writers ≠ 0) ∨
      (!hasFlag shareAccess fileShareDelete ∧ share.deleters ≠ 0)

instance : Decidable (SharesTooLittle shareAccess share) := by unfold SharesTooLittle; infer_instance

theorem ioCheckShareAccess_eq (desiredAccess shareAccess : Nat) (disposition : Disposition)
    (options : Nat) (fcb : IoFcb) :
    ioCheckShareAccess desiredAccess shareAccess disposition options fcb =
      if WantsUnshared desiredAccess fcb.shareAccess then statusSharingViolation
      else if sectionHold desiredAccess shareAccess disposition options fcb ≠ statusSuccess then
        sectionHold desiredAccess shareAccess disposition options fcb
      else if (iopShareRelevantAccess desiredAccess).any ∧ SharesTooLittle shareAccess fcb.shareAccess then
        statusSharingViolation
      else statusSuccess := by
  unfold ioCheckShareAccess
  refine if_congr Iff.rfl rfl ?_
  unfold sectionHold
  split
  · exact (if_pos (by decide)).symm
  split
  · exact (if_pos (by decide)).symm
  split
  · exact (if_pos (by decide)).symm
  rw [if_neg (not_not.mpr rfl)]
  cases (iopShareRelevantAccess desiredAccess).any with
  | false => simp
  | true => simp [SharesTooLittle]

def shareSums (l : List ShareOpen) : ShareAccess where
  openCount := l.length
  readers := l.countP ShareOpen.reads
  writers := l.countP ShareOpen.writes
  deleters := l.countP ShareOpen.deletes
  sharedRead := l.countP ShareOpen.sharesRead
  sharedWrite := l.countP ShareOpen.sharesWrite
  sharedDelete := l.countP ShareOpen.sharesDelete

variable {file other : ShareOpen} {l l1 l2 : List ShareOpen} {share : ShareAccess}
  {desiredAccess shareAccess : Nat}

private theorem countP_middle (p : ShareOpen → Bool) :
    (l1 ++ file :: l2).countP p = (l1 ++ l2).countP p + (p file).toNat := by
  rw [countP_append, countP_append, countP_cons]
  cases p file with
  | true => exact (Nat.add_assoc _ _ _).symm
  | false => rfl

theorem shareSums_middle (hany : file.relevant.any = true) :
    shareSums (l1 ++ file :: l2) =
      ioSetShareAccess file.grantedAccess file.shareAccess (shareSums (l1 ++ l2)) := by
  unfold ShareOpen.relevant at hany
  simp only [ioSetShareAccess, hany, shareSums, countP_middle, Bool.not_true, Bool.false_eq_true, if_false,
    ShareAccess.mk.injEq]
  refine ⟨?_, rfl, rfl, rfl, rfl, rfl, rfl⟩
  rw [length_append, length_append, length_cons, Nat.add_assoc]

theorem ioRemoveShareAccess_set (desiredAccess shareAccess : Nat) (share : ShareAccess) :
    ioRemoveShareAccess desiredAccess shareAccess (ioSetShareAccess desiredAccess shareAccess share) =
      .ok share := by
  cases hany : (iopShareRelevantAccess desiredAccess).any with
  | false => simp [ioRemoveShareAccess, ioSetShareAccess, hany]
  | true => simp [ioRemoveShareAccess, ioSetShareAccess, hany]

theorem wantsUnshared_sums :
    WantsUnshared file.grantedAccess (shareSums l) ↔ ∃ o ∈ l, ¬file.AllowedBy o := by
  have hall (p : ShareOpen → Bool) : l.countP p ≠ l.length ↔ ∃ o ∈ l, ¬p o := by
    rw [Ne, countP_eq_length, not_forall₂]
    simp only [exists_prop]
  change (file.reads ∧ l.countP ShareOpen.sharesRead ≠ l.length) ∨
    (file.writes ∧ l.countP ShareOpen.sharesWrite ≠ l.length) ∨
      (file.deletes ∧ l.countP ShareOpen.sharesDelete ≠ l.length) ↔ _
  rw [hall, hall, hall]
  unfold ShareOpen.AllowedBy
  constructor
  · rintro (⟨h, o, ho, hn⟩ | ⟨h, o, ho, hn⟩ | ⟨h, o, ho, hn⟩)
    · exact ⟨o, ho, fun ha => hn (ha.1 h)⟩
    · exact ⟨o, ho, fun ha => hn (ha.2.1 h)⟩
    · exact ⟨o, ho, fun ha => hn (ha.2.2 h)⟩
  · rintro ⟨o, ho, hn⟩
    rw [not_and_or, not_and_or, Classical.not_imp, Classical.not_imp, Classical.not_imp] at hn
    exact hn.imp (fun h => ⟨h.1, o, ho, h.2⟩) (Or.imp (fun h => ⟨h.1, o, ho, h.2⟩)
      fun h => ⟨h.1, o, ho, h.2⟩)

theorem sharesTooLittle_sums :
    SharesTooLittle file.shareAccess (shareSums l) ↔ ∃ o ∈ l, ¬o.AllowedBy file := by
  have hany (p : ShareOpen → Bool) : l.countP p ≠ 0 ↔ ∃ o ∈ l, p o := by
    rw [← Nat.pos_iff_ne_zero, countP_pos_iff]
  change (!file.sharesRead ∧ l.countP ShareOpen.reads ≠ 0) ∨
    (!file.sharesWrite ∧ l.countP ShareOpen.writes ≠ 0) ∨
      (!file.sharesDelete ∧ l.countP ShareOpen.deletes ≠ 0) ↔ _
  rw [hany, hany, hany]
  unfold ShareOpen.AllowedBy
  simp only [Bool.not_eq_true']
  constructor
  · rintro (⟨h, o, ho, hw⟩ | ⟨h, o, ho, hw⟩ | ⟨h, o, ho, hw⟩)
    · exact ⟨o, ho, fun ha => absurd (ha.1 hw) (Bool.eq_false_iff.mp h)⟩
    · exact ⟨o, ho, fun ha => absurd (ha.2.1 hw) (Bool.eq_false_iff.mp h)⟩
    · exact ⟨o, ho, fun ha => absurd (ha.2.2 hw) (Bool.eq_false_iff.mp h)⟩
  · rintro ⟨o, ho, hn⟩
    rw [not_and_or, not_and_or, Classical.not_imp, Classical.not_imp, Classical.not_imp] at hn
    exact hn.imp (fun h => ⟨Bool.eq_false_iff.mpr h.2, o, ho, h.1⟩)
      (Or.imp (fun h => ⟨Bool.eq_false_iff.mpr h.2, o, ho, h.1⟩)
        fun h => ⟨Bool.eq_false_iff.mpr h.2, o, ho, h.1⟩)

theorem refused_iff_incompatible (file : ShareOpen) (l : List ShareOpen) :
    (WantsUnshared file.grantedAccess (shareSums l) ∨
        (file.relevant.any ∧ SharesTooLittle file.shareAccess (shareSums l))) ↔
      file.relevant.any ∧ ∃ o ∈ l, ¬o.Compatible file := by
  have hwants : WantsUnshared file.grantedAccess (shareSums l) → file.relevant.any = true := by
    rintro (h | h | h)
    · exact Bool.or_eq_true_iff.mpr (.inl (Bool.or_eq_true_iff.mpr (.inl h.1)))
    · exact Bool.or_eq_true_iff.mpr (.inl (Bool.or_eq_true_iff.mpr (.inr h.1)))
    · exact Bool.or_eq_true_iff.mpr (.inr h.1)
  constructor
  · rintro (h | ⟨hany, h⟩)
    · obtain ⟨o, ho, hn⟩ := wantsUnshared_sums.mp h
      exact ⟨hwants h, o, ho, fun hc => hn hc.2⟩
    · obtain ⟨o, ho, hn⟩ := sharesTooLittle_sums.mp h
      exact ⟨hany, o, ho, fun hc => hn hc.1⟩
  · rintro ⟨hany, o, ho, hn⟩
    rcases not_and_or.mp hn with hn | hn
    · exact .inr ⟨hany, sharesTooLittle_sums.mpr ⟨o, ho, hn⟩⟩
    · exact .inl (wantsUnshared_sums.mpr ⟨o, ho, hn⟩)

variable {s s' : SharedFile} {r : ShareRequest} {i : Nat} {x : BackedSection} {status : NtStatus}

/-- The counters are the sums over the opens and the sections, and the counted opens are compatible. -/
structure ShareInv (s : SharedFile) : Prop where
  sums : s.fcb.shareAccess = shareSums s.counted
  compatible : s.counted.Pairwise ShareOpen.Compatible
  sectionCount : s.fcb.sectionCount = s.sections.length
  imageSectionCount : s.fcb.imageSectionCount = s.sections.countP BackedSection.isImage
  writableSectionCount : s.fcb.writableSectionCount = s.sections.countP BackedSection.holdsWrite

theorem shareInv_init : ShareInv {} := ⟨rfl, .nil, rfl, rfl, rfl⟩

theorem SharedFile.counted_admitted (s : SharedFile) (r : ShareRequest) :
    (s.admitted r).counted = if r.file.relevant.any then s.counted ++ [r.file] else s.counted := by
  unfold counted admitted
  rw [filter_append, filter_singleton]
  change s.opens.filter _ ++ (bif true && r.file.relevant.any then [r.file] else []) = _
  cases r.file.relevant.any with
  | true => rfl
  | false => exact append_nil _

/-- Steps 1 and 4 refuse exactly what would break the compatibility. -/
theorem ShareInv.refuses_iff (h : ShareInv s) (r : ShareRequest) :
    (WantsUnshared r.grantedAccess s.fcb.shareAccess ∨
        ((iopShareRelevantAccess r.grantedAccess).any ∧
          SharesTooLittle r.shareAccess s.fcb.shareAccess)) ↔
      ¬(s.admitted r).counted.Pairwise ShareOpen.Compatible := by
  rw [h.sums, s.counted_admitted r]
  refine (refused_iff_incompatible r.file s.counted).trans ?_
  cases hany : r.file.relevant.any with
  | false => exact ⟨fun hr => Bool.noConfusion hr.1, fun hn => absurd h.compatible hn⟩
  | true =>
    rw [if_pos rfl, pairwise_append]
    constructor
    · rintro ⟨-, o, ho, hn⟩ hp
      exact hn (hp.2.2 o ho r.file (mem_singleton_self _))
    · intro hn
      by_contra hnone
      refine hn ⟨h.compatible, pairwise_singleton _ _, fun o ho f hf => ?_⟩
      obtain rfl := mem_singleton.mp hf
      by_contra hincompatible
      exact hnone ⟨rfl, o, ho, hincompatible⟩

theorem ShareInv.admitted (h : ShareInv s) (hallowed : ntSuccess (s.shareStatus r) = true) :
    ShareInv (s.admitted r) := by
  have hsums : (s.admitted r).fcb.shareAccess = shareSums (s.admitted r).counted := by
    change ioSetShareAccess r.file.grantedAccess r.file.shareAccess s.fcb.shareAccess = _
    rw [s.counted_admitted r, h.sums]
    cases hany : r.file.relevant.any with
    | true =>
      rw [if_pos rfl, shareSums_middle hany, append_nil]
    | false =>
      change (iopShareRelevantAccess r.file.grantedAccess).any = false at hany
      rw [ioSetShareAccess, hany]
      rfl
  refine ⟨hsums, ?_, h.sectionCount, h.imageSectionCount, h.writableSectionCount⟩
  by_contra hbreaks
  unfold SharedFile.shareStatus at hallowed
  rw [ioCheckShareAccess_eq] at hallowed
  rcases (h.refuses_iff r).mpr hbreaks with hwants | hlittle
  · rw [if_pos hwants] at hallowed
    exact absurd hallowed (by decide)
  · split_ifs at hallowed with hwants hhold
    · exact absurd hallowed (by decide)
    · exact absurd hallowed (Bool.eq_false_iff.mp (sectionHold_fails hhold))
    · exact absurd hallowed (by decide)

theorem ShareInv.create (h : ShareInv s) (r : ShareRequest) : ShareInv (s.create r) := by
  unfold SharedFile.create
  split
  · exact h
  split
  · exact h
  · rename_i hallowed
    rw [Bool.not_eq_true', Bool.not_eq_false] at hallowed
    exact h.admitted hallowed

theorem ShareOpen.Compatible.symm (h : file.Compatible other) : other.Compatible file := ⟨h.2, h.1⟩

def ShareAgrees (share : ShareAccess) (opens : List ShareOpen) : Prop :=
  share = shareSums (opens.filter ShareOpen.isCounted) ∧
    (opens.filter ShareOpen.isCounted).Pairwise ShareOpen.Compatible

theorem ShareInv.agrees (h : ShareInv s) : ShareAgrees s.fcb.shareAccess s.opens := ⟨h.sums, h.compatible⟩

theorem ShareInv.opens (h : ShareInv s) {opens : List ShareOpen} (hagrees : ShareAgrees share opens) :
    ShareInv { s with fcb := { s.fcb with shareAccess := share }, opens } :=
  ⟨hagrees.1, hagrees.2, h.sectionCount, h.imageSectionCount, h.writableSectionCount⟩

theorem shareAgrees_uncounted (hcounted : file.isCounted = false) :
    ShareAgrees share (l1 ++ file :: l2) ↔ ShareAgrees share (l1 ++ l2) := by
  have hfilter : (l1 ++ file :: l2).filter ShareOpen.isCounted = (l1 ++ l2).filter ShareOpen.isCounted := by
    rw [filter_append, filter_append, filter_cons_of_neg (Bool.eq_false_iff.mp hcounted)]
  unfold ShareAgrees
  rw [hfilter]

theorem shareAgrees_counted (hcounted : file.isCounted = true) :
    ShareAgrees share (l1 ++ file :: l2) ↔
      share = ioSetShareAccess file.grantedAccess file.shareAccess
          (shareSums ((l1 ++ l2).filter ShareOpen.isCounted)) ∧
        (∀ o ∈ (l1 ++ l2).filter ShareOpen.isCounted, file.Compatible o) ∧
          ((l1 ++ l2).filter ShareOpen.isCounted).Pairwise ShareOpen.Compatible := by
  have hany : file.relevant.any = true := (Bool.and_eq_true_iff.mp hcounted).2
  unfold ShareAgrees
  rw [filter_append, filter_cons_of_pos hcounted, shareSums_middle hany,
    pairwise_middle fun h => h.symm, pairwise_cons, ← filter_append]

theorem ShareAgrees.contextSet (h : ShareAgrees share (l1 ++ file :: l2)) (context : Bool) :
    ShareAgrees share (l1 ++ { file with fsContext := context } :: l2) := by
  have hsame : ShareOpen.isCounted { file with fsContext := context } = file.isCounted := rfl
  cases hcounted : file.isCounted with
  | false =>
    rw [shareAgrees_uncounted hcounted] at h
    exact (shareAgrees_uncounted (hsame.trans hcounted)).mpr h
  | true =>
    rw [shareAgrees_counted hcounted] at h
    exact (shareAgrees_counted (hsame.trans hcounted)).mpr h

theorem ShareAgrees.remove (h : ShareAgrees share (l1 ++ file :: l2)) (hflag : file.shareCounted = true) :
    ∃ rest, ioRemoveShareAccess file.grantedAccess file.shareAccess share = .ok rest ∧
      ioSetShareAccess file.grantedAccess file.shareAccess rest = share ∧
        ShareAgrees rest (l1 ++ { file with shareCounted := false } :: l2) := by
  cases hany : file.relevant.any with
  | false =>
    have hcounted : file.isCounted = false := by rw [ShareOpen.isCounted, hany, Bool.and_false]
    change (iopShareRelevantAccess file.grantedAccess).any = false at hany
    refine ⟨share, ?_, ?_, ?_⟩
    · rw [ioRemoveShareAccess, hany]
      rfl
    · rw [ioSetShareAccess, hany]
      rfl
    · exact (shareAgrees_uncounted rfl).mpr ((shareAgrees_uncounted hcounted).mp h)
  | true =>
    have hcounted : file.isCounted = true := by rw [ShareOpen.isCounted, hflag, hany, Bool.and_self]
    obtain ⟨hshare, -, hcompatible⟩ := (shareAgrees_counted hcounted).mp h
    refine ⟨_, ?_, hshare.symm, (shareAgrees_uncounted rfl).mpr ⟨rfl, hcompatible⟩⟩
    rw [hshare]
    exact ioRemoveShareAccess_set _ _ _

section
variable (h : ShareInv s)
include h

theorem ShareInv.uncounted (hfile : s.opens[i]? = some file)
    (hflag : file.shareCounted = true) : ∃ s', s.uncounted i file = .ok s' ∧ ShareInv s' := by
  obtain ⟨l1, l2, hopens, rfl⟩ := eq_append_of_getElem? hfile
  obtain ⟨rest, hremove, -, hrest⟩ := ShareAgrees.remove (hopens ▸ h.agrees) hflag
  refine ⟨_, ?_, h.opens hrest⟩
  unfold SharedFile.uncounted
  rw [hremove, hopens, ListUpdate.set_append_cons]
  rfl

theorem ShareInv.truncated (i : Nat) (status : NtStatus) :
    ∃ s', s.truncated i status = .ok s' ∧ ShareInv s' := by
  unfold SharedFile.truncated
  split
  · exact ⟨s, rfl, h⟩
  rename_i file hfile
  split
  · exact ⟨s, rfl, h⟩
  rename_i hpending
  rw [not_or, Bool.not_eq_true', Bool.not_eq_false] at hpending
  split
  · obtain ⟨l1, l2, hopens, rfl⟩ := eq_append_of_getElem? hfile
    have hagrees : ShareAgrees s.fcb.shareAccess (l1 ++ file :: l2) := hopens ▸ h.agrees
    refine ⟨_, rfl, ?_⟩
    rw [hopens, ListUpdate.set_append_cons]
    exact h.opens (hagrees.contextSet true)
  · exact h.uncounted hfile hpending.2

theorem ShareInv.cleanup (i : Nat) : ∃ s', s.cleanup i = .ok s' ∧ ShareInv s' := by
  unfold SharedFile.cleanup
  split
  · exact ⟨s, rfl, h⟩
  rename_i file hfile
  split
  · exact ⟨s, rfl, h⟩
  · rename_i hheld
    rw [not_or, Bool.not_eq_true', Bool.not_eq_false, Bool.not_eq_true', Bool.not_eq_false] at hheld
    exact h.uncounted hfile hheld.2

theorem ShareInv.sectionCounts : SectionCounts s.fcb s.sections :=
  ⟨h.sectionCount, h.imageSectionCount, h.writableSectionCount⟩

theorem ShareInv.createSection (x : BackedSection) (built : NtStatus) :
    ShareInv (s.createSection x built) := by
  unfold SharedFile.createSection
  split
  · exact h
  · have hcounts := h.sectionCounts.add x
    exact ⟨h.sums, h.compatible, hcounts.1, hcounts.2, hcounts.3⟩

theorem ShareInv.releaseSection (x : BackedSection) :
    ∃ s', s.releaseSection x = .ok s' ∧ ShareInv s' := by
  unfold SharedFile.releaseSection
  split
  · exact ⟨s, rfl, h⟩
  · rename_i hx
    obtain ⟨fcb, hremove, hcounts, hshare, -⟩ := h.sectionCounts.remove (not_not.mp hx)
    rw [hremove]
    exact ⟨_, rfl, hshare.trans h.sums, h.compatible, hcounts.1, hcounts.2, hcounts.3⟩

theorem ShareInv.step (op : ShareOp) : ∃ s', s.step op = .ok s' ∧ ShareInv s' := by
  cases op with
  | create r => exact ⟨_, rfl, h.create r⟩
  | truncated i status => exact h.truncated i status
  | cleanup i => exact h.cleanup i
  | createSection x built => exact ⟨_, rfl, h.createSection x built⟩
  | releaseSection x => exact h.releaseSection x

theorem ShareInv.run (ops : List ShareOp) :
    ∃ s', ops.foldlM SharedFile.step s = .ok s' ∧ ShareInv s' := by
  induction ops generalizing s with
  | nil => exact ⟨s, rfl, h⟩
  | cons op ops ih =>
    obtain ⟨s', hstep, h'⟩ := h.step op
    rw [foldlM_cons, hstep]
    exact ih h'

end

/-- The calls on a file fail no assertion and take nothing from a counter that was not added to it. They
leave its counters at the sums over the counted opens and any two of these compatible. Steps 1 and 4 of
`IoCheckShareAccess` refuse a create exactly where admitting it would break that, with step 2 asking the
sections between them. -/
theorem shareModes_compatible (ops : List ShareOp) :
    ∃ s, runShares ops = .ok s ∧
      s.fcb.shareAccess = shareSums s.counted ∧
      s.counted.Pairwise ShareOpen.Compatible ∧
      SectionCounts s.fcb s.sections ∧
      (∀ file ∈ s.opens, file.shareCounted →
        ∃ rest, ioRemoveShareAccess file.grantedAccess file.shareAccess s.fcb.shareAccess = .ok rest ∧
          ioSetShareAccess file.grantedAccess file.shareAccess rest = s.fcb.shareAccess) ∧
      ∀ r : ShareRequest,
        let wants := WantsUnshared r.grantedAccess s.fcb.shareAccess
        let little := (iopShareRelevantAccess r.grantedAccess).any ∧
          SharesTooLittle r.shareAccess s.fcb.shareAccess
        let hold := sectionHold r.grantedAccess r.shareAccess r.disposition r.options s.fcb
        s.shareStatus r = (if wants then statusSharingViolation
          else if hold ≠ statusSuccess then hold
          else if little then statusSharingViolation else statusSuccess) ∧
        (wants ∨ little ↔ ¬(s.admitted r).counted.Pairwise ShareOpen.Compatible) := by
  obtain ⟨s, hrun, h⟩ := shareInv_init.run ops
  refine ⟨s, hrun, h.sums, h.compatible, h.sectionCounts, fun file hfile hflag => ?_, fun r => ?_⟩
  · obtain ⟨l1, l2, hopens⟩ := append_of_mem hfile
    obtain ⟨rest, hremove, hset, -⟩ := ShareAgrees.remove (hopens ▸ h.agrees) hflag
    exact ⟨rest, hremove, hset⟩
  · exact ⟨ioCheckShareAccess_eq _ _ _ _ _, h.refuses_iff r⟩

end Proskrnl.Io
