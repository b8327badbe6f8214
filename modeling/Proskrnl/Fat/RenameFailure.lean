import Proskrnl.Fat.ControlBlocks
import Proskrnl.Fat.FileRun
import Proskrnl.Fat.Room

/-!
# Renames that fail

When a rename that fails leaves what is visible on the volume as it was. Up to the first write nothing
changes, and growth of the new directory is not seen; but a target that was to be replaced is gone by the
time room is sought for the new name, and a directory that has no ".." has moved by the time it is missed.
-/

namespace Proskrnl.Fat
open Splice List

section
variable {m m' : Mounted} {i j dir : Nat} {e : WalkEntry} {fcb : Fcb}

/-! ## Up to the first write -/

structure TargetOn (m : Mounted) (i : Nat) (target : RenameTarget) : Prop where
  live : m.Live target.newParent
  isDirectory : (m.fcb target.newParent).isDirectory = true
  other : target.newParent ≠ i
  notRoot : (m.fcb i).isRoot = false
  replaced : ∀ x, target.replaced = some x → x ≠ i ∧ m.Live x ∧ (m.fcb x).isDirectory = false ∧
    ∃ p e, EntryOf m (m.fcb x) p e ∧ m.dirCluster p = m.dirCluster target.newParent

theorem replaceRefusal_none {existing : Fcb} {renameFlags : Nat}
    (h : replaceRefusal existing renameFlags = none) : existing.isDirectory = false := by
  rw [replaceRefusal] at h
  split at h
  · cases h
  · split at h
    · cases h
    · exact Bool.eq_false_iff.mpr ‹_›

theorem FcbsOn.renameTarget {relativeTo : Option Nat} {path : WStr} {renameFlags : Nat}
    {result : Except NtStatus RenameTarget} (h : FcbsOn m) (hv : Consistent m.volume) (hi : m.Live i)
    (hbase : ∀ b, relativeTo = some b → m.Live b)
    (htarget : Fat.renameTarget m i relativeTo path renameFlags = (result, m')) :
    Looked m m' ∧ ∀ target, result = .ok target → TargetOn m' i target := by
  have hlive : m.Live (relativeTo.getD m.root) := by
    cases relativeTo with
    | none => exact h.root.1
    | some b => exact hbase b rfl
  rw [Fat.renameTarget] at htarget
  split at htarget
  case isTrue =>
    cases htarget
    exact ⟨⟨.refl m, h⟩, nofun⟩
  case isFalse hroot =>
    split at htarget
    case isTrue =>
      cases htarget
      exact ⟨⟨.refl m, h⟩, nofun⟩
    case isFalse hdirectory =>
      have hbaseDir : (m.fcb (relativeTo.getD m.root)).isDirectory = true := by
        cases relativeTo with
        | none => exact h.root_directory h.root.1 h.root.2
        | some b => simpa using hdirectory
      split at htarget
      case h_1 status m1 hresolve =>
        cases htarget
        exact ⟨(h.resolveParent hv hlive hbaseDir hresolve).1, nofun⟩
      case h_2 newParent leaf slash m1 hresolve =>
        obtain ⟨hlooked, hparent⟩ := h.resolveParent hv hlive hbaseDir hresolve
        obtain ⟨hplive, hpdir⟩ := hparent newParent leaf slash rfl
        split at htarget
        case isTrue =>
          cases htarget
          exact ⟨hlooked, nofun⟩
        case isFalse =>
          split at htarget
          case isTrue =>
            cases htarget
            exact ⟨hlooked, nofun⟩
          case isFalse hancestor =>
            have hother : newParent ≠ i := by
              rintro rfl
              rw [hasAncestor, decide_eq_true rfl, Bool.true_or] at hancestor
              exact hancestor rfl
            have hsource : m1.fcb i = m.fcb i := hlooked.loaded.fcb i hi.1
            cases hlookup : fatLookup m1 newParent leaf with
            | mk found m2 =>
              rw [hlookup] at htarget
              obtain ⟨hlooked', hfound⟩ := hlooked.fcbs.lookup (hlooked.loaded.volume ▸ hv) hplive hpdir
                hlookup
              have hall := hlooked.trans hlooked'
              have hsource' : m2.fcb i = m.fcb i := hall.loaded.fcb i hi.1
              have hnotRoot : (m2.fcb i).isRoot = false := by
                rw [hsource']
                exact Bool.eq_false_iff.mpr hroot
              have hpdir' : (m2.fcb newParent).isDirectory = true := by
                rw [hlooked'.loaded.fcb newParent hplive.1]
                exact hpdir
              have hplain : TargetOn m2 i { newParent, leaf, replaced := none } :=
                ⟨hlooked'.loaded.live hplive, hpdir', hother, hnotRoot, nofun⟩
              cases found with
              | error status =>
                simp only at htarget
                split at htarget
                case isTrue =>
                  cases htarget
                  exact ⟨hall, nofun⟩
                case isFalse =>
                  cases htarget
                  refine ⟨hall, fun target heq => ?_⟩
                  cases heq
                  exact hplain
              | ok existing =>
                obtain ⟨hxlive, p, e, hentry, hp⟩ := hfound existing rfl
                simp only at htarget
                split at htarget
                case isTrue =>
                  split at htarget
                  case isTrue =>
                    cases htarget
                    exact ⟨hall, nofun⟩
                  case isFalse =>
                    cases htarget
                    refine ⟨hall, fun target heq => ?_⟩
                    cases heq
                    exact hplain
                case isFalse hne =>
                  split at htarget
                  case h_1 =>
                    cases htarget
                    exact ⟨hall, nofun⟩
                  case h_2 hrefusal =>
                    cases htarget
                    refine ⟨hall, fun target heq => ?_⟩
                    cases heq
                    refine ⟨hplain.live, hpdir', hother, hnotRoot, fun x hx => ?_⟩
                    cases hx
                    refine ⟨hne, hxlive, replaceRefusal_none hrefusal, p, e, hentry, ?_⟩
                    rw [hp, hlooked'.loaded.dirCluster hplive.1]

/-! ## The target out of the way -/

/-- The slots of the new directory once a replaced file is out of the way. -/
def Mounted.slotsFor (m : Mounted) (target : RenameTarget) : List Slot :=
  let slots := slotsOf m.volume (m.dirCluster target.newParent)
  match target.replaced with
  | none => slots
  | some x => freedSlots slots (m.fcb x).lfnStartIndex (m.fcb x).dirEntryIndex

def Mounted.spareFor (m : Mounted) (target : RenameTarget) : Nat :=
  m.volume.spare.card +
    match target.replaced with
    | none => 0
    | some x => fatChainLength m.volume (m.fcb x).firstCluster

/-- Where `FatRenameEntry` begins: of the volume only the new directory, with the clusters `ds`, and the
clusters `cs` of a replaced file were touched. -/
structure Cleared (m : Mounted) (i : Nat) (target : RenameTarget) (ds cs : List Nat) (m' : Mounted) :
    Prop where
  source : m'.fcb i = m.fcb i
  root : m'.root = m.root
  directories : ∀ j, m.Live j → (m.fcb j).isDirectory = true → m'.fcb j = m.fcb j
  nonempty : ds ≠ []
  before : m.volume.IsChain (m.dirCluster target.newParent) ds
  chain : m'.volume.IsChain (m.dirCluster target.newParent) ds
  sized : m'.volume.Sized
  beside : Beside m.volume (ds ++ cs) m'.volume
  apart : ∀ dir os, m.volume.IsDir dir → m.volume.IsChain dir os → ∀ c ∈ os, c ∉ cs
  slots : slotsOf m'.volume (m.dirCluster target.newParent) = m.slotsFor target
  spare : m'.volume.spare.card = m.spareFor target

variable {target : RenameTarget} {ds cs : List Nat}

theorem TargetOn.isDir (h : TargetOn m i target) (hm : FcbsOn m) :
    m.volume.IsDir (m.dirCluster target.newParent) := hm.directory h.live h.isDirectory

theorem TargetOn.cleared (h : TargetOn m i target) (hm : FcbsOn m) (hv : Consistent m.volume)
    (hnone : target.replaced = none) : ∃ ds, Cleared m i target ds [] m := by
  obtain ⟨ds, hne, hchain⟩ := hv.directory (h.isDir hm)
  refine ⟨ds, rfl, rfl, fun _ _ _ => rfl, hne, hchain, hchain, hv.sized, .refl _ _,
    fun _ _ _ _ _ _ => not_mem_nil, ?_, ?_⟩
  · rw [Mounted.slotsFor, hnone]
  · rw [Mounted.spareFor, hnone]
    rfl

theorem fatFreeChain_of_zero (v : Volume) (first : Nat) :
    (if first ≠ 0 then fatFreeChain v first else v) = fatFreeChain v first := by
  split
  case isTrue => rfl
  case isFalse hzero =>
    rw [not_not.mp hzero, fatFreeChain_zero]

theorem TargetOn.delete {x : Nat} (h : TargetOn m i target) (hm : FcbsOn m) (hv : Consistent m.volume)
    (hx : target.replaced = some x) :
    ∃ ds cs m', fatDeleteEntry m x = (statusSuccess, m') ∧ Cleared m i target ds cs m' := by
  obtain ⟨hne, hlive, hfile, p, e, he, hp⟩ := h.replaced x hx
  obtain ⟨ds, hdsne, hds⟩ := hv.directory (h.isDir hm)
  have hpdir := hm.directory he.live he.isDirectory
  have hkind : e.isDirectory = false := he.kind.symm.trans hfile
  obtain ⟨cs, hcs⟩ := hv.file hpdir he.mem hkind
  have hmem : e ∈ visibleEntries m.volume (m.dirCluster target.newParent) := hp ▸ he.mem
  have hlt : e.sfnSlot < (slotsOf m.volume (m.dirCluster target.newParent)).length :=
    (List.getElem?_eq_some_iff.mp (getElem?_of_mem_visibleEntries hmem).1).1
  obtain ⟨v1, hfree, hext, hspare, hslots⟩ :=
    hds.freeEntrySlots hv.sized (lfnStartSlot_le hmem) hlt
  have hapart : ∀ c ∈ ds, c ∉ cs := hv.apart_file (h.isDir hm) hpdir he.mem hkind hds hcs
  -- the chain of the file is as it was once its slots are free
  have hcs1 : v1.IsChain (e.first m.volume) cs :=
    hext.beside.isChain hcs fun c hc hmem => hapart c hmem hc
  have hbeside : Beside m.volume (ds ++ cs) (fatFreeChain v1 (e.first m.volume)) :=
    (hext.beside.mono (subset_append_left ds cs)).trans hcs1.free_beside fun c hc =>
      .inl (mem_append_right _ hc)
  have hds2 : (fatFreeChain v1 (e.first m.volume)).IsChain (m.dirCluster target.newParent) ds :=
    hcs1.free_beside.isChain hext.chain hapart
  have hslots2 : slotsOf (fatFreeChain v1 (e.first m.volume)) (m.dirCluster target.newParent) =
      m.slotsFor target := by
    rw [hcs1.free_beside.slotsOf hext.chain hapart, hslots, Mounted.slotsFor, hx]
    simp only [he.start, he.slot]
  have hfree' : fatFreeEntrySlots m.volume (m.parentCluster (m.fcb x)) (m.fcb x).lfnStartIndex
      (m.fcb x).dirEntryIndex = (.ok (), v1) := by
    rw [Mounted.parentCluster, he.parent, Option.getD_some, hp, he.start, he.slot]
    exact hfree
  have hfcb : ∀ j, j ≠ x → ∀ fcb v, ({ m with volume := v, fcbs := m.fcbs.set x fcb } : Mounted).fcb j =
      m.fcb j := by
    intro j hj fcb v
    rw [Mounted.fcb, Mounted.fcb, getD_eq_getElem?_getD, getD_eq_getElem?_getD,
      getElem?_set_ne hj.symm]
  refine ⟨ds, cs, { m with
      volume := fatFreeChain v1 (e.first m.volume)
      fcbs := m.fcbs.set x { m.fcb x with firstCluster := 0, fileSize := 0, entryDeleted := true } },
    ?_, ?_, rfl, fun j hj hdir => ?_, hdsne, hds, hds2, ?_, hbeside,
    fun dir os hdir hos => hv.apart_file hdir hpdir he.mem hkind hos hcs, hslots2, ?_⟩
  · rw [fatDeleteEntry]
    simp only [hfree']
    rw [fatFreeChain_of_zero, he.first]
  · exact hfcb i hne.symm _ _
  · refine hfcb j (fun heq => ?_) _ _
    rw [heq, hfile] at hdir
    cases hdir
  · exact hcs1.free.1.sized hext.sized
  · rw [Mounted.spareFor, hx]
    simp only [he.first]
    rw [hcs1.spare_free, hspare, hcs.length]

/-! ## The entry moved -/

variable {v v' : Volume}

theorem Consistent.first_ne (h : Consistent v) (hdir : v.IsDir dir)
    (he : e ∈ visibleEntries v dir) (hkind : e.isDirectory = true) : e.first v ≠ dir := by
  obtain ⟨path, hpath⟩ := hdir
  induction hpath generalizing e with
  | root => exact h.root_unnamed ⟨[], .root⟩ he hkind
  | @entry path dir e' hpath he' hkind' ih =>
    intro heq
    obtain ⟨hsame, _⟩ := h.named_once ⟨_, .entry hpath he' hkind'⟩ ⟨_, hpath⟩ he he' hkind hkind' heq
    exact ih he' hkind' hsame

def Mounted.HasRoomFor (m : Mounted) (target : RenameTarget) : Prop :=
  HasRoom (m.slotsFor target) (fatSlotsPerCluster m.volume) (m.spareFor target) target.leaf

/-- The source is a directory that leaves its parent, and it has no "..". -/
def Mounted.MovesWithoutDotDot (m : Mounted) (i : Nat) (target : RenameTarget) : Prop :=
  (m.fcb i).isDirectory = true ∧ (m.fcb i).parent ≠ some target.newParent ∧
    hasDotDot m.volume (m.fcb i).firstCluster = false

theorem hasDotDot_congr {first : Nat} {fs : List Nat}
    (h : Beside v ds v') (hchain : v.IsChain first fs) (hne : fs ≠ []) (hapart : ∀ c ∈ fs, c ∉ ds) :
    hasDotDot v' first = hasDotDot v first := by
  have hmem : first ∈ fs := by
    rw [hchain.first_eq]
    cases fs with
    | nil => exact absurd rfl hne
    | cons c fs => exact mem_cons_self ..
  have hdisk := h.disk first (hchain.data _ hmem) (hchain.used _ hmem) (hapart _ hmem) 0
    v.sectorsPerCluster_pos
  rw [Nat.add_zero] at hdisk
  rw [hasDotDot, hasDotDot, fatClusterToSector_congr h.geometry, hdisk]
  simp only [isDataCluster_congr h.geometry]

section
variable (h : Cleared m i target ds cs m')
include h

theorem Cleared.dirCluster (hj : m.Live j)
    (hdir : (m.fcb j).isDirectory = true) : m'.dirCluster j = m.dirCluster j := by
  rw [Mounted.dirCluster, Mounted.dirCluster, h.directories j hj hdir, h.beside.geometry]

theorem Cleared.write (hv : Consistent m.volume) {result : Except NtStatus Written}
    (hwrite : fatWriteEntrySlots m'.volume (m.dirCluster target.newParent) target.leaf
      (withMetadata (m.fcb i) zeroSlot) = (result, v')) :
    (∃ ds', Extended m'.volume (m.dirCluster target.newParent) ds v' ds') ∧
      match result with
      | .ok _ => m.HasRoomFor target
      | .error status => ntSuccess status = false ∧ ¬ m.HasRoomFor target ∧
        ∃ n, slotsOf v' (m.dirCluster target.newParent) =
          m.slotsFor target ++ List.replicate n zeroSlot := by
  have hper : fatSlotsPerCluster m'.volume = fatSlotsPerCluster m.volume := by
    rw [fatSlotsPerCluster, fatSlotsPerCluster, h.beside.geometry]
  obtain ⟨hext, hresult⟩ := h.chain.writeEntrySlots h.nonempty (hv.limit.congr h.beside.geometry)
    h.sized (length_withMetadata rfl) hwrite
  rw [h.slots, hper, h.spare] at hresult
  refine ⟨hext, ?_⟩
  cases result with
  | ok written => exact hresult
  | error status =>
    obtain ⟨hfails, hslots, hroom⟩ := hresult
    exact ⟨hfails, hroom, hslots⟩

theorem Cleared.rename_noRoom (ht : TargetOn m i target)
    (hv : Consistent m.volume) (hroom : ¬ m.HasRoomFor target) :
    ntSuccess (fatRenameEntry m' i target.newParent target.leaf).1 = false ∧
      ∃ v', (fatRenameEntry m' i target.newParent target.leaf).2.volume = v' ∧
        Beside m.volume (ds ++ cs) v' ∧ ∃ n, slotsOf v' (m.dirCluster target.newParent) =
          m.slotsFor target ++ List.replicate n zeroSlot := by
  rw [fatRenameEntry, h.source, h.dirCluster ht.live ht.isDirectory]
  cases hwrite : fatWriteEntrySlots m'.volume (m.dirCluster target.newParent) target.leaf
      (withMetadata (m.fcb i) zeroSlot) with
  | mk result v' =>
    obtain ⟨⟨ds', hext⟩, hresult⟩ := h.write hv hwrite
    cases result with
    | ok written => exact absurd hresult hroom
    | error status =>
      refine ⟨hresult.1, v', rfl, h.beside.trans hext.beside fun c hc => ?_, hresult.2.2⟩
      exact .inl (mem_append_left _ hc)

/-- Another directory, or the new one itself, once the new name is written: it has the slots it had, on
clusters it had or that were not in use. -/
theorem Cleared.written {os ds' : List Nat} (ht : TargetOn m i target) (hm : FcbsOn m)
    (hv : Consistent m.volume) (hdir : m.volume.IsDir dir) (hos : m.volume.IsChain dir os)
    (hext : Extended m'.volume (m.dirCluster target.newParent) ds v' ds') :
    ∃ os', v'.IsChain dir os' ∧ (slotsOf m.volume dir).length ≤ (slotsOf v' dir).length ∧
      ∀ c ∈ os', c ∈ ds ++ cs ++ os ∨ m.volume.entry c = 0 := by
  have hbeside : Beside m.volume (ds ++ cs) v' := h.beside.trans hext.beside fun c hc =>
    .inl (mem_append_left _ hc)
  by_cases hsame : dir = m.dirCluster target.newParent
  · subst hsame
    refine ⟨ds', hext.chain, ?_, fun c hc => ?_⟩
    · have hper : fatSlotsPerCluster v' = fatSlotsPerCluster m.volume := by
        rw [fatSlotsPerCluster, fatSlotsPerCluster, hbeside.geometry]
      rw [h.before.slotsOf, hext.chain.slotsOf, length_flatMap_clusterSlots,
        length_flatMap_clusterSlots, hper]
      exact Nat.mul_le_mul_right _ hext.length
    · by_cases hmem : c ∈ ds ++ cs
      · exact .inl (mem_append_left _ hmem)
      · refine .inr ?_
        by_contra hused
        have hsame := h.beside.entry c hused hmem
        obtain hc | hfree := hext.fresh c hc
        · exact hmem (mem_append_left _ hc)
        · exact hused (hsame.symm.trans hfree)
  · have hapart : ∀ c ∈ os, c ∉ ds ++ cs := by
      intro c hc hmem
      obtain hmem | hmem := mem_append.mp hmem
      · exact hv.apart hdir (ht.isDir hm) hsame hos h.before c hc hmem
      · exact h.apart dir os hdir hos c hc hmem
    refine ⟨os, hbeside.isChain hos hapart, ?_, fun c hc => .inl (mem_append_right _ hc)⟩
    rw [hbeside.slotsOf hos hapart]

/-- With room for it the rename succeeds, but for a directory that moves and has no "..". By then the
slots of the old name are free. -/
theorem Cleared.rename_room (ht : TargetOn m i target) (hm : FcbsOn m)
    (hv : Consistent m.volume) (hi : m.Live i) (hroom : m.HasRoomFor target) :
    (¬ m.MovesWithoutDotDot i target →
      (fatRenameEntry m' i target.newParent target.leaf).1 = statusSuccess) ∧
    (m.MovesWithoutDotDot i target →
      (fatRenameEntry m' i target.newParent target.leaf).1 = statusDiskCorruptError ∧
      ∃ s, (slotsOf (fatRenameEntry m' i target.newParent target.leaf).2.volume
        (m.fcb i).parentDirCluster)[(m.fcb i).dirEntryIndex]? = some s ∧ s.isFree = true) := by
  obtain ⟨p, e, he⟩ := hm.entry hi ht.notRoot
  have hold := hm.directory he.live he.isDirectory
  obtain ⟨os, _, hos⟩ := hv.directory hold
  have hslot := (List.getElem?_eq_some_iff.mp (getElem?_of_mem_visibleEntries he.mem).1).1
  have hparent : m'.parentCluster (m.fcb i) = m.dirCluster p := by
    rw [Mounted.parentCluster, he.parent, Option.getD_some, h.dirCluster he.live he.isDirectory]
  rw [fatRenameEntry, h.source, h.dirCluster ht.live ht.isDirectory, hparent, he.start, he.slot, he.key]
  cases hwrite : fatWriteEntrySlots m'.volume (m.dirCluster target.newParent) target.leaf
      (withMetadata (m.fcb i) zeroSlot) with
  | mk result v1 =>
    obtain ⟨⟨ds', hext⟩, hresult⟩ := h.write hv hwrite
    cases result with
    | error status => exact absurd hroom hresult.2.1
    | ok written =>
      obtain ⟨os', hos', hlength, hfresh⟩ := h.written ht hm hv hold hos hext
      obtain ⟨v2, hfree, hext2, _, hslots⟩ := hos'.freeEntrySlots hext.sized (lfnStartSlot_le he.mem)
        (Nat.lt_of_lt_of_le hslot hlength)
      simp only [hfree]
      have hfreed : ∃ s, (slotsOf v2 (m.dirCluster p))[e.sfnSlot]? = some s ∧ s.isFree = true := by
        rw [hslots]
        exact freedSlots_free (lfnStartSlot_le he.mem) (Nat.lt_of_lt_of_le hslot hlength)
          (hos'.length_slot hext.sized)
      have hbeside : Beside m.volume (ds ++ cs ++ os) v2 := by
        refine ((h.beside.trans hext.beside fun c hc => ?_).mono
          (subset_append_left _ os)).trans hext2.beside hfresh
        exact .inl (mem_append_left _ hc)
      by_cases hmoves : (m.fcb i).isDirectory = true ∧ (m.fcb i).parent ≠ some target.newParent
      · rw [if_pos hmoves]
        -- the directory itself was not touched
        have hself := hm.directory hi hmoves.1
        have hcluster : m.dirCluster i = (m.fcb i).firstCluster := by
          rw [Mounted.dirCluster, ht.notRoot]
          rfl
        obtain ⟨fs, hfsne, hfs⟩ := hv.directory hself
        have hapart : ∀ c ∈ fs, c ∉ ds ++ cs ++ os := by
          intro c hc hmem
          obtain hmem | hmem := mem_append.mp hmem
          · obtain hmem | hmem := mem_append.mp hmem
            · refine hv.apart hself (ht.isDir hm) (fun heq => ?_) hfs h.before c hc hmem
              exact ht.other (hm.once hi ht.live hmoves.1 ht.isDirectory heq).symm
            · exact h.apart _ fs hself hfs c hc hmem
          · refine hv.apart hself hold (fun heq => ?_) hfs hos c hc hmem
            refine hv.first_ne hold he.mem (he.kind ▸ hmoves.1) ?_
            rw [← he.first, ← hcluster, heq]
        have hdots : hasDotDot v2 (m.fcb i).firstCluster = hasDotDot m.volume (m.fcb i).firstCluster := by
          rw [← hcluster]
          exact hasDotDot_congr hbeside hfs hfsne hapart
        rw [fatRewriteDotDot, hdots]
        cases hhas : hasDotDot m.volume (m.fcb i).firstCluster with
        | true =>
          refine ⟨fun _ => rfl, fun hwithout => ?_⟩
          rw [Mounted.MovesWithoutDotDot, hhas] at hwithout
          cases hwithout.2.2
        | false =>
          exact ⟨fun hnot => absurd ⟨hmoves.1, hmoves.2, hhas⟩ hnot, fun _ => ⟨rfl, hfreed⟩⟩
      · rw [if_neg hmoves]
        exact ⟨fun _ => rfl, fun hwithout => absurd ⟨hwithout.1, hwithout.2.1⟩ hmoves⟩

end

theorem Consistent.visible_extended {n : Nat} (hv : Consistent v)
    (hdir : v.IsDir dir) (hds : v.IsChain dir ds) (hbeside : Beside v ds v')
    (hslots : slotsOf v' dir = slotsOf v dir ++ List.replicate n zeroSlot) :
    v'.visible = v.visible := by
  apply visible_congr hbeside.geometry
  · intro path dir' hdir'
    by_cases hsame : dir' = dir
    · rw [hsame, visibleEntries, visibleEntries, hslots, entries_append_zero]
    · obtain ⟨os, _, hos⟩ := hv.directory ⟨path, hdir'⟩
      exact hbeside.visibleEntries hos (hv.apart ⟨path, hdir'⟩ hdir hsame hos hds)
  · intro path dir' e hdir' he
    rw [contentOf, contentOf, first_congr hbeside.geometry]
    cases hkind : e.isDirectory with
    | true => rfl
    | false =>
      obtain ⟨cs, hcs⟩ := hv.file ⟨path, hdir'⟩ he hkind
      have hapart : ∀ c ∈ cs, c ∉ ds := fun c hc hmem =>
        hv.apart_file hdir ⟨path, hdir'⟩ he hkind hds hcs c hmem hc
      rw [map_congr_left fun p _ => hbeside.fileByte hcs hapart p]

theorem EntryOf.visible {p : Nat} (h : EntryOf m fcb p e) (hm : FcbsOn m) :
    ∃ path content, (path, (m.dirCluster p, e.sfnSlot), content) ∈ m.volume.visible := by
  obtain ⟨path, hpath⟩ := hm.directory h.live h.isDirectory
  exact ⟨_, _, path, m.dirCluster p, e, hpath, h.mem, rfl⟩

theorem EntryOf.visible_ne {p : Nat} {s : Slot} (h : EntryOf m fcb p e) (hm : FcbsOn m)
    (hslot : (slotsOf v' (m.dirCluster p))[e.sfnSlot]? = some s) (hfree : s.isFree = true) :
    v'.visible ≠ m.volume.visible := by
  intro heq
  obtain ⟨path, content, hmem⟩ := h.visible hm
  rw [← heq] at hmem
  exact notMem_visible_of_free hslot hfree rfl hmem

theorem TargetOn.visible_ne {x n : Nat} {v' : Volume} (h : TargetOn m i target) (hm : FcbsOn m)
    (hv : Consistent m.volume) (hx : target.replaced = some x)
    (hslots : slotsOf v' (m.dirCluster target.newParent) =
      m.slotsFor target ++ List.replicate n zeroSlot) : v'.visible ≠ m.volume.visible := by
  obtain ⟨_, _, _, p, e, he, hp⟩ := h.replaced x hx
  obtain ⟨ds, _, hds⟩ := hv.directory (hm.directory he.live he.isDirectory)
  have hlt := (List.getElem?_eq_some_iff.mp (getElem?_of_mem_visibleEntries he.mem).1).1
  obtain ⟨s, hs, hfree⟩ := freedSlots_free (lfnStartSlot_le he.mem) hlt (hds.length_slot hv.sized)
  refine he.visible_ne hm (s := s) ?_ hfree
  have hfreed : m.slotsFor target =
      freedSlots (slotsOf m.volume (m.dirCluster p)) e.lfnStartSlot e.sfnSlot := by
    rw [Mounted.slotsFor, hx, hp]
    simp only [he.start, he.slot]
  have hin := (List.getElem?_eq_some_iff.mp hs).1
  rw [hp, hslots, hfreed, getElem?_append_left hin, hs]

/-! ## The rename -/

variable {relativeTo : Option Nat} {path : WStr} {renameFlags : Nat}

def FailsCleanly (m : Mounted) (i : Nat) (relativeTo : Option Nat) (path : WStr) (renameFlags : Nat) :
    Prop :=
  ntSuccess (fatVfsRename m i relativeTo path renameFlags).1 = false →
    (fatVfsRename m i relativeTo path renameFlags).2.volume.visible = m.volume.visible

/-- The rename passes its checks and fails behind them: it replaces a file and has no room for the new
name, or it moves a directory that has no "..". -/
def FailsBehindChecks (m : Mounted) (i : Nat) (relativeTo : Option Nat) (path : WStr)
    (renameFlags : Nat) : Prop :=
  ∃ target m', renameTarget m i relativeTo path renameFlags = (.ok target, m') ∧
    (target.replaced.isSome = true ∧ ¬ m'.HasRoomFor target ∨
      m'.HasRoomFor target ∧ m'.MovesWithoutDotDot i target)

theorem TargetOn.begins (h : TargetOn m' i target) (hm : FcbsOn m') (hv : Consistent m'.volume)
    (htarget : renameTarget m i relativeTo path renameFlags = (.ok target, m')) :
    ∃ ds cs m1, Cleared m' i target ds cs m1 ∧ (target.replaced = none → cs = []) ∧
      fatVfsRename m i relativeTo path renameFlags =
        fatRenameEntry m1 i target.newParent target.leaf := by
  rw [fatVfsRename, htarget]
  cases hreplaced : target.replaced with
  | none =>
    obtain ⟨ds, hcleared⟩ := h.cleared hm hv hreplaced
    refine ⟨ds, [], m', hcleared, fun _ => rfl, ?_⟩
    simp only [hreplaced]
  | some x =>
    obtain ⟨ds, cs, m1, hdelete, hcleared⟩ := h.delete hm hv hreplaced
    refine ⟨ds, cs, m1, hcleared, nofun, ?_⟩
    simp only [hreplaced, hdelete]
    rfl

theorem failsBehindChecks_iff
    (htarget : renameTarget m i relativeTo path renameFlags = (.ok target, m')) :
    FailsBehindChecks m i relativeTo path renameFlags ↔
      (target.replaced.isSome = true ∧ ¬ m'.HasRoomFor target ∨
        m'.HasRoomFor target ∧ m'.MovesWithoutDotDot i target) := by
  constructor
  · rintro ⟨target', m'', heq, hfails⟩
    rw [htarget] at heq
    cases heq
    exact hfails
  · exact fun hfails => ⟨target, m', htarget, hfails⟩

theorem FailsBehindChecks.not_failsCleanly (h : FailsBehindChecks m i relativeTo path renameFlags)
    (hv : Consistent m.volume) (hm : FcbsOn m) (hi : m.Live i)
    (hbase : ∀ b, relativeTo = some b → m.Live b) :
    ¬ FailsCleanly m i relativeTo path renameFlags := by
  obtain ⟨target, m', htarget, hfails⟩ := h
  obtain ⟨hlooked, hresult⟩ := hm.renameTarget hv hi hbase htarget
  have ht := hresult target rfl
  have hvolume := hlooked.loaded.volume
  have hv' : Consistent m'.volume := hvolume ▸ hv
  have hi' := hlooked.loaded.live hi
  obtain ⟨ds, cs, m1, hcleared, _, hrename⟩ := ht.begins hlooked.fcbs hv' htarget
  rw [FailsCleanly, hrename, ← hvolume]
  intro hclean
  obtain ⟨hreplaced, hroom⟩ | ⟨hroom, hmoves⟩ := hfails
  · obtain ⟨x, hx⟩ := Option.isSome_iff_exists.mp hreplaced
    obtain ⟨hstatus, v', hv1, _, n, hslots⟩ := hcleared.rename_noRoom ht hv' hroom
    rw [hv1] at hclean
    exact ht.visible_ne hlooked.fcbs hv' hx hslots (hclean hstatus)
  · obtain ⟨hstatus, s, hs, hfree⟩ := (hcleared.rename_room ht hlooked.fcbs hv' hi' hroom).2 hmoves
    obtain ⟨p, e, he⟩ := hlooked.fcbs.entry hi' ht.notRoot
    rw [he.key, he.slot] at hs
    rw [hstatus] at hclean
    exact he.visible_ne hlooked.fcbs hs hfree (hclean rfl)

theorem failsCleanly_of_not (h : ¬ FailsBehindChecks m i relativeTo path renameFlags)
    (hv : Consistent m.volume) (hm : FcbsOn m) (hi : m.Live i)
    (hbase : ∀ b, relativeTo = some b → m.Live b) :
    FailsCleanly m i relativeTo path renameFlags := by
  intro hfails
  cases htarget : renameTarget m i relativeTo path renameFlags with
  | mk result m' =>
    obtain ⟨hlooked, hresult⟩ := hm.renameTarget hv hi hbase htarget
    have hvolume := hlooked.loaded.volume
    cases result with
    | error status => rw [fatVfsRename, htarget, hvolume]
    | ok target =>
      have ht := hresult target rfl
      have hv' : Consistent m'.volume := hvolume ▸ hv
      rw [failsBehindChecks_iff htarget, not_or] at h
      obtain ⟨ds, cs, m1, hcleared, hnone, hrename⟩ := ht.begins hlooked.fcbs hv' htarget
      rw [hrename] at hfails ⊢
      by_cases hroom : m'.HasRoomFor target
      · have hstays : ¬ m'.MovesWithoutDotDot i target := fun hmoves => h.2 ⟨hroom, hmoves⟩
        rw [(hcleared.rename_room ht hlooked.fcbs hv' (hlooked.loaded.live hi) hroom).1 hstays] at hfails
        cases hfails
      · have hreplaced : target.replaced = none := by
          cases hx : target.replaced with
          | none => rfl
          | some x => exact absurd ⟨by rw [hx]; rfl, hroom⟩ h.1
        obtain ⟨_, v', hv1, hbeside, n, hslots⟩ := hcleared.rename_noRoom ht hv' hroom
        rw [hnone hreplaced, append_nil] at hbeside
        rw [Mounted.slotsFor, hreplaced] at hslots
        rw [hv1, ← hvolume]
        exact hv'.visible_extended (ht.isDir hlooked.fcbs) hcleared.before hbeside hslots

/-- A rename that fails leaves what is visible as it was, exactly unless it fails behind its checks in
one of two ways. -/
theorem rename_failsCleanly_iff (hv : Consistent m.volume) (hm : FcbsOn m) (hi : m.Live i)
    (hbase : ∀ b, relativeTo = some b → m.Live b) :
    FailsCleanly m i relativeTo path renameFlags ↔
      ¬ FailsBehindChecks m i relativeTo path renameFlags :=
  ⟨fun hclean hfails => hfails.not_failsCleanly hv hm hi hbase hclean,
    fun h => failsCleanly_of_not h hv hm hi hbase⟩

end

/-! ## A full volume -/

def fileSlot (base ext : List UInt8) (first size : Nat) : Slot :=
  padName 8 base ++ padName 3 ext ++ [0x20] ++ List.replicate 8 0 ++ Bytes.le 2 (first / 2 ^ 16) ++
    List.replicate 4 0 ++ Bytes.le 2 first ++ Bytes.le 4 size

/-- The root directory of a full volume: empty files "A.TXT" and "B" to "O", and "P". -/
def fullSector : List UInt8 :=
  fileSlot [0x41] [0x54, 0x58, 0x54] 0 0 ++
    ((List.range 14).flatMap fun k => fileSlot [UInt8.ofNat (0x42 + k)] [] 0 0) ++
    fileSlot [0x50] [] 3 (65524 * 512)

/-- A volume on which no cluster is spare and whose root directory has no free slot. The file "P" has all
clusters but the first. -/
def fullVolume : Volume where
  sectorsPerCluster := 1
  reservedSectors := 1
  fatCount := 1
  fatSizeSectors := 512
  totalSectors := 66038
  firstDataSector := 513
  clusterCount := 65525
  rootCluster := 2
  sectorsPerCluster_pos := Nat.one_pos
  sectorsPerCluster_le := Nat.le_add_right 1 127
  reservedSectors_pos := Nat.one_pos
  fatCount_pos := Nat.one_pos
  totalSectors_lt := by decide
  data_le_total := by decide
  fat_le_data := by decide
  fat_entries := by decide
  root_data := by decide
  nextFreeHint := 2
  freeClusters := 0
  fsInfoSector := 0
  fat := fun c => if c = 2 then fatEntryMask else if c < 65526 then c + 1 else fatEntryMask
  disk := fun s => if s = 513 then fullSector else List.replicate fatSectorSize 0
  fsInfo_reserved := Nat.one_pos

theorem entry_fullVolume {c : Nat} (hdata : fullVolume.IsDataCluster c) :
    fullVolume.entry c = if c = 2 then fatEntryMask else if c < 65526 then c + 1 else fatEntryMask := by
  obtain ⟨_, hhigh⟩ := hdata
  change c < 65525 + 2 at hhigh
  change (if c = 2 then fatEntryMask else if c < 65526 then c + 1 else fatEntryMask) % 2 ^ 28 = _
  apply Nat.mod_eq_of_lt
  split
  · decide
  · split
    · omega
    · decide

theorem spare_fullVolume : fullVolume.spare = ∅ := by
  rw [Finset.eq_empty_iff_forall_notMem]
  intro c hc
  obtain ⟨hdata, hfree⟩ := mem_spare.mp hc
  rw [entry_fullVolume hdata] at hfree
  split at hfree
  · cases hfree
  · split at hfree
    · omega
    · cases hfree

theorem isChain_root_fullVolume : fullVolume.IsChain 2 [2] := ⟨.cons .nil, by decide, by decide⟩

theorem isChain_file_fullVolume {c n : Nat} (hc : 3 ≤ c) (hn : c + n = 65527) (hpos : 0 < n) :
    fullVolume.IsChain c (List.range' c n) := by
  have hdata : ∀ a ∈ List.range' c n, fullVolume.IsDataCluster a := by
    intro a ha
    obtain ⟨hlow, hhigh⟩ := mem_range'_1.mp ha
    exact ⟨by omega, show a < 65525 + 2 by omega⟩
  refine ⟨?_, hdata, fun a ha hzero => ?_⟩
  · rw [startOf_eq (hdata c (mem_range'_1.mpr ⟨Nat.le_refl _, by omega⟩))]
    clear hdata
    induction n generalizing c with
    | zero => cases hpos
    | succ n ih =>
      have hdata : fullVolume.IsDataCluster c := ⟨by omega, show c < 65525 + 2 by omega⟩
      rw [range'_succ]
      refine .cons ?_
      rw [Volume.next?, if_pos hdata, entry_fullVolume hdata, if_neg (by omega)]
      cases n with
      | zero =>
        rw [if_neg (by omega)]
        exact .nil
      | succ n =>
        rw [if_pos (by omega), linkOf, if_neg (by omega),
          if_pos ⟨by omega, show c + 1 < 65525 + 2 by omega⟩]
        exact ih (by omega) (by omega) (Nat.succ_pos _)
  · have hin := mem_spare.mpr ⟨hdata a ha, hzero⟩
    rw [spare_fullVolume] at hin
    cases hin

theorem visibleEntries_fullVolume : ∀ e ∈ visibleEntries fullVolume 2,
    e.isDirectory = false ∧ (e.first fullVolume = 0 ∨ e.first fullVolume = 3) := by
  decide +kernel

theorem isDir_fullVolume {dir : Nat} (h : fullVolume.IsDir dir) : dir = 2 := by
  obtain ⟨path, h⟩ := h
  induction h with
  | root => rfl
  | entry _ he hkind ih =>
    rw [ih] at he
    rw [(visibleEntries_fullVolume _ he).1] at hkind
    cases hkind

theorem consistent_fullVolume : Consistent fullVolume := by
  have hfile : ∀ {dir e}, fullVolume.IsDir dir → e ∈ visibleEntries fullVolume dir →
      fullVolume.IsChain (e.first fullVolume) [] ∨
        fullVolume.IsChain (e.first fullVolume) (List.range' 3 65524) := by
    intro dir e hdir he
    rw [isDir_fullVolume hdir] at he
    obtain hzero | hthree := (visibleEntries_fullVolume e he).2
    · rw [hzero]
      exact .inl ⟨.nil, nofun, nofun⟩
    · rw [hthree]
      exact .inr (isChain_file_fullVolume (by decide) (by decide) (by decide))
  refine ⟨fun s hs => ?_, show 65525 + 2 ≤ 0x0FFFFFF7 by decide, fun hdir => ?_, fun hdir he _ => ?_,
    fun hdir hdir' hne => ?_, fun hdir hdir' he _ hds hcs => ?_, fun hdir _ he _ hkind => ?_,
    fun hdir he hkind => ?_⟩
  · change (if s = 513 then fullSector else List.replicate fatSectorSize 0).length = fatSectorSize
    split
    · decide +kernel
    · exact length_replicate
  · rw [isDir_fullVolume hdir]
    exact ⟨[2], cons_ne_nil _ _, isChain_root_fullVolume⟩
  · exact (hfile hdir he).elim (fun h => ⟨_, h⟩) fun h => ⟨_, h⟩
  · rw [isDir_fullVolume hdir, isDir_fullVolume hdir'] at hne
    exact absurd rfl hne
  · rw [isDir_fullVolume hdir] at hds
    intro c hc hmem
    rw [hds.unique isChain_root_fullVolume, mem_singleton] at hc
    obtain h | h := hfile hdir' he
    · rw [hcs.unique h] at hmem
      cases hmem
    · rw [hcs.unique h, mem_range'_1] at hmem
      omega
  · rw [isDir_fullVolume hdir] at he
    rw [(visibleEntries_fullVolume _ he).1] at hkind
    cases hkind
  · rw [isDir_fullVolume hdir] at he
    rw [(visibleEntries_fullVolume _ he).1] at hkind
    cases hkind

def fullEntry : WalkEntry where
  sfn := fileSlot [0x42] [] 0 0
  sfnSlot := 1
  lfnStartSlot := 1
  name := [0x42]

/-- The full volume, mounted, with the file "B" open. -/
def fullMounted : Mounted where
  volume := fullVolume
  fcbs := [{ loadFcb fullVolume 0 0 ⟨[], 0, 0, []⟩ with isRoot := true, isDirectory := true },
    { loadFcb fullVolume 0 2 fullEntry with openObjectCount := 1 }]
  root := 0

theorem fcbsOn_fullMounted : FcbsOn fullMounted := by
  have hcases : ∀ {i}, fullMounted.Live i → i = 0 ∨ i = 1 := by
    intro i hi
    have hlt : i < 2 := hi.1
    omega
  have hroot : fullMounted.Live 0 := ⟨by decide, rfl⟩
  have hdir : ∀ {i}, fullMounted.Live i → (fullMounted.fcb i).isDirectory = true → i = 0 := by
    intro i hi hkind
    obtain rfl | rfl := hcases hi
    · rfl
    · cases hkind
  refine ⟨⟨hroot, rfl⟩, fun hi hisRoot => ?_, fun hi hnot => ?_, fun hi hkind => ?_,
    fun hi hj hkind hkind' _ => ?_⟩
  · obtain rfl | rfl := hcases hi
    · rfl
    · cases hisRoot
  · obtain rfl | rfl := hcases hi
    · cases hnot
    · exact ⟨0, fullEntry, rfl, rfl, hroot, rfl, rfl, by decide +kernel, rfl, rfl, rfl,
        by decide +kernel⟩
  · rw [hdir hi hkind]
    exact ⟨[], .root⟩
  · rw [hdir hi hkind, hdir hj hkind']

theorem live_fullMounted : fullMounted.Live 1 := ⟨by decide, rfl⟩

theorem renameTarget_fullMounted {path : WStr} {renameFlags : Nat} {target : RenameTarget}
    (h : (renameTarget fullMounted 1 none path renameFlags).1 = .ok target) :
    renameTarget fullMounted 1 none path renameFlags =
      (.ok target, (renameTarget fullMounted 1 none path renameFlags).2) := by
  rw [← h]

/-- "B" cannot be renamed to "bb" for want of room, and stays. -/
theorem rename_failsCleanly_bb : FailsCleanly fullMounted 1 none [0x62, 0x62] 0 := by
  refine (rename_failsCleanly_iff consistent_fullVolume fcbsOn_fullMounted live_fullMounted
    fun _ h => by cases h).mpr ?_
  have hok : (renameTarget fullMounted 1 none [0x62, 0x62] 0).1 = .ok ⟨0, [0x62, 0x62], none⟩ := by
    decide +kernel
  rw [failsBehindChecks_iff (renameTarget_fullMounted hok)]
  rintro (⟨hreplaced, _⟩ | ⟨_, hkind, _⟩)
  · cases hreplaced
  · have hfile : ((renameTarget fullMounted 1 none [0x62, 0x62] 0).2.fcb 1).isDirectory = false := by
      decide +kernel
    rw [hfile] at hkind
    cases hkind

/-- "B" is to replace "A.TXT" under the name "a.txt", which takes a slot more: "A.TXT" is deleted, and
then the rename fails. -/
theorem rename_losesTarget :
    ¬ FailsCleanly fullMounted 1 none [0x61, 0x2E, 0x74, 0x78, 0x74] fileRenameReplaceIfExists := by
  have hok : (renameTarget fullMounted 1 none [0x61, 0x2E, 0x74, 0x78, 0x74]
      fileRenameReplaceIfExists).1 = .ok ⟨0, [0x61, 0x2E, 0x74, 0x78, 0x74], some 2⟩ := by
    decide +kernel
  have htarget := renameTarget_fullMounted hok
  -- in the slots that are left there is no run of two
  have hslots : (chooseShortName ((renameTarget fullMounted 1 none [0x61, 0x2E, 0x74, 0x78, 0x74]
        fileRenameReplaceIfExists).2.slotsFor ⟨0, [0x61, 0x2E, 0x74, 0x78, 0x74], some 2⟩)
        [0x61, 0x2E, 0x74, 0x78, 0x74]).map (·.2) = some true ∧
      freeRun 2 ((renameTarget fullMounted 1 none [0x61, 0x2E, 0x74, 0x78, 0x74]
        fileRenameReplaceIfExists).2.slotsFor ⟨0, [0x61, 0x2E, 0x74, 0x78, 0x74], some 2⟩) 0 0 0 =
        none ∧
      ((renameTarget fullMounted 1 none [0x61, 0x2E, 0x74, 0x78, 0x74]
        fileRenameReplaceIfExists).2.fcb 2).firstCluster = 0 := by
    decide +kernel
  generalize (renameTarget fullMounted 1 none [0x61, 0x2E, 0x74, 0x78, 0x74]
    fileRenameReplaceIfExists).2 = m' at htarget hslots
  have hvolume : m'.volume = fullVolume := (fcbsOn_fullMounted.renameTarget consistent_fullVolume
    live_fullMounted (fun _ h => by cases h) htarget).1.loaded.volume
  refine FailsBehindChecks.not_failsCleanly ⟨_, m', htarget, .inl ⟨rfl, ?_⟩⟩ consistent_fullVolume
    fcbsOn_fullMounted live_fullMounted fun _ h => by cases h
  rintro ⟨_, _, sfn, needLfn, hchosen, k, _, hk, hrun⟩
  have hempty : fullVolume.IsChain 0 [] := ⟨.nil, nofun, nofun⟩
  have hspare : m'.spareFor ⟨0, [0x61, 0x2E, 0x74, 0x78, 0x74], some 2⟩ = 0 := by
    rw [Mounted.spareFor]
    simp only [hslots.2.2, hvolume, hempty.length, spare_fullVolume, Finset.card_empty,
      length_nil]
  rw [hspare, Nat.le_zero] at hk
  rw [hchosen, Option.map_some, Option.some.injEq] at hslots
  have hneed : needLfn = true := hslots.1
  rw [hk, hneed, Nat.zero_mul, replicate_zero, append_nil] at hrun
  change (freeRun 2 _ 0 0 0).isSome = true at hrun
  rw [hslots.2.1] at hrun
  cases hrun

end Proskrnl.Fat
