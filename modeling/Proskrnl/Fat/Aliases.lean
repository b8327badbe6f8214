import Proskrnl.Fat.ShortNames
import Proskrnl.Io.DirEntry

/-!
# Short names that no one reports

A mask is tried on the short name an entry has on the volume, whether or not the short name is reported
for the entry. `FatWriteEntrySlots` generates a short name with a numeric tail for every name that a bare
8.3 entry does not hold verbatim, lower-case names that are legal 8.3 names among them, and for these the
short name is not reported.
-/

namespace Proskrnl.Fat

open Io List

variable {v v' : Volume} {first : Nat} {e : WalkEntry} {name component : WStr} {sfn : List UInt8}
  {slots : List Slot} {needLfn : Bool}

def fatReadDirectoryEntry (e : WalkEntry) : IoDirEntry Slot where
  name := e.name
  shortName := (fatRenderShortName e.sfn).take 12
  info := e.sfn

theorem shortName_fatReadDirectoryEntry (e : WalkEntry) :
    (fatReadDirectoryEntry e).shortName = fatRenderShortName e.sfn :=
  take_of_length_le (length_fatRenderShortName e.sfn)

theorem fatRenderShortName_congr {s t : List UInt8} (h : s.take 11 = t.take 11) :
    fatRenderShortName s = fatRenderShortName t := by
  have hrender : ∀ s : List UInt8, fatRenderShortName s = fatRenderShortName (s.take 11) := by
    intro s
    have hext : ((s.take 11).drop 8).take 3 = (s.drop 8).take 3 := by
      rw [drop_take, take_take]
      rfl
    have hbase : (s.take 11).take 8 = s.take 8 := by
      rw [take_take]
      rfl
    have hdot : (s.take 11).getD 8 0 = s.getD 8 0 := by
      rw [getD_eq_getElem?_getD, getD_eq_getElem?_getD, getElem?_take_of_lt (by decide)]
    rw [fatRenderShortName, fatRenderShortName, hext, hbase, hdot]
  rw [hrender s, h, ← hrender t]

def plainByte (b : UInt8) : Bool := isLiteral b.toUInt16

theorem validateFrom_literal {rounds : Nat} {path : WStr} (hrounds : path.length < rounds)
    (h : validateFrom rounds path = true) (hsep : separator ∉ path) : ∀ u ∈ path, isLiteral u = true := by
  have hwhole : path.takeWhile (· ≠ separator) = path := by
    rw [takeWhile_eq_self_iff]
    intro u hu
    simpa using fun heq : u = separator => hsep (heq ▸ hu)
  cases rounds with
  | zero => cases hrounds
  | succ rounds =>
    rw [validateFrom, hwhole] at h
    split at h
    case isTrue hnil =>
      rw [hnil]
      simp
    case isFalse =>
      split at h
      case isTrue => cases h
      case isFalse =>
        split at h
        case isTrue => cases h
        case isFalse hchars =>
          intro u hu
          rw [List.any_eq_true, not_exists] at hchars
          have hplain : reservedChar u = false := by
            simpa using fun hreserved => hchars u ⟨hu, hreserved⟩
          have hnot : ∀ m : UInt16, reservedChar m = true → u ≠ m := by
            rintro m hm rfl
            rw [hplain] at hm
            cases hm
          rw [isLiteral_iff]
          exact ⟨hnot _ rfl, hnot _ rfl, hnot _ rfl, hnot _ rfl, hnot _ rfl⟩

theorem plainByte_of_legal {b : UInt8} (h : legalShortChar b = true) : plainByte b = true := by
  have hall : ∀ n < 256, legalShortChar (UInt8.ofNat n) = true → plainByte (UInt8.ofNat n) = true := by
    decide +kernel
  have hb := hall b.toNat (UInt8.toNat_lt b)
  rw [UInt8.ofNat_toNat] at hb
  exact hb h

theorem plainByte_shortExt (hname : ∀ u ∈ name, isLiteral u = true) :
    ∀ b ∈ shortExt name, plainByte b = true := by
  intro b hb
  obtain ⟨u, hu, hchar⟩ := mem_filterMap.mp (mem_of_mem_take hb)
  have hliteral := isLiteral_iff.mp (hname u (mem_of_mem_splitLastDot hu).1)
  rw [shortExtChar] at hchar
  split at hchar
  case isFalse => cases hchar
  case isTrue hrange =>
    cases hchar
    have hfold : ∀ m : UInt16, isSign m.toNat = true → u ≠ m → rtlUpcaseUnicodeChar u ≠ m := by
      intro m hm hne hfold
      exact hne (rtlUpcaseUnicodeChar_sign hm hfold)
    rw [plainByte, toUInt16_toUInt8 hrange.2.1, isLiteral_iff]
    obtain ⟨hstar, hdosStar, hdosQm, hquestion, hdosDot⟩ := hliteral
    exact ⟨hfold _ rfl hstar, hfold _ rfl hdosStar, hfold _ rfl hdosQm, hfold _ rfl hquestion,
      hfold _ rfl hdosDot⟩

theorem plainByte_padName {n : Nat} {s : List UInt8} (h : ∀ b ∈ s, plainByte b = true) :
    ∀ b ∈ padName n s, plainByte b = true := by
  intro b hb
  rw [padName, mem_append] at hb
  obtain hb | hb := hb
  · exact h b hb
  · rw [eq_of_mem_replicate hb]
    decide

theorem plainByte_chooseShortName (hchosen : chooseShortName slots name = some (sfn, needLfn))
    (hname : ∀ u ∈ name, isLiteral u = true) : ∀ b ∈ sfn, plainByte b = true := by
  obtain ⟨-, -, hexact, hgenerated⟩ := chooseShortName_some hchosen
  cases needLfn with
  | false =>
    obtain ⟨base, ext, rfl, -, -, -, hchars⟩ := legalShortName_of_exact (hexact rfl)
    intro b hb
    obtain hb | hb := mem_append.mp hb
    · exact plainByte_padName (fun b hb => plainByte_of_legal (hchars b (mem_append_left _ hb))) b hb
    · exact plainByte_padName (fun b hb => plainByte_of_legal (hchars b (mem_append_right _ hb))) b hb
  | true =>
    obtain ⟨tail, -, -, rfl, -⟩ := findTail_some (hgenerated rfl)
    intro b hb
    rw [shortNameFor] at hb
    obtain hb | hb := mem_append.mp hb
    · refine plainByte_padName (fun b hb => ?_) b hb
      obtain hb | hb := mem_append.mp hb
      · exact plainByte_of_legal (legalShortChar_shortBase name b (mem_of_mem_take hb))
      · obtain rfl | hb := mem_cons.mp hb
        · decide
        · exact plainByte_of_legal (legalShortChar_tailDigits _ _ b hb)
    · exact plainByte_padName (plainByte_shortExt hname) b hb

theorem isLiteral_fatRenderShortName (h : ∀ b ∈ sfn.take 11, plainByte b = true) :
    ∀ u ∈ fatRenderShortName sfn, isLiteral u = true := by
  have hbase : ∀ b ∈ (sfn.take 8).takeWhile (· ≠ 0x20), plainByte b = true := by
    intro b hb
    have hmem := (takeWhile_sublist _).subset hb
    apply h b
    rw [show (11 : Nat) = 8 + 3 from rfl, take_add]
    exact mem_append_left _ hmem
  have hext : ∀ b ∈ ((sfn.drop 8).take 3).takeWhile (· ≠ 0x20), plainByte b = true := by
    intro b hb
    have hmem := (takeWhile_sublist _).subset hb
    apply h b
    rw [show (11 : Nat) = 8 + 3 from rfl, take_add]
    exact mem_append_right _ hmem
  have hlead : ∀ l : List UInt8, (∀ b ∈ l, plainByte b = true) → ∀ b ∈ restoreLead l, plainByte b = true := by
    intro l hl
    cases l with
    | nil => nofun
    | cons c rest =>
      intro b hb
      rw [restoreLead] at hb
      obtain rfl | hb := mem_cons.mp hb
      · split
        · decide
        · exact hl c mem_cons_self
      · exact hl b (.tail _ hb)
  intro u hu
  rw [fatRenderShortName] at hu
  obtain ⟨b, hb, rfl⟩ := List.mem_map.mp hu
  obtain hb | hb := mem_append.mp hb
  · exact hlead _ hbase b hb
  · split at hb
    · obtain rfl | hb := mem_cons.mp hb
      · decide
      · exact hext b hb
    · cases hb

theorem isLiteral_maskedName (h : ∀ u ∈ name, isLiteral u = true) :
    ∀ u ∈ maskedName name, isLiteral u = true := by
  rw [maskedName]
  split
  · intro u hu
    rw [mem_singleton.mp hu]
    rfl
  · exact h

/-- A directory as the operations of the VFS leave it. It starts with dot entries at most, whose names
are their short names; names are added by `FatWriteEntrySlots`; and whatever else is done to it adds no
entry and changes no name. -/
inductive Produced (first : Nat) : Volume → Prop
  | fresh {v : Volume} : (∀ e ∈ entries (slotsOf v first), e.name = fatRenderShortName e.sfn) →
    Produced first v
  | write {v v' : Volume} {cs : List Nat} {component : WStr} {shortEntry : Slot} {written : Written} :
    Produced first v → DirectoryOn v first cs → fatValidateNtPath component = true →
    separator ∉ component → shortEntry.isVolumeId = false → shortEntry.length = 32 →
    fatWriteEntrySlots v first component shortEntry = (.ok written, v') → Produced first v'
  | keep {v v' : Volume} : Produced first v →
    (∀ e' ∈ entries (slotsOf v' first), ∃ e ∈ entries (slotsOf v first),
      e'.name = e.name ∧ e'.sfn.take 11 = e.sfn.take 11) → Produced first v'

def Stored (e : WalkEntry) : Prop :=
  e.name = fatRenderShortName e.sfn ∨ ∀ u ∈ fatRenderShortName e.sfn, isLiteral u = true

theorem Produced.stored (h : Produced first v) : ∀ e ∈ entries (slotsOf v first), Stored e := by
  induction h with
  | fresh hfresh => exact fun e he => .inl (hfresh e he)
  | @write v v' cs component shortEntry written _ hdir hvalid hsep hlabel hsize hwrite ih =>
    obtain ⟨sfn, needLfn, before, after, cs', v'', -, hchosen, -, -, hold, hnew, -⟩ :=
      hdir.writeEntrySlots hlabel hsize hwrite
    intro e he
    rw [hnew, mem_append, mem_cons] at he
    rw [hold] at ih
    obtain he | rfl | he := he
    · exact ih e (mem_append_left _ he)
    · right
      apply isLiteral_fatRenderShortName
      have hsfn : (readBack component sfn needLfn shortEntry written.lfnStart).sfn.take 11 = sfn := by
        rw [readBack]
        split
        · exact take_left' (chooseShortName_some hchosen).1.length
        · exact take_left' (chooseShortName_some hchosen).1.length
      rw [hsfn]
      exact plainByte_chooseShortName hchosen (validateFrom_literal (Nat.lt_succ_self _) hvalid hsep)
    · exact ih e (mem_append_right _ he)
  | keep _ hkeep ih =>
    intro e' he'
    obtain ⟨e, he, hname, hsfn⟩ := hkeep e' he'
    rw [Stored, hname, fatRenderShortName_congr hsfn]
    exact ih e he

/-- The second chance adds nothing to the masks of an entry whose short name is not reported. -/
def SecondChanceAgrees (entry : IoDirEntry Slot) : Prop :=
  ∀ mask, iopFillShortName entry = [] → iopEntryMatchesMask entry mask = true →
    iopMatchEntryName entry.name mask = true

/-- The stored short name is not reported, since the name is a legal 8.3 name itself. -/
def Suppressed (entry : IoDirEntry Slot) : Prop :=
  entry.shortName ≠ [] ∧ rtlIsNameLegalDOS8Dot3 entry.name = true

def SameName (entry : IoDirEntry Slot) : Prop :=
  foldUnits (maskedName entry.shortName) = foldUnits (maskedName entry.name)

/-- In a directory the operations of the VFS produce, the second chance agrees with what is reported of an
entry exactly where no short name but the name itself, up to case, is suppressed. -/
theorem secondChanceAgrees_iff (h : Produced first v) (he : e ∈ entries (slotsOf v first)) :
    SecondChanceAgrees (fatReadDirectoryEntry e) ↔
      (Suppressed (fatReadDirectoryEntry e) → SameName (fatReadDirectoryEntry e)) := by
  constructor
  · rintro hagrees ⟨hne, hlegal⟩
    obtain hname | hliteral := h.stored e he
    · have hsame : (fatReadDirectoryEntry e).name = (fatReadDirectoryEntry e).shortName :=
        hname.trans (shortName_fatReadDirectoryEntry e).symm
      rw [SameName, hsame]
    · -- the short name itself is the mask
      rw [← shortName_fatReadDirectoryEntry e] at hliteral
      have hmask := isLiteral_maskedName hliteral
      have hself : iopMatchEntryName (fatReadDirectoryEntry e).shortName
          (maskedName (fatReadDirectoryEntry e).shortName) = true :=
        (iopMatchMask_literal hmask _).mpr rfl
      have hfill : iopFillShortName (fatReadDirectoryEntry e) = [] := if_pos (.inr hlegal)
      have hmatch := hagrees (maskedName (fatReadDirectoryEntry e).shortName) hfill (by
        rw [iopEntryMatchesMask, hself, Bool.and_true, Bool.or_eq_true, bne_iff_ne]
        exact .inr hne)
      exact (iopMatchMask_literal hmask _).mp hmatch
  · intro hsame mask hfill hmatch
    rw [iopEntryMatchesMask, Bool.or_eq_true, Bool.and_eq_true, bne_iff_ne] at hmatch
    obtain hmatch | ⟨hne, hmatch⟩ := hmatch
    · exact hmatch
    · have hlegal : rtlIsNameLegalDOS8Dot3 (fatReadDirectoryEntry e).name = true := by
        rw [iopFillShortName] at hfill
        split at hfill
        · rename_i hnone
          exact hnone.resolve_left hne
        · exact absurd hfill hne
      exact (iopMatchMask_congr (hsame ⟨hne, hlegal⟩) mask).symm.trans hmatch

theorem exists_produced (component : WStr) (sfn : List UInt8) (needLfn : Bool)
    (hvalid : fatValidateNtPath component = true) (hsep : separator ∉ component)
    (hok : (fatWriteEntrySlots emptyVolume 2 component newFileEntry).1.isOk = true)
    (hchosen : chooseShortName (slotsOf emptyVolume 2) component = some (sfn, needLfn)) :
    ∃ v slot, Produced 2 v ∧
      readBack component sfn needLfn newFileEntry slot ∈ entries (slotsOf v 2) := by
  have hfresh : Produced 2 emptyVolume := by
    apply Produced.fresh
    have hnone : entries (slotsOf emptyVolume 2) = [] := by decide +kernel
    rw [hnone]
    nofun
  generalize hwrite : fatWriteEntrySlots emptyVolume 2 component newFileEntry = result at hok
  obtain ⟨_ | written, v⟩ := result
  · cases hok
  · obtain ⟨sfn', needLfn', before, after, cs', v'', -, hchosen', -, -, -, hnew, -⟩ :=
      directoryOn_emptyVolume.writeEntrySlots (by decide) (by decide) hwrite
    rw [hchosen] at hchosen'
    cases hchosen'
    refine ⟨v, written.lfnStart, .write hfresh directoryOn_emptyVolume hvalid hsep (by decide) (by decide)
      hwrite, ?_⟩
    rw [hnew]
    exact mem_append_right _ mem_cons_self

def lowerTxt : WStr := [0x6C, 0x6F, 0x77, 0x65, 0x72, 0x2E, 0x74, 0x78, 0x74]

def upperTxt : WStr := [0x4C, 0x4F, 0x57, 0x45, 0x52, 0x2E, 0x54, 0x58, 0x54]

def lowerAlias : List UInt8 := [0x4C, 0x4F, 0x57, 0x45, 0x52, 0x7E, 0x31, 0x20, 0x54, 0x58, 0x54]

def upperShort : WStr := [0x4C, 0x4F, 0x57, 0x45, 0x52, 0x7E, 0x31, 0x2E, 0x54, 0x58, 0x54]

/-- The eleven bytes of "LOWER.TXT". -/
def upperVerbatim : List UInt8 := [0x4C, 0x4F, 0x57, 0x45, 0x52, 0x20, 0x20, 0x20, 0x54, 0x58, 0x54]

/-- A name that is stored verbatim. -/
theorem secondChanceAgrees_upperTxt :
    ∃ slot, SecondChanceAgrees (fatReadDirectoryEntry (readBack upperTxt upperVerbatim false newFileEntry slot)) := by
  obtain ⟨v, slot, hproduced, hmem⟩ := exists_produced upperTxt upperVerbatim false (by decide) (by decide)
    (by decide +kernel) (by decide +kernel)
  refine ⟨slot, (secondChanceAgrees_iff hproduced hmem).mpr fun _ => ?_⟩
  exact congrArg foldUnits (by decide : maskedName upperTxt = maskedName upperTxt)

/-- The mask "LOWER~1.TXT" lets "lower.txt" through, and no short name is reported for it. -/
theorem not_secondChanceAgrees_lowerTxt :
    ¬ ∀ v e, Produced 2 v → e ∈ entries (slotsOf v 2) → SecondChanceAgrees (fatReadDirectoryEntry e) := by
  intro hall
  obtain ⟨v, slot, hproduced, hmem⟩ := exists_produced lowerTxt lowerAlias true (by decide) (by decide)
    (by decide +kernel) (by decide +kernel)
  have hagrees := hall v _ hproduced hmem
  have hname : (fatReadDirectoryEntry (readBack lowerTxt lowerAlias true newFileEntry slot)).name = lowerTxt :=
    rfl
  have hshort : (fatReadDirectoryEntry (readBack lowerTxt lowerAlias true newFileEntry slot)).shortName =
      upperShort := by
    rw [shortName_fatReadDirectoryEntry, ← (by decide +kernel : fatRenderShortName lowerAlias = upperShort)]
    exact fatRenderShortName_congr (take_left' rfl)
  have hlegal : rtlIsNameLegalDOS8Dot3 lowerTxt = true := by decide +kernel
  have hthrough : iopMatchEntryName upperShort upperShort = true := by decide +kernel
  have hout : iopMatchEntryName lowerTxt upperShort = false := by decide +kernel
  have hmatch := hagrees upperShort (if_pos (.inr (hname ▸ hlegal))) (by
    rw [iopEntryMatchesMask, hname, hshort, hout, hthrough]
    rfl)
  rw [hname, hout] at hmatch
  cases hmatch

end Proskrnl.Fat
