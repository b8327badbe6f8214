import Proskrnl.Fat.Codec
import Proskrnl.Library.Splice

/-!
# One entry more, one entry less

The slots of one name written into a run of free slots, and marked free again. `WellFormed` is what
the walk needs of a directory: behind the terminator nothing is in use, and a long-name entry has
another one or its short entry behind it.
-/

namespace Proskrnl.Fat
open Splice List

def Slot.isLong (s : Slot) : Bool := !s.isFree && s.isLongName

/-- An entry in use that a long-name entry can stand before. -/
def Slot.isNamed (s : Slot) : Bool := !s.isFree && (s.isLongName || !s.isVolumeId)

structure WellFormed (slots : List Slot) : Prop where
  size : ∀ s ∈ slots, s.length = 32
  terminated : slots.Pairwise fun s t => s.byte 0 = 0x00 → t.byte 0 = 0x00
  runs : ∀ i s, slots[i]? = some s → s.isLong = true →
    ∃ t, slots[i + 1]? = some t ∧ t.isNamed = true

section
variable {slots front free rest : List Slot} {s t : Slot} {slot i r count : Nat}

theorem Slot.isFree_iff : s.isFree = true ↔ s.byte 0 = 0x00 ∨ s.byte 0 = 0xE5 := by
  rw [Slot.isFree, Bool.or_eq_true, decide_eq_true_eq, decide_eq_true_eq]

theorem Slot.isNamed_of_isFree (h : s.isFree = true) : s.isNamed = false := by
  rw [Slot.isNamed, h]
  rfl

theorem WellFormed.isLong_before_free (h : WellFormed slots) (hs : slots[i]? = some s)
    (ht : slots[i + 1]? = some t) (hfree : t.isFree = true) : s.isLong = false := by
  cases hlong : s.isLong with
  | false => rfl
  | true =>
    obtain ⟨t', ht', hnamed⟩ := h.runs i s hs hlong
    rw [ht] at ht'
    cases ht'
    rw [Slot.isNamed_of_isFree hfree] at hnamed
    cases hnamed

/-- What `FatFindFreeSlots` finds: free slots behind a slot in use, or at the start. -/
structure FreeRun (slots front free rest : List Slot) : Prop where
  split : slots = front ++ free ++ rest
  isFree : ∀ s ∈ free, s.isFree = true
  before : ∀ s, front.getLast? = some s → s.isFree = false

variable (front free) in
theorem freeRun_go {l : List Slot} (runStart : Nat) (hfree : ∀ s ∈ free, s.isFree = true)
    (hbefore : ∀ s, front.getLast? = some s → s.isFree = false) (hlt : free.length < count)
    (hstart : free ≠ [] → runStart = front.length)
    (h : freeRun count l (front.length + free.length) runStart free.length = some r) :
    ∃ front' free' rest, FreeRun (front ++ free ++ l) front' free' rest ∧ front'.length = r ∧
      free'.length = count := by
  induction l generalizing front free runStart with
  | nil => cases h
  | cons entry l ih =>
    rw [freeRun] at h
    split at h
    case isTrue hentry =>
      -- the run goes on, from the same start
      have hall : ∀ s ∈ free ++ [entry], s.isFree = true := by
        intro s hs
        obtain hs | hs := mem_append.mp hs
        · exact hfree s hs
        · rw [mem_singleton.mp hs]
          exact hentry
      have hsame : (if free.length = 0 then front.length + free.length else runStart) =
          front.length := by
        split
        case isTrue hzero => rw [hzero, Nat.add_zero]
        case isFalse hpos => exact hstart fun hnil => hpos (congrArg List.length hnil)
      have hlength : (free ++ [entry]).length = free.length + 1 := by
        rw [length_append, length_singleton]
      simp only [hsame] at h
      split at h
      case isTrue hcount =>
        cases h
        exact ⟨front, free ++ [entry], l, ⟨by simp, hall, hbefore⟩, rfl, hlength.trans hcount⟩
      case isFalse hcount =>
        have hrest := ih front (free ++ [entry]) front.length hall hbefore (by omega) (fun _ => rfl)
          (by rw [hlength, ← Nat.add_assoc]; exact h)
        simpa using hrest
    case isFalse hentry =>
      have hrest := ih (front ++ free ++ [entry]) [] runStart nofun
        (fun s hs => by
          rw [getLast?_concat] at hs
          cases hs
          exact Bool.eq_false_iff.mpr hentry)
        (by rw [length_nil]; omega) (fun hne => absurd rfl hne)
        (by simpa [Nat.add_assoc] using h)
      simpa using hrest

theorem freeRun_some (hcount : 0 < count) (h : freeRun count slots 0 0 0 = some r) :
    ∃ front free rest, FreeRun slots front free rest ∧ front.length = r ∧ free.length = count :=
  freeRun_go [] [] 0 nofun nofun hcount (fun hne => absurd rfl hne) h

theorem FreeRun.front_live (h : FreeRun slots front free rest) (hwf : WellFormed slots) :
    ∀ s ∈ front, s.byte 0 ≠ 0x00 := by
  intro s hs hzero
  obtain ⟨l, last, rfl⟩ : ∃ l last, front = l ++ [last] :=
    ⟨_, _, (dropLast_append_getLast (ne_nil_of_mem hs)).symm⟩
  have hlast := h.before last getLast?_concat
  have hterm := hwf.terminated
  rw [h.split, append_assoc] at hterm
  have hfront := (pairwise_append.mp hterm).1
  have hlastZero : last.byte 0 = 0x00 := by
    obtain hs | hs := mem_append.mp hs
    · exact (pairwise_append.mp hfront).2.2 s hs last (mem_singleton_self _) hzero
    · rwa [mem_singleton.mp hs] at hzero
  rw [Slot.isFree_iff.mpr (.inl hlastZero)] at hlast
  cases hlast

theorem runAfter_concat (l : List Slot) (s : Slot) (slot : Nat) (run : Option LfnRun)
    (hs : s.isLong = false) : runAfter (l ++ [s]) slot run = none := by
  induction l generalizing slot run with
  | nil =>
    rw [nil_append, runAfter, runAfter]
    rw [Slot.isLong] at hs
    rw [hs]
    rfl
  | cons t l ih => exact ih _ _

theorem FreeRun.runAfter_front (h : FreeRun slots front free rest) (hwf : WellFormed slots)
    (hne : free ≠ []) : runAfter front 0 none = none := by
  rcases eq_nil_or_concat front with rfl | ⟨l, last, rfl⟩
  · rfl
  · rw [concat_eq_append] at h ⊢
    apply runAfter_concat
    obtain ⟨f, fs, rfl⟩ := exists_cons_of_ne_nil hne
    apply hwf.isLong_before_free (i := l.length) (t := f)
    · rw [h.split]
      simp
    · rw [h.split]
      simp
    · exact h.isFree f (mem_cons_self ..)

theorem entriesOf_zero (hrest : ∀ s ∈ rest, s.byte 0 = 0x00) (slot : Nat) (run : Option LfnRun) :
    entriesOf rest slot run = [] := by
  cases rest with
  | nil => rfl
  | cons s rest => rw [entriesOf, if_pos (hrest s (mem_cons_self ..))]

theorem entriesOf_free (hfree : ∀ s ∈ free, s.isFree = true)
    (hterm : (free ++ rest).Pairwise fun s t => s.byte 0 = 0x00 → t.byte 0 = 0x00) (slot : Nat) :
    entriesOf (free ++ rest) slot none = entriesOf rest (slot + free.length) none := by
  induction free generalizing slot with
  | nil => rfl
  | cons s free ih =>
    rw [cons_append, pairwise_cons] at hterm
    rw [cons_append, entriesOf]
    split
    case isTrue hzero =>
      exact (entriesOf_zero (fun t ht => hterm.1 t (mem_append_right _ ht) hzero) _ _).symm
    case isFalse hzero =>
      have hdeleted : s.byte 0 = 0xE5 :=
        (Slot.isFree_iff.mp (hfree s (mem_cons_self ..))).resolve_left hzero
      rw [if_pos hdeleted, ih (fun t ht => hfree t (mem_cons_of_mem _ ht)) hterm.2,
        length_cons]
      congr 1
      omega

section
variable (h : FreeRun slots front free rest) (hwf : WellFormed slots) (hne : free ≠ [])
include h hwf hne

theorem FreeRun.entries :
    entries slots =
      entriesOf front 0 none ++ entriesOf rest (front.length + free.length) none := by
  have hterm := hwf.terminated
  rw [h.split, append_assoc] at hterm
  rw [entries_eq, h.split, append_assoc, entriesOf_append (h.front_live hwf),
    h.runAfter_front hwf hne, Nat.zero_add,
    entriesOf_free h.isFree (pairwise_append.mp hterm).2.1]

theorem FreeRun.entries_write {written : List Slot} {e : WalkEntry} (hlength : written.length = free.length)
    (hwritten : ∀ rest, entriesOf (written ++ rest) front.length none =
      e :: entriesOf rest (front.length + written.length) none) :
    Fat.entries (front ++ written ++ rest) = entriesOf front 0 none ++
      e :: entriesOf rest (front.length + free.length) none := by
  rw [entries_eq, append_assoc, entriesOf_append (h.front_live hwf), h.runAfter_front hwf hne,
    Nat.zero_add, hwritten, hlength]

theorem FreeRun.entries_freed {freed : List Slot} (hlength : freed.length = free.length)
    (hfreed : ∀ s ∈ freed, s.byte 0 = 0xE5) :
    Fat.entries (front ++ freed ++ rest) = Fat.entries slots := by
  have hterm := hwf.terminated
  rw [h.split] at hterm
  have hrest := (pairwise_append.mp hterm).2.1
  rw [h.entries hwf hne, entries_eq, append_assoc, entriesOf_append (h.front_live hwf),
    h.runAfter_front hwf hne, Nat.zero_add,
    entriesOf_free (fun s hs => Slot.isFree_iff.mpr (.inr (hfreed s hs))) ?_, hlength]
  refine pairwise_append.mpr ⟨?_, hrest, fun s hs t _ hzero => ?_⟩
  · rw [pairwise_iff_getElem]
    intro i j hi hj _ hzero
    rw [hfreed _ (getElem_mem hi)] at hzero
    cases hzero
  · rw [hfreed s hs] at hzero
    cases hzero

end

/-- The short entry that is written: the metadata it was given, under its short name. -/
def withShortName (sfn : List UInt8) (shortEntry : Slot) : Slot := sfn ++ shortEntry.drop 11

def readBack (name : WStr) (sfn : List UInt8) (needLfn : Bool) (shortEntry : Slot) (slot : Nat) :
    WalkEntry :=
  let sfnSlot := slot + if needLfn then lfnCount name else 0
  if needLfn = true ∧ decodedName name ≠ [] then
    { sfn := withShortName sfn shortEntry, sfnSlot, lfnStartSlot := slot, name := decodedName name }
  else
    { sfn := withShortName sfn shortEntry, sfnSlot, lfnStartSlot := sfnSlot,
      name := fatRenderShortName (withShortName sfn shortEntry) }

variable {sfn : List UInt8}

theorem fatShortNameChecksum_withShortName (h : ShortName sfn) (entry : Slot) :
    fatShortNameChecksum (withShortName sfn entry) = fatShortNameChecksum sfn := by
  rw [fatShortNameChecksum, withShortName, take_left' h.length, fatShortNameChecksum,
    take_of_length_le (Nat.le_of_eq h.length)]

theorem withShortName_live (h : ShortName sfn) {entry : Slot}
    (hentry : entry.isVolumeId = false) (hsize : entry.length = 32) :
    (withShortName sfn entry).byte 0 ≠ 0x00 ∧ (withShortName sfn entry).byte 0 ≠ 0xE5 ∧
      (withShortName sfn entry).isLongName = false ∧ (withShortName sfn entry).isVolumeId = false ∧
      (withShortName sfn entry).length = 32 := by
  have hattr : (withShortName sfn entry).byte 11 = entry.byte 11 := by
    rw [Slot.byte, withShortName, getD_append_right _ _ _ _ (by rw [h.length]), h.length,
      Slot.byte, getD_eq_getElem?_getD, getD_eq_getElem?_getD, getElem?_drop]
  have hlabel : (withShortName sfn entry).isVolumeId = false := by
    rw [Slot.isVolumeId, hattr]
    exact hentry
  have hlong : (withShortName sfn entry).isLongName = false := by
    rw [Slot.isLongName, hattr, decide_eq_false_iff_not]
    rw [Slot.isVolumeId, decide_eq_false_iff_not, not_not] at hentry
    intro hlong
    have hand : entry.byte 11 &&& fatAttrLongNameMask &&& fatAttrVolumeId =
        entry.byte 11 &&& fatAttrVolumeId := by
      rw [UInt8.and_assoc]
      rfl
    rw [hlong, hentry] at hand
    exact absurd hand (by decide)
  obtain ⟨c, rest, rfl, hzero, hdeleted⟩ := h.head
  refine ⟨hzero, hdeleted, hlong, hlabel, ?_⟩
  rw [withShortName, length_append, h.length, length_drop, hsize]

theorem entriesOf_entrySlots {name : WStr} {needLfn : Bool} {entry : Slot}
    (h : ShortName sfn) (hentry : entry.isVolumeId = false) (hsize : entry.length = 32)
    (hname : name ≠ []) (hlength : name.length ≤ 255) (slot : Nat) (rest : List Slot) :
    entriesOf (entrySlots name sfn needLfn (withShortName sfn entry) ++ rest) slot none =
      readBack name sfn needLfn entry slot ::
        entriesOf rest (slot + (entrySlots name sfn needLfn (withShortName sfn entry)).length)
          none := by
  obtain ⟨hzero, hdeleted, hlong, hlabel, _⟩ := withShortName_live h hentry hsize
  have hshort : ∀ slot run, entriesOf (withShortName sfn entry :: rest) slot run =
      walkEntry (withShortName sfn entry) slot run :: entriesOf rest (slot + 1) none := by
    intro slot run
    rw [entriesOf, if_neg hzero, if_neg hdeleted, if_neg (by rw [hlong]; simp),
      if_neg (by rw [hlabel]; simp)]
  rw [entrySlots_eq]
  cases needLfn with
  | false =>
    rw [if_neg (by simp), nil_append, singleton_append, hshort, readBack,
      if_neg fun hboth => absurd hboth.1 (by simp)]
    rfl
  | true =>
    have hpos := length_pos_iff.mpr hname
    have hcount : 0 < lfnCount name ∧ lfnCount name ≤ 20 := by
      rw [lfnCount, fatLfnCharsPerEntry]
      omega
    have hentries : (nameEntries name (fatShortNameChecksum sfn) (lfnCount name)
        (lfnCount name)).length = lfnCount name := by
      rw [nameEntries_eq, length_map, length_range]
    rw [if_pos rfl, append_assoc, singleton_append,
      entriesOf_nameEntries _ (Nat.le_refl _) hcount.2 rfl (.inl ⟨hcount.1, rfl⟩), hshort,
      length_append, hentries, length_singleton, Nat.add_assoc, walkEntry,
      lfnName_nameRun (fatShortNameChecksum_withShortName h entry) hlength, readBack]
    congr 1
    by_cases hdecoded : decodedName name = []
    · rw [if_pos hdecoded, if_neg fun hboth => hboth.2 hdecoded]
      rfl
    · rw [if_neg hdecoded, if_pos ⟨rfl, hdecoded⟩]
      rfl

end

end Proskrnl.Fat
