import Proskrnl.Fat.Names

/-!
# The directory entry codec

What `FatWriteEntrySlots` writes is what `FatWalkNext` reads. The walk over a whole directory is
`entriesOf`, a recursion over the slots with the pending run of long-name entries as its state; a
group of slots written into free ones adds its own entry to it and leaves every other alone, provided
that no run of long-name entries is pending there.
-/

namespace Proskrnl.Fat
open Bytes List Option

/-! ## The walk as one recursion -/

def entriesOf : List Slot → Nat → Option LfnRun → List WalkEntry
  | [], _, _ => []
  | entry :: rest, slot, run =>
    if entry.byte 0 = 0x00 then []
    else if entry.byte 0 = 0xE5 then entriesOf rest (slot + 1) none
    else if entry.isLongName then entriesOf rest (slot + 1) (lfnStep entry slot run)
    else if entry.isVolumeId then entriesOf rest (slot + 1) none
    else walkEntry entry slot run :: entriesOf rest (slot + 1) none

def runAfter : List Slot → Nat → Option LfnRun → Option LfnRun
  | [], _, run => run
  | entry :: rest, slot, run =>
    runAfter rest (slot + 1)
      (if !entry.isFree && entry.isLongName then lfnStep entry slot run else none)

variable {slot count k tail : Nat} {run : Option LfnRun} {name : WStr} {sfn : List UInt8}
  {c : UInt16} {b : UInt8}

theorem walkLoop_some {l : List Slot} {e : WalkEntry} {next : Nat}
    (h : walkLoop l slot run = some (e, next)) :
    ∃ front rest, l = front ++ rest ∧ next = slot + front.length ∧ front ≠ [] ∧
      entriesOf l slot run = e :: entriesOf rest next none := by
  induction l generalizing slot run with
  | nil => cases h
  | cons entry l ih =>
    rw [walkLoop] at h
    rw [entriesOf]
    -- a slot that is passed over joins the front
    have hpass : ∀ run', walkLoop l (slot + 1) run' = some (e, next) →
        ∃ front rest, entry :: l = front ++ rest ∧ next = slot + front.length ∧ front ≠ [] ∧
          entriesOf l (slot + 1) run' = e :: entriesOf rest next none := by
      intro run' h'
      obtain ⟨front, rest, hsplit, hnext, _, hentries⟩ := ih h'
      refine ⟨entry :: front, rest, by rw [hsplit]; rfl, ?_, cons_ne_nil _ _, hentries⟩
      rw [hnext, length_cons]
      omega
    split at h
    case isTrue => cases h
    case isFalse hzero =>
      rw [if_neg hzero]
      split at h
      case isTrue hdeleted =>
        rw [if_pos hdeleted]
        exact hpass none h
      case isFalse hdeleted =>
        rw [if_neg hdeleted]
        split at h
        case isTrue hlong =>
          rw [if_pos hlong]
          exact hpass _ h
        case isFalse hlong =>
          rw [if_neg hlong]
          split at h
          case isTrue hlabel =>
            rw [if_pos hlabel]
            exact hpass none h
          case isFalse hlabel =>
            cases h
            rw [if_neg hlabel]
            exact ⟨[entry], l, rfl, rfl, cons_ne_nil _ _, rfl⟩

theorem walkLoop_none {l : List Slot}
    (h : walkLoop l slot run = none) : entriesOf l slot run = [] := by
  induction l generalizing slot run with
  | nil => rfl
  | cons entry l ih =>
    rw [walkLoop] at h
    rw [entriesOf]
    split at h
    case isTrue hzero => rw [if_pos hzero]
    case isFalse hzero =>
      rw [if_neg hzero]
      split at h
      case isTrue hdeleted => rw [if_pos hdeleted, ih h]
      case isFalse hdeleted =>
        rw [if_neg hdeleted]
        split at h
        case isTrue hlong => rw [if_pos hlong, ih h]
        case isFalse hlong =>
          rw [if_neg hlong]
          split at h
          case isTrue hlabel => rw [if_pos hlabel, ih h]
          case isFalse => cases h

theorem walkFrom_eq (front : List Slot) {rest : List Slot} {rounds : Nat}
    (h : rest.length < rounds) :
    walkFrom (front ++ rest) rounds front.length = entriesOf rest front.length none := by
  induction rounds generalizing front rest with
  | zero => cases h
  | succ rounds ih =>
    rw [walkFrom, fatWalkNext, drop_left]
    cases hnext : walkLoop rest front.length none with
    | none => rw [walkLoop_none hnext]
    | some found =>
      obtain ⟨e, next⟩ := found
      obtain ⟨middle, rest', hsplit, hlength, hne, hentries⟩ := walkLoop_some hnext
      have hpos := length_pos_iff.mpr hne
      rw [hsplit, length_append] at h
      rw [hentries, hsplit, ← append_assoc, hlength, ← length_append]
      simp only
      rw [ih _ (by omega)]

theorem entries_eq (slots : List Slot) : entries slots = entriesOf slots 0 none :=
  walkFrom_eq [] (Nat.lt_succ_self _)

theorem entriesOf_append {front rest : List Slot} (hfront : ∀ s ∈ front, s.byte 0 ≠ 0x00)
    (slot : Nat) (run : Option LfnRun) :
    entriesOf (front ++ rest) slot run =
      entriesOf front slot run ++ entriesOf rest (slot + front.length) (runAfter front slot run) := by
  induction front generalizing slot run with
  | nil => rfl
  | cons entry front ih =>
    have ih := ih (fun s hs => hfront s (mem_cons_of_mem _ hs)) (slot + 1)
    have hslot : slot + (entry :: front).length = slot + 1 + front.length := by
      rw [length_cons]
      omega
    have hzero := hfront entry (mem_cons_self ..)
    rw [cons_append, entriesOf, entriesOf, runAfter, hslot, if_neg hzero, if_neg hzero]
    split
    case isTrue hdeleted =>
      have hfree : entry.isFree = true := by rw [Slot.isFree, hdeleted]; rfl
      rw [hfree]
      exact ih none
    case isFalse hdeleted =>
      have hfree : entry.isFree = false := by
        rw [Slot.isFree, decide_eq_false hzero, decide_eq_false hdeleted]
        rfl
      rw [hfree]
      split
      case isTrue hlong =>
        rw [hlong]
        exact ih _
      case isFalse hlong =>
        rw [Bool.eq_false_iff.mpr hlong]
        split
        case isTrue => exact ih none
        case isFalse => rw [ih none]; rfl

/-! ## Long-name entries -/

theorem fatLfnEntryChars_lfnEntry {units : WStr} (h : units.length = 13) (ordinal checksum : UInt8) :
    fatLfnEntryChars (lfnEntry ordinal checksum units) = units := by
  match units, h with
  | [a, b, c, d, e, f, g, h, i, j, k, l, m], _ =>
    have hunit (c : UInt16) : UInt16.ofNat (ofLe (le 2 c.toNat)) = c := by
      rw [ofLe_le_of_lt (by have := c.toNat_lt; omega)]
      simp
    have hall : fatLfnEntryChars (lfnEntry ordinal checksum [a, b, c, d, e, f, g, h, i, j, k, l, m]) =
        [a, b, c, d, e, f, g, h, i, j, k, l, m].map fun c => UInt16.ofNat (ofLe (le 2 c.toNat)) :=
      rfl
    rw [hall]
    simp only [hunit, List.map_id']

theorem lfnEntry_layout {units : WStr} (h : units.length = 13) (ordinal checksum : UInt8) :
    (lfnEntry ordinal checksum units).byte 0 = ordinal ∧
      (lfnEntry ordinal checksum units).byte 11 = fatAttrLongName ∧
      (lfnEntry ordinal checksum units).byte 13 = checksum ∧
      (lfnEntry ordinal checksum units).length = 32 := by
  match units, h with
  | [_, _, _, _, _, _, _, _, _, _, _, _, _], _ => exact ⟨rfl, rfl, rfl, rfl⟩

theorem length_lfnUnits (name : WStr) (ordinal : Nat) : (lfnUnits name ordinal).length = 13 := by
  rw [lfnUnits, length_map, length_range]

def ordinalByte (count ordinal : Nat) : UInt8 :=
  UInt8.ofNat ordinal ||| if ordinal = count then fatLfnLast else 0

theorem ordinalByte_bits (count : Nat) {ordinal : Nat} (hpos : 0 < ordinal) (hle : ordinal ≤ 20) :
    (ordinalByte count ordinal &&& 0x3F).toNat = ordinal ∧
      (ordinalByte count ordinal &&& fatLfnLast ≠ 0 ↔ ordinal = count) ∧
      ordinalByte count ordinal ≠ 0x00 ∧ ordinalByte count ordinal ≠ 0xE5 := by
  have hplain : ∀ o : Fin 21, (o : Nat) ≠ 0 →
      ((UInt8.ofNat o ||| 0) &&& 0x3F).toNat = o ∧ (UInt8.ofNat o ||| 0) &&& fatLfnLast = 0 ∧
        UInt8.ofNat o ||| 0 ≠ 0x00 ∧ UInt8.ofNat o ||| 0 ≠ 0xE5 := by decide
  have hlast : ∀ o : Fin 21, (o : Nat) ≠ 0 →
      ((UInt8.ofNat o ||| fatLfnLast) &&& 0x3F).toNat = o ∧
        (UInt8.ofNat o ||| fatLfnLast) &&& fatLfnLast ≠ 0 ∧
        UInt8.ofNat o ||| fatLfnLast ≠ 0x00 ∧ UInt8.ofNat o ||| fatLfnLast ≠ 0xE5 := by decide
  rw [ordinalByte]
  split
  case isTrue heq =>
    obtain ⟨h1, h2, h3⟩ := hlast ⟨ordinal, by omega⟩ (by simp only; omega)
    exact ⟨h1, iff_of_true h2 heq, h3⟩
  case isFalse hne =>
    obtain ⟨h1, h2, h3⟩ := hplain ⟨ordinal, by omega⟩ (by simp only; omega)
    exact ⟨h1, iff_of_false (fun h => h h2) hne, h3⟩

def nameEntry (name : WStr) (checksum : UInt8) (count ordinal : Nat) : Slot :=
  lfnEntry (ordinalByte count ordinal) checksum (lfnUnits name ordinal)

def nameEntries (name : WStr) (checksum : UInt8) (count : Nat) : Nat → List Slot
  | 0 => []
  | ordinal + 1 =>
    nameEntry name checksum count (ordinal + 1) :: nameEntries name checksum count ordinal

theorem nameEntries_eq (name : WStr) (checksum : UInt8) (count k : Nat) :
    nameEntries name checksum count k =
      (List.range k).map fun i => nameEntry name checksum count (k - i) := by
  induction k with
  | zero => rfl
  | succ k ih =>
    rw [nameEntries, ih, range_succ_eq_map, map_cons, List.map_map]
    congr 1
    apply map_congr_left
    intro i _
    change _ = nameEntry name checksum count (k + 1 - (i + 1))
    rw [Nat.add_sub_add_right]

def lfnCount (name : WStr) : Nat :=
  (name.length + fatLfnCharsPerEntry - 1) / fatLfnCharsPerEntry

theorem entrySlots_eq (name : WStr) (sfn : List UInt8) (needLfn : Bool) (shortEntry : Slot) :
    entrySlots name sfn needLfn shortEntry =
      (if needLfn then nameEntries name (fatShortNameChecksum sfn) (lfnCount name) (lfnCount name)
        else []) ++ [shortEntry] := by
  cases needLfn with
  | false => rfl
  | true =>
    rw [if_pos rfl, nameEntries_eq]
    rfl

def paddedName (name : WStr) (count : Nat) : WStr := (List.range (count * 13)).map (lfnUnit name)

theorem lfnUnits_append_drop (name : WStr) (hk : k < count) :
    lfnUnits name (k + 1) ++ (paddedName name count).drop ((k + 1) * 13) =
      (paddedName name count).drop (k * 13) := by
  have hunits : lfnUnits name (k + 1) = ((paddedName name count).drop (k * 13)).take 13 := by
    apply ext_getElem?
    intro i
    rw [lfnUnits, paddedName, getElem?_take, getElem?_drop, getElem?_map,
      getElem?_map]
    split
    case isTrue hi =>
      rw [getElem?_range hi, getElem?_range (by omega)]
      rfl
    case isFalse hi =>
      rw [getElem?_eq_none (by rw [length_range]; omega)]
      rfl
  rw [hunits, show (k + 1) * 13 = k * 13 + 13 by omega, ← drop_drop]
  exact take_append_drop 13 _

def nameRun (name : WStr) (checksum : UInt8) (count start k : Nat) : LfnRun :=
  { top := count, checksum, start,
    units := List.replicate (k * 13) 0 ++ (paddedName name count).drop (k * 13) ++
      List.replicate (260 - count * 13) 0 }

theorem lfnStep_nameEntry (start : Nat) {checksum : UInt8} (hk : k < count) (hcount : count ≤ 20)
    (hrun : k + 1 = count ∧ slot = start ∨ k + 1 < count ∧
      run = some (nameRun name checksum count start (k + 1))) :
    lfnStep (nameEntry name checksum count (k + 1)) slot run =
      some (nameRun name checksum count start k) := by
  obtain ⟨hzero, hattr, hchecksum, _⟩ :=
    lfnEntry_layout (length_lfnUnits name (k + 1)) (ordinalByte count (k + 1)) checksum
  obtain ⟨hordinal, hlast, _⟩ := ordinalByte_bits count (show 0 < k + 1 by omega) (by omega)
  rw [lfnStep, nameEntry, hzero, hordinal, hchecksum,
    fatLfnEntryChars_lfnEntry (length_lfnUnits name (k + 1)), if_neg (by rw [fatMaxLfnEntries]; omega)]
  -- either way the units of this entry go in front of those above it
  have hunits : (nameRun name checksum count start (k + 1)).units.take (k * 13) ++
      lfnUnits name (k + 1) ++ (nameRun name checksum count start (k + 1)).units.drop (k * 13 + 13) =
      (nameRun name checksum count start k).units := by
    have hlength : (List.replicate ((k + 1) * 13) (0 : UInt16)).length = k * 13 + 13 := by
      rw [length_replicate]
      omega
    simp only [nameRun]
    rw [append_assoc (List.replicate ((k + 1) * 13) _), take_append_of_le_length (by omega),
      take_replicate, ← hlength, drop_left, Nat.min_eq_left (by omega),
      append_assoc, ← append_assoc (lfnUnits name (k + 1)), lfnUnits_append_drop name hk,
      append_assoc]
  have hfresh : k + 1 = count → (nameRun name checksum count start (k + 1)).units =
      List.replicate (fatMaxLfnEntries * fatLfnCharsPerEntry) 0 := by
    intro heq
    have hdrop : (paddedName name count).drop ((k + 1) * 13) = [] := by
      apply drop_of_length_le
      rw [paddedName, length_map, length_range, heq]
    simp only [nameRun]
    rw [hdrop, append_nil, replicate_append_replicate, fatMaxLfnEntries,
      fatLfnCharsPerEntry]
    congr 1
    omega
  obtain ⟨heq, rfl⟩ | ⟨hlt, rfl⟩ := hrun
  · rw [if_pos (hlast.mpr heq)]
    simp only [map_some, Nat.add_sub_cancel]
    rw [hfresh heq] at hunits
    subst heq
    exact congrArg some (congrArg (LfnRun.mk (k + 1) checksum slot) hunits)
  · rw [if_neg (fun h => absurd (hlast.mp h) (by omega))]
    simp only [filter_some, nameRun, decide_true, if_true, map_some,
      Nat.add_sub_cancel, fatLfnCharsPerEntry]
    exact congrArg some (congrArg (LfnRun.mk count checksum start) hunits)

theorem entriesOf_nameEntries {checksum : UInt8} {start : Nat}
    (rest : List Slot) (hk : k ≤ count) (hcount : count ≤ 20)
    (hslot : slot + k = start + count)
    (hrun : 0 < count ∧ k = count ∨ run = some (nameRun name checksum count start k)) :
    entriesOf (nameEntries name checksum count k ++ rest) slot run =
      entriesOf rest (start + count) (some (nameRun name checksum count start 0)) := by
  induction k generalizing slot run with
  | zero =>
    obtain ⟨hpos, hzero⟩ | rfl := hrun
    · omega
    · rw [← hslot]
      rfl
  | succ k ih =>
    obtain ⟨hzero, hattr, _⟩ :=
      lfnEntry_layout (length_lfnUnits name (k + 1)) (ordinalByte count (k + 1)) checksum
    obtain ⟨_, _, hne, hlive⟩ := ordinalByte_bits count (show 0 < k + 1 by omega) (by omega)
    have hlong : (nameEntry name checksum count (k + 1)).isLongName = true := by
      rw [Slot.isLongName, nameEntry, hattr]
      rfl
    rw [nameEntries, cons_append, entriesOf, nameEntry, hzero, if_neg hne, if_neg hlive,
      ← nameEntry, if_pos hlong, lfnStep_nameEntry start (by omega) hcount ?_]
    · exact ih (by omega) (by omega) (.inr rfl)
    · obtain ⟨_, heq⟩ | hrun := hrun
      · exact .inl ⟨heq, by omega⟩
      · by_cases heq : k + 1 = count
        · exact .inl ⟨heq, by omega⟩
        · exact .inr ⟨by omega, hrun⟩

/-! ## Names read back -/

/-- What is read back of a name: up to the first unit that ends one. -/
def decodedName (name : WStr) : WStr := name.takeWhile fun u => u ≠ 0x0000 ∧ u ≠ 0xFFFF

theorem decodedName_paddedName (h : name.length ≤ count * 13) :
    decodedName (paddedName name count) = decodedName name := by
  have hsplit : paddedName name count = name ++ (paddedName name count).drop name.length := by
    have htake : (paddedName name count).take name.length = name := by
      apply ext_getElem?
      intro i
      rw [getElem?_take, paddedName, getElem?_map]
      split
      case isTrue hi =>
        rw [getElem?_range (by omega), map_some, lfnUnit, if_pos hi,
          getD_eq_getElem?_getD, getElem?_eq_getElem hi]
        rfl
      case isFalse hi => rw [getElem?_eq_none (by omega)]
    conv_lhs => rw [← take_append_drop name.length (paddedName name count), htake]
  rw [hsplit, decodedName, decodedName, takeWhile_append]
  split
  case isTrue hall =>
    rw [(List.takeWhile_prefix _).eq_of_length hall]
    cases hrest : (paddedName name count).drop name.length with
    | nil => rw [takeWhile_nil, append_nil]
    | cons u rest =>
      have hu : (paddedName name count)[name.length]? = some u := by
        rw [← head?_drop, hrest]
        rfl
      have hzero : u = 0 := by
        rw [paddedName, getElem?_map] at hu
        obtain ⟨i, hi, rfl⟩ := map_eq_some_iff.mp hu
        rw [List.getElem?_eq_some_iff] at hi
        obtain ⟨_, rfl⟩ := hi
        rw [getElem_range, lfnUnit, if_neg (Nat.lt_irrefl _), if_pos rfl]
      rw [hzero, takeWhile_cons_of_neg (by decide), append_nil]
  case isFalse => rfl

theorem lfnName_nameRun {sfn entry : Slot} {start : Nat}
    (hsfn : fatShortNameChecksum entry = fatShortNameChecksum sfn) (hlength : name.length ≤ 255) :
    lfnName entry (some (nameRun name (fatShortNameChecksum sfn) (lfnCount name) start 0)) =
      if decodedName name = [] then none else some (decodedName name, start) := by
  have hcount : name.length ≤ lfnCount name * 13 := by
    rw [lfnCount, fatLfnCharsPerEntry]
    omega
  generalize hrun : nameRun name (fatShortNameChecksum sfn) (lfnCount name) start 0 = run
  have hunits : run.units.take (run.top * fatLfnCharsPerEntry) = paddedName name (lfnCount name) := by
    have hpadded : (paddedName name (lfnCount name)).length = lfnCount name * 13 := by
      rw [paddedName, length_map, length_range]
    rw [← hrun, fatLfnCharsPerEntry]
    simp only [nameRun]
    rw [Nat.zero_mul, replicate_zero, nil_append, drop_zero, take_left' hpadded]
  have hchecksum : fatShortNameChecksum entry = run.checksum := by rw [hsfn, ← hrun]; rfl
  have hstart : run.start = start := by rw [← hrun]; rfl
  rw [lfnName, bind_some, if_pos hchecksum, hunits, hstart]
  change (if 0 < (decodedName (paddedName name (lfnCount name))).length ∧
    (decodedName (paddedName name (lfnCount name))).length ≤ 255 then
      some (decodedName (paddedName name (lfnCount name)), start) else none) = _
  rw [decodedName_paddedName hcount]
  have hle : (decodedName name).length ≤ name.length := (List.takeWhile_prefix _).length_le
  split
  case isTrue hpos => rw [if_neg (length_pos_iff.mp hpos.1)]
  case isFalse hnot =>
    rw [if_pos]
    by_contra hne
    exact hnot ⟨length_pos_iff.mpr hne, by omega⟩

/-! ## Short names read back -/

theorem exact83Char_range (h : exact83Char c = true) :
    0x20 < c.toNat ∧ c.toNat ≤ 0x7E := by
  rw [exact83Char, Bool.and_eq_true, Bool.and_eq_true, decide_eq_true_eq, bne_iff_ne] at h
  obtain ⟨⟨⟨hhigh, hlow, _⟩, _⟩, hspace⟩ := h
  have hhigh : c.toNat ≤ 0x7E := UInt16.le_iff_toNat_le.mp hhigh
  have hlow : 0x20 ≤ c.toNat := UInt16.le_iff_toNat_le.mp hlow
  have hspace : c.toNat ≠ 0x20 := fun heq => hspace (UInt16.toNat_inj.mp heq)
  exact ⟨by omega, hhigh⟩

theorem toUInt16_toUInt8 (h : c.toNat ≤ 0x7E) : c.toUInt8.toUInt16 = c := by
  apply UInt16.toNat_inj.mp
  rw [UInt8.toNat_toUInt16, UInt16.toNat_toUInt8]
  exact Nat.mod_eq_of_lt (by omega)

theorem toUInt8_ne (h : c.toNat ≤ 0x7E) (hb : b.toNat ≠ c.toNat) :
    c.toUInt8 ≠ b := by
  rintro rfl
  rw [UInt16.toNat_toUInt8, Nat.mod_eq_of_lt (by omega)] at hb
  exact hb rfl

@[simp] theorem length_padName {n : Nat} {s : List UInt8} (h : s.length ≤ n) :
    (padName n s).length = n := by
  rw [padName, length_append, length_replicate]
  omega

theorem takeWhile_padName {n : Nat} {s : List UInt8} (h : ∀ c ∈ s, c ≠ 0x20) :
    (padName n s).takeWhile (fun c => decide (c ≠ 0x20)) = s := by
  rw [padName, takeWhile_append_of_pos fun c hc => decide_eq_true (h c hc)]
  cases n - s.length with
  | zero => rw [replicate_zero, takeWhile_nil, append_nil]
  | succ k =>
    rw [replicate_succ, takeWhile_cons_of_neg (by decide), append_nil]

theorem fatRenderShortName_padName {base ext rest : List UInt8} (hbase : base.length ≤ 8)
    (hext : ext.length ≤ 3) (hbaseChars : ∀ c ∈ base, c ≠ 0x20 ∧ c ≠ 0x05)
    (hextChars : ∀ c ∈ ext, c ≠ 0x20) :
    fatRenderShortName (padName 8 base ++ padName 3 ext ++ rest) =
      (base ++ if ext = [] then [] else 0x2E :: ext).map fun c => c.toUInt16 := by
  have hfirst : (padName 8 base ++ padName 3 ext ++ rest).take 8 = padName 8 base := by
    rw [append_assoc, take_left' (length_padName hbase)]
  have hsecond : ((padName 8 base ++ padName 3 ext ++ rest).drop 8).take 3 = padName 3 ext := by
    rw [append_assoc, drop_left' (length_padName hbase),
      take_left' (length_padName hext)]
  have hdot : (padName 8 base ++ padName 3 ext ++ rest).getD 8 0 =
      if ext = [] then 0x20 else ext.headD 0 := by
    rw [append_assoc, getD_append_right _ _ _ _ (by rw [length_padName hbase]),
      length_padName hbase]
    cases ext with
    | nil => rfl
    | cons c ext => rfl
  have hlead : restoreLead base = base := by
    cases base with
    | nil => rfl
    | cons c base => rw [restoreLead, if_neg (hbaseChars c (mem_cons_self ..)).2]
  rw [fatRenderShortName, hfirst, hsecond, hdot, takeWhile_padName fun c hc => (hbaseChars c hc).1,
    takeWhile_padName hextChars, hlead]
  cases ext with
  | nil => rfl
  | cons c ext =>
    rw [if_neg (cons_ne_nil _ _), if_neg (cons_ne_nil _ _),
      if_pos (show (c :: ext).headD 0 ≠ 0x20 from hextChars c (mem_cons_self ..))]

/-- A short name that a slot can hold: 11 bytes, and the first does not mark a free slot. -/
structure ShortName (sfn : List UInt8) : Prop where
  length : sfn.length = 11
  head : ∃ c rest, sfn = c :: rest ∧ c ≠ 0x00 ∧ c ≠ 0xE5

theorem shortName_padName {base ext : List UInt8} (hbase : base.length ≤ 8) (hext : ext.length ≤ 3)
    (hhead : ∃ c rest, base = c :: rest ∧ c ≠ 0x00 ∧ c ≠ 0xE5) :
    ShortName (padName 8 base ++ padName 3 ext) := by
  constructor
  · rw [length_append, length_padName hbase, length_padName hext]
  · obtain ⟨c, rest, rfl, hc⟩ := hhead
    exact ⟨c, _, rfl, hc⟩

theorem fatBuildExact83_some (h : fatBuildExact83 name = some sfn) :
    ShortName sfn ∧ ∀ rest, fatRenderShortName (sfn ++ rest) = name := by
  rw [fatBuildExact83] at h
  split at h
  case isTrue => cases h
  case isFalse =>
    split at h
    case isTrue => cases h
    case isFalse hshape =>
      split at h
      case isFalse => cases h
      case isTrue hchars =>
        cases h
        simp only [not_or, not_and, Nat.not_lt] at hshape
        obtain ⟨hne, hbase, hext, hdot⟩ := hshape
        have hsplit : name = name.takeWhile (· ≠ 0x2E) ++ name.dropWhile (· ≠ 0x2E) :=
          takeWhile_append_dropWhile.symm
        generalize hb : name.takeWhile (· ≠ 0x2E) = base at hne hbase hchars hsplit ⊢
        have hname : name = base ++ if (name.dropWhile (· ≠ 0x2E)).drop 1 = [] then []
            else 0x2E :: (name.dropWhile (· ≠ 0x2E)).drop 1 := by
          conv_lhs => rw [hsplit]
          congr 1
          cases hrest : name.dropWhile (· ≠ 0x2E) with
          | nil => rfl
          | cons c rest =>
            have hc : c = 0x2E := by
              have := head_dropWhile_not (· ≠ 0x2E) (l := name)
                (by rw [hrest]; exact cons_ne_nil _ _)
              simpa only [hrest, head_cons, decide_eq_false_iff_not, ne_eq, Classical.not_not]
                using this
            have hmem : 0x2E ∈ name := by
              rw [hsplit, hrest, hc]
              exact mem_append_right _ (mem_cons_self ..)
            have hpos := hdot hmem
            rw [hrest] at hpos
            rw [hc, if_neg fun hnil => hpos (congrArg List.length hnil)]
            rfl
        generalize (name.dropWhile (· ≠ 0x2E)).drop 1 = ext at hext hchars hname ⊢
        have hrange : ∀ c ∈ base ++ ext, 0x20 < c.toNat ∧ c.toNat ≤ 0x7E := fun c hc =>
          exact83Char_range (List.all_eq_true.mp hchars c hc)
        have hback : ∀ l : WStr, (∀ c ∈ l, c.toNat ≤ 0x7E) →
            (l.map fun c => c.toUInt8).map (fun c => c.toUInt16) = l := by
          intro l hl
          rw [List.map_map]
          conv_rhs => rw [← List.map_id l]
          exact map_congr_left fun c hc => toUInt16_toUInt8 (hl c hc)
        have hbytes : ∀ l : WStr, (∀ c ∈ l, c ∈ base ++ ext) → ∀ b ∈ l.map (fun c => c.toUInt8),
            b ≠ 0x20 ∧ b ≠ 0x05 ∧ b ≠ 0x00 ∧ b ≠ 0xE5 := by
          intro l hl b hb
          obtain ⟨c, hc, rfl⟩ := List.mem_map.mp hb
          obtain ⟨hlow, hhigh⟩ := hrange c (hl c hc)
          refine ⟨toUInt8_ne hhigh ?_, toUInt8_ne hhigh ?_, toUInt8_ne hhigh ?_,
            toUInt8_ne hhigh ?_⟩
          · exact fun heq => absurd (heq ▸ hlow) (by decide)
          · exact fun heq => absurd (heq ▸ hlow) (by decide)
          · exact fun heq => absurd (heq ▸ hlow) (by decide)
          · exact fun heq => absurd (heq ▸ hhigh) (by decide)
        have hbaseBytes := hbytes base fun c hc => mem_append_left _ hc
        have hextBytes := hbytes ext fun c hc => mem_append_right _ hc
        constructor
        · apply shortName_padName
          · rwa [length_map]
          · rwa [length_map]
          · cases hbase' : base.map (fun c => c.toUInt8) with
            | nil => exact absurd (congrArg List.length hbase') (by rwa [length_map])
            | cons c rest =>
              have hc := hbaseBytes c (by rw [hbase']; exact mem_cons_self ..)
              exact ⟨c, rest, rfl, hc.2.2⟩
        · intro rest
          rw [fatRenderShortName_padName (by rwa [length_map]) (by rwa [length_map])
            (fun c hc => ⟨(hbaseBytes c hc).1, (hbaseBytes c hc).2.1⟩)
            (fun c hc => (hextBytes c hc).1), map_append,
            hback base fun c hc => (hrange c (mem_append_left _ hc)).2]
          conv_rhs => rw [hname]
          congr 1
          have hextBack := hback ext fun c hc => (hrange c (mem_append_right _ hc)).2
          cases ext with
          | nil => rfl
          | cons c ext =>
            rw [if_neg (by exact cons_ne_nil _ _), if_neg (cons_ne_nil _ _), map_cons,
              hextBack]
            rfl

/-! ## Generated short names -/

theorem toNat_toUInt8_range (hlow : 0x20 < c) (hhigh : c ≤ 0x7E) :
    0x20 < c.toUInt8.toNat ∧ c.toUInt8.toNat ≤ 0x7E := by
  have hlow : 0x20 < c.toNat := UInt16.lt_iff_toNat_lt.mp hlow
  have hhigh : c.toNat ≤ 0x7E := UInt16.le_iff_toNat_le.mp hhigh
  rw [UInt16.toNat_toUInt8, Nat.mod_eq_of_lt (by omega)]
  exact ⟨hlow, hhigh⟩

theorem shortBaseChar_range {u : UInt16} (h : shortBaseChar u = some b) :
    0x20 < b.toNat ∧ b.toNat ≤ 0x7E := by
  rw [shortBaseChar] at h
  split at h
  case isTrue => cases h
  case isFalse hc =>
    simp only [not_or, UInt16.not_le, gt_iff_lt, UInt16.not_lt] at hc
    split at h
    case isTrue =>
      cases h
      decide
    case isFalse =>
      cases h
      exact toNat_toUInt8_range hc.1 hc.2.1

theorem shortExtChar_range {u : UInt16} (h : shortExtChar u = some b) :
    0x20 < b.toNat ∧ b.toNat ≤ 0x7E := by
  rw [shortExtChar] at h
  split at h
  case isTrue hc =>
    cases h
    exact toNat_toUInt8_range hc.1 hc.2.1
  case isFalse => cases h

theorem shortBase_spec (name : WStr) :
    shortBase name ≠ [] ∧ (shortBase name).length ≤ 8 ∧
      ∀ b ∈ shortBase name, 0x20 < b.toNat ∧ b.toNat ≤ 0x7E := by
  rw [shortBase]
  split
  case isTrue =>
    refine ⟨cons_ne_nil _ _, by decide, fun b hb => ?_⟩
    rw [mem_singleton.mp hb]
    decide
  case isFalse hne =>
    refine ⟨hne, length_take_le .., fun b hb => ?_⟩
    obtain ⟨u, _, hu⟩ := mem_filterMap.mp (mem_of_mem_take hb)
    exact shortBaseChar_range hu

theorem shortExt_spec (name : WStr) :
    (shortExt name).length ≤ 3 ∧ ∀ b ∈ shortExt name, 0x20 < b.toNat ∧ b.toNat ≤ 0x7E := by
  refine ⟨length_take_le .., fun b hb => ?_⟩
  obtain ⟨u, _, hu⟩ := mem_filterMap.mp (mem_of_mem_take hb)
  exact shortExtChar_range hu

theorem length_tailDigits {width : Nat} (hwidth : width ≤ 6) (htail : tail < 1000000) :
    (tailDigits width tail).length ≤ 6 := by
  have hdigits : (Nat.digits 10 tail).length ≤ 6 := by
    rw [Nat.digits_length_le_iff (by decide)]
    norm_num
    exact htail
  rw [tailDigits, length_reverse, length_append, length_replicate, length_map]
  omega

theorem shortName_shortNameFor (name : WStr) (htail : tail < 1000000) :
    ShortName (shortNameFor name tail) := by
  obtain ⟨hne, hlength, hchars⟩ := shortBase_spec name
  have hdigits : (tailDigits (3 - (shortBase name).length) tail).length ≤ 6 :=
    length_tailDigits (by omega) htail
  apply shortName_padName
  · rw [length_append, length_take, length_cons]
    omega
  · exact (shortExt_spec name).1
  · cases hbase : shortBase name with
    | nil => exact absurd hbase hne
    | cons c rest =>
      rw [hbase] at hdigits hchars
      obtain ⟨hlow, hhigh⟩ := hchars c (mem_cons_self ..)
      obtain ⟨k, hk⟩ : ∃ k, 8 - 1 - (tailDigits (3 - (c :: rest).length) tail).length = k + 1 :=
        ⟨_, (Nat.succ_pred_eq_of_pos (by omega)).symm⟩
      rw [hk, take_succ_cons]
      refine ⟨c, _, rfl, ?_, ?_⟩
      · rintro rfl
        exact absurd hlow (by decide)
      · rintro rfl
        exact absurd hhigh (by decide)

theorem findTail_some {slots : List Slot} {rounds : Nat}
    (h : findTail slots name rounds tail = some sfn) :
    ∃ t, tail ≤ t ∧ t < tail + rounds ∧ sfn = shortNameFor name t ∧
      fatShortNameExists slots sfn = false ∧
      ∀ t', tail ≤ t' → t' < t → fatShortNameExists slots (shortNameFor name t') = true := by
  induction rounds generalizing tail with
  | zero => cases h
  | succ rounds ih =>
    rw [findTail] at h
    split at h
    case isTrue htaken =>
      obtain ⟨t, hle, hlt, hsfn, hfree, hbefore⟩ := ih h
      refine ⟨t, by omega, by omega, hsfn, hfree, fun t' hle' hlt' => ?_⟩
      by_cases heq : t' = tail
      · rw [heq]
        exact htaken
      · exact hbefore t' (by omega) hlt'
    case isFalse hfree =>
      cases h
      exact ⟨tail, Nat.le_refl _, by omega, rfl, Bool.eq_false_iff.mpr hfree,
        fun t' hle hlt => absurd hlt (by omega)⟩

/-- The short name that is chosen is not taken, can be held by a slot, and without long-name entries
reads back as the name. -/
theorem chooseShortName_some {slots : List Slot} {needLfn : Bool}
    (h : chooseShortName slots name = some (sfn, needLfn)) :
    ShortName sfn ∧ fatShortNameExists slots sfn = false ∧
      (needLfn = false → fatBuildExact83 name = some sfn) ∧
      (needLfn = true → fatGenerateShortName slots name = some sfn) := by
  have hgenerated : ∀ {sfn}, fatGenerateShortName slots name = some sfn →
      ShortName sfn ∧ fatShortNameExists slots sfn = false := by
    intro sfn hsfn
    obtain ⟨t, _, hlt, rfl, hfree, _⟩ := findTail_some hsfn
    exact ⟨shortName_shortNameFor name hlt, hfree⟩
  rw [chooseShortName] at h
  cases hexact : fatBuildExact83 name with
  | none =>
    rw [hexact] at h
    obtain ⟨sfn', hsfn, heq⟩ := map_eq_some_iff.mp h
    cases heq
    exact ⟨(hgenerated hsfn).1, (hgenerated hsfn).2, nofun, fun _ => hsfn⟩
  | some exact_ =>
    rw [hexact] at h
    simp only at h
    split at h
    case isTrue =>
      obtain ⟨sfn', hsfn, heq⟩ := map_eq_some_iff.mp h
      cases heq
      exact ⟨(hgenerated hsfn).1, (hgenerated hsfn).2, nofun, fun _ => hsfn⟩
    case isFalse hfree =>
      cases h
      exact ⟨(fatBuildExact83_some hexact).1, Bool.eq_false_iff.mpr hfree, fun _ => rfl, nofun⟩

end Proskrnl.Fat
