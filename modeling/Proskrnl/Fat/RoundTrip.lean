import Proskrnl.Fat.Directory

/-!
# A name written is a name read

`FatWriteEntrySlots` on a well-formed directory of a volume, growth included: the walk finds the
entries it found before and the new one, and `FatFreeEntrySlots` takes the new one away again. The
name is read back unit for unit unless it holds U+FFFF, which `FatValidateNtPath` lets through and
which the long-name entries use as padding.
-/

namespace Proskrnl.Fat
open Splice List

theorem entriesOf_slots (l : List Slot) (slot : Nat) (run : Option LfnRun) :
    (∀ e ∈ entriesOf l slot run, slot ≤ e.sfnSlot) ∧
      (entriesOf l slot run).Pairwise fun e f => e.sfnSlot < f.sfnSlot := by
  induction l generalizing slot run with
  | nil => exact ⟨by simp [entriesOf], .nil⟩
  | cons s l ih =>
    have hpass : ∀ run', (∀ e ∈ entriesOf l (slot + 1) run', slot ≤ e.sfnSlot) ∧
        (entriesOf l (slot + 1) run').Pairwise fun e f => e.sfnSlot < f.sfnSlot := fun run' =>
      ⟨fun e he => Nat.le_of_succ_le ((ih (slot + 1) run').1 e he), (ih (slot + 1) run').2⟩
    rw [entriesOf]
    split
    · exact ⟨by simp, .nil⟩
    · split
      · exact hpass none
      · split
        · exact hpass _
        · split
          · exact hpass none
          · have hslot : (walkEntry s slot run).sfnSlot = slot := by
              rw [walkEntry]
              split <;> rfl
            constructor
            · intro e he
              obtain rfl | he := mem_cons.mp he
              · exact Nat.le_of_eq hslot.symm
              · exact (hpass none).1 e he
            · refine pairwise_cons.mpr ⟨fun e he => ?_, (hpass none).2⟩
              rw [hslot]
              exact (ih (slot + 1) none).1 e he

theorem entries_sorted (slots : List Slot) :
    (entries slots).Pairwise fun e f => e.sfnSlot < f.sfnSlot := by
  rw [entries_eq]
  exact (entriesOf_slots slots 0 none).2

variable {slots : List Slot}

theorem eq_of_sfnSlot_eq {e f : WalkEntry} (he : e ∈ entries slots)
    (hf : f ∈ entries slots) (h : e.sfnSlot = f.sfnSlot) : e = f := by
  by_contra hne
  have hsorted := entries_sorted slots
  obtain ⟨i, hi, rfl⟩ := getElem_of_mem he
  obtain ⟨j, hj, rfl⟩ := getElem_of_mem hf
  rw [pairwise_iff_getElem] at hsorted
  rcases Nat.lt_trichotomy i j with hlt | rfl | hlt
  · exact absurd (hsorted i j hi hj hlt) (by omega)
  · exact hne rfl
  · exact absurd (hsorted j i hj hi hlt) (by omega)

theorem entriesOf_append_zero (l : List Slot) (n slot : Nat) (run : Option LfnRun) :
    entriesOf (l ++ List.replicate n zeroSlot) slot run = entriesOf l slot run := by
  induction l generalizing slot run with
  | nil =>
    apply entriesOf_zero
    intro s hs
    rw [eq_of_mem_replicate hs]
    rfl
  | cons s l ih =>
    rw [cons_append, entriesOf, entriesOf]
    simp only [ih]

theorem entries_append_zero (l : List Slot) (n : Nat) :
    entries (l ++ List.replicate n zeroSlot) = entries l := by
  rw [entries_eq, entries_eq, entriesOf_append_zero]

theorem WellFormed.append_zero (h : WellFormed slots) (n : Nat) :
    WellFormed (slots ++ List.replicate n zeroSlot) := by
  constructor
  · intro s hs
    obtain hs | hs := mem_append.mp hs
    · exact h.size s hs
    · rw [eq_of_mem_replicate hs]
      rfl
  · refine pairwise_append.mpr ⟨h.terminated, ?_, ?_⟩
    · exact pairwise_replicate.mpr (.inr fun _ => rfl)
    · intro s _ t ht _
      rw [eq_of_mem_replicate ht]
      rfl
  · intro i s hs hlong
    rw [getElem?_append] at hs
    split at hs
    case isTrue hi =>
      obtain ⟨t, ht, hnamed⟩ := h.runs i s hs hlong
      have hlt := (List.getElem?_eq_some_iff.mp ht).1
      exact ⟨t, by rw [getElem?_append_left hlt]; exact ht, hnamed⟩
    case isFalse =>
      have hzero := eq_of_mem_replicate (mem_of_getElem? hs)
      rw [hzero] at hlong
      exact absurd hlong (by decide)

theorem validateFrom_units {rounds : Nat} {path : WStr} (hrounds : path.length < rounds)
    (h : validateFrom rounds path = true) : ∀ u ∈ path, 0x20 ≤ u := by
  induction rounds generalizing path with
  | zero => cases hrounds
  | succ rounds ih =>
    rw [validateFrom] at h
    split at h
    case isTrue hnil =>
      rw [hnil]
      nofun
    case isFalse hne =>
      split at h
      case isTrue => cases h
      case isFalse =>
        split at h
        case isTrue => cases h
        case isFalse hchars =>
          have hdrop : ((path.dropWhile (· ≠ separator)).drop 1).length < rounds := by
            have hle := length_dropWhile_le (· ≠ separator) path
            have hpos := length_pos_iff.mpr hne
            rw [length_drop]
            omega
          intro u hu
          rw [← takeWhile_append_dropWhile (p := (· ≠ separator)) (l := path)] at hu
          obtain hu | hu := mem_append.mp hu
          · rw [List.any_eq_true, not_exists] at hchars
            have hplain : ¬ u < 0x20 := by
              intro hlow
              refine hchars u ⟨hu, ?_⟩
              rw [reservedChar, decide_eq_true hlow]
              rfl
            exact UInt16.not_lt.mp hplain
          · cases hrest : path.dropWhile (· ≠ separator) with
            | nil =>
              rw [hrest] at hu
              cases hu
            | cons c rest =>
              rw [hrest] at hu h hdrop
              obtain rfl | hu := mem_cons.mp hu
              · have hsep := head_dropWhile_not (· ≠ separator) (l := path)
                  (by rw [hrest]; exact cons_ne_nil _ _)
                simp only [hrest, head_cons, decide_eq_false_iff_not, ne_eq, not_not] at hsep
                rw [hsep]
                decide
              · exact ih hdrop h u hu

/-- A name that passes is read back whole exactly when it has no U+FFFF. -/
theorem decodedName_eq_self {name : WStr} (hunits : ∀ u ∈ name, 0x20 ≤ u) (h : 0xFFFF ∉ name) :
    decodedName name = name := by
  rw [decodedName, takeWhile_eq_self_iff]
  intro u hu
  rw [decide_eq_true_eq]
  constructor
  · rintro rfl
    exact absurd (hunits 0 hu) (by decide)
  · rintro rfl
    exact h hu

theorem notMem_decodedName (name : WStr) : 0xFFFF ∉ decodedName name := by
  intro hmem
  have htrue := mem_takeWhile_imp hmem
  rw [decide_eq_true_eq] at htrue
  exact htrue.2 rfl

theorem notMem_fatRenderShortName (sfn : List UInt8) : 0xFFFF ∉ fatRenderShortName sfn := by
  intro hmem
  rw [fatRenderShortName] at hmem
  obtain ⟨c, _, hc⟩ := List.mem_map.mp hmem
  have hlt := c.toNat_lt
  have hnat := congrArg UInt16.toNat hc
  rw [UInt8.toNat_toUInt16] at hnat
  have hffff : (0xFFFF : UInt16).toNat = 65535 := rfl
  omega

theorem readBack_name_iff {name : WStr} {sfn : List UInt8} {needLfn : Bool}
    (shortEntry : Slot) (slot : Nat) (hchosen : chooseShortName slots name = some (sfn, needLfn))
    (hunits : ∀ u ∈ name, 0x20 ≤ u) (hne : name ≠ []) :
    ((readBack name sfn needLfn shortEntry slot).lfnStartSlot = slot ∧
      (readBack name sfn needLfn shortEntry slot).name = name) ↔ 0xFFFF ∉ name := by
  obtain ⟨_, _, hexact, _⟩ := chooseShortName_some hchosen
  constructor
  · rintro ⟨_, hname⟩
    rw [readBack] at hname
    split at hname
    · rw [← hname]
      exact notMem_decodedName name
    · rw [← hname]
      exact notMem_fatRenderShortName _
  · intro h
    have hdecoded := decodedName_eq_self hunits h
    cases needLfn with
    | true =>
      rw [readBack, if_pos ⟨rfl, by rw [hdecoded]; exact hne⟩]
      exact ⟨rfl, hdecoded⟩
    | false =>
      rw [readBack, if_neg fun hboth => absurd hboth.1 (by simp)]
      exact ⟨rfl, (fatBuildExact83_some (hexact rfl)).2 _⟩

structure DirectoryOn (v : Volume) (first : Nat) (cs : List Nat) : Prop where
  chain : v.IsChain first cs
  nonempty : cs ≠ []
  sized : v.Sized
  limit : v.WithinLimit
  wellFormed : WellFormed (slotsOf v first)

section
variable {v v' : Volume} {first count slot : Nat} {cs : List Nat}

theorem DirectoryOn.extend (h : DirectoryOn v first cs) (hextend : fatExtendDirectory v first = some v') :
    ∃ c n, DirectoryOn v' first (cs ++ [c]) ∧
      slotsOf v' first = slotsOf v first ++ List.replicate n zeroSlot := by
  obtain ⟨c, _, hchain, hsized, hgeometry, hslots⟩ := h.chain.extend h.nonempty h.limit h.sized hextend
  refine ⟨c, _, ⟨hchain, by simp, hsized, ?_, ?_⟩, hslots⟩
  · have hlimit := h.limit
    rw [Volume.WithinLimit] at hlimit ⊢
    rwa [hgeometry]
  · rw [hslots]
    exact h.wellFormed.append_zero _

theorem DirectoryOn.findFreeSlots (h : DirectoryOn v first cs) {attempts : Nat}
    (hfind : findFreeSlots count first attempts v = (.ok slot, v')) :
    ∃ cs' n, DirectoryOn v' first cs' ∧
      slotsOf v' first = slotsOf v first ++ List.replicate n zeroSlot ∧
      freeRun count (slotsOf v' first) 0 0 0 = some slot := by
  induction attempts generalizing v cs with
  | zero => cases hfind
  | succ attempts ih =>
    rw [Fat.findFreeSlots] at hfind
    cases hrun : freeRun count (slotsOf v first) 0 0 0 with
    | some found =>
      rw [hrun] at hfind
      cases hfind
      exact ⟨cs, 0, h, by rw [replicate_zero, append_nil], hrun⟩
    | none =>
      rw [hrun] at hfind
      simp only at hfind
      cases hextend : fatExtendDirectory v first with
      | none =>
        rw [hextend] at hfind
        cases hfind
      | some grown =>
        rw [hextend] at hfind
        obtain ⟨c, n, hgrown, hslots⟩ := h.extend hextend
        obtain ⟨cs', n', hdir, hslots', hrun'⟩ := ih hgrown hfind
        refine ⟨cs', n + n', hdir, ?_, hrun'⟩
        rw [hslots', hslots, append_assoc, replicate_append_replicate]

theorem length_of_mem_entrySlots {name : WStr} {sfn : List UInt8} {needLfn : Bool} {entry s : Slot}
    (hentry : entry.length = 32) (hs : s ∈ entrySlots name sfn needLfn entry) : s.length = 32 := by
  rw [entrySlots, mem_append, List.mem_map] at hs
  obtain ⟨i, _, rfl⟩ | hs := hs
  · exact (lfnEntry_layout (length_lfnUnits _ _) _ _).2.2.2
  · rw [mem_singleton.mp hs]
    exact hentry

theorem byte_markFree {s : Slot} (h : s.length = 32) : (markFree s).byte 0 = 0xE5 := by
  rw [markFree, Slot.byte, getD_eq_getElem?_getD, getElem?_set_self (by omega)]
  rfl

theorem DirectoryOn.writeEntrySlots (h : DirectoryOn v first cs) {component : WStr}
    {shortEntry : Slot} {written : Written} (hlabel : shortEntry.isVolumeId = false)
    (hsize : shortEntry.length = 32)
    (hwrite : fatWriteEntrySlots v first component shortEntry = (.ok written, v')) :
    ∃ sfn needLfn before after cs' v'',
      component ≠ [] ∧ chooseShortName (slotsOf v first) component = some (sfn, needLfn) ∧
      written.shortEntry = withShortName sfn shortEntry ∧
      written.sfnSlot = (readBack component sfn needLfn shortEntry written.lfnStart).sfnSlot ∧
      entries (slotsOf v first) = before ++ after ∧
      entries (slotsOf v' first) =
        before ++ readBack component sfn needLfn shortEntry written.lfnStart :: after ∧
      v'.IsChain first cs' ∧
      fatFreeEntrySlots v' first written.lfnStart written.sfnSlot = (.ok (), v'') ∧
      entries (slotsOf v'' first) = entries (slotsOf v first) := by
  rw [fatWriteEntrySlots] at hwrite
  split at hwrite
  case isTrue => cases hwrite
  case isFalse hlength =>
    cases hchosen : chooseShortName (slotsOf v first) component with
    | none =>
      rw [hchosen] at hwrite
      cases hwrite
    | some chosen =>
      obtain ⟨sfn, needLfn⟩ := chosen
      rw [hchosen] at hwrite
      simp only at hwrite
      have hne : component ≠ [] := fun hnil => hlength (.inl (by rw [hnil]; rfl))
      obtain ⟨hsfn, _, _, _⟩ := chooseShortName_some hchosen
      have hlive := withShortName_live hsfn hlabel hsize
      generalize hslots : entrySlots component sfn needLfn (withShortName sfn shortEntry) = slots
        at hwrite
      have hslotsNe : 0 < slots.length := by
        rw [← hslots, entrySlots, length_append, length_singleton]
        omega
      have hslotsSize : ∀ s ∈ slots, s.length = 32 := fun s hs =>
        length_of_mem_entrySlots hlive.2.2.2.2 (hslots ▸ hs)
      rw [fatFindFreeSlots] at hwrite
      cases hfind : Fat.findFreeSlots slots.length first 4 v with
      | mk found v1 =>
        rw [hfind] at hwrite
        cases found with
        | error status => cases hwrite
        | ok firstSlot =>
          simp only at hwrite
          obtain ⟨cs', n, hdir, hgrown, hrun⟩ := h.findFreeSlots hfind
          obtain ⟨front, free, rest, hfree, hfront, hcount⟩ := freeRun_some hslotsNe hrun
          have hfreeNe : free ≠ [] := fun hnil => by
            rw [hnil] at hcount
            exact absurd hcount (by rw [length_nil]; omega)
          have hroom : firstSlot + slots.length ≤ (slotsOf v1 first).length := by
            rw [hfree.split, length_append, length_append]
            omega
          obtain ⟨v2, hwrote, hsame, hsized, hsplice⟩ :=
            hdir.chain.writeSlots hdir.sized hslotsSize hroom
          rw [hwrote] at hwrite
          cases hwrite
          -- the directory behind the write, in its three parts
          rw [hfree.split, splice_append hfront hcount.symm] at hsplice
          have hchain := hsame.isChain hdir.chain
          have hsizes : ∀ s ∈ slotsOf v' first, s.length = 32 := by
            intro s hs
            rw [hsplice, mem_append, mem_append] at hs
            have hold : ∀ s ∈ front ++ free ++ rest, s.length = 32 := by
              rw [← hfree.split]
              exact hdir.wellFormed.size
            obtain (hs | hs) | hs := hs
            · exact hold s (mem_append_left _ (mem_append_left _ hs))
            · exact hslotsSize s hs
            · exact hold s (mem_append_right _ hs)
          have hlast : firstSlot + (slots.length - 1) + 1 - firstSlot = slots.length := by omega
          obtain ⟨v3, hfreed, _, _, hspliced⟩ := hchain.freeSlots hsized
            (show firstSlot + slots.length ≤ _ by
              rw [hsplice, length_append, length_append]; omega) hsizes
          have hstretch : ((slotsOf v' first).drop firstSlot).take slots.length = slots := by
            rw [hsplice, append_assoc, drop_left' hfront, take_left]
          rw [hstretch, hsplice, splice_append hfront (length_map ..)] at hspliced
          have holdEntries : entries (slotsOf v1 first) = entries (slotsOf v first) := by
            rw [hgrown, entries_append_zero]
          refine ⟨sfn, needLfn, entriesOf front 0 none,
            entriesOf rest (front.length + free.length) none, cs', v3, hne, rfl, rfl, ?_, ?_, ?_,
            hchain, ?_, ?_⟩
          · have hlength' : slots.length - 1 = if needLfn then lfnCount component else 0 := by
              rw [← hslots, entrySlots_eq]
              cases needLfn with
              | false => rfl
              | true =>
                rw [if_pos rfl, if_pos rfl, nameEntries_eq, length_append, length_map,
                  length_range]
                rfl
            rw [readBack]
            split <;> simp only [hlength']
          · rw [← holdEntries, hfree.entries hdir.wellFormed hfreeNe]
          · rw [hsplice]
            refine hfree.entries_write hdir.wellFormed hfreeNe hcount.symm fun rest => ?_
            rw [← hslots, hfront]
            exact entriesOf_entrySlots hsfn hlabel hsize hne (by omega) firstSlot rest
          · rw [fatFreeEntrySlots]
            simp only [hlast]
            exact hfreed
          · rw [← holdEntries, hspliced, hfree.entries_freed hdir.wellFormed hfreeNe
              (by rw [length_map]; exact hcount.symm)]
            intro s hs
            obtain ⟨t, ht, rfl⟩ := List.mem_map.mp hs
            exact byte_markFree (hslotsSize t ht)

/-- The entries are those there were and one under this name, where it is reported to be; freeing its
slots brings the old entries back. -/
def RoundTrips (v : Volume) (first : Nat) (component : WStr) (written : Written) (v' : Volume) : Prop :=
  (∃ before after, entries (slotsOf v first) = before ++ after ∧
    entries (slotsOf v' first) = before ++
      { sfn := written.shortEntry, sfnSlot := written.sfnSlot, lfnStartSlot := written.lfnStart,
        name := component } :: after) ∧
  ∃ v'', fatFreeEntrySlots v' first written.lfnStart written.sfnSlot = (.ok (), v'') ∧
    entries (slotsOf v'' first) = entries (slotsOf v first)

/-- The codec round trip, for every name that passes but for those with U+FFFF. -/
theorem writeEntrySlots_roundTrips_iff {component : WStr} {shortEntry : Slot} {written : Written}
    (h : DirectoryOn v first cs) (hname : fatValidateNtPath component = true)
    (hlabel : shortEntry.isVolumeId = false) (hsize : shortEntry.length = 32)
    (hwrite : fatWriteEntrySlots v first component shortEntry = (.ok written, v')) :
    (entries (slotsOf v' first)).Pairwise (fun e f => e.sfnSlot < f.sfnSlot) ∧
      (RoundTrips v first component written v' ↔ 0xFFFF ∉ component) := by
  refine ⟨entries_sorted _, ?_⟩
  obtain ⟨sfn, needLfn, before, after, cs', v'', hne, hchosen, hentry, hslot, hold, hnew, _, hfree,
    hback⟩ := h.writeEntrySlots hlabel hsize hwrite
  have hunits := validateFrom_units (Nat.lt_succ_self _) hname
  rw [← readBack_name_iff shortEntry written.lfnStart hchosen hunits hne]
  have hsfn : (readBack component sfn needLfn shortEntry written.lfnStart).sfn =
      written.shortEntry := by
    rw [hentry, readBack]
    split <;> rfl
  constructor
  · rintro ⟨⟨before', after', _, hnew'⟩, _⟩
    -- both entries have the slot that is reported
    have hmem : readBack component sfn needLfn shortEntry written.lfnStart ∈
        entries (slotsOf v' first) := by
      rw [hnew]
      exact mem_append_right _ (mem_cons_self ..)
    have heq := eq_of_sfnSlot_eq hmem
      (by rw [hnew']; exact mem_append_right _ (mem_cons_self ..)) hslot.symm
    rw [heq]
    exact ⟨rfl, rfl⟩
  · rintro ⟨hstart, hname⟩
    refine ⟨⟨before, after, hold, ?_⟩, v'', hfree, hback⟩
    rw [hnew]
    generalize readBack component sfn needLfn shortEntry written.lfnStart = e at *
    obtain ⟨sfn', sfnSlot, lfnStartSlot, name⟩ := e
    simp only at hslot hsfn hstart hname
    rw [hslot, ← hsfn, hstart, hname]

end

/-- A volume of ten clusters, with an empty root directory. -/
def emptyVolume : Volume where
  sectorsPerCluster := 1
  reservedSectors := 1
  fatCount := 1
  fatSizeSectors := 1
  totalSectors := 12
  firstDataSector := 2
  clusterCount := 10
  rootCluster := 2
  sectorsPerCluster_pos := by decide
  sectorsPerCluster_le := by decide
  reservedSectors_pos := by decide
  fatCount_pos := by decide
  totalSectors_lt := by decide
  data_le_total := by decide
  fat_le_data := by decide
  fat_entries := by decide
  root_data := by decide
  nextFreeHint := 2
  freeClusters := 9
  fsInfoSector := 0
  fat := fun c => if c = 2 then fatEntryMask else 0
  disk := fun _ => List.replicate fatSectorSize 0
  fsInfo_reserved := by decide

def newFileEntry : Slot := (List.replicate 32 0).set 11 0x20

theorem directoryOn_emptyVolume : DirectoryOn emptyVolume 2 [2] := by
  have hchain : emptyVolume.IsChain 2 [2] :=
    ⟨.cons .nil, by decide, by decide⟩
  refine ⟨hchain, cons_ne_nil _ _, fun _ _ => length_replicate,
    show 10 + 2 ≤ 0x0FFFFFF7 by decide, ?_⟩
  have hslots : slotsOf emptyVolume 2 = [] ++ List.replicate 16 zeroSlot := by
    rw [hchain.slotsOf]
    decide +kernel
  rw [hslots]
  have hempty : WellFormed [] := ⟨nofun, .nil, fun i s hs => by simp at hs⟩
  exact hempty.append_zero 16

/-- A file "a" in it. -/
theorem writeEntrySlots_roundTrips_a :
    ∃ written v', fatWriteEntrySlots emptyVolume 2 [0x61] newFileEntry = (.ok written, v') ∧
      (entries (slotsOf v' 2)).Pairwise (fun e f => e.sfnSlot < f.sfnSlot) ∧
        (RoundTrips emptyVolume 2 [0x61] written v' ↔ 0xFFFF ∉ ([0x61] : WStr)) := by
  have hok : (fatWriteEntrySlots emptyVolume 2 [0x61] newFileEntry).1.isOk = true := by
    decide +kernel
  generalize hwrite : fatWriteEntrySlots emptyVolume 2 [0x61] newFileEntry = result at hok
  obtain ⟨_ | written, v'⟩ := result
  · cases hok
  · exact ⟨written, v', rfl, writeEntrySlots_roundTrips_iff directoryOn_emptyVolume (by decide)
      (by decide) (by decide) hwrite⟩

/-- A file whose name is "a", U+FFFF and "b" passes, is written, and is read back as "a". -/
theorem writeEntrySlots_cuts_name :
    fatValidateNtPath [0x61, 0xFFFF, 0x62] = true ∧
      (fatWriteEntrySlots emptyVolume 2 [0x61, 0xFFFF, 0x62] newFileEntry).1.isOk = true ∧
      (entries (slotsOf (fatWriteEntrySlots emptyVolume 2 [0x61, 0xFFFF, 0x62] newFileEntry).2 2)).map
        (·.name) = [[0x61]] := by
  decide +kernel

end Proskrnl.Fat
