import Proskrnl.Fat.Namespace

/-!
# Room for a name

When `FatWriteEntrySlots` can place a name in a directory: the name has a length it takes, a short name
is left for it, and there is a run of free slots for it, if need be behind the directory once it has
grown by spare clusters of the volume. What it leaves behind when it cannot is a directory with more
unused slots.
-/

namespace Proskrnl.Fat
open Splice List

def Volume.spare (v : Volume) : Finset Nat :=
  (Finset.Ico 2 (v.clusterCount + 2)).filter fun c => v.entry c = 0

section
variable {v v' : Volume} {first c count : Nat} {cs cs' : List Nat}

theorem mem_spare : c ∈ v.spare ↔ v.IsDataCluster c ∧ v.entry c = 0 := by
  rw [Volume.spare, Finset.mem_filter, Finset.mem_Ico]
  rfl

def scanStart (v : Volume) (candidate : Nat) : Nat :=
  if candidate < 2 ∨ candidate ≥ v.clusterCount + 2 then 2 else candidate

theorem scanStart_data (hpos : 0 < v.clusterCount) (candidate : Nat) :
    v.IsDataCluster (scanStart v candidate) := by
  rw [scanStart]
  split
  · exact ⟨Nat.le_refl 2, by omega⟩
  · exact ⟨by omega, by omega⟩

theorem scanStart_succ (hdata : v.IsDataCluster c) (i : Nat) :
    (scanStart v (c + 1) - 2 + i) % v.clusterCount = (c - 2 + (i + 1)) % v.clusterCount := by
  obtain ⟨hlow, hhigh⟩ := hdata
  rw [scanStart]
  split
  case isTrue hend =>
    have hwrap : c - 2 + (i + 1) = i + v.clusterCount := by omega
    rw [hwrap, Nat.add_mod_right, Nat.sub_self, Nat.zero_add]
  case isFalse =>
    rw [show c + 1 - 2 + i = c - 2 + (i + 1) by omega]

theorem findFree_none {rounds candidate : Nat} (hpos : 0 < v.clusterCount)
    (h : findFree v rounds candidate = none) {i : Nat} (hi : i < rounds) :
    v.entry (2 + (scanStart v candidate - 2 + i) % v.clusterCount) ≠ 0 := by
  induction rounds generalizing candidate i with
  | zero => cases hi
  | succ rounds ih =>
    have hdata := scanStart_data hpos candidate
    rw [findFree] at h
    change (if v.entry (scanStart v candidate) = 0 then _ else findFree v rounds
      (scanStart v candidate + 1)) = none at h
    split at h
    case isTrue => cases h
    case isFalse hused =>
      cases i with
      | zero =>
        obtain ⟨hlow, hhigh⟩ := hdata
        rw [Nat.add_zero, Nat.mod_eq_of_lt (by omega), show 2 + (scanStart v candidate - 2) =
          scanStart v candidate by omega]
        exact hused
      | succ i =>
        have hnext := ih h (Nat.lt_of_succ_lt_succ hi)
        rwa [scanStart_succ hdata] at hnext

theorem fatAllocateCluster_eq_none {last : Nat} :
    fatAllocateCluster v last = none ↔ v.spare = ∅ := by
  rw [fatAllocateCluster, Option.map_eq_none_iff, Finset.eq_empty_iff_forall_notMem]
  constructor
  · intro h c hc
    obtain ⟨hdata, hfree⟩ := mem_spare.mp hc
    have hpos : 0 < v.clusterCount := by
      have := hdata.1
      have := hdata.2
      omega
    obtain ⟨hlow, hhigh⟩ := scanStart_data hpos v.nextFreeHint
    -- the round in which the scan is at this cluster
    have hat := findFree_none hpos h
      (Nat.mod_lt (c - 2 + v.clusterCount - (scanStart v v.nextFreeHint - 2)) hpos)
    refine hat ?_
    rw [Nat.add_mod_mod, show scanStart v v.nextFreeHint - 2 +
      (c - 2 + v.clusterCount - (scanStart v v.nextFreeHint - 2)) = c - 2 + v.clusterCount by omega,
      Nat.add_mod_right, Nat.mod_eq_of_lt (by have := hdata.2; omega),
      show 2 + (c - 2) = c by have := hdata.1; omega]
    exact hfree
  · intro h
    cases hfind : findFree v v.clusterCount v.nextFreeHint with
    | none => rfl
    | some c =>
      have hpos : 0 < v.clusterCount := by
        apply Nat.pos_of_ne_zero
        intro hzero
        rw [hzero] at hfind
        cases hfind
      exact absurd (mem_spare.mpr (findFree_some hpos hfind)) (h c)

theorem fatExtendDirectory_eq_none : fatExtendDirectory v first = none ↔ v.spare = ∅ := by
  rw [fatExtendDirectory, Option.map_eq_none_iff, fatAllocateCluster_eq_none]

theorem Allocated.spare {last : Nat} (h : Allocated v last c v') (hlast : last ≠ 0 → v.entry last ≠ 0) :
    c ∈ v.spare ∧ v'.spare = v.spare.erase c := by
  refine ⟨mem_spare.mpr ⟨h.data, h.free⟩, ?_⟩
  ext c'
  rw [Finset.mem_erase, mem_spare, mem_spare, isDataCluster_congr h.same.geometry, h.entry]
  by_cases hc' : c' = last ∧ last ≠ 0
  · rw [if_pos hc']
    constructor
    · rintro ⟨_, hzero⟩
      exact absurd h.data.1 (by omega)
    · rintro ⟨_, _, hfree⟩
      rw [hc'.1] at hfree
      exact absurd hfree (hlast hc'.2)
  · rw [if_neg hc']
    by_cases heq : c' = c
    · rw [if_pos heq]
      constructor
      · rintro ⟨_, hzero⟩
        cases hzero
      · rintro ⟨hne, _⟩
        exact absurd heq hne
    · rw [if_neg heq]
      exact ⟨fun ⟨hdata, hfree⟩ => ⟨heq, hdata, hfree⟩, fun ⟨_, hdata, hfree⟩ => ⟨hdata, hfree⟩⟩

theorem Volume.IsChain.spare_free (h : v.IsChain first cs) :
    (fatFreeChain v first).spare.card = v.spare.card + cs.length := by
  obtain ⟨hsame, hentry⟩ := h.free
  have hunion : (fatFreeChain v first).spare = v.spare ∪ cs.toFinset := by
    ext c
    rw [Finset.mem_union, List.mem_toFinset, mem_spare, mem_spare, hentry,
      isDataCluster_congr hsame.geometry]
    by_cases hc : c ∈ cs
    · rw [if_pos hc]
      exact ⟨fun _ => .inr hc, fun _ => ⟨h.data c hc, rfl⟩⟩
    · rw [if_neg hc]
      exact ⟨fun hfree => .inl hfree, fun hor => hor.resolve_right hc⟩
  have hdisjoint : Disjoint v.spare cs.toFinset := by
    rw [Finset.disjoint_left]
    intro c hc hmem
    exact h.used c (List.mem_toFinset.mp hmem) (mem_spare.mp hc).2
  rw [hunion, Finset.card_union_of_disjoint hdisjoint, toFinset_card_of_nodup h.linked.nodup]

/-- A directory that may have grown, by clusters that were free; nothing else in use was touched. -/
structure Extended (v : Volume) (first : Nat) (cs : List Nat) (v' : Volume) (cs' : List Nat) : Prop where
  chain : v'.IsChain first cs'
  sized : v'.Sized
  beside : Beside v cs v'
  fresh : ∀ c ∈ cs', c ∈ cs ∨ v.entry c = 0
  length : cs.length ≤ cs'.length

theorem Extended.refl (h : v.IsChain first cs) (hsized : v.Sized) : Extended v first cs v cs :=
  ⟨h, hsized, .refl v cs, fun _ hc => .inl hc, Nat.le_refl _⟩

theorem Extended.trans {v'' : Volume} {cs'' : List Nat} (h : Extended v first cs v' cs')
    (h' : Extended v' first cs' v'' cs'') : Extended v first cs v'' cs'' := by
  refine ⟨h'.chain, h'.sized, h.beside.trans h'.beside h.fresh, fun c hc => ?_,
    Nat.le_trans h.length h'.length⟩
  obtain hc | hfree := h'.fresh c hc
  · exact h.fresh c hc
  · by_cases hused : v.entry c = 0
    · exact .inr hused
    · by_cases hmem : c ∈ cs
      · exact .inl hmem
      · rw [h.beside.entry c hused hmem] at hfree
        exact absurd hfree hused

theorem Volume.WithinLimit.congr (h : v.WithinLimit) (hgeometry : v'.toGeometry = v.toGeometry) :
    v'.WithinLimit := by
  rw [Volume.WithinLimit] at h ⊢
  rwa [hgeometry]

theorem Volume.IsChain.extended (h : v.IsChain first cs) (hne : cs ≠ []) (hlimit : v.WithinLimit)
    (hsized : v.Sized) (hextend : fatExtendDirectory v first = some v') :
    (∃ c, Extended v first cs v' (cs ++ [c])) ∧ v'.spare.card + 1 = v.spare.card ∧
      Fat.slotsOf v' first =
        Fat.slotsOf v first ++ List.replicate (fatSlotsPerCluster v) zeroSlot := by
  obtain ⟨c, hfree, hchain, hsized', _, hslots⟩ := h.extend hne hlimit hsized hextend
  obtain ⟨c', v1, hallocated, rfl⟩ := h.allocated hne hlimit hextend
  have hlast : cs.getLastD 0 ∈ cs := by
    rw [getLastD_eq_getLast?, getLast?_eq_getLast_of_ne_nil hne]
    exact getLast_mem hne
  have hchain0 : v.IsChain first (cs ++ []) := by rwa [append_nil]
  have hgrown : Grown v cs [c'] (zeroCluster v1 c') :=
    (Grown.nil v cs).concat hchain0 (fun _ => mem_append_left _ hlast) hallocated
  obtain ⟨hmem, hspare⟩ := hallocated.spare fun _ => h.used _ hlast
  have hspare' : (zeroCluster v1 c').spare = v.spare.erase c' := hspare
  refine ⟨⟨c, hchain, hsized', hgrown.beside, fun a ha => ?_, ?_⟩, ?_, hslots⟩
  · obtain ha | ha := mem_append.mp ha
    · exact .inl ha
    · rw [mem_singleton.mp ha]
      exact .inr hfree
  · rw [length_append]
    omega
  · rw [hspare', Finset.card_erase_add_one hmem]

/-- A directory with these slots has a run of free ones, or gets one within so many attempts from the
clusters that are spare. -/
def HasSlots (slots : List Slot) (perCluster spare count attempts : Nat) : Prop :=
  ∃ k < attempts, k ≤ spare ∧
    (freeRun count (slots ++ List.replicate (k * perCluster) zeroSlot) 0 0 0).isSome = true

variable {slots : List Slot}

theorem hasSlots_of_run {perCluster spare attempts : Nat}
    (h : (freeRun count slots 0 0 0).isSome = true) :
    HasSlots slots perCluster spare count (attempts + 1) := by
  refine ⟨0, Nat.succ_pos _, Nat.zero_le _, ?_⟩
  rwa [Nat.zero_mul, replicate_zero, append_nil]

theorem hasSlots_succ {perCluster spare attempts : Nat} (h : freeRun count slots 0 0 0 = none) :
    HasSlots slots perCluster (spare + 1) count (attempts + 1) ↔
      HasSlots (slots ++ List.replicate perCluster zeroSlot) perCluster spare count attempts := by
  have hshift : ∀ k, slots ++ List.replicate ((k + 1) * perCluster) zeroSlot =
      slots ++ List.replicate perCluster zeroSlot ++ List.replicate (k * perCluster) zeroSlot := by
    intro k
    rw [append_assoc, replicate_append_replicate, Nat.succ_mul, Nat.add_comm]
  constructor
  · rintro ⟨k, hk, hspare, hrun⟩
    cases k with
    | zero =>
      rw [Nat.zero_mul, replicate_zero, append_nil, h] at hrun
      cases hrun
    | succ k => exact ⟨k, by omega, by omega, by rwa [← hshift]⟩
  · rintro ⟨k, hk, hspare, hrun⟩
    exact ⟨k + 1, by omega, by omega, by rwa [hshift]⟩

/-- `FatFindFreeSlots` succeeds exactly when the directory has the slots or can get them. What it leaves
is the directory with unused slots behind it. -/
theorem Volume.IsChain.findFreeSlots (h : v.IsChain first cs) (hne : cs ≠ []) (hlimit : v.WithinLimit)
    (hsized : v.Sized) (attempts : Nat) {result : Except NtStatus Nat}
    (hfind : Fat.findFreeSlots count first attempts v = (result, v')) :
    (∃ cs', Extended v first cs v' cs') ∧
      (∃ n, Fat.slotsOf v' first = Fat.slotsOf v first ++ List.replicate n zeroSlot) ∧
      match result with
      | .ok slot =>
        HasSlots (Fat.slotsOf v first) (fatSlotsPerCluster v) v.spare.card count attempts ∧
          freeRun count (Fat.slotsOf v' first) 0 0 0 = some slot
      | .error status => status = statusDiskFull ∧
        ¬ HasSlots (Fat.slotsOf v first) (fatSlotsPerCluster v) v.spare.card count attempts := by
  have hself : ∀ v : Volume,
      ∃ n, Fat.slotsOf v first = Fat.slotsOf v first ++ List.replicate n zeroSlot :=
    fun v => ⟨0, by rw [replicate_zero, append_nil]⟩
  induction attempts generalizing v cs with
  | zero =>
    cases hfind
    exact ⟨⟨cs, .refl h hsized⟩, hself _, rfl, fun h => absurd h.choose_spec.1 (Nat.not_lt_zero _)⟩
  | succ attempts ih =>
    rw [Fat.findFreeSlots] at hfind
    cases hrun : freeRun count (Fat.slotsOf v first) 0 0 0 with
    | some slot =>
      rw [hrun] at hfind
      cases hfind
      exact ⟨⟨cs, .refl h hsized⟩, hself _, hasSlots_of_run (by rw [hrun]; rfl), hrun⟩
    | none =>
      rw [hrun] at hfind
      simp only at hfind
      cases hextend : fatExtendDirectory v first with
      | none =>
        rw [hextend] at hfind
        cases hfind
        refine ⟨⟨cs, .refl h hsized⟩, hself _, rfl, ?_⟩
        rintro ⟨k, _, hk, hfound⟩
        rw [fatExtendDirectory_eq_none.mp hextend, Finset.card_empty, Nat.le_zero] at hk
        rw [hk, Nat.zero_mul, replicate_zero, append_nil, hrun] at hfound
        cases hfound
      | some v1 =>
        rw [hextend] at hfind
        obtain ⟨⟨c, hext⟩, hspare, hslots⟩ := h.extended hne hlimit hsized hextend
        have hgeometry := hext.beside.geometry
        obtain ⟨⟨cs', hext'⟩, ⟨n, hslots'⟩, hresult⟩ := ih hext.chain (by simp)
          (hlimit.congr hgeometry) hext.sized hfind
        have hper : fatSlotsPerCluster v1 = fatSlotsPerCluster v := by
          rw [fatSlotsPerCluster, fatSlotsPerCluster, hgeometry]
        have hiff : HasSlots (Fat.slotsOf v first) (fatSlotsPerCluster v) (v1.spare.card + 1) count
            (attempts + 1) ↔ HasSlots (Fat.slotsOf v first ++ List.replicate (fatSlotsPerCluster v)
              zeroSlot) (fatSlotsPerCluster v) v1.spare.card count attempts := hasSlots_succ hrun
        rw [← hslots, hspare] at hiff
        rw [hper] at hresult
        refine ⟨⟨cs', hext.trans hext'⟩, ⟨fatSlotsPerCluster v + n, ?_⟩, ?_⟩
        · rw [hslots', hslots, append_assoc, replicate_append_replicate]
        · cases result with
          | ok slot => exact ⟨hiff.mpr hresult.1, hresult.2⟩
          | error status => exact ⟨hresult.1, fun hhas => hresult.2 (hiff.mp hhas)⟩

/-- What `FatWriteEntrySlots` needs of a directory and of the volume to place a name. -/
def HasRoom (slots : List Slot) (perCluster spare : Nat) (name : WStr) : Prop :=
  name ≠ [] ∧ name.length ≤ 255 ∧ ∃ sfn needLfn, chooseShortName slots name = some (sfn, needLfn) ∧
    HasSlots slots perCluster spare ((if needLfn then lfnCount name else 0) + 1) 4

theorem length_entrySlots (name : WStr) (sfn : List UInt8) (needLfn : Bool) (shortEntry : Slot) :
    (entrySlots name sfn needLfn shortEntry).length = (if needLfn then lfnCount name else 0) + 1 := by
  rw [entrySlots, length_append, length_map, length_range]
  rfl

theorem Volume.IsChain.extended_writeSlots {slot : Nat} (h : v.IsChain first cs)
    (hsized : v.Sized) (hslots : ∀ s ∈ slots, s.length = 32)
    (hroom : slot + slots.length ≤ (Fat.slotsOf v first).length) :
    ∃ v', Fat.writeSlots first slots slot v = (.ok (), v') ∧ Extended v first cs v' cs := by
  obtain ⟨v', hwrite, hwrote, hsized', _⟩ := h.writeSlots hsized hslots hroom
  exact ⟨v', hwrite, hwrote.isChain h, hsized', hwrote.beside h.data, fun _ hc => .inl hc, Nat.le_refl _⟩

/-- `FatWriteEntrySlots` succeeds exactly when there is room for the name. Where it fails the directory
has more unused slots at most. -/
theorem Volume.IsChain.writeEntrySlots {name : WStr} {shortEntry : Slot}
    {result : Except NtStatus Written} (h : v.IsChain first cs) (hne : cs ≠ [])
    (hlimit : v.WithinLimit) (hsized : v.Sized) (hentry : shortEntry.length = 32)
    (hwrite : fatWriteEntrySlots v first name shortEntry = (result, v')) :
    (∃ cs', Extended v first cs v' cs') ∧
      match result with
      | .ok _ => HasRoom (Fat.slotsOf v first) (fatSlotsPerCluster v) v.spare.card name
      | .error status => ntSuccess status = false ∧
        (∃ n, Fat.slotsOf v' first = Fat.slotsOf v first ++ List.replicate n zeroSlot) ∧
        ¬ HasRoom (Fat.slotsOf v first) (fatSlotsPerCluster v) v.spare.card name := by
  have hself : ∃ n, Fat.slotsOf v first = Fat.slotsOf v first ++ List.replicate n zeroSlot :=
    ⟨0, by rw [replicate_zero, append_nil]⟩
  rw [fatWriteEntrySlots] at hwrite
  split at hwrite
  case isTrue hlength =>
    cases hwrite
    refine ⟨⟨cs, .refl h hsized⟩, rfl, hself, ?_⟩
    rintro ⟨hne, hle, _⟩
    obtain hzero | hlong := hlength
    · exact hne (length_eq_zero_iff.mp hzero)
    · omega
  case isFalse hlength =>
    cases hchosen : chooseShortName (Fat.slotsOf v first) name with
    | none =>
      rw [hchosen] at hwrite
      cases hwrite
      refine ⟨⟨cs, .refl h hsized⟩, rfl, hself, ?_⟩
      rintro ⟨_, _, sfn, needLfn, hsome, _⟩
      rw [hchosen] at hsome
      cases hsome
    | some chosen =>
      obtain ⟨sfn, needLfn⟩ := chosen
      rw [hchosen] at hwrite
      simp only at hwrite
      have hshort : (withShortName sfn shortEntry).length = 32 := by
        rw [withShortName, length_append, (chooseShortName_some hchosen).1.length,
          length_drop, hentry]
      have hroom : HasRoom (Fat.slotsOf v first) (fatSlotsPerCluster v) v.spare.card name ↔
          HasSlots (Fat.slotsOf v first) (fatSlotsPerCluster v) v.spare.card
            (entrySlots name sfn needLfn (withShortName sfn shortEntry)).length 4 := by
        rw [length_entrySlots]
        constructor
        · rintro ⟨_, _, sfn', needLfn', hsome, hslots⟩
          rw [hchosen] at hsome
          cases hsome
          exact hslots
        · exact fun hslots => ⟨fun hnil => hlength (.inl (by rw [hnil]; rfl)), by omega, sfn, needLfn,
            hchosen, hslots⟩
      rw [hroom]
      generalize hslots : entrySlots name sfn needLfn (withShortName sfn shortEntry) = slots at hwrite
      have hpos : 0 < slots.length := by
        rw [← hslots, length_entrySlots]
        omega
      rw [fatFindFreeSlots] at hwrite
      cases hfind : Fat.findFreeSlots slots.length first 4 v with
      | mk found v1 =>
        rw [hfind] at hwrite
        obtain ⟨⟨cs', hext⟩, hgrown, hresult⟩ := h.findFreeSlots hne hlimit hsized 4 hfind
        cases found with
        | error status =>
          cases hwrite
          obtain ⟨rfl, hnot⟩ := hresult
          exact ⟨⟨cs', hext⟩, rfl, hgrown, hnot⟩
        | ok slot =>
          obtain ⟨hhas, hrun⟩ := hresult
          obtain ⟨front, free, rest, hfree, hfront, hcount⟩ := freeRun_some hpos hrun
          obtain ⟨v2, hwrote, hext'⟩ := hext.chain.extended_writeSlots hext.sized
            (fun s hs => length_of_mem_entrySlots hshort (hslots ▸ hs))
            (show slot + slots.length ≤ _ by
              rw [hfree.split, length_append, length_append]
              omega)
          simp only [hwrote] at hwrite
          cases hwrite
          exact ⟨⟨cs', hext.trans hext'⟩, hhas⟩

/-- The slots of a directory with those of one name marked free. -/
def freedSlots (slots : List Slot) (lfnStart sfnSlot : Nat) : List Slot :=
  splice slots lfnStart (((slots.drop lfnStart).take (sfnSlot + 1 - lfnStart)).map markFree)

theorem freedSlots_free {lfnStart sfnSlot : Nat} (hle : lfnStart ≤ sfnSlot)
    (hlt : sfnSlot < slots.length) (hsize : ∀ s ∈ slots, s.length = 32) :
    ∃ s, (freedSlots slots lfnStart sfnSlot)[sfnSlot]? = some s ∧ s.isFree = true := by
  have hlength : (((slots.drop lfnStart).take (sfnSlot + 1 - lfnStart)).map markFree).length =
      sfnSlot + 1 - lfnStart := by
    rw [length_map, length_take, length_drop]
    omega
  refine ⟨markFree slots[sfnSlot], ?_, ?_⟩
  · rw [freedSlots, getElem?_splice_inside (by omega) hle (by omega), getElem?_map,
      getElem?_take_of_lt (by omega), getElem?_drop,
      show lfnStart + (sfnSlot - lfnStart) = sfnSlot by omega, getElem?_eq_getElem hlt]
    rfl
  · exact Slot.isFree_iff.mpr (.inr (byte_markFree (hsize _ (getElem_mem hlt))))

theorem Volume.IsChain.freeEntrySlots {lfnStart sfnSlot : Nat} (h : v.IsChain first cs)
    (hsized : v.Sized) (hle : lfnStart ≤ sfnSlot) (hlt : sfnSlot < (Fat.slotsOf v first).length) :
    ∃ v', fatFreeEntrySlots v first lfnStart sfnSlot = (.ok (), v') ∧ Extended v first cs v' cs ∧
      v'.spare = v.spare ∧
      Fat.slotsOf v' first = freedSlots (Fat.slotsOf v first) lfnStart sfnSlot := by
  obtain ⟨v', hfree, hwrote, hsized', hslots⟩ := h.freeSlots hsized
    (show lfnStart + (sfnSlot + 1 - lfnStart) ≤ _ by omega) (h.length_slot hsized)
  refine ⟨v', hfree, ⟨hwrote.isChain h, hsized', hwrote.beside h.data, fun _ hc => .inl hc,
    Nat.le_refl _⟩, ?_, hslots⟩
  ext c
  rw [mem_spare, mem_spare, isDataCluster_congr hwrote.geometry, Volume.entry, Volume.entry, hwrote.fat]

end

end Proskrnl.Fat
