import Proskrnl.Fat.Volume
import Mathlib.Data.Finset.Interval

/-!
# Cluster chains

The chains of `Library.Chains` in the FAT: `Volume.IsChain` is a chain that ends, over data clusters
that are all in use. The chain primitives read it as the list it is, and an entry that is set
changes one link.
-/

namespace Proskrnl.Fat
open Chains List

/-- The clusters have numbers that an entry can hold, below the marks for a bad cluster and for the
end. The FAT specification allows no others; `FatValidateBpb` does not look. -/
def Volume.WithinLimit (v : Volume) : Prop := v.clusterCount + 2 ≤ 0x0FFFFFF7

def linkOf (g : Geometry) (entry : Nat) : Option Nat :=
  if entry ≥ 0x0FFFFFF7 then none
  else if 2 ≤ entry ∧ entry < g.clusterCount + 2 then some entry else none

def Volume.next? (v : Volume) (cluster : Nat) : Option Nat :=
  if v.IsDataCluster cluster then linkOf v.toGeometry (v.entry cluster) else none

def startOf (first : Nat) : Option Nat := if first = 0 then none else some first

/-- From `first`, the FAT leads along `cs` and ends; the clusters are data clusters in use. -/
structure Volume.IsChain (v : Volume) (first : Nat) (cs : List Nat) : Prop where
  linked : Linked v.next? (startOf first) cs
  data : ∀ c ∈ cs, v.IsDataCluster c
  used : ∀ c ∈ cs, v.entry c ≠ 0

section
variable {v : Volume} {first c c' i value : Nat} {cs : List Nat}

theorem startOf_eq (hc : v.IsDataCluster c) : startOf c = some c :=
  if_neg fun h => absurd hc.1 (by omega)

theorem linkOf_data {g : Geometry} (h : linkOf g value = some c) :
    value = c ∧ 2 ≤ c ∧ c < g.clusterCount + 2 := by
  rw [linkOf] at h
  split at h
  · cases h
  · split at h
    case isTrue hdata =>
      cases h
      exact ⟨rfl, hdata⟩
    case isFalse => cases h

theorem next?_data (h : v.next? c = some c') : v.IsDataCluster c' := by
  rw [Volume.next?] at h
  split at h
  · exact (linkOf_data h).2
  · cases h

theorem fatGetNextCluster_eq (v : Volume) (c : Nat) : fatGetNextCluster v c = (v.next? c).getD 0 := by
  rw [fatGetNextCluster, Volume.next?]
  by_cases hdata : v.IsDataCluster c
  · rw [if_neg (not_not.mpr hdata), if_pos hdata, linkOf]
    by_cases hend : v.entry c ≥ 0x0FFFFFF7
    · rw [if_pos (by omega), if_pos hend]
      rfl
    · rw [if_neg (by omega), if_neg hend]
      by_cases hnext : v.IsDataCluster (v.entry c)
      · rw [if_neg (not_not.mpr hnext), if_pos (show 2 ≤ v.entry c ∧ _ from hnext)]
        rfl
      · rw [if_pos hnext, if_neg (show ¬ (2 ≤ v.entry c ∧ _) from hnext)]
        rfl
  · rw [if_pos hdata, if_neg hdata]
    rfl

theorem startOf_getNextCluster (v : Volume) (c : Nat) :
    startOf (fatGetNextCluster v c) = v.next? c := by
  rw [fatGetNextCluster_eq]
  cases h : v.next? c with
  | none => rfl
  | some c' => exact startOf_eq (next?_data h)

theorem Volume.IsChain.unique {cs' : List Nat} (h : v.IsChain first cs) (h' : v.IsChain first cs') :
    cs = cs' := h.linked.unique h'.linked

theorem Volume.IsChain.tail (h : v.IsChain first (c :: cs)) :
    first = c ∧ v.IsChain (fatGetNextCluster v c) cs := by
  have hfirst : first = c := by
    have hstart := h.linked.start_eq
    rw [startOf] at hstart
    split at hstart
    · cases hstart
    · exact Option.some.inj hstart
  refine ⟨hfirst, ?_, fun c' hc' => h.data c' (mem_cons_of_mem _ hc'),
    fun c' hc' => h.used c' (mem_cons_of_mem _ hc')⟩
  rw [startOf_getNextCluster]
  have hlinked := h.linked
  rw [hfirst, startOf_eq (h.data c (mem_cons_self ..))] at hlinked
  cases hlinked with
  | cons hlinked => exact hlinked

theorem Volume.IsChain.first_eq (h : v.IsChain first cs) : first = cs.headD 0 := by
  cases cs with
  | nil =>
    have hstart := h.linked.start_eq
    rw [startOf] at hstart
    split at hstart
    · assumption
    · cases hstart
  | cons c cs => exact h.tail.1

theorem Volume.IsChain.drop (h : v.IsChain first cs) (i : Nat) :
    v.IsChain (cs.getD i 0) (cs.drop i) := by
  refine ⟨?_, fun c hc => h.data c (mem_of_mem_drop hc),
    fun c hc => h.used c (mem_of_mem_drop hc)⟩
  by_cases hi : i < cs.length
  · have hlinked := h.linked
    rw [← take_append_drop i cs, ← getElem_cons_drop hi] at hlinked
    have hdata := h.data cs[i] (getElem_mem hi)
    rw [getD_eq_getElem?_getD, getElem?_eq_getElem hi, Option.getD_some, startOf_eq hdata,
      ← getElem_cons_drop hi]
    exact hlinked.suffix
  · rw [getD_eq_getElem?_getD, getElem?_eq_none (by omega), drop_of_length_le (by omega)]
    exact .nil

theorem Volume.IsChain.length_le (h : v.IsChain first cs) : cs.length ≤ v.clusterCount := by
  have hsub : cs ⊆ List.range' 2 v.clusterCount := by
    intro c hc
    obtain ⟨hlow, hhigh⟩ := h.data c hc
    exact mem_range'_1.mpr ⟨hlow, by omega⟩
  have hle := (h.linked.nodup.subperm hsub).length_le
  rwa [length_range'] at hle

theorem walkChainLoop_eq (h : v.IsChain c cs) {steps : Nat}
    (hsteps : steps + cs.length ≤ v.clusterCount) (i : Nat) :
    walkChainLoop v i c steps = cs.getD i 0 := by
  induction i generalizing c cs steps with
  | zero =>
    rw [walkChainLoop, h.first_eq]
    cases cs <;> rfl
  | succ i ih =>
    rw [walkChainLoop]
    cases cs with
    | nil =>
      rw [if_pos (show c = 0 from h.first_eq)]
      rfl
    | cons c' cs =>
      obtain ⟨rfl, htail⟩ := h.tail
      have hdata := h.data c (mem_cons_self ..)
      rw [length_cons] at hsteps
      rw [if_neg (by have := hdata.1; omega), if_neg (by omega), ih htail (by omega)]
      rfl

theorem Volume.IsChain.walk (h : v.IsChain first cs) (i : Nat) :
    fatWalkChain v first i = cs.getD i 0 :=
  walkChainLoop_eq h (by rw [Nat.zero_add]; exact h.length_le) i

theorem chainLengthLoop_eq (h : v.IsChain c cs) {rounds count : Nat} (hrounds : cs.length ≤ rounds)
    (hcount : count + cs.length ≤ v.clusterCount) :
    chainLengthLoop v rounds count c = count + cs.length := by
  induction rounds generalizing c cs count with
  | zero =>
    rw [Nat.le_zero.mp hrounds]
    rfl
  | succ rounds ih =>
    rw [chainLengthLoop]
    cases cs with
    | nil =>
      rw [if_pos (show c = 0 from h.first_eq)]
      rfl
    | cons c' cs =>
      obtain ⟨rfl, htail⟩ := h.tail
      have hdata := h.data c (mem_cons_self ..)
      rw [length_cons] at hrounds hcount ⊢
      rw [if_neg (by have := hdata.1; omega), if_neg (by omega), ih htail (by omega) (by omega)]
      omega

theorem Volume.IsChain.length (h : v.IsChain first cs) : fatChainLength v first = cs.length := by
  have hle := h.length_le
  rw [fatChainLength, chainLengthLoop_eq h (by omega) (by omega), Nat.zero_add]

structure SameData (v v' : Volume) : Prop where
  geometry : v'.toGeometry = v.toGeometry
  disk : ∀ s, v.firstDataSector ≤ s → v'.disk s = v.disk s

theorem SameData.refl (v : Volume) : SameData v v := ⟨rfl, fun _ _ => rfl⟩

theorem SameData.trans {v1 v2 v3 : Volume} (h : SameData v1 v2) (h' : SameData v2 v3) :
    SameData v1 v3 :=
  ⟨h'.geometry.trans h.geometry, fun s hs =>
    (h'.disk s (by rw [h.geometry]; exact hs)).trans (h.disk s hs)⟩

@[simp] theorem isDataCluster_fatSetFatEntry :
    (fatSetFatEntry v c value).IsDataCluster c' ↔ v.IsDataCluster c' := Iff.rfl

theorem entry_fatSetFatEntry :
    (fatSetFatEntry v c value).entry c' = if c' = c then value % 2 ^ 28 else v.entry c' := by
  rw [Volume.entry, fatSetFatEntry]
  simp only [Function.update_apply]
  split
  · omega
  · rfl

theorem foldl_update_apply {β : Type} (l : List Nat) (f : Nat → Nat) (b : β) (disk : Nat → β)
    (s : Nat) :
    l.foldl (fun disk i => Function.update disk (f i) b) disk s =
      if ∃ i ∈ l, f i = s then b else disk s := by
  induction l generalizing disk with
  | nil => simp
  | cons j l ih =>
    rw [foldl_cons, ih, Function.update_apply]
    by_cases hmem : ∃ i ∈ l, f i = s
    · obtain ⟨i, hi, hs⟩ := hmem
      rw [if_pos ⟨i, hi, hs⟩, if_pos ⟨i, mem_cons_of_mem _ hi, hs⟩]
    · rw [if_neg hmem]
      by_cases hj : s = f j
      · rw [if_pos hj, if_pos ⟨j, mem_cons_self .., hj.symm⟩]
      · rw [if_neg hj, if_neg]
        rintro ⟨i, hi, hs⟩
        obtain rfl | hi := mem_cons.mp hi
        · exact hj hs.symm
        · exact hmem ⟨i, hi, hs⟩

theorem sectorInFat_lt (hc : v.IsDataCluster c) : c * 4 % 2 ^ 32 / fatSectorSize < v.fatSizeSectors := by
  have hentries := v.fat_entries
  have hlt := hc.2
  rw [fatSectorSize]
  omega

theorem copySector_lt {copy : Nat} (hcopy : copy < v.fatCount) (hi : i < v.fatSizeSectors) :
    v.reservedSectors ≤ v.copySector copy + i ∧ v.copySector copy + i < v.firstDataSector := by
  have hle := v.fat_le_data
  have hmul : copy * v.fatSizeSectors + v.fatSizeSectors ≤ v.fatCount * v.fatSizeSectors := by
    rw [← Nat.succ_mul]
    exact Nat.mul_le_mul_right _ hcopy
  rw [Volume.copySector]
  omega

theorem sameData_fatSetFatEntry (hc : v.IsDataCluster c) (value : Nat) :
    SameData v (fatSetFatEntry v c value) := by
  refine ⟨rfl, fun s hs => ?_⟩
  rw [fatSetFatEntry]
  simp only
  rw [foldl_update_apply, if_neg]
  rintro ⟨copy, hcopy, rfl⟩
  have := copySector_lt (mem_range.mp hcopy) (sectorInFat_lt hc)
  omega

theorem sameData_fatUpdateFsInfo (v : Volume) : SameData v (fatUpdateFsInfo v) := by
  rw [fatUpdateFsInfo]
  split
  · exact .refl v
  · simp only
    split
    · exact ⟨rfl, fun _ _ => rfl⟩
    · refine ⟨rfl, fun s hs => ?_⟩
      have hreserved := v.fsInfo_reserved
      have hle := v.fat_le_data
      exact Function.update_of_ne (by omega) _ _

@[simp] theorem fatUpdateFsInfo_fat (v : Volume) : (fatUpdateFsInfo v).fat = v.fat := by
  rw [fatUpdateFsInfo]
  split
  · rfl
  · simp only
    split <;> rfl

@[simp] theorem entry_fatUpdateFsInfo (v : Volume) (c : Nat) :
    (fatUpdateFsInfo v).entry c = v.entry c := by
  rw [Volume.entry, fatUpdateFsInfo_fat]
  rfl

variable {v' : Volume} {last : Nat}

theorem isDataCluster_congr (hgeometry : v'.toGeometry = v.toGeometry) :
    v'.IsDataCluster c ↔ v.IsDataCluster c := by
  rw [Volume.IsDataCluster, Volume.IsDataCluster, hgeometry]

theorem next?_congr (hgeometry : v'.toGeometry = v.toGeometry)
    (hentry : v'.entry c = v.entry c) : v'.next? c = v.next? c := by
  have hdata := isDataCluster_congr (c := c) hgeometry
  rw [Volume.next?, Volume.next?, hgeometry, hentry]
  by_cases h : v.IsDataCluster c
  · rw [if_pos h, if_pos (hdata.mpr h)]
  · rw [if_neg h, if_neg fun h' => h (hdata.mp h')]

theorem Volume.IsChain.congr {v' : Volume} (h : v.IsChain first cs)
    (hgeometry : v'.toGeometry = v.toGeometry) (hentry : ∀ c ∈ cs, v'.entry c = v.entry c) :
    v'.IsChain first cs := by
  refine ⟨h.linked.congr fun c hc => next?_congr hgeometry (hentry c hc), fun c hc => ?_,
    fun c hc => ?_⟩
  · exact (isDataCluster_congr hgeometry).mpr (h.data c hc)
  · rw [hentry c hc]
    exact h.used c hc

theorem findFree_some {rounds candidate : Nat} (hpos : 0 < v.clusterCount)
    (h : findFree v rounds candidate = some c) : v.IsDataCluster c ∧ v.entry c = 0 := by
  induction rounds generalizing candidate with
  | zero => cases h
  | succ rounds ih =>
    rw [findFree] at h
    generalize hin : (if candidate < 2 ∨ candidate ≥ v.clusterCount + 2 then 2 else candidate) =
      candidate' at h
    have hdata : v.IsDataCluster candidate' := by
      rw [← hin]
      split
      · exact ⟨Nat.le_refl 2, by omega⟩
      · exact ⟨by omega, by omega⟩
    split at h
    case isTrue hfree =>
      cases h
      exact ⟨hdata, hfree⟩
    case isFalse => exact ih h

/-- The cluster that is allocated was free. It ends a chain now, and the last cluster of the chain
that is to grow leads to it. -/
structure Allocated (v : Volume) (last c : Nat) (v' : Volume) : Prop where
  data : v.IsDataCluster c
  free : v.entry c = 0
  same : SameData v v'
  entry : ∀ c', v'.entry c' = if c' = last ∧ last ≠ 0 then c else if c' = c then fatEntryMask
    else v.entry c'

theorem fatAllocateCluster_some (hlimit : v.WithinLimit)
    (hlast : last ≠ 0 → v.IsDataCluster last) (h : fatAllocateCluster v last = some (c, v')) :
    Allocated v last c v' := by
  obtain ⟨candidate, hfind, heq⟩ := Option.map_eq_some_iff.mp h
  cases heq
  have hpos : 0 < v.clusterCount := by
    apply Nat.pos_of_ne_zero
    intro hzero
    rw [hzero] at hfind
    cases hfind
  obtain ⟨hdata, hfree⟩ := findFree_some hpos hfind
  have hmod : c % 2 ^ 28 = c := by
    have hlt := hdata.2
    rw [Volume.WithinLimit] at hlimit
    exact Nat.mod_eq_of_lt (by omega)
  refine ⟨hdata, hfree, ?_, fun c' => ?_⟩
  · refine .trans ?_ (sameData_fatUpdateFsInfo _)
    split
    case isTrue hne =>
      exact .trans (sameData_fatSetFatEntry hdata _) (.trans (sameData_fatSetFatEntry
        (isDataCluster_fatSetFatEntry.mpr (hlast hne)) _) ⟨rfl, fun _ _ => rfl⟩)
    case isFalse => exact .trans (sameData_fatSetFatEntry hdata _) ⟨rfl, fun _ _ => rfl⟩
  · rw [entry_fatUpdateFsInfo]
    split
    case isTrue hne =>
      change (fatSetFatEntry (fatSetFatEntry v c fatEntryMask) last c).entry c' = _
      rw [entry_fatSetFatEntry, entry_fatSetFatEntry, hmod]
      by_cases hc' : c' = last
      · rw [if_pos hc', if_pos ⟨hc', hne⟩]
      · rw [if_neg hc', if_neg (show ¬ (c' = last ∧ last ≠ 0) from fun hboth => hc' hboth.1)]
        rfl
    case isFalse hzero =>
      change (fatSetFatEntry v c fatEntryMask).entry c' = _
      rw [entry_fatSetFatEntry,
        if_neg (show ¬ (c' = last ∧ last ≠ 0) from fun hboth => hzero hboth.2)]
      rfl

theorem Allocated.notMem (h : Allocated v last c v')
    (hcs : v.IsChain first cs) : c ∉ cs := fun hmem => hcs.used c hmem h.free

theorem linkOf_data_eq (hlimit : v.WithinLimit) (hc : v.IsDataCluster c) :
    linkOf v.toGeometry c = some c := by
  have hlt := hc.2
  rw [Volume.WithinLimit] at hlimit
  rw [linkOf, if_neg (by omega), if_pos (show 2 ≤ c ∧ _ from hc)]

theorem Allocated.next? {last : Nat} {v' : Volume} (h : Allocated v last c v')
    (hlimit : v.WithinLimit) (hlast : last ≠ 0 → v.IsDataCluster last ∧ last ≠ c) (c' : Nat) :
    v'.next? c' = if c' = last ∧ last ≠ 0 then some c else if c' = c then none else v.next? c' := by
  have hentry := h.entry c'
  split
  case isTrue hc' =>
    rw [if_pos hc'] at hentry
    have hdata : v'.IsDataCluster c' := by
      rw [hc'.1]
      exact (isDataCluster_congr h.same.geometry).mpr (hlast hc'.2).1
    rw [Volume.next?, if_pos hdata, hentry, h.same.geometry, linkOf_data_eq hlimit h.data]
  case isFalse hc' =>
    rw [if_neg hc'] at hentry
    split
    case isTrue heq =>
      rw [if_pos heq] at hentry
      rw [Volume.next?, hentry]
      split <;> rfl
    case isFalse hne =>
      rw [if_neg hne] at hentry
      exact next?_congr h.same.geometry hentry

theorem Allocated.grow (h : Allocated v last c v')
    (hlimit : v.WithinLimit) (hcs : v.IsChain first cs) (hlast : last = cs.getLastD 0) :
    v'.IsChain (if cs = [] then c else first) (cs ++ [c]) := by
  have hnotMem := h.notMem hcs
  have hcNone : v.next? c = none := by
    rw [Volume.next?, h.free]
    split <;> rfl
  rcases eq_nil_or_concat cs with rfl | ⟨l, a, rfl⟩
  · -- nothing before it: a chain of one
    rw [getLastD_nil] at hlast
    have hnext : v'.next? c = none := by
      rw [h.next? hlimit (fun hne => absurd hlast hne), if_neg fun hboth => hboth.2 hlast, if_pos rfl]
    refine ⟨?_, ?_, ?_⟩
    · rw [if_pos rfl, startOf_eq h.data]
      exact .cons (hnext ▸ .nil)
    · intro c' hc'
      rw [mem_singleton.mp hc']
      exact (isDataCluster_congr h.same.geometry).mpr h.data
    · intro c' hc'
      rw [mem_singleton.mp hc', h.entry, if_neg fun hboth => hboth.2 hlast, if_pos rfl]
      decide
  · rw [concat_eq_append] at hcs hlast hnotMem ⊢
    rw [getLastD_concat] at hlast
    subst hlast
    have hlastData := hcs.data last (mem_append_right _ (mem_singleton_self _))
    have hlastNe : last ≠ c := fun heq =>
      hnotMem (heq ▸ mem_append_right _ (mem_singleton_self _))
    have hpos : last ≠ 0 := fun hzero => absurd hlastData.1 (by omega)
    rw [if_neg (by simp), append_assoc]
    refine ⟨?_, ?_, ?_⟩
    · refine (hcs.linked.concat hnotMem hcNone).congr fun a _ => ?_
      rw [h.next? hlimit fun _ => ⟨hlastData, hlastNe⟩, Function.update_apply]
      by_cases ha : a = last
      · rw [if_pos ⟨ha, hpos⟩, if_pos ha]
      · rw [if_neg fun hboth => ha hboth.1, if_neg ha]
        split
        case isTrue heq => rw [heq, hcNone]
        case isFalse => rfl
    · intro c' hc'
      refine (isDataCluster_congr h.same.geometry).mpr ?_
      rw [singleton_append, append_cons, mem_append] at hc'
      obtain hc' | hc' := hc'
      · exact hcs.data c' hc'
      · rw [mem_singleton.mp hc']
        exact h.data
    · intro c' hc'
      rw [h.entry]
      split
      case isTrue => exact fun hzero => absurd h.data.1 (by omega)
      case isFalse =>
        split
        case isTrue => decide
        case isFalse hne =>
          rw [singleton_append, append_cons, mem_append] at hc'
          exact hcs.used c' (hc'.resolve_right fun hmem => hne (mem_singleton.mp hmem))

end

end Proskrnl.Fat
