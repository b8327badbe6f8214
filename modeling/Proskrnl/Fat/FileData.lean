import Proskrnl.Fat.Extent

/-!
# Files as byte arrays

The bytes of a file through its page cache and in its cluster chain. The loops of `FatEnsureCache` and
`FatWritebackRange` are read as what they do to one byte and to one sector; sectors, pages and clusters
do not matter behind that.
-/

namespace Proskrnl.Fat
open Bytes Mm.Cache List

def sectorEnd (position : Nat) : Nat := (position + fatSectorSize - 1) / fatSectorSize * fatSectorSize

def clusterByte (v : Volume) (cluster offset : Nat) : UInt8 :=
  (v.disk (fatClusterToSector v cluster + offset / fatSectorSize)).getD (offset % fatSectorSize) 0

def chainByte (v : Volume) (cs : List Nat) (p : Nat) : UInt8 :=
  clusterByte v (cs.getD (p / fatClusterBytes v) 0) (p % fatClusterBytes v)

section
variable {v v' : Volume} {s position limit base sector rounds cluster first : Nat} {cs : List Nat}
variable {bytes : Nat → UInt8}

theorem fatClusterBytes_pos (v : Volume) : 0 < fatClusterBytes v := by
  have hpos := v.sectorsPerCluster_pos
  rw [fatClusterBytes, fatSectorSize]
  omega

theorem fatRunSectors_bounds (hs : s < v.sectorsPerCluster) (haligned : position % fatSectorSize = 0)
    (hlt : position < limit) :
    1 ≤ fatRunSectors v s position limit ∧ s + fatRunSectors v s position limit ≤ v.sectorsPerCluster ∧
      position + fatRunSectors v s position limit * fatSectorSize ≤ sectorEnd limit := by
  rw [fatRunSectors, sectorEnd, pageSize]
  rw [fatSectorSize] at *
  omega

theorem fillCluster_eq (hposition : position = base + s * fatSectorSize)
    (hbase : base % fatSectorSize = 0) (hs : s ≤ v.sectorsPerCluster)
    (hrounds : v.sectorsPerCluster ≤ s + rounds) :
    fillCluster v (fatClusterToSector v cluster) limit rounds s position bytes =
      (max position (min (base + fatClusterBytes v) (sectorEnd limit)), fun p =>
        if position ≤ p ∧ p < min (base + fatClusterBytes v) (sectorEnd limit) then
          clusterByte v cluster (p - base)
        else bytes p) := by
  have hend : sectorEnd limit % 512 = 0 := Nat.mul_mod_left ..
  have hcluster : fatClusterBytes v = v.sectorsPerCluster * 512 := rfl
  simp only [fatSectorSize] at hposition hbase ⊢
  induction rounds generalizing s position bytes with
  | zero =>
    obtain rfl : s = v.sectorsPerCluster := by omega
    rw [fillCluster, hposition, ← hcluster]
    refine Prod.ext (by simp only; omega) (funext fun p => ?_)
    simp only
    rw [if_neg (by omega)]
  | succ rounds ih =>
    rw [fillCluster]
    split
    case isTrue hmore =>
      obtain ⟨hone, hwithin, hlimit⟩ := fatRunSectors_bounds hmore.1
        (show position % 512 = 0 by omega) hmore.2
      simp only [fatSectorSize] at hlimit ⊢
      generalize fatRunSectors v s position limit = run at hone hwithin hlimit
      rw [ih (show position + run * 512 = base + (s + run) * 512 by
        rw [hposition]; ring) hwithin (by omega)]
      -- the run lies in front of what the rest of the loop reads
      have hrun : position + run * 512 ≤ min (base + fatClusterBytes v) (sectorEnd limit) := by
        have hmul := Nat.mul_le_mul_right 512 hwithin
        rw [Nat.add_mul] at hmul
        omega
      have hstart : 1 * 512 ≤ run * 512 := Nat.mul_le_mul_right _ hone
      refine Prod.ext (by simp only; omega) (funext fun p => ?_)
      simp only
      by_cases hin : position ≤ p ∧ p < min (base + fatClusterBytes v) (sectorEnd limit)
      · rw [if_pos hin]
        by_cases hlater : position + run * 512 ≤ p
        · rw [if_pos ⟨hlater, hin.2⟩]
        · rw [if_neg (by omega), readRun, fatSectorSize, if_pos (by omega), clusterByte,
            fatSectorSize]
          have hdiv : (p - base) / 512 = s + (p - position) / 512 := by omega
          have hmod : (p - base) % 512 = (p - position) % 512 := by omega
          rw [hdiv, hmod, Nat.add_assoc]
      · rw [if_neg (by omega), if_neg hin, readRun, fatSectorSize, if_neg (by omega)]
    case isFalse hdone =>
      have hnone : min (base + fatClusterBytes v) (sectorEnd limit) ≤ position := by
        have hle : limit ≤ position → sectorEnd limit ≤ position := by
          intro hle
          rw [sectorEnd, fatSectorSize]
          omega
        have hfull : s = v.sectorsPerCluster → base + fatClusterBytes v = position := by
          rintro rfl
          rw [hposition, hcluster]
        omega
      refine Prod.ext (by simp only; omega) (funext fun p => ?_)
      simp only
      rw [if_neg (by omega)]

variable {disk : Nat → List UInt8} {c p : Nat}

theorem flushCluster_eq (hposition : position = base + s * 512)
    (hbase : base % 512 = 0) (hs : s ≤ v.sectorsPerCluster)
    (hrounds : v.sectorsPerCluster ≤ s + rounds) :
    flushCluster v bytes sector limit rounds s position disk =
      (max position (min (base + fatClusterBytes v) (sectorEnd limit)), fun t =>
        if sector + s ≤ t ∧ t < sector + v.sectorsPerCluster ∧
          base + (t - sector) * 512 < limit then
          cacheSector bytes (base + (t - sector) * 512)
        else disk t) := by
  have hend : sectorEnd limit % 512 = 0 := Nat.mul_mod_left ..
  have hcluster : fatClusterBytes v = v.sectorsPerCluster * 512 := rfl
  induction rounds generalizing s position disk with
  | zero =>
    obtain rfl : s = v.sectorsPerCluster := by omega
    rw [flushCluster, hposition, ← hcluster]
    refine Prod.ext (by simp only; omega) (funext fun t => ?_)
    simp only
    rw [if_neg (by omega)]
  | succ rounds ih =>
    rw [flushCluster]
    split
    case isTrue hmore =>
      obtain ⟨hone, hwithin, hlimit⟩ := fatRunSectors_bounds hmore.1
        (show position % 512 = 0 by omega) hmore.2
      rw [fatSectorSize] at hlimit
      simp only [fatSectorSize]
      generalize fatRunSectors v s position limit = run at hone hwithin hlimit
      rw [ih (show position + run * 512 = base + (s + run) * 512 by
        rw [hposition]; ring) hwithin (by omega)]
      have hrun : position + run * 512 ≤ min (base + fatClusterBytes v) (sectorEnd limit) := by
        have hmul := Nat.mul_le_mul_right 512 hwithin
        rw [Nat.add_mul] at hmul
        omega
      have hlast : sectorEnd limit < limit + 512 := by
        rw [sectorEnd, fatSectorSize]
        omega
      refine Prod.ext (by simp only; omega) (funext fun t => ?_)
      simp only
      by_cases hlater : sector + (s + run) ≤ t
      · by_cases hin : t < sector + v.sectorsPerCluster ∧ base + (t - sector) * 512 < limit
        · rw [if_pos ⟨hlater, hin⟩, if_pos ⟨by omega, hin⟩]
        · rw [if_neg fun h => hin h.2, if_neg fun h => hin h.2, writeRun, if_neg (by omega)]
      · rw [if_neg fun h => hlater h.1, writeRun, fatSectorSize]
        by_cases hin : sector + s ≤ t
        · have hwanted : base + (t - sector) * 512 < limit := by omega
          have hplace : position + (t - (sector + s)) * 512 =
              base + (t - sector) * 512 := by omega
          rw [if_pos (by omega), if_pos ⟨hin, by omega, hwanted⟩, hplace]
        · rw [if_neg (by omega), if_neg (by omega)]
    case isFalse hdone =>
      have hnone : min (base + fatClusterBytes v) (sectorEnd limit) ≤ position := by
        have hle : limit ≤ position → sectorEnd limit ≤ position := by
          intro hle
          rw [sectorEnd, fatSectorSize]
          omega
        have hfull : s = v.sectorsPerCluster → base + fatClusterBytes v = position := by
          rintro rfl
          rw [hposition, hcluster]
        omega
      refine Prod.ext (by simp only; omega) (funext fun t => ?_)
      simp only
      rw [if_neg]
      intro h
      omega

theorem chainByte_cons_lt (hp : p < fatClusterBytes v) :
    chainByte v (c :: cs) p = clusterByte v c p := by
  rw [chainByte, Nat.div_eq_of_lt hp, Nat.mod_eq_of_lt hp]
  rfl

theorem chainByte_cons_ge (hp : fatClusterBytes v ≤ p) :
    chainByte v (c :: cs) p = chainByte v cs (p - fatClusterBytes v) := by
  rw [chainByte, Nat.div_eq_sub_div (fatClusterBytes_pos v) hp, Nat.mod_eq_sub_mod hp]
  rfl

theorem chainByte_eq (hc : cs[p / fatClusterBytes v]? = some c) :
    chainByte v cs p = (v.disk (fatClusterToSector v c + p % fatClusterBytes v / 512)).getD
      (p % fatClusterBytes v % 512) 0 := by
  have hget : cs.getD (p / fatClusterBytes v) 0 = c := by
    rw [getD_eq_getElem?_getD, hc]
    rfl
  rw [chainByte, hget]
  rfl

theorem le_sectorEnd (limit : Nat) : limit ≤ sectorEnd limit := by
  rw [sectorEnd, fatSectorSize]
  omega

theorem fatClusterBytes_mod (v : Volume) : fatClusterBytes v % 512 = 0 := Nat.mul_mod_left ..

theorem fillLoop_ok {cancelled : Nat → Bool} {poll : Nat} {bytes' : Nat → UInt8}
    (h : v.IsChain cluster cs) (haligned : position % 512 = 0)
    (hrounds : limit ≤ position + rounds * 512)
    (hloop : fillLoop v cancelled limit rounds poll cluster position bytes = (.ok (), bytes')) (p : Nat) :
    bytes' p =
      if position ≤ p ∧ p < min (position + cs.length * fatClusterBytes v) (sectorEnd limit) then
        chainByte v cs (p - position)
      else bytes p := by
  have hend : sectorEnd limit % 512 = 0 := Nat.mul_mod_left ..
  have hle := le_sectorEnd limit
  have hmod := fatClusterBytes_mod v
  have hpos := fatClusterBytes_pos v
  induction rounds generalizing cluster cs position poll bytes with
  | zero =>
    cases hloop
    rw [if_neg]
    intro hin
    have hlast : sectorEnd limit ≤ position := by
      rw [sectorEnd, fatSectorSize]
      omega
    omega
  | succ rounds ih =>
    rw [fillLoop] at hloop
    cases cs with
    | nil =>
      rw [if_neg (show ¬ (cluster ≠ 0 ∧ position < limit) from fun hmore => hmore.1 h.first_eq)] at hloop
      cases hloop
      rw [if_neg (by simp; omega)]
    | cons c cs =>
      obtain ⟨rfl, htail⟩ := h.tail
      have hdata := h.data cluster (mem_cons_self ..)
      split at hloop
      case isTrue hmore =>
        split at hloop
        · cases hloop
        · rw [fillCluster_eq (show position = position + 0 * 512 by omega) haligned (Nat.zero_le _)
            (by omega)] at hloop
          simp only at hloop
          generalize hnext : min (position + fatClusterBytes v) (sectorEnd limit) = next at hloop
          rw [Nat.max_eq_right (by omega)] at hloop
          rw [ih htail (by omega) (by omega) hloop, length_cons, Nat.succ_mul]
          by_cases hlater : next ≤ p
          · by_cases hin : p < min (next + cs.length * fatClusterBytes v) (sectorEnd limit)
            · rw [if_pos ⟨hlater, hin⟩, if_pos (by omega), chainByte_cons_ge (by omega)]
              congr 1
              omega
            · rw [if_neg (by omega), if_neg (by omega), if_neg]
              intro hin'
              omega
          · rw [if_neg (by omega)]
            by_cases hin : position ≤ p
            · rw [if_pos (by omega), if_pos (by omega), chainByte_cons_lt (by omega)]
            · rw [if_neg (by omega), if_neg (by omega)]
      case isFalse hdone =>
        cases hloop
        have hpassed : limit ≤ position := by
          have := hdata.1
          omega
        have hlast : sectorEnd limit ≤ position := by
          rw [sectorEnd, fatSectorSize]
          omega
        rw [if_neg (by omega)]

theorem writebackLoop_done (h : limit ≤ position) :
    writebackLoop v bytes limit rounds cluster position disk = disk := by
  cases rounds with
  | zero => rfl
  | succ rounds => rw [writebackLoop, if_neg (by omega)]

theorem writebackLoop_eq (h : v.IsChain cluster cs)
    (hbase : base % fatClusterBytes v = 0) (hle : base ≤ position)
    (hlt : position < base + fatClusterBytes v) (haligned : position % 512 = 0)
    (hrounds : limit ≤ position + rounds * 512) :
    (∀ t, (∀ c ∈ cs, ∀ j < v.sectorsPerCluster, fatClusterToSector v c + j ≠ t) →
      writebackLoop v bytes limit rounds cluster position disk t = disk t) ∧
    ∀ i c, cs[i]? = some c → ∀ j < v.sectorsPerCluster,
      writebackLoop v bytes limit rounds cluster position disk (fatClusterToSector v c + j) =
        if position ≤ base + i * fatClusterBytes v + j * 512 ∧
          base + i * fatClusterBytes v + j * 512 < limit then
          cacheSector bytes (base + i * fatClusterBytes v + j * 512)
        else disk (fatClusterToSector v c + j) := by
  have hcluster : fatClusterBytes v = v.sectorsPerCluster * 512 := rfl
  have hmod : base % 512 = 0 := Nat.mod_eq_zero_of_dvd
    ((Dvd.intro_left v.sectorsPerCluster rfl : 512 ∣ fatClusterBytes v).trans (Nat.dvd_of_mod_eq_zero hbase))
  induction rounds generalizing cluster cs base position disk with
  | zero =>
    refine ⟨fun _ _ => rfl, fun i c _ j _ => ?_⟩
    rw [if_neg (by omega)]
    rfl
  | succ rounds ih =>
    cases cs with
    | nil =>
      have hzero : cluster = 0 := h.first_eq
      refine ⟨fun _ _ => ?_, nofun⟩
      rw [writebackLoop, if_neg fun hmore => hmore.2 hzero]
    | cons c cs =>
      obtain ⟨rfl, htail⟩ := h.tail
      have hdata := h.data cluster (mem_cons_self ..)
      have hfresh : cluster ∉ cs := (nodup_cons.mp h.linked.nodup).1
      by_cases hmore : position < limit
      · -- the place of the position in its cluster
        obtain ⟨s, hs⟩ : ∃ s, position = base + s * 512 :=
          ⟨(position - base) / 512, by omega⟩
        have hplace : position % fatClusterBytes v / fatSectorSize = s := by
          have hin : position % fatClusterBytes v = s * 512 := by
            rw [hs, Nat.add_mod, hbase, Nat.zero_add, Nat.mod_mod, Nat.mod_eq_of_lt (by omega)]
          rw [hin, fatSectorSize]
          omega
        rw [writebackLoop, if_pos ⟨hmore, by have := hdata.1; omega⟩, hplace]
        rw [flushCluster_eq hs hmod (by omega) (by omega)]
        simp only
        generalize hflushed : (fun t => if fatClusterToSector v cluster + s ≤ t ∧
            t < fatClusterToSector v cluster + v.sectorsPerCluster ∧
            base + (t - fatClusterToSector v cluster) * 512 < limit then
            cacheSector bytes (base + (t - fatClusterToSector v cluster) * 512) else disk t) = flushed
        have hin : ∀ j < v.sectorsPerCluster, flushed (fatClusterToSector v cluster + j) =
            if position ≤ base + j * 512 ∧ base + j * 512 < limit then
              cacheSector bytes (base + j * 512)
            else disk (fatClusterToSector v cluster + j) := by
          intro j hj
          rw [← hflushed]
          simp only [Nat.add_sub_cancel_left]
          by_cases hwanted : position ≤ base + j * 512 ∧ base + j * 512 < limit
          · rw [if_pos hwanted, if_pos ⟨by omega, by omega, hwanted.2⟩]
          · rw [if_neg hwanted, if_neg (by omega)]
        have hout : ∀ t, (∀ j < v.sectorsPerCluster, fatClusterToSector v cluster + j ≠ t) →
            flushed t = disk t := by
          intro t ht
          rw [← hflushed]
          simp only
          rw [if_neg]
          rintro ⟨hge, hlt', _⟩
          exact ht (t - fatClusterToSector v cluster) (by omega) (by omega)
        -- what the rest of the loop writes, and what of this cluster it leaves
        have hrest : (∀ t, (∀ c ∈ cs, ∀ j < v.sectorsPerCluster, fatClusterToSector v c + j ≠ t) →
            writebackLoop v bytes limit rounds (fatGetNextCluster v cluster)
              (max position (min (base + fatClusterBytes v) (sectorEnd limit))) flushed t = flushed t) ∧
            ∀ i c, cs[i]? = some c → ∀ j < v.sectorsPerCluster,
              writebackLoop v bytes limit rounds (fatGetNextCluster v cluster)
                (max position (min (base + fatClusterBytes v) (sectorEnd limit))) flushed
                (fatClusterToSector v c + j) =
              if base + fatClusterBytes v + i * fatClusterBytes v + j * 512 < limit then
                cacheSector bytes (base + fatClusterBytes v + i * fatClusterBytes v + j * 512)
              else flushed (fatClusterToSector v c + j) := by
          by_cases hnext : base + fatClusterBytes v < limit
          · have hsector := le_sectorEnd limit
            rw [Nat.min_eq_left (by omega), Nat.max_eq_right (by omega)]
            have hpos := fatClusterBytes_pos v
            have hbase' : (base + fatClusterBytes v) % fatClusterBytes v = 0 := by
              rw [Nat.add_mod, hbase, Nat.mod_self]
              rfl
            obtain ⟨hframe, hwritten⟩ := @ih (base + fatClusterBytes v) (base + fatClusterBytes v) _ cs
              flushed htail hbase' (Nat.le_refl _) (by omega) (by omega) (by omega) (by omega)
            refine ⟨hframe, fun i c hi j hj => ?_⟩
            rw [hwritten i c hi j hj]
            by_cases hwanted : base + fatClusterBytes v + i * fatClusterBytes v + j * 512 < limit
            · rw [if_pos ⟨by omega, hwanted⟩, if_pos hwanted]
            · rw [if_neg fun h => hwanted h.2, if_neg hwanted]
          · have hdone : limit ≤ max position (min (base + fatClusterBytes v) (sectorEnd limit)) := by
              have hsector := le_sectorEnd limit
              omega
            rw [writebackLoop_done hdone]
            refine ⟨fun _ _ => rfl, fun i c _ j _ => ?_⟩
            rw [if_neg (by omega)]
        obtain ⟨hframe, hwritten⟩ := hrest
        constructor
        · intro t ht
          rw [hframe t fun c hc => ht c (mem_cons_of_mem _ hc),
            hout t (ht cluster (mem_cons_self ..))]
        · intro i c hi j hj
          cases i with
          | zero =>
            obtain rfl : cluster = c := Option.some.inj hi
            rw [hframe _ fun c hc j' hj' heq => ?_, hin j hj, Nat.zero_mul, Nat.add_zero]
            have hsame := (clusterSector_inj (htail.data c hc) hdata hj' hj heq).1
            exact hfresh (hsame ▸ hc)
          | succ i =>
            rw [getElem?_cons_succ] at hi
            have hc := mem_of_getElem? hi
            rw [hwritten i c hi j hj, hout _ fun j' hj' heq => ?_, Nat.succ_mul,
              Nat.add_comm (i * fatClusterBytes v), ← Nat.add_assoc]
            · by_cases hwanted : base + fatClusterBytes v + i * fatClusterBytes v + j * 512 < limit
              · rw [if_pos hwanted, if_pos ⟨by omega, hwanted⟩]
              · rw [if_neg hwanted, if_neg fun h => hwanted h.2]
            · have hsame := (clusterSector_inj hdata (htail.data c hc) hj' hj heq).1
              exact hfresh (hsame ▸ hc)
      · rw [writebackLoop_done (by omega)]
        refine ⟨fun _ _ => rfl, fun i c _ j _ => ?_⟩
        rw [if_neg (by omega)]

theorem length_cacheSector (bytes : Nat → UInt8) (position : Nat) :
    (cacheSector bytes position).length = fatSectorSize := by
  rw [cacheSector, length_map, length_range]

theorem getD_cacheSector (bytes : Nat → UInt8) (position : Nat) {i : Nat} (hi : i < fatSectorSize) :
    (cacheSector bytes position).getD i 0 = bytes (position + i) := by
  rw [cacheSector, getD_eq_getElem?_getD, getElem?_map, getElem?_range hi]
  rfl

theorem Volume.IsChain.writebackRange {fcb : Fcb} (h : v.IsChain fcb.firstCluster cs)
    (offset length : Nat) :
    Wrote v cs (fatWritebackRange v fcb offset length) ∧
      (v.Sized → (fatWritebackRange v fcb offset length).Sized) ∧
      ∀ p < cs.length * fatClusterBytes v, chainByte (fatWritebackRange v fcb offset length) cs p =
        if (length ≠ 0 ∧ offset < fcb.fileSize) ∧ offset / 512 * 512 ≤ p / 512 * 512 ∧
          p / 512 * 512 < min (offset + length) fcb.fileSize then fcb.cache.bytes p
        else chainByte v cs p := by
  rw [fatWritebackRange]
  by_cases hnone : length = 0 ∨ offset ≥ fcb.fileSize
  · rw [if_pos hnone]
    refine ⟨.refl v cs, id, fun p _ => ?_⟩
    rw [if_neg (by omega)]
  · rw [if_neg hnone]
    simp only [fatSectorSize]
    have hclip : offset + (if length > fcb.fileSize - offset then fcb.fileSize - offset else length) =
        min (offset + length) fcb.fileSize := by
      split <;> omega
    rw [hclip]
    generalize hend : min (offset + length) fcb.fileSize = endByte
    generalize hfirst : offset / 512 * 512 = firstByte
    have hpos := fatClusterBytes_pos v
    have hmod := fatClusterBytes_mod v
    have hdivMod := Nat.div_add_mod firstByte (fatClusterBytes v)
    have hmodLt := Nat.mod_lt firstByte hpos
    rw [Nat.mul_comm] at hdivMod
    generalize hindex : firstByte / fatClusterBytes v = index at hdivMod
    obtain ⟨hframe, hwritten⟩ := @writebackLoop_eq v firstByte endByte (index * fatClusterBytes v)
      (endByte / 512 + 1) _ _ fcb.cache.bytes v.disk (h.drop index) (Nat.mul_mod_left ..) (by omega)
      (by omega) (by omega) (by omega)
    rw [h.walk]
    generalize writebackLoop v fcb.cache.bytes endByte (endByte / 512 + 1) (cs.getD index 0) firstByte
      v.disk = disk at hframe hwritten
    -- a sector of the chain, wherever the range starts
    have hsector : ∀ i c, cs[i]? = some c → ∀ j < v.sectorsPerCluster,
        disk (fatClusterToSector v c + j) =
          if firstByte ≤ i * fatClusterBytes v + j * 512 ∧ i * fatClusterBytes v + j * 512 < endByte then
            cacheSector fcb.cache.bytes (i * fatClusterBytes v + j * 512)
          else v.disk (fatClusterToSector v c + j) := by
      intro i c hi j hj
      have hj' : j * 512 < fatClusterBytes v := by
        rw [fatClusterBytes, fatSectorSize]
        omega
      by_cases hbefore : i < index
      · have hle : (i + 1) * fatClusterBytes v ≤ index * fatClusterBytes v :=
          Nat.mul_le_mul_right _ hbefore
        rw [Nat.add_mul] at hle
        rw [if_neg (by omega), hframe]
        intro c' hc' j' hj' heq
        obtain ⟨i', hi'⟩ := getElem?_of_mem hc'
        rw [getElem?_drop] at hi'
        have hsame := (clusterSector_inj (h.data c' (mem_of_getElem? hi'))
          (h.data c (mem_of_getElem? hi)) hj' hj heq).1
        obtain ⟨hlt, hget⟩ := List.getElem?_eq_some_iff.mp hi
        obtain ⟨hlt', hget'⟩ := List.getElem?_eq_some_iff.mp hi'
        have heqIndex := (h.linked.nodup.getElem_inj_iff).mp (hget'.trans (hsame.trans hget.symm))
        omega
      · have hi' : (cs.drop index)[i - index]? = some c := by
          rw [getElem?_drop, Nat.add_sub_cancel' (by omega), hi]
        rw [hwritten (i - index) c hi' j hj, Nat.add_assoc, ← Nat.add_assoc,
          ← Nat.add_mul, Nat.add_sub_cancel' (by omega)]
    refine ⟨⟨rfl, rfl, rfl, fun t ht => ?_⟩, fun hsized t ht => ?_, fun p hp => ?_⟩
    · exact hframe t fun c hc => ht c (mem_of_mem_drop hc)
    · by_cases hin : ∃ c ∈ cs, ∃ j < v.sectorsPerCluster, fatClusterToSector v c + j = t
      · obtain ⟨c, hc, j, hj, rfl⟩ := hin
        obtain ⟨i, hi⟩ := getElem?_of_mem hc
        change (disk _).length = _
        rw [hsector i c hi j hj]
        split
        · exact length_cacheSector ..
        · exact hsized _ ht
      · change (disk t).length = _
        rw [hframe t fun c hc j hj heq => hin ⟨c, mem_of_mem_drop hc, j, hj, heq⟩]
        exact hsized t ht
    · -- the sector of a byte
      have hi : p / fatClusterBytes v < cs.length := Nat.div_lt_of_lt_mul (by rwa [Nat.mul_comm])
      have hin : p % fatClusterBytes v / 512 < v.sectorsPerCluster := by
        have hlt := Nat.mod_lt p hpos
        rw [fatClusterBytes, fatSectorSize] at hlt ⊢
        omega
      have hp' := Nat.div_add_mod p (fatClusterBytes v)
      rw [Nat.mul_comm] at hp'
      have hmul : p / fatClusterBytes v * fatClusterBytes v % 512 = 0 := by
        rw [Nat.mul_mod, hmod, Nat.mul_zero, Nat.zero_mod]
      have hstart : p / fatClusterBytes v * fatClusterBytes v + p % fatClusterBytes v / 512 * 512 =
          p / 512 * 512 := by omega
      have hread := hsector _ _ (getElem?_eq_getElem hi) _ hin
      rw [hstart] at hread
      have hback : p / 512 * 512 + p % fatClusterBytes v % 512 = p := by
        rw [Nat.mod_mod_of_dvd p (Nat.dvd_of_mod_eq_zero hmod), Nat.mul_comm, Nat.div_add_mod]
      rw [chainByte_eq (getElem?_eq_getElem hi)]
      refine (chainByte_eq (v := { v with disk }) (getElem?_eq_getElem hi)).trans ?_
      change (disk (fatClusterToSector v cs[p / fatClusterBytes v] +
        p % fatClusterBytes v / 512)).getD (p % fatClusterBytes v % 512) 0 = _
      rw [hread]
      by_cases hwanted : firstByte ≤ p / 512 * 512 ∧ p / 512 * 512 < endByte
      · rw [if_pos hwanted, if_pos ⟨by omega, hwanted⟩,
          getD_cacheSector _ _ (show _ < 512 by omega), hback]
      · rw [if_neg hwanted, if_neg fun hboth => hwanted hboth.2]

theorem fatClusterBytes_congr (hgeometry : v'.toGeometry = v.toGeometry) :
    fatClusterBytes v' = fatClusterBytes v := by
  rw [fatClusterBytes, fatClusterBytes, hgeometry]

theorem sector_lt (v : Volume) : p % fatClusterBytes v / 512 < v.sectorsPerCluster := by
  have hlt := Nat.mod_lt p (fatClusterBytes_pos v)
  rw [fatClusterBytes, fatSectorSize] at hlt ⊢
  omega

theorem chainByte_of_disk {cs' : List Nat} (hgeometry : v'.toGeometry = v.toGeometry)
    (hc : cs[p / fatClusterBytes v]? = some c) (hc' : cs'[p / fatClusterBytes v]? = some c)
    (hdisk : ∀ j < v.sectorsPerCluster,
      v'.disk (fatClusterToSector v c + j) = v.disk (fatClusterToSector v c + j)) :
    chainByte v' cs' p = chainByte v cs p := by
  have hbytes := fatClusterBytes_congr hgeometry
  rw [chainByte_eq hc, chainByte_eq (v := v') (by rw [hbytes]; exact hc'), hbytes,
    fatClusterToSector_congr hgeometry, hdisk _ (sector_lt v)]

theorem Wrote.chainByte {ds : List Nat} {p : Nat} (h : Wrote v ds v') (hds : ∀ c ∈ ds, v.IsDataCluster c)
    (hcs : v.IsChain first cs) (hapart : ∀ c ∈ ds, c ∉ cs) (hp : p < cs.length * fatClusterBytes v) :
    chainByte v' cs p = chainByte v cs p := by
  have hi : p / fatClusterBytes v < cs.length := Nat.div_lt_of_lt_mul (by rwa [Nat.mul_comm])
  have hc := getElem?_eq_getElem hi
  refine chainByte_of_disk h.geometry hc hc fun j hj => h.disk _ fun c' hc' i hi' heq => ?_
  have hmem := mem_of_getElem? hc
  have hsame := (clusterSector_inj (hds c' hc') (hcs.data _ hmem) hi' hj heq).1
  exact hapart c' hc' (hsame ▸ hmem)

/-- The bytes of a chain for a new size: those it had, and zero behind the clusters it had. -/
theorem Resized.chainByte {cs' : List Nat} {first' p : Nat} (h : Resized v cs cs' v')
    (hcs : v.IsChain first cs) (hcs' : v'.IsChain first' cs') (hp : p < cs'.length * fatClusterBytes v) :
    chainByte v' cs' p = if p < cs.length * fatClusterBytes v then chainByte v cs p else 0 := by
  have hbytes := fatClusterBytes_congr h.geometry
  have hi : p / fatClusterBytes v < cs'.length := Nat.div_lt_of_lt_mul (by rwa [Nat.mul_comm])
  have hget := getElem?_eq_getElem hi
  by_cases hold : p / fatClusterBytes v < cs.length
  · have hsame : cs[p / fatClusterBytes v]? = some cs'[p / fatClusterBytes v] := by
      rw [← hget]
      obtain ⟨l, rfl⟩ | ⟨l, rfl⟩ := h.nested
      · rw [getElem?_append_left hold]
      · rw [getElem?_append_left hi]
    have hmem := mem_of_getElem? hsame
    rw [if_pos (Nat.lt_mul_of_div_lt hold (fatClusterBytes_pos v))]
    refine chainByte_of_disk h.geometry hsame hget fun j hj => ?_
    refine h.disk _ (firstDataSector_le ..) fun c hc hnot i hi' heq => ?_
    exact hnot ((clusterSector_inj (h.fresh c hc hnot).1 (hcs.data _ hmem) hi' hj heq).1 ▸ hmem)
  · have hge : ¬ p < cs.length * fatClusterBytes v := by
      intro hlt
      exact hold (Nat.div_lt_of_lt_mul (by rwa [Nat.mul_comm]))
    rw [if_neg hge]
    -- the cluster is a fresh one: the chain has no cluster twice
    have hnot : cs'[p / fatClusterBytes v] ∉ cs := by
      intro hmem
      obtain ⟨l, rfl⟩ | ⟨l, rfl⟩ := h.nested
      · rw [getElem_append_right (by omega)] at hmem
        exact (nodup_append.mp hcs'.linked.nodup).2.2 _ hmem _ (getElem_mem _) rfl
      · rw [length_append] at hold
        omega
    have hzero := h.zeroed _ (getElem_mem hi) hnot (p % fatClusterBytes v / 512) (sector_lt v)
    rw [chainByte_eq (v := v') (by rw [hbytes]; exact hget), hbytes,
      fatClusterToSector_congr h.geometry, hzero, getD_eq_getElem?_getD, getElem?_replicate]
    split <;> rfl

end

end Proskrnl.Fat
