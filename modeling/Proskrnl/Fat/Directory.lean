import Proskrnl.Abi.Status
import Proskrnl.Fat.Chain
import Proskrnl.Fat.Entry

/-!
# Directories on the disk

The slot I/O of `fs/fat32/dir.c`, the growth of a directory, and the writer and the remover of one
name's slots. A directory is given by the first cluster of its chain (`FatDirFirstCluster`); its
slots are those of its clusters, in the order of the chain (`Volume.IsChain.slotsOf`).
-/

namespace Proskrnl.Fat
open Splice List Option

def fatSlotsPerCluster (v : Volume) : Nat := v.sectorsPerCluster * fatSectorSize / 32

def fatSlotToSector (v : Volume) (first slot : Nat) : Option (Nat × Nat) :=
  let cluster := fatWalkChain v first (slot / fatSlotsPerCluster v)
  if cluster = 0 then none
  else
    let within := slot % fatSlotsPerCluster v
    let perSector := fatSectorSize / 32
    some (fatClusterToSector v cluster + within / perSector, within % perSector * 32)

/-- None for `STATUS_NO_MORE_FILES`. -/
def fatReadDirSlot (v : Volume) (first slot : Nat) : Option Slot :=
  (fatSlotToSector v first slot).map fun (sector, offset) => ((v.disk sector).drop offset).take 32

/-- None for `STATUS_DISK_FULL`. -/
def fatWriteDirSlot (v : Volume) (first slot : Nat) (entry : Slot) : Option Volume :=
  (fatSlotToSector v first slot).map fun (sector, offset) =>
    { v with disk := Function.update v.disk sector (splice (v.disk sector) offset entry) }

/-- The slots from `slot` on, up to the end of the chain. -/
def readSlots (v : Volume) (first : Nat) : Nat → Nat → List Slot
  | 0, _ => []
  | rounds + 1, slot =>
    match fatReadDirSlot v first slot with
    | none => []
    | some entry => entry :: readSlots v first rounds (slot + 1)

/-- The slots of a directory, as a loop over `FatReadDirSlot` from slot 0 meets them. The guard of
`FatWalkChain` bounds its rounds. -/
def slotsOf (v : Volume) (first : Nat) : List Slot :=
  readSlots v first ((v.clusterCount + 3) * fatSlotsPerCluster v) 0

/-! ## Growth and the slots of one name -/

/-- The zero-fill of a fresh cluster, sector by sector. -/
def zeroCluster (v : Volume) (cluster : Nat) : Volume :=
  { v with
    disk := (List.range v.sectorsPerCluster).foldl (fun disk i =>
      Function.update disk (fatClusterToSector v cluster + i) (List.replicate fatSectorSize 0))
      v.disk }

/-- One zeroed cluster more; none for `STATUS_DISK_FULL`. -/
def fatExtendDirectory (v : Volume) (first : Nat) : Option Volume :=
  let length := fatChainLength v first
  let last := if length ≠ 0 then fatWalkChain v first (length - 1) else 0
  (fatAllocateCluster v last).map fun (fresh, v) => zeroCluster v fresh

/-- The attempts of `FatFindFreeSlots`: a scan, and growth when it finds nothing. -/
def findFreeSlots (count first : Nat) : Nat → Volume → Except NtStatus Nat × Volume
  | 0, v => (.error statusDiskFull, v)
  | attempts + 1, v =>
    match freeRun count (slotsOf v first) 0 0 0 with
    | some slot => (.ok slot, v)
    | none =>
      match fatExtendDirectory v first with
      | none => (.error statusDiskFull, v)
      | some v => findFreeSlots count first attempts v

def fatFindFreeSlots (v : Volume) (first count : Nat) : Except NtStatus Nat × Volume :=
  findFreeSlots count first 4 v

def writeSlots (first : Nat) : List Slot → Nat → Volume → Except NtStatus Unit × Volume
  | [], _, v => (.ok (), v)
  | entry :: rest, slot, v =>
    match fatWriteDirSlot v first slot entry with
    | none => (.error statusDiskFull, v)
    | some v => writeSlots first rest (slot + 1) v

/-- What `FatWriteEntrySlots` reports: the slots of the short entry and of the start of the run, and
the short entry under its name. -/
structure Written where
  sfnSlot : Nat
  lfnStart : Nat
  shortEntry : Slot

def fatWriteEntrySlots (v : Volume) (first : Nat) (component : WStr) (shortEntry : Slot) :
    Except NtStatus Written × Volume :=
  if component.length = 0 ∨ component.length > 255 then (.error statusObjectNameInvalid, v)
  else
    match chooseShortName (slotsOf v first) component with
    | none => (.error statusDiskFull, v)
    | some (sfn, needLfn) =>
      let shortEntry := withShortName sfn shortEntry
      let slots := entrySlots component sfn needLfn shortEntry
      match fatFindFreeSlots v first slots.length with
      | (.error status, v) => (.error status, v)
      | (.ok firstSlot, v) =>
        match writeSlots first slots firstSlot v with
        | (.error status, v) => (.error status, v)
        | (.ok (), v) =>
          (.ok { sfnSlot := firstSlot + (slots.length - 1), lfnStart := firstSlot, shortEntry }, v)

def markFree (s : Slot) : Slot := s.set 0 0xE5

/-- The loop of `FatFreeEntrySlots`. -/
def freeSlots (first : Nat) : Nat → Nat → Volume → Except NtStatus Unit × Volume
  | 0, _, v => (.ok (), v)
  | rounds + 1, slot, v =>
    match fatReadDirSlot v first slot with
    | none => (.error statusNoMoreFiles, v)
    | some entry =>
      match fatWriteDirSlot v first slot (markFree entry) with
      | none => (.error statusDiskFull, v)
      | some v => freeSlots first rounds (slot + 1) v

def fatFreeEntrySlots (v : Volume) (first lfnStart sfnSlot : Nat) : Except NtStatus Unit × Volume :=
  freeSlots first (sfnSlot + 1 - lfnStart) lfnStart v

/-! ## The slots of a chain -/

def clusterSlots (v : Volume) (cluster : Nat) : List Slot :=
  (List.range (fatSlotsPerCluster v)).map fun within =>
    ((v.disk (fatClusterToSector v cluster + within / 16)).drop (within % 16 * 32)).take 32

/-- Every sector of the data holds 512 bytes. -/
def Volume.Sized (v : Volume) : Prop :=
  ∀ s, v.firstDataSector ≤ s → (v.disk s).length = fatSectorSize

section
variable {v : Volume} {first c slot : Nat} {cs : List Nat} {entry : Slot}

theorem fatSlotsPerCluster_eq (v : Volume) : fatSlotsPerCluster v = v.sectorsPerCluster * 16 := by
  rw [fatSlotsPerCluster, fatSectorSize]
  omega

theorem fatSlotsPerCluster_pos (v : Volume) : 0 < fatSlotsPerCluster v := by
  have hpos := v.sectorsPerCluster_pos
  rw [fatSlotsPerCluster_eq]
  omega

theorem length_clusterSlots (v : Volume) (c : Nat) :
    (clusterSlots v c).length = fatSlotsPerCluster v := by
  rw [clusterSlots, length_map, length_range]

theorem getElem?_flatMap_const {α β : Type} {f : α → List β} {k : Nat} (hk : 0 < k) {l : List α}
    (hlength : ∀ a ∈ l, (f a).length = k) (i : Nat) :
    (l.flatMap f)[i]? = (l[i / k]?).bind fun a => (f a)[i % k]? := by
  induction l generalizing i with
  | nil => rfl
  | cons a l ih =>
    have ha := hlength a (mem_cons_self ..)
    rw [flatMap_cons, getElem?_append, ha]
    split
    case isTrue hi =>
      rw [Nat.div_eq_of_lt hi, Nat.mod_eq_of_lt hi]
      rfl
    case isFalse hi =>
      have hdiv : i / k = (i - k) / k + 1 := Nat.div_eq_sub_div hk (by omega)
      have hmod : i % k = (i - k) % k := Nat.mod_eq_sub_mod (by omega)
      rw [ih (fun b hb => hlength b (mem_cons_of_mem _ hb)), hdiv, getElem?_cons_succ, hmod]

theorem getElem?_chainSlots (v : Volume) (cs : List Nat) (i : Nat) :
    (cs.flatMap (clusterSlots v))[i]? = (cs[i / fatSlotsPerCluster v]?).bind fun c =>
      (clusterSlots v c)[i % fatSlotsPerCluster v]? :=
  getElem?_flatMap_const (fatSlotsPerCluster_pos v) (fun c _ => length_clusterSlots v c) i

theorem Volume.IsChain.readDirSlot (h : v.IsChain first cs) (slot : Nat) :
    fatReadDirSlot v first slot = (cs.flatMap (clusterSlots v))[slot]? := by
  have hpos := fatSlotsPerCluster_pos v
  rw [getElem?_chainSlots, fatReadDirSlot, fatSlotToSector, h.walk, getD_eq_getElem?_getD]
  cases hc : cs[slot / fatSlotsPerCluster v]? with
  | none =>
    rw [if_pos (by rfl)]
    rfl
  | some c =>
    have hdata := h.data c (mem_of_getElem? hc)
    rw [getD_some, if_neg (by have := hdata.1; omega), map_some, bind_some,
      clusterSlots, getElem?_map, getElem?_range (Nat.mod_lt _ hpos)]
    rfl

theorem readSlots_eq {l : List Slot} (h : ∀ slot, fatReadDirSlot v first slot = l[slot]?)
    {rounds : Nat} (hrounds : l.length < slot + rounds) :
    readSlots v first rounds slot = l.drop slot := by
  induction rounds generalizing slot with
  | zero =>
    rw [drop_of_length_le (by omega)]
    rfl
  | succ rounds ih =>
    rw [readSlots, h]
    by_cases hslot : slot < l.length
    · rw [getElem?_eq_getElem hslot, ← getElem_cons_drop hslot, ih (by omega)]
    · rw [getElem?_eq_none (by omega), drop_of_length_le (by omega)]

theorem length_flatMap_clusterSlots (v : Volume) (cs : List Nat) :
    (cs.flatMap (clusterSlots v)).length = cs.length * fatSlotsPerCluster v := by
  induction cs with
  | nil => rw [flatMap_nil, length_nil, length_nil, Nat.zero_mul]
  | cons c cs ih =>
    rw [flatMap_cons, length_append, length_clusterSlots, ih, length_cons,
      Nat.succ_mul, Nat.add_comm]

theorem Volume.IsChain.slotsOf (h : v.IsChain first cs) :
    slotsOf v first = cs.flatMap (clusterSlots v) := by
  have hpos := fatSlotsPerCluster_pos v
  have hle := Nat.mul_le_mul_right (fatSlotsPerCluster v) h.length_le
  rw [Fat.slotsOf, readSlots_eq h.readDirSlot, drop_zero]
  rw [length_flatMap_clusterSlots, Nat.zero_add, Nat.add_mul]
  omega

/-! ## One slot written -/

theorem mul_add_inj {a b n i j : Nat} (hi : i < n) (hj : j < n) (h : a * n + i = b * n + j) :
    a = b ∧ i = j := by
  have ha : (a * n + i) / n = a := by
    rw [Nat.mul_comm, Nat.mul_add_div (by omega), Nat.div_eq_of_lt hi, Nat.add_zero]
  have hb : (b * n + j) / n = b := by
    rw [Nat.mul_comm, Nat.mul_add_div (by omega), Nat.div_eq_of_lt hj, Nat.add_zero]
  have hab : a = b := by rw [← ha, h, hb]
  rw [hab] at h
  exact ⟨hab, by omega⟩

variable {c' within : Nat} {v' : Volume}

theorem clusterSector_inj {i j : Nat} (hc : v.IsDataCluster c) (hc' : v.IsDataCluster c')
    (hi : i < v.sectorsPerCluster) (hj : j < v.sectorsPerCluster)
    (h : fatClusterToSector v c + i = fatClusterToSector v c' + j) : c = c' ∧ i = j := by
  rw [fatClusterToSector, fatClusterToSector] at h
  obtain ⟨heq, hij⟩ := mul_add_inj hi hj (show (c - 2) * _ + i = (c' - 2) * _ + j by omega)
  exact ⟨by have := hc.1; have := hc'.1; omega, hij⟩

theorem firstDataSector_le (v : Volume) (c i : Nat) :
    v.firstDataSector ≤ fatClusterToSector v c + i := by
  rw [fatClusterToSector]
  omega

theorem within_lt (h : within < fatSlotsPerCluster v) :
    within / 16 < v.sectorsPerCluster := by
  rw [fatSlotsPerCluster_eq] at h
  omega

theorem length_of_mem_clusterSlots {s : Slot} (hsized : v.Sized) (hs : s ∈ clusterSlots v c) :
    s.length = 32 := by
  rw [clusterSlots] at hs
  obtain ⟨within, _, rfl⟩ := List.mem_map.mp hs
  rw [length_take, length_drop, hsized _ (firstDataSector_le ..), fatSectorSize]
  omega

theorem Volume.IsChain.length_slot (h : v.IsChain first cs) (hsized : v.Sized) :
    ∀ s ∈ Fat.slotsOf v first, s.length = 32 := by
  rw [h.slotsOf]
  intro s hs
  obtain ⟨c, _, hs⟩ := mem_flatMap.mp hs
  exact length_of_mem_clusterSlots hsized hs

def Volume.setSlot (v : Volume) (cluster within : Nat) (entry : Slot) : Volume :=
  { v with
    disk := Function.update v.disk (fatClusterToSector v cluster + within / 16)
      (splice (v.disk (fatClusterToSector v cluster + within / 16)) (within % 16 * 32) entry) }

theorem clusterSlots_setSlot (hsized : v.Sized) (hc : v.IsDataCluster c)
    (hc' : v.IsDataCluster c') (hwithin : within < fatSlotsPerCluster v) (hentry : entry.length = 32) :
    clusterSlots (v.setSlot c within entry) c' =
      if c' = c then (clusterSlots v c).set within entry else clusterSlots v c' := by
  have hroom : within % 16 * 32 + entry.length ≤
      (v.disk (fatClusterToSector v c + within / 16)).length := by
    rw [hsized _ (firstDataSector_le ..), fatSectorSize, hentry]
    omega
  -- a slot of the cluster, read behind the write
  have hread : ∀ w < fatSlotsPerCluster v,
      (((v.setSlot c within entry).disk (fatClusterToSector v c' + w / 16)).drop (w % 16 * 32)).take
        32 = if c' = c ∧ w = within then entry
          else ((v.disk (fatClusterToSector v c' + w / 16)).drop (w % 16 * 32)).take 32 := by
    intro w hw
    rw [Volume.setSlot]
    simp only [Function.update_apply]
    by_cases hsector : fatClusterToSector v c' + w / 16 = fatClusterToSector v c + within / 16
    · rw [if_pos hsector]
      obtain ⟨rfl, hdiv⟩ := clusterSector_inj hc' hc (within_lt hw) (within_lt hwithin) hsector
      by_cases hsame : w = within
      · rw [if_pos ⟨rfl, hsame⟩, hsame]
        have hself := take_drop_splice_self hroom
        rwa [hentry] at hself
      · rw [if_neg fun hboth => hsame hboth.2, take_drop_splice_other hroom (by omega), hdiv]
    · rw [if_neg hsector, if_neg]
      rintro ⟨rfl, rfl⟩
      exact hsector rfl
  rw [clusterSlots]
  change ((List.range (fatSlotsPerCluster v)).map fun w =>
    (((v.setSlot c within entry).disk (fatClusterToSector v c' + w / 16)).drop (w % 16 * 32)).take
      32) = _
  rw [map_congr_left fun w hw => hread w (mem_range.mp hw)]
  split
  case isTrue heq =>
    subst heq
    apply ext_getElem?
    intro w
    rw [getElem?_set, getElem?_map, length_clusterSlots, clusterSlots, getElem?_map]
    by_cases hw : within = w
    · subst hw
      rw [if_pos rfl, if_pos hwithin, getElem?_range hwithin, map_some, if_pos ⟨rfl, rfl⟩]
    · rw [if_neg hw]
      by_cases hlt : w < fatSlotsPerCluster v
      · rw [getElem?_range hlt, map_some, map_some,
          if_neg fun hboth => hw hboth.2.symm]
      · rw [getElem?_eq_none (by rw [length_range]; omega)]
        rfl
  case isFalse hne =>
    apply map_congr_left
    intro w _
    rw [if_neg fun hboth => hne hboth.1]

structure Wrote (v : Volume) (cs : List Nat) (v' : Volume) : Prop where
  geometry : v'.toGeometry = v.toGeometry
  fat : v'.fat = v.fat
  freeClusters : v'.freeClusters = v.freeClusters
  disk : ∀ s, (∀ c ∈ cs, ∀ i < v.sectorsPerCluster, fatClusterToSector v c + i ≠ s) →
    v'.disk s = v.disk s

theorem Wrote.refl (v : Volume) (cs : List Nat) : Wrote v cs v := ⟨rfl, rfl, rfl, fun _ _ => rfl⟩

theorem Wrote.trans {v1 v2 v3 : Volume} (h : Wrote v1 cs v2) (h' : Wrote v2 cs v3) :
    Wrote v1 cs v3 := by
  refine ⟨h'.geometry.trans h.geometry, h'.fat.trans h.fat, h'.freeClusters.trans h.freeClusters,
    fun s hs => ?_⟩
  have hsector : ∀ c, fatClusterToSector v2 c = fatClusterToSector v1 c := by
    intro c
    rw [fatClusterToSector, fatClusterToSector, h.geometry]
  refine (h'.disk s fun c hc i hi => ?_).trans (h.disk s hs)
  rw [hsector]
  rw [h.geometry] at hi
  exact hs c hc i hi

theorem Wrote.isChain {cs' : List Nat} (h : Wrote v cs v')
    (hchain : v.IsChain first cs') : v'.IsChain first cs' := by
  refine hchain.congr h.geometry fun c _ => ?_
  rw [Volume.entry, Volume.entry, h.fat]

theorem wrote_setSlot (hc : c ∈ cs) (hwithin : within < fatSlotsPerCluster v) :
    Wrote v cs (v.setSlot c within entry) := by
  refine ⟨rfl, rfl, rfl, fun s hs => ?_⟩
  exact Function.update_of_ne (hs c hc _ (within_lt hwithin)).symm _ _

theorem Volume.Sized.setSlot {within : Nat} (h : v.Sized) (hentry : entry.length = 32) :
    (v.setSlot c within entry).Sized := by
  intro s hs
  rw [Volume.setSlot]
  simp only [Function.update_apply]
  have hsector := h _ (firstDataSector_le v c (within / 16))
  split
  · rw [length_splice (by rw [hsector, hentry, fatSectorSize]; omega)]
    exact hsector
  · exact h s hs

theorem Volume.IsChain.writeDirSlot (h : v.IsChain first cs)
    (hslot : slot < (Fat.slotsOf v first).length) (entry : Slot) :
    ∃ c, cs[slot / fatSlotsPerCluster v]? = some c ∧
      fatWriteDirSlot v first slot entry =
        some (v.setSlot c (slot % fatSlotsPerCluster v) entry) := by
  have hpos := fatSlotsPerCluster_pos v
  rw [h.slotsOf, length_flatMap_clusterSlots] at hslot
  have hlt : slot / fatSlotsPerCluster v < cs.length := (Nat.div_lt_iff_lt_mul hpos).mpr hslot
  refine ⟨_, getElem?_eq_getElem hlt, ?_⟩
  have hdata := h.data _ (getElem_mem hlt)
  rw [fatWriteDirSlot, fatSlotToSector, h.walk, getD_eq_getElem?_getD,
    getElem?_eq_getElem hlt, getD_some, if_neg (by have := hdata.1; omega)]
  rfl

theorem Volume.IsChain.slotsOf_write (h : v.IsChain first cs) (hsized : v.Sized)
    (hentry : entry.length = 32) (hslot : slot < (Fat.slotsOf v first).length)
    (hwrite : fatWriteDirSlot v first slot entry = some v') :
    Wrote v cs v' ∧ v'.Sized ∧ Fat.slotsOf v' first = (Fat.slotsOf v first).set slot entry := by
  have hpos := fatSlotsPerCluster_pos v
  obtain ⟨c, hc, heq⟩ := h.writeDirSlot hslot entry
  rw [heq] at hwrite
  cases hwrite
  have hwrote : Wrote v cs (v.setSlot c (slot % fatSlotsPerCluster v) entry) :=
    wrote_setSlot (mem_of_getElem? hc) (Nat.mod_lt slot hpos)
  refine ⟨hwrote, hsized.setSlot hentry, ?_⟩
  rw [(hwrote.isChain h).slotsOf]
  rw [h.slotsOf] at hslot ⊢
  have hdata := h.data c (mem_of_getElem? hc)
  have hwithin := Nat.mod_lt slot hpos
  apply ext_getElem?
  intro i
  rw [getElem?_set, getElem?_chainSlots, getElem?_chainSlots]
  change (cs[i / fatSlotsPerCluster v]?).bind (fun c' => (clusterSlots
    (v.setSlot c (slot % fatSlotsPerCluster v) entry) c')[i % fatSlotsPerCluster v]?) = _
  cases hi : cs[i / fatSlotsPerCluster v]? with
  | none =>
    rw [if_neg fun heq => ?_]
    · rfl
    · rw [heq, hi] at hc
      cases hc
  | some c' =>
    rw [bind_some, bind_some, clusterSlots_setSlot hsized hdata
      (h.data c' (mem_of_getElem? hi)) hwithin hentry]
    by_cases hsame : c' = c
    · -- the chain has the cluster once
      subst hsame
      have hindex : i / fatSlotsPerCluster v = slot / fatSlotsPerCluster v := by
        obtain ⟨hi', hget⟩ := List.getElem?_eq_some_iff.mp hi
        obtain ⟨hc', hget'⟩ := List.getElem?_eq_some_iff.mp hc
        exact (h.linked.nodup.getElem_inj_iff).mp (hget.trans hget'.symm)
      have hi' := Nat.div_add_mod i (fatSlotsPerCluster v)
      have hslot' := Nat.div_add_mod slot (fatSlotsPerCluster v)
      rw [hindex] at hi'
      rw [if_pos rfl, getElem?_set, length_clusterSlots, if_pos hwithin]
      by_cases hmod : slot % fatSlotsPerCluster v = i % fatSlotsPerCluster v
      · rw [if_pos hmod, if_pos (by omega), if_pos hslot]
      · rw [if_neg hmod, if_neg fun heq => hmod (by rw [heq])]
    · rw [if_neg hsame, if_neg fun heq => hsame ?_]
      rw [← heq, hc] at hi
      exact (some.inj hi).symm

/-! ## Slots of one name written, and freed -/

theorem Volume.IsChain.writeSlots {slots : List Slot} (h : v.IsChain first cs) (hsized : v.Sized)
    (hslots : ∀ s ∈ slots, s.length = 32)
    (hroom : slot + slots.length ≤ (Fat.slotsOf v first).length) :
    ∃ v', Fat.writeSlots first slots slot v = (.ok (), v') ∧ Wrote v cs v' ∧ v'.Sized ∧
      Fat.slotsOf v' first = splice (Fat.slotsOf v first) slot slots := by
  induction slots generalizing v slot with
  | nil => exact ⟨v, rfl, .refl v cs, hsized, (splice_nil _ _).symm⟩
  | cons entry rest ih =>
    have hentry := hslots entry (mem_cons_self ..)
    rw [length_cons] at hroom
    obtain ⟨c, _, hwrite⟩ := h.writeDirSlot (show slot < _ by omega) entry
    obtain ⟨hwrote, hsized', hset⟩ := h.slotsOf_write hsized hentry (by omega) hwrite
    obtain ⟨v', hrest, hwrote', hsized'', hsplice⟩ := ih (hwrote.isChain h) hsized'
      (fun s hs => hslots s (mem_cons_of_mem _ hs))
      (show slot + 1 + rest.length ≤ _ by rw [hset, length_set]; omega)
    refine ⟨v', ?_, hwrote.trans hwrote', hsized'', ?_⟩
    · rw [Fat.writeSlots, hwrite]
      exact hrest
    · rw [hsplice, hset, splice_cons _ (by omega)]

theorem length_markFree (s : Slot) : (markFree s).length = s.length := length_set

theorem splice_map_markFree {l : List Slot} {n : Nat} (h : slot + (n + 1) ≤ l.length) :
    splice (l.set slot (markFree (l.getD slot []))) (slot + 1)
        ((((l.set slot (markFree (l.getD slot []))).drop (slot + 1)).take n).map markFree) =
      splice l slot (((l.drop slot).take (n + 1)).map markFree) := by
  have hlt : slot < l.length := by omega
  rw [drop_set_of_lt (by omega), ← getElem_cons_drop hlt, take_succ_cons,
    map_cons, splice_cons _ (by rw [length_map, length_take, length_drop]; omega),
    getD_eq_getElem?_getD, getElem?_eq_getElem hlt, getD_some]

theorem Volume.IsChain.freeSlots {n : Nat} (h : v.IsChain first cs) (hsized : v.Sized)
    (hroom : slot + n ≤ (Fat.slotsOf v first).length)
    (hsize : ∀ s ∈ Fat.slotsOf v first, s.length = 32) :
    ∃ v', Fat.freeSlots first n slot v = (.ok (), v') ∧ Wrote v cs v' ∧ v'.Sized ∧
      Fat.slotsOf v' first = splice (Fat.slotsOf v first) slot
        ((((Fat.slotsOf v first).drop slot).take n).map markFree) := by
  induction n generalizing v slot with
  | zero =>
    refine ⟨v, rfl, .refl v cs, hsized, ?_⟩
    rw [take_zero, map_nil, splice_nil]
  | succ n ih =>
    have hlt : slot < (Fat.slotsOf v first).length := by omega
    have hread : fatReadDirSlot v first slot = some ((Fat.slotsOf v first).getD slot []) := by
      rw [h.readDirSlot, ← h.slotsOf, getD_eq_getElem?_getD, getElem?_eq_getElem hlt]
      rfl
    have hentry : (markFree ((Fat.slotsOf v first).getD slot [])).length = 32 := by
      rw [length_markFree, getD_eq_getElem?_getD, getElem?_eq_getElem hlt]
      exact hsize _ (getElem_mem hlt)
    obtain ⟨c, _, hwrite⟩ := h.writeDirSlot hlt (markFree ((Fat.slotsOf v first).getD slot []))
    obtain ⟨hwrote, hsized', hset⟩ := h.slotsOf_write hsized hentry hlt hwrite
    have hsize' : ∀ s ∈ Fat.slotsOf (v.setSlot c (slot % fatSlotsPerCluster v)
        (markFree ((Fat.slotsOf v first).getD slot []))) first, s.length = 32 := by
      intro s hs
      rw [hset] at hs
      obtain hs | rfl := mem_or_eq_of_mem_set hs
      · exact hsize s hs
      · exact hentry
    obtain ⟨v', hrest, hwrote', hsized'', hsplice⟩ := ih (hwrote.isChain h) hsized'
      (show slot + 1 + n ≤ _ by rw [hset, length_set]; omega) hsize'
    refine ⟨v', ?_, hwrote.trans hwrote', hsized'', ?_⟩
    · rw [Fat.freeSlots, hread]
      simp only [hwrite]
      exact hrest
    · rw [hsplice, hset, splice_map_markFree (by omega)]

/-! ## Growth -/

def zeroSlot : Slot := List.replicate 32 0

theorem disk_zeroCluster (v : Volume) (c s : Nat) :
    (zeroCluster v c).disk s =
      if ∃ i < v.sectorsPerCluster, fatClusterToSector v c + i = s then
        List.replicate fatSectorSize 0 else v.disk s := by
  rw [zeroCluster]
  simp only [foldl_update_apply, mem_range]

theorem Volume.Sized.zeroCluster (h : v.Sized) : (zeroCluster v c).Sized := by
  intro s hs
  rw [disk_zeroCluster]
  split
  · exact length_replicate
  · exact h s hs

theorem SameData.sized (h : SameData v v') (hsized : v.Sized) : v'.Sized := by
  intro s hs
  rw [h.geometry] at hs
  rw [h.disk s hs]
  exact hsized s hs

theorem SameData.clusterSlots {v' : Volume} (h : SameData v v') (c : Nat) :
    clusterSlots v' c = clusterSlots v c := by
  have hslots : fatSlotsPerCluster v' = fatSlotsPerCluster v := by
    rw [fatSlotsPerCluster, fatSlotsPerCluster, h.geometry]
  have hsector : fatClusterToSector v' c = fatClusterToSector v c := by
    rw [fatClusterToSector, fatClusterToSector, h.geometry]
  rw [Fat.clusterSlots, Fat.clusterSlots, hslots]
  apply map_congr_left
  intro w _
  rw [hsector, h.disk _ (firstDataSector_le ..)]

theorem flatMap_congr_left {α β : Type} {f g : α → List β} {l : List α} (h : ∀ a ∈ l, f a = g a) :
    l.flatMap f = l.flatMap g := by
  rw [flatMap_def, flatMap_def, map_congr_left h]

theorem clusterSlots_zeroCluster (hc : v.IsDataCluster c) (hc' : v.IsDataCluster c') :
    clusterSlots (zeroCluster v c) c' =
      if c' = c then List.replicate (fatSlotsPerCluster v) zeroSlot else clusterSlots v c' := by
  have hdisk : ∀ w < fatSlotsPerCluster v,
      (zeroCluster v c).disk (fatClusterToSector v c' + w / 16) =
        if c' = c then List.replicate fatSectorSize 0
        else v.disk (fatClusterToSector v c' + w / 16) := by
    intro w hw
    rw [disk_zeroCluster]
    by_cases hsame : c' = c
    · rw [if_pos hsame, if_pos ⟨w / 16, within_lt hw, by rw [hsame]⟩]
    · rw [if_neg hsame, if_neg]
      rintro ⟨i, hi, heq⟩
      exact hsame (clusterSector_inj hc hc' hi (within_lt hw) heq).1.symm
  rw [clusterSlots]
  change ((List.range (fatSlotsPerCluster v)).map fun w =>
    (((zeroCluster v c).disk (fatClusterToSector v c' + w / 16)).drop (w % 16 * 32)).take 32) = _
  split
  case isTrue heq =>
    rw [map_congr_left (g := fun _ => zeroSlot), map_const', length_range]
    intro w hw
    rw [hdisk w (mem_range.mp hw), if_pos heq, drop_replicate, take_replicate,
      zeroSlot, fatSectorSize, Nat.min_eq_left (by omega)]
  case isFalse hne =>
    apply map_congr_left
    intro w hw
    rw [hdisk w (mem_range.mp hw), if_neg hne]

theorem Volume.IsChain.allocated (h : v.IsChain first cs) (hne : cs ≠ [])
    (hlimit : v.WithinLimit) (hextend : fatExtendDirectory v first = some v') :
    ∃ c v1, Allocated v (cs.getLastD 0) c v1 ∧ v' = zeroCluster v1 c := by
  have hpos := length_pos_iff.mpr hne
  have hlast : fatWalkChain v first (cs.length - 1) = cs.getLastD 0 := by
    rw [h.walk, getD_eq_getElem?_getD, ← getLast?_eq_getElem?, getLastD_eq_getLast?]
  rw [fatExtendDirectory, h.length, if_pos (by omega), hlast] at hextend
  obtain ⟨⟨c, v1⟩, hallocate, rfl⟩ := map_eq_some_iff.mp hextend
  have hlastData : cs.getLastD 0 ≠ 0 → v.IsDataCluster (cs.getLastD 0) := by
    intro _
    apply h.data
    rw [getLastD_eq_getLast?, getLast?_eq_getLast_of_ne_nil hne]
    exact getLast_mem hne
  exact ⟨c, v1, fatAllocateCluster_some hlimit hlastData hallocate, rfl⟩

theorem Volume.IsChain.extend (h : v.IsChain first cs) (hne : cs ≠ [])
    (hlimit : v.WithinLimit) (hsized : v.Sized) (hextend : fatExtendDirectory v first = some v') :
    ∃ c, v.entry c = 0 ∧ v'.IsChain first (cs ++ [c]) ∧ v'.Sized ∧ v'.toGeometry = v.toGeometry ∧
      Fat.slotsOf v' first =
        Fat.slotsOf v first ++ List.replicate (fatSlotsPerCluster v) zeroSlot := by
  obtain ⟨c, v1, hallocated, rfl⟩ := h.allocated hne hlimit hextend
  have hchain := hallocated.grow hlimit h rfl
  rw [if_neg hne] at hchain
  have hdata : v1.IsDataCluster c := (isDataCluster_congr hallocated.same.geometry).mpr hallocated.data
  have hchain' : (zeroCluster v1 c).IsChain first (cs ++ [c]) := hchain.congr rfl fun _ _ => rfl
  refine ⟨c, hallocated.free, hchain', (hallocated.same.sized hsized).zeroCluster,
    hallocated.same.geometry, ?_⟩
  have hslots : fatSlotsPerCluster v1 = fatSlotsPerCluster v := by
    rw [fatSlotsPerCluster, fatSlotsPerCluster, hallocated.same.geometry]
  rw [hchain'.slotsOf, h.slotsOf, flatMap_append, flatMap_singleton,
    clusterSlots_zeroCluster hdata hdata, if_pos rfl, hslots]
  congr 1
  apply flatMap_congr_left
  intro c' hc'
  rw [clusterSlots_zeroCluster hdata ((isDataCluster_congr hallocated.same.geometry).mpr
    (h.data c' hc')), if_neg (show ¬ c' = c from fun heq => hallocated.notMem h (heq ▸ hc')),
    hallocated.same.clusterSlots]

end

end Proskrnl.Fat
