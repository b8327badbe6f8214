import Proskrnl.Library.Loops
import Proskrnl.Fat.FileData
import Proskrnl.Fat.Mount

/-!
# Walks over any image

The loops of `fs/fat32` that follow what the media says, with no assumption on the FAT and on the data:
chains may be cyclic, cross-linked or cut short. `FatWalkChain` and `FatChainLength` count their steps
against the number of clusters, `FatFreeChain` clears every entry it leaves, and `FatEnsureCache` ends
with the file. The scans of a directory have only the slot, a counter of 32 bits.
-/

namespace Proskrnl.Fat
open Bytes Loops Mm.Cache

/-- What `FatGetFcb` makes of the first cluster that a short entry names. -/
def fcbFirstCluster (v : Volume) (sfn : Slot) : Nat :=
  let cluster := field sfn 20 2 * 2 ^ 16 + field sfn 26 2
  if cluster ≠ 0 ∧ ¬ v.IsDataCluster cluster then 0 else cluster

/-- The first cluster of a control block: of the root, or of an entry. -/
def Volume.IsFirst (v : Volume) (first : Nat) : Prop :=
  first = v.rootCluster ∨ ∃ sfn, first = fcbFirstCluster v sfn

/-- The variables of `FatWalkChain`. -/
structure ChainWalk where
  index : Nat
  cluster : Nat
  steps : Nat

/-- The loop of `FatWalkChain`. -/
def walkChainBody (v : Volume) (s : ChainWalk) : ChainWalk ⊕ Nat :=
  if s.index ≠ 0 ∧ s.cluster ≠ 0 then
    if s.steps > v.clusterCount then .inr 0
    else
      .inl { index := s.index - 1, cluster := fatGetNextCluster v s.cluster, steps := s.steps + 1 }
  else .inr s.cluster

/-- The loop of `FatChainLength`, over the count and the cluster. -/
def chainLengthBody (v : Volume) : Nat × Nat → (Nat × Nat) ⊕ Nat
  | (count, cluster) =>
    if cluster ≠ 0 then
      if count + 1 > v.clusterCount then .inr (count + 1)
      else .inl (count + 1, fatGetNextCluster v cluster)
    else .inr count

/-- The loop of `FatFreeChain`. -/
def freeChainBody : Volume × Nat → (Volume × Nat) ⊕ Volume
  | (v, cluster) =>
    if v.IsDataCluster cluster then .inl (fatSetFatEntry v cluster 0, fatGetNextCluster v cluster)
    else .inr v

/-- The variables of the two loops of `FatEnsureCache`: before a cluster, or inside one. -/
inductive FillState where
  | outer (poll cluster position : Nat) (bytes : Nat → UInt8)
  | inner (poll cluster s position : Nat) (bytes : Nat → UInt8)

/-- The two loops of `FatEnsureCache`. -/
def fillBody (v : Volume) (cancelled : Nat → Bool) (size : Nat) :
    FillState → FillState ⊕ (Except NtStatus Unit × (Nat → UInt8))
  | .outer poll cluster position bytes =>
    if cluster ≠ 0 ∧ position < size then
      if cancelled poll then .inr (.error statusCancelled, bytes)
      else .inl (.inner (poll + 1) cluster 0 position bytes)
    else .inr (.ok (), bytes)
  | .inner poll cluster s position bytes =>
    if s < v.sectorsPerCluster ∧ position < size then
      let run := fatRunSectors v s position size
      .inl (.inner poll cluster (s + run) (position + run * fatSectorSize)
        (readRun v.disk (fatClusterToSector v cluster + s) run position bytes))
    else .inl (.outer poll (fatGetNextCluster v cluster) position bytes)

/-! ## Directories -/

def nextSlot (slot : Nat) : Nat := (slot + 1) % 2 ^ 32

/-- The loop of `FatWalkNext`, over the slot and the pending run of long-name entries. -/
def walkNextBody (v : Volume) (first : Nat) :
    Nat × Option LfnRun → (Nat × Option LfnRun) ⊕ Option (WalkEntry × Nat)
  | (slot, run) =>
    match fatReadDirSlot v first slot with
    | none => .inr none
    | some entry =>
      if entry.byte 0 = 0x00 then .inr none
      else if entry.byte 0 = 0xE5 then .inl (nextSlot slot, none)
      else if entry.isLongName then .inl (nextSlot slot, lfnStep entry slot run)
      else if entry.isVolumeId then .inl (nextSlot slot, none)
      else .inr (some (walkEntry entry slot run, nextSlot slot))

/-- The entries "." and "..", which the scans pass over. -/
def WalkEntry.isDot (entry : WalkEntry) : Bool := entry.sfn.byte 0 = 0x2E

/-- The loop of `FatLookup`; none for `STATUS_OBJECT_NAME_NOT_FOUND`. -/
def lookupBody (v : Volume) (first : Nat) (component : WStr) :
    Nat × Option LfnRun → (Nat × Option LfnRun) ⊕ Option WalkEntry :=
  around (walkNextBody v first) fun
    | none => .inr none
    | some (entry, next) =>
      if entry.isDot then .inl (next, none)
      else if fatNamesEqualInsensitive component entry.name ||
          fatNamesEqualInsensitive component (fatRenderShortName entry.sfn) then .inr (some entry)
      else .inl (next, none)

/-- The loop of `FatIsDirectoryEmpty`. -/
def isDirectoryEmptyBody (v : Volume) (first : Nat) :
    Nat × Option LfnRun → (Nat × Option LfnRun) ⊕ Bool :=
  around (walkNextBody v first) fun
    | none => .inr true
    | some (entry, next) => if entry.isDot then .inl (next, none) else .inr false

/-- An enumeration: `FatReadDirectoryEntry` from the slot that the call before has left, until
`STATUS_NO_MORE_FILES`. -/
def enumerateBody (v : Volume) (first : Nat) :
    Nat × Option LfnRun → (Nat × Option LfnRun) ⊕ Unit :=
  around (walkNextBody v first) fun
    | none => .inr ()
    | some (_, next) => .inl (next, none)

/-- The scan of `FatSetVolumeLabel` for the entry that holds the label. -/
def volumeLabelBody (v : Volume) (oem : List UInt8) (slot : Nat) : Nat ⊕ (Except NtStatus Volume) :=
  match fatReadDirSlot v v.rootCluster slot with
  | none => .inr (.ok v)
  | some entry =>
    if entry.byte 0 = 0x00 then .inr (.ok v)
    else if entry.byte 0 = 0xE5 ∨ entry.isLongName then .inl (nextSlot slot)
    else if entry.isVolumeId then
      match fatWriteDirSlot v v.rootCluster slot (oem ++ entry.drop 11) with
      | none => .inr (.error statusDiskFull)
      | some v => .inr (.ok v)
    else .inl (nextSlot slot)

/-- Every walk over the media ends, and the clusters that a chain counts are clusters of data. -/
structure WalksEnd (v : Volume) (first : Nat) : Prop where
  walkChain : ∀ index, Ends (walkChainBody v) ⟨index, first, 0⟩
  chainLength : Ends (chainLengthBody v) (0, first)
  freeChain : Ends freeChainBody (v, first)
  ensureCache : ∀ cancelled size bytes, Ends (fillBody v cancelled size) (.outer 0 first 0 bytes)
  lookup : ∀ component, Ends (lookupBody v first component) (0, none)
  isDirectoryEmpty : Ends (isDirectoryEmptyBody v first) (0, none)
  readDirectoryEntry : ∀ slot, Ends (walkNextBody v first) (slot, none)
  enumeration : ∀ slot, Ends (enumerateBody v first) (slot, none)
  setVolumeLabel : ∀ oem, Ends (volumeLabelBody v oem) 0
  walkChain_data : ∀ i, i < fatChainLength v first → v.IsDataCluster (fatWalkChain v first i)

section
variable {v : Volume} {first cluster slot : Nat}

/-! ## The walks along a chain end -/

theorem Volume.IsFirst.zero_or_data (h : v.IsFirst first) : first = 0 ∨ v.IsDataCluster first := by
  obtain rfl | ⟨sfn, rfl⟩ := h
  · exact .inr v.root_data
  · rw [fcbFirstCluster]
    split
    case isTrue => exact .inl rfl
    case isFalse h =>
      by_cases hzero : field sfn 20 2 * 2 ^ 16 + field sfn 26 2 = 0
      · exact .inl hzero
      · exact .inr (Decidable.not_not.mp fun hdata => h ⟨hzero, hdata⟩)

theorem run_walkChainBody (v : Volume) (s : ChainWalk) :
    run (walkChainBody v) (s.index + 1) s = some (walkChainLoop v s.index s.cluster s.steps) := by
  obtain ⟨index, cluster, steps⟩ := s
  induction index generalizing cluster steps with
  | zero => rfl
  | succ index ih =>
    rw [run, walkChainBody, walkChainLoop]
    by_cases hzero : cluster = 0
    · rw [if_neg fun h => h.2 hzero, if_pos hzero, hzero]
    · rw [if_pos ⟨Nat.succ_ne_zero _, hzero⟩, if_neg hzero]
      by_cases hsteps : steps > v.clusterCount
      · rw [if_pos hsteps, if_pos hsteps]
      · rw [if_neg hsteps, if_neg hsteps]
        exact ih (fatGetNextCluster v cluster) (steps + 1)

variable {rounds count i index steps : Nat} {g : Geometry}

theorem run_chainLengthBody (v : Volume) (cluster : Nat)
    (hcount : count ≤ v.clusterCount) (hrounds : v.clusterCount < count + rounds) :
    run (chainLengthBody v) rounds (count, cluster) =
      some (chainLengthLoop v rounds count cluster) := by
  induction rounds generalizing count cluster with
  | zero => omega
  | succ rounds ih =>
    rw [run, chainLengthBody, chainLengthLoop]
    by_cases hzero : cluster = 0
    · rw [if_neg fun h => h hzero, if_pos hzero]
    · rw [if_pos hzero, if_neg hzero]
      by_cases hlast : count + 1 > v.clusterCount
      · rw [if_pos hlast, if_pos hlast]
      · rw [if_neg hlast, if_neg hlast]
        exact ih (fatGetNextCluster v cluster) (by omega) (by omega)

def Volume.taken (v : Volume) : Finset Nat :=
  (Finset.Ico 2 (v.clusterCount + 2)).filter fun c => v.entry c ≠ 0

/-- A bound on the rounds of `FatFreeChain`: one for a cluster whose entry is clear, and otherwise one
for each entry that is not, and one more for a link to a cleared entry. -/
def freeRounds : Volume × Nat → Nat
  | (v, cluster) =>
    if ¬ v.IsDataCluster cluster then 0
    else if v.entry cluster = 0 then 1
    else v.taken.card + 1

theorem mem_taken : cluster ∈ v.taken ↔ v.IsDataCluster cluster ∧ v.entry cluster ≠ 0 := by
  rw [Volume.taken, Finset.mem_filter, Finset.mem_Ico, Volume.IsDataCluster]

theorem card_taken_le (v : Volume) : v.taken.card ≤ v.clusterCount := by
  refine (Finset.card_filter_le _ _).trans ?_
  rw [Nat.card_Ico]
  omega

theorem taken_cleared (v : Volume) (cluster : Nat) :
    (fatSetFatEntry v cluster 0).taken = v.taken.erase cluster := by
  ext c
  rw [Finset.mem_erase, mem_taken, mem_taken, isDataCluster_fatSetFatEntry, entry_fatSetFatEntry]
  by_cases hc : c = cluster
  · rw [if_pos hc]
    exact ⟨fun h => absurd rfl h.2, fun h => absurd hc h.1⟩
  · rw [if_neg hc]
    exact ⟨fun h => ⟨hc, h⟩, fun h => h.2⟩

theorem freeChainBody_rounds {s s' : Volume × Nat} (h : freeChainBody s = .inl s') :
    freeRounds s' < freeRounds s := by
  obtain ⟨v, cluster⟩ := s
  rw [freeChainBody] at h
  split at h
  case isFalse => cases h
  case isTrue hdata =>
    cases h
    rw [freeRounds, freeRounds, if_neg (not_not_intro hdata)]
    by_cases hclear : v.entry cluster = 0
    · -- a cleared entry links to nothing
      have hend : fatGetNextCluster v cluster = 0 := by
        rw [fatGetNextCluster, if_neg (not_not_intro hdata), hclear]
        rw [if_neg (by decide), if_pos fun h => absurd h.1 (by decide)]
      rw [hend, if_pos hclear, if_pos fun h => absurd h.1 (by decide)]
      decide
    · have hmem : cluster ∈ v.taken := mem_taken.mpr ⟨hdata, hclear⟩
      have hcard := Finset.card_erase_of_mem hmem
      have hpos := Finset.card_pos.mpr ⟨cluster, hmem⟩
      rw [if_neg hclear, taken_cleared]
      split
      · omega
      · split <;> omega

theorem run_freeChainBody (v : Volume) (cluster : Nat) :
    run freeChainBody (v.clusterCount + 2) (v, cluster) =
      some (freeChainLoop (v.clusterCount + 2) v cluster) := by
  have hrounds : freeRounds (v, cluster) < v.clusterCount + 2 := by
    have hcard := card_taken_le v
    rw [freeRounds]
    split
    · omega
    · split <;> omega
  obtain ⟨r, hr⟩ := run_of_measure (I := fun _ => True)
    (fun s s' _ hbody => ⟨trivial, freeChainBody_rounds hbody⟩) trivial hrounds
  have heq := run_eq (f := fun n s => freeChainLoop n s.1 s.2) (fun n s => ?_) hr
  · rw [hr, ← heq]
  · obtain ⟨v, cluster⟩ := s
    rw [freeChainLoop, freeChainBody]
    split <;> rfl

def FillState.Aligned : FillState → Prop
  | .outer _ _ position _ | .inner _ _ _ position _ => position % fatSectorSize = 0

/-- A bound on the rounds of a fill: a round inside a cluster takes a sector at least, and two rounds
lie between a cluster and the next. -/
def fillRounds (v : Volume) (size : Nat) : FillState → Nat
  | .outer _ _ position _ => 3 * (size - position) + 1
  | .inner _ _ s position _ =>
    3 * (size - position) + if s < v.sectorsPerCluster ∧ position < size then 0 else 2

theorem fillBody_rounds {cancelled : Nat → Bool} {size : Nat} {s s' : FillState} (hs : s.Aligned)
    (h : fillBody v cancelled size s = .inl s') :
    s'.Aligned ∧ fillRounds v size s' < fillRounds v size s := by
  cases s with
  | outer poll cluster position bytes =>
    rw [fillBody] at h
    split at h
    case isFalse => cases h
    case isTrue hmore =>
      split at h
      · cases h
      · cases h
        refine ⟨hs, ?_⟩
        rw [fillRounds, fillRounds, if_pos ⟨v.sectorsPerCluster_pos, hmore.2⟩]
        omega
  | inner poll cluster s position bytes =>
    rw [fillBody] at h
    split at h
    case isTrue hmore =>
      cases h
      obtain ⟨hone, -, -⟩ := fatRunSectors_bounds hmore.1 hs hmore.2
      generalize fatRunSectors v s position size = run at hone ⊢
      have hmoved : position + 1 ≤ position + run * fatSectorSize := by
        rw [fatSectorSize]
        omega
      refine ⟨?_, ?_⟩
      · rw [FillState.Aligned] at hs ⊢
        rw [Nat.add_mul_mod_self_right, hs]
      · rw [fillRounds, fillRounds, if_pos hmore]
        have hle : (if s + run < v.sectorsPerCluster ∧ position + run * fatSectorSize < size then 0
            else 2) ≤ 2 := by
          split <;> omega
        omega
    case isFalse hdone =>
      cases h
      refine ⟨hs, ?_⟩
      rw [fillRounds, fillRounds, if_neg hdone]
      omega

/-! ## The clusters of a chain -/

theorem fatGetNextCluster_data (h : fatGetNextCluster v cluster ≠ 0) :
    v.IsDataCluster (fatGetNextCluster v cluster) := by
  rw [fatGetNextCluster] at h ⊢
  split at h
  · exact absurd rfl h
  · split at h
    · exact absurd rfl h
    · split at h
      · exact absurd rfl h
      case isFalse hin hend hdata =>
        rw [if_neg hin, if_neg hend, if_neg hdata]
        exact Decidable.not_not.mp hdata

theorem iterate_getNextCluster_data (hfirst : first = 0 ∨ v.IsDataCluster first)
    (hne : (fatGetNextCluster v)^[i] first ≠ 0) :
    v.IsDataCluster ((fatGetNextCluster v)^[i] first) := by
  cases i with
  | zero => exact hfirst.resolve_left hne
  | succ i =>
    rw [Function.iterate_succ_apply'] at hne ⊢
    exact fatGetNextCluster_data hne

theorem fatGetNextCluster_zero (v : Volume) : fatGetNextCluster v 0 = 0 := by
  rw [fatGetNextCluster, if_pos]
  exact fun h => absurd h.1 (by decide)

theorem walkChainLoop_iterate (hsteps : steps + index ≤ v.clusterCount + 1) :
    walkChainLoop v index cluster steps = (fatGetNextCluster v)^[index] cluster := by
  induction index generalizing cluster steps with
  | zero => rfl
  | succ index ih =>
    rw [walkChainLoop, Function.iterate_succ_apply]
    by_cases hzero : cluster = 0
    · have hstays := Function.iterate_fixed (fatGetNextCluster_zero v) index
      rw [if_pos hzero, hzero, fatGetNextCluster_zero, hstays]
    · rw [if_neg hzero, if_neg (by omega), ih (by omega)]

theorem chainLengthLoop_le (hcount : count ≤ v.clusterCount) :
    chainLengthLoop v rounds count cluster ≤ v.clusterCount + 1 := by
  induction rounds generalizing count cluster with
  | zero =>
    rw [chainLengthLoop]
    omega
  | succ rounds ih =>
    rw [chainLengthLoop]
    split
    · omega
    · split
      · omega
      · exact ih (by omega)

theorem iterate_ne_zero_of_lt_chainLength
    (hi : count + i < chainLengthLoop v rounds count cluster) :
    (fatGetNextCluster v)^[i] cluster ≠ 0 := by
  induction rounds generalizing count cluster i with
  | zero =>
    rw [chainLengthLoop] at hi
    omega
  | succ rounds ih =>
    rw [chainLengthLoop] at hi
    split at hi
    · omega
    case isFalse hne =>
      cases i with
      | zero => exact hne
      | succ i =>
        split at hi
        · omega
        · rw [Function.iterate_succ_apply]
          exact ih (show count + 1 + i < _ by omega)

theorem fatWalkChain_data (hfirst : first = 0 ∨ v.IsDataCluster first)
    (hi : i < fatChainLength v first) : v.IsDataCluster (fatWalkChain v first i) := by
  have hle : fatChainLength v first ≤ v.clusterCount + 1 := chainLengthLoop_le (Nat.zero_le _)
  have hne := iterate_ne_zero_of_lt_chainLength
    (show 0 + i < chainLengthLoop v (v.clusterCount + 1) 0 first by rwa [Nat.zero_add])
  rw [fatWalkChain, walkChainLoop_iterate (by omega)]
  exact iterate_getNextCluster_data hfirst hne

/-! ## The scans of a directory -/

def Geometry.slotLimit (g : Geometry) : Nat :=
  (g.clusterCount + 2) * (g.sectorsPerCluster * fatSectorSize / 32)

theorem index_le_of_walkChainLoop (hindex : index ≠ 0)
    (h : walkChainLoop v index cluster steps ≠ 0) : steps + index ≤ v.clusterCount + 1 := by
  induction index generalizing cluster steps with
  | zero => exact absurd rfl hindex
  | succ index ih =>
    rw [walkChainLoop] at h
    split at h
    · exact absurd rfl h
    · split at h
      · exact absurd rfl h
      case isFalse hsteps =>
        by_cases hlast : index = 0
        · omega
        · have hle := ih hlast h
          omega

theorem slot_lt_of_read {entry : Slot} (h : fatReadDirSlot v first slot = some entry) :
    slot < v.slotLimit := by
  rw [fatReadDirSlot, fatSlotToSector] at h
  have hwalk : fatWalkChain v first (slot / fatSlotsPerCluster v) ≠ 0 := by
    intro hzero
    rw [if_pos hzero] at h
    cases h
  change slot < (v.clusterCount + 2) * fatSlotsPerCluster v
  rw [← Nat.div_lt_iff_lt_mul (fatSlotsPerCluster_pos v)]
  by_cases hindex : slot / fatSlotsPerCluster v = 0
  · omega
  · have hle := index_le_of_walkChainLoop hindex hwalk
    omega

def Scans {σ ρ : Type} (v : Volume) (first : Nat) (slotOf : σ → Nat) (body : σ → σ ⊕ ρ) : Prop :=
  ∀ s s', body s = .inl s' →
    (fatReadDirSlot v first (slotOf s)).isSome ∧ slotOf s' = nextSlot (slotOf s)

theorem Scans.ends {σ ρ : Type} {slotOf : σ → Nat} {body : σ → σ ⊕ ρ}
    (h : Scans v first slotOf body) (hlimit : v.slotLimit < 2 ^ 32) (s : σ) : Ends body s := by
  refine ends_of_measure (I := fun _ => True) (μ := fun s => v.slotLimit - slotOf s) ?_ trivial
  intro s s' _ hbody
  obtain ⟨hread, hnext⟩ := h s s' hbody
  obtain ⟨entry, hentry⟩ := Option.isSome_iff_exists.mp hread
  have hlt := slot_lt_of_read hentry
  rw [nextSlot, Nat.mod_eq_of_lt (by omega)] at hnext
  exact ⟨trivial, by omega⟩

theorem scans_walkNextBody (v : Volume) (first : Nat) : Scans v first Prod.fst (walkNextBody v first) := by
  rintro ⟨slot, run⟩ s' h
  rw [walkNextBody] at h
  cases hread : fatReadDirSlot v first slot with
  | none =>
    rw [hread] at h
    cases h
  | some entry =>
    rw [hread] at h
    refine ⟨rfl, ?_⟩
    dsimp only at h
    split at h
    · cases h
    · split at h
      · cases h
        rfl
      · split at h
        · cases h
          rfl
        · split at h
          · cases h
            rfl
          · cases h

theorem walkNextBody_emits {run : Option LfnRun} {entry : WalkEntry} {next : Nat}
    (h : walkNextBody v first (slot, run) = .inr (some (entry, next))) :
    (fatReadDirSlot v first slot).isSome ∧ next = nextSlot slot := by
  rw [walkNextBody] at h
  cases hread : fatReadDirSlot v first slot with
  | none =>
    rw [hread] at h
    cases h
  | some slotEntry =>
    rw [hread] at h
    refine ⟨rfl, ?_⟩
    dsimp only at h
    split at h
    · cases h
    · split at h
      · cases h
      · split at h
        · cases h
        · split at h
          · cases h
          · cases h
            rfl

theorem Scans.around {τ : Type} {after : Option (WalkEntry × Nat) → (Nat × Option LfnRun) ⊕ τ}
    (hafter : ∀ result s, after result = .inl s → ∃ entry, result = some (entry, s.1)) :
    Scans v first Prod.fst (around (walkNextBody v first) after) := by
  rintro ⟨slot, run⟩ s' h
  rw [Loops.around] at h
  cases hbody : walkNextBody v first (slot, run) with
  | inl s =>
    rw [hbody] at h
    cases h
    exact scans_walkNextBody v first _ _ hbody
  | inr result =>
    rw [hbody] at h
    obtain ⟨entry, rfl⟩ := hafter result s' h
    exact walkNextBody_emits hbody

theorem scans_lookupBody (v : Volume) (first : Nat) (component : WStr) :
    Scans v first Prod.fst (lookupBody v first component) := by
  apply Scans.around
  rintro (_ | ⟨entry, next⟩) s h
  · cases h
  · dsimp only at h
    split at h
    · cases h
      exact ⟨entry, rfl⟩
    · split at h
      · cases h
      · cases h
        exact ⟨entry, rfl⟩

theorem scans_isDirectoryEmptyBody (v : Volume) (first : Nat) :
    Scans v first Prod.fst (isDirectoryEmptyBody v first) := by
  apply Scans.around
  rintro (_ | ⟨entry, next⟩) s h
  · cases h
  · dsimp only at h
    split at h
    · cases h
      exact ⟨entry, rfl⟩
    · cases h

theorem scans_enumerateBody (v : Volume) (first : Nat) :
    Scans v first Prod.fst (enumerateBody v first) := by
  apply Scans.around
  rintro (_ | ⟨entry, next⟩) s h
  · cases h
  · cases h
    exact ⟨entry, rfl⟩

theorem scans_volumeLabelBody (v : Volume) (oem : List UInt8) :
    Scans v v.rootCluster id (volumeLabelBody v oem) := by
  intro slot s' h
  rw [volumeLabelBody] at h
  cases hread : fatReadDirSlot v v.rootCluster slot with
  | none =>
    rw [hread] at h
    cases h
  | some entry =>
    rw [hread] at h
    refine ⟨by rw [id_eq, hread]; rfl, ?_⟩
    dsimp only at h
    split at h
    · cases h
    · split at h
      · cases h
        rfl
      · split at h
        · split at h <;> cases h
        · cases h
          rfl

theorem walksEnd_of_slotLimit (hlimit : v.slotLimit < 2 ^ 32) (hfirst : v.IsFirst first) :
    WalksEnd v first where
  walkChain index := ⟨_, _, run_walkChainBody v ⟨index, first, 0⟩⟩
  chainLength :=
    ⟨v.clusterCount + 1, _, run_chainLengthBody v first (Nat.zero_le _) (by omega)⟩
  freeChain := ⟨_, _, run_freeChainBody v first⟩
  ensureCache cancelled size bytes :=
    ends_of_measure (fun _ _ => fillBody_rounds) (Nat.zero_mod fatSectorSize)
  lookup component := (scans_lookupBody v first component).ends hlimit _
  isDirectoryEmpty := (scans_isDirectoryEmptyBody v first).ends hlimit _
  readDirectoryEntry slot := (scans_walkNextBody v first).ends hlimit _
  enumeration slot := (scans_enumerateBody v first).ends hlimit _
  setVolumeLabel oem := (scans_volumeLabelBody v oem).ends hlimit _
  walkChain_data _ := fatWalkChain_data hfirst.zero_or_data

/-! ## An image on which the scans do not end -/

/-- A volume whose clusters are all followed by cluster 2, and whose slots are all deleted ones. -/
def cyclicImage (g : Geometry) : Volume where
  toGeometry := g
  nextFreeHint := 2
  freeClusters := 0
  fsInfoSector := 0
  fat _ := 2
  disk _ := List.replicate fatSectorSize 0xE5
  fsInfo_reserved := g.reservedSectors_pos

theorem two_data (v : Volume) : v.IsDataCluster 2 := by
  have hroot := v.root_data
  exact ⟨Nat.le_refl 2, by omega⟩

theorem fatGetNextCluster_cyclicImage (h : (cyclicImage g).IsDataCluster cluster) :
    fatGetNextCluster (cyclicImage g) cluster = 2 := by
  have hentry : (cyclicImage g).entry cluster = 2 := rfl
  rw [fatGetNextCluster, if_neg (not_not_intro h), hentry, if_neg (by decide),
    if_neg (not_not_intro (two_data _))]

theorem walkChainLoop_cyclicImage (hcluster : (cyclicImage g).IsDataCluster cluster)
    (hsteps : steps + index ≤ g.clusterCount + 1) :
    walkChainLoop (cyclicImage g) index cluster steps ≠ 0 := by
  induction index generalizing cluster steps with
  | zero =>
    have hlow := hcluster.1
    rw [walkChainLoop]
    omega
  | succ index ih =>
    have hlow := hcluster.1
    have hguard : ¬ steps > (cyclicImage g).clusterCount := by
      change ¬ steps > g.clusterCount
      omega
    rw [walkChainLoop, if_neg (by omega), if_neg hguard, fatGetNextCluster_cyclicImage hcluster]
    exact ih (two_data _) (by omega)

section
variable (hlimit : 2 ^ 32 ≤ g.slotLimit) (hfirst : (cyclicImage g).IsDataCluster first)
  (hslot : slot < 2 ^ 32)
include hlimit hfirst hslot

theorem fatReadDirSlot_cyclicImage :
    ∃ entry, fatReadDirSlot (cyclicImage g) first slot = some entry ∧ entry.byte 0 = 0xE5 := by
  have hindex : slot / fatSlotsPerCluster (cyclicImage g) < g.clusterCount + 2 := by
    rw [Nat.div_lt_iff_lt_mul (fatSlotsPerCluster_pos _)]
    exact Nat.lt_of_lt_of_le hslot hlimit
  have hwalk : fatWalkChain (cyclicImage g) first (slot / fatSlotsPerCluster (cyclicImage g)) ≠ 0 :=
    walkChainLoop_cyclicImage hfirst (by omega)
  refine ⟨_, by rw [fatReadDirSlot, fatSlotToSector, if_neg hwalk, Option.map_some], ?_⟩
  change (((List.replicate fatSectorSize (0xE5 : UInt8)).drop
    (slot % fatSlotsPerCluster (cyclicImage g) % (fatSectorSize / 32) * 32)).take 32).getD 0 0 = 0xE5
  have hwithin : slot % fatSlotsPerCluster (cyclicImage g) % (fatSectorSize / 32) < 16 :=
    Nat.mod_lt _ (by decide)
  rw [List.drop_replicate, List.take_replicate, List.getD_eq_getElem?_getD, List.getElem?_replicate,
    if_pos]
  · rfl
  · rw [fatSectorSize] at hwithin ⊢
    omega

theorem walkNextBody_cyclicImage {run : Option LfnRun} :
    walkNextBody (cyclicImage g) first (slot, run) = .inl (nextSlot slot, none) := by
  obtain ⟨entry, hread, hbyte⟩ := fatReadDirSlot_cyclicImage hlimit hfirst hslot
  rw [walkNextBody, hread]
  dsimp only
  rw [hbyte, if_neg (by decide), if_pos rfl]

end

theorem nextSlot_lt (slot : Nat) : nextSlot slot < 2 ^ 32 := Nat.mod_lt _ (by decide)

/-- On a volume with more slots than 32 bits count, `FatWalkNext` need not come back, nor does any loop
around it. -/
theorem not_ends_cyclicImage {τ : Type}
    (after : Option (WalkEntry × Nat) → (Nat × Option LfnRun) ⊕ τ) (hlimit : 2 ^ 32 ≤ g.slotLimit)
    (hfirst : (cyclicImage g).IsDataCluster first) (hslot : slot < 2 ^ 32) (run : Option LfnRun) :
    ¬ Ends (walkNextBody (cyclicImage g) first) (slot, run) ∧
      ¬ Ends (around (walkNextBody (cyclicImage g) first) after) (slot, run) := by
  constructor
  · refine not_ends (I := fun s => s.1 < 2 ^ 32) (fun s hs => ?_) hslot
    exact ⟨_, walkNextBody_cyclicImage hlimit hfirst hs, nextSlot_lt _⟩
  · refine not_ends (I := fun s => s.1 < 2 ^ 32) (fun s hs => ?_) hslot
    refine ⟨(nextSlot s.1, none), ?_, nextSlot_lt _⟩
    rw [around, walkNextBody_cyclicImage hlimit hfirst hs]

theorem not_ends_volumeLabelBody (oem : List UInt8) (hlimit : 2 ^ 32 ≤ g.slotLimit)
    (hslot : slot < 2 ^ 32) : ¬ Ends (volumeLabelBody (cyclicImage g) oem) slot := by
  refine not_ends (I := fun slot => slot < 2 ^ 32) (fun slot hs => ?_) hslot
  obtain ⟨entry, hread, hbyte⟩ := fatReadDirSlot_cyclicImage hlimit (cyclicImage g).root_data hs
  refine ⟨nextSlot slot, ?_, nextSlot_lt _⟩
  rw [volumeLabelBody, hread]
  dsimp only
  rw [hbyte, if_neg (by decide), if_pos (.inl rfl)]

end

/-- On a volume that `FatValidateBpb` accepts, the walks end whatever the FAT and the data hold, exactly
if the slots of the longest chain have 32-bit numbers. -/
theorem walksEnd_iff (boot : List UInt8) (g : Geometry) (hboot : fatValidateBpb boot = some g) :
    (∀ v : Volume, v.toGeometry = g → ∀ first, v.IsFirst first → WalksEnd v first) ↔
      (g.clusterCount + 2) * (g.sectorsPerCluster * fatSectorSize / 32) < 2 ^ 32 := by
  constructor
  · intro h
    by_contra hlimit
    have hends := h (cyclicImage g) rfl g.rootCluster (.inl rfl)
    exact (not_ends_cyclicImage (fun _ => .inr ()) (Nat.not_lt.mp hlimit) (cyclicImage g).root_data
      (by decide) none).1 (hends.readDirectoryEntry 0)
  · rintro hlimit v rfl first hfirst
    exact walksEnd_of_slotLimit hlimit hfirst

def wideBootSector (totalSectors fatSize : Nat) : List UInt8 :=
  List.replicate 11 0 ++ le 2 512 ++ [128] ++ le 2 32 ++ [1] ++ List.replicate 15 0 ++
    le 4 totalSectors ++ le 4 fatSize ++ List.replicate 4 0 ++ le 4 2 ++ List.replicate 462 0 ++
    [0x55, 0xAA]

/-- A volume of 4 GiB. -/
theorem walksEnd_small : ∃ g, fatValidateBpb (wideBootSector 8389184 576) = some g ∧
    ∀ v : Volume, v.toGeometry = g → ∀ first, v.IsFirst first → WalksEnd v first := by
  have hfields : (fatValidateBpb (wideBootSector 8389184 576)).map
      (fun g => (g.clusterCount, g.sectorsPerCluster)) = some (65535, 128) := by
    decide +kernel
  obtain ⟨g, hg, hpair⟩ := Option.map_eq_some_iff.mp hfields
  obtain ⟨hcount, hsectors⟩ := Prod.mk.inj hpair
  refine ⟨g, hg, (walksEnd_iff _ g hg).mpr ?_⟩
  rw [hcount, hsectors]
  decide

/-- A volume of 128 GiB whose root directory is a cycle of deleted slots: no scan of it ends. -/
theorem walks_hang : ∃ g, fatValidateBpb (wideBootSector 268452641 16385) = some g ∧
    (cyclicImage g).IsFirst g.rootCluster ∧
    (∀ component, ¬ Ends (lookupBody (cyclicImage g) g.rootCluster component) (0, none)) ∧
    ¬ Ends (isDirectoryEmptyBody (cyclicImage g) g.rootCluster) (0, none) ∧
    ¬ Ends (walkNextBody (cyclicImage g) g.rootCluster) (0, none) ∧
    (∀ oem, ¬ Ends (volumeLabelBody (cyclicImage g) oem) 0) ∧
    ¬ WalksEnd (cyclicImage g) g.rootCluster := by
  have hfields : (fatValidateBpb (wideBootSector 268452641 16385)).map
      (fun g => (g.clusterCount, g.sectorsPerCluster)) = some (2097158, 128) := by
    decide +kernel
  obtain ⟨g, hg, hpair⟩ := Option.map_eq_some_iff.mp hfields
  obtain ⟨hcount, hsectors⟩ := Prod.mk.inj hpair
  have hlimit : 2 ^ 32 ≤ g.slotLimit := by
    rw [Geometry.slotLimit, hcount, hsectors]
    decide
  have hroot := (cyclicImage g).root_data
  have hwalk : ¬ Ends (walkNextBody (cyclicImage g) g.rootCluster) (0, none) :=
    (not_ends_cyclicImage (fun _ => .inr ()) hlimit hroot (by decide) none).1
  exact ⟨g, hg, .inl rfl,
    fun component => (not_ends_cyclicImage _ hlimit hroot (by decide) none).2,
    (not_ends_cyclicImage _ hlimit hroot (by decide) none).2, hwalk,
    fun oem => not_ends_volumeLabelBody oem hlimit (by decide),
    fun h => hwalk (h.readDirectoryEntry 0)⟩

end Proskrnl.Fat
